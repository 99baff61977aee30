import GlusterFS.Lib.Run
import GlusterFS.Afr.Transaction

/-!
# `Afr.WriteHistory` — write transactions on one file, with crashes of the client

One after the other, clients write to a file: each write is a data transaction of its own, with its pre-op,
the write and the post-op, and any child may fail any of them. The client may crash between these steps; the
rest of the transaction then does not happen. `held` says which replica holds which write and `acked` which
writes the application was told of; neither is known to the source.
-/

namespace GlusterFS.Afr

open GlusterFS.Storage

variable {n : Nat}

/-- Where the client crashes: before the operation is wound, before the application hears of it, or before
    the post-op. -/
inductive Crash where
  | afterPreOp
  | duringWrite
  | afterWrite
  deriving DecidableEq, Repr

/-- One write: the children that are up and the configuration when it starts, what the children answer, the
    children that execute the write although their answer is an error, and where the client crashes. -/
structure WriteRun (n : Nat) where
  priv : Priv n
  enabled : priv.dataChangeLog = true
  env : Env n
  applied : Fin n → Bool
  crash : Option Crash

/-- The counters on the children, the writes each child holds, and the writes that were acknowledged. -/
structure History (n : Nat) where
  store : Store n
  held : Fin n → Nat → Bool
  acked : Nat → Bool
  count : Nat

variable (path : Path)

/-- A data transaction that is not on an fd. -/
def dataOn : Transaction := ⟨.truncate, path, path, path⟩

def preOpMarked (l : Local n) : Local n := { l with pending := markAllPending l.pending l.type }

def preOpAnswered (t : Transaction) (env : Env n) (store : Store n) (l : Local n) : Local n :=
  (env.preOrder (phaseReplies t (preOpMarked l) env.preOp store)).foldl preOpCbk (preOpMarked l)

def windMarked (l : Local n) : Local n := { l with pending := markAllSuccess l.pending l.type }

/-- Child `i` executes the write that is wound in state `l`. -/
def WriteRun.writes (w : WriteRun n) (l : Local n) (i : Fin n) : Bool :=
  l.childUp i && (w.env.fop i == .ok || w.applied i)

/-- The application is told that the write succeeded. -/
def WriteRun.acks (w : WriteRun n) (l : Local n) : Bool :=
  (List.finRange n).any fun i => l.childUp i && w.env.fop i == .ok

variable (s : History n)

/-- The write that is wound in state `l` is executed, and acknowledged unless the client crashes first. -/
def History.written (w : WriteRun n) (l : Local n) : History n :=
  { s with
    held := fun i t => if t = s.count then w.writes l i else s.held i t
    acked := fun t => if t = s.count then w.crash != some .duringWrite && w.acks l else s.acked t }

def writeLocked (w : WriteRun n) (l : Local n) : History n :=
  let t := dataOn path
  let store₁ := phaseStore t (preOpMarked l) w.env.preOp s.store
  let l₁ := preOpAnswered t w.env s.store l
  if w.crash = some .afterPreOp then { s with store := store₁ }
  else if l₁.opRet = -1 ∧ l₁.opErrno = .enotsup then
    { s with store := (afrTransactionResume w.priv t w.env store₁ (fun _ => false) none l₁).store }
  else
    let l₂ := windMarked l₁
    if w.crash.isSome then { s.written w l₂ with store := store₁ }
    else
      { s.written w l₂ with
        store := (afrTransactionResume w.priv t w.env store₁ (fun _ => false) none
          (afrWind t.fop w.env l₂)).store }

/-- One write, up to where the client crashes. -/
def writeAttempt (w : WriteRun n) : History n :=
  let s' := match localInit w.priv .data with
    | none => s
    | some l =>
      match afrLock w.priv w.env l with
      | .unlock _ => s
      | .next l => if (List.finRange n).any l.childUp = false then s else writeLocked path s w l
  { s' with count := s.count + 1 }

def historyStep (w : WriteRun n) : Except Empty (History n) := .ok (writeAttempt path s w)

structure History.Initial (path : Path) (s : History n) : Prop where
  counters : ∀ i j, Xattrs.counters (s.store i path) j TransactionType.data.index = 0
  held : ∀ i t, s.held i t = false
  acked : ∀ t, s.acked t = false
  count : s.count = 0

/-- What a self-heal reads when all children are up. -/
def History.xattr : Fin n → Xattrs (Fin n) := fun i => s.store i path

end GlusterFS.Afr
