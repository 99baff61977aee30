import GlusterFS.Lib.Run
import GlusterFS.Afr.FdTransaction

/-!
# `Afr.FdInterleaving` — concurrent writes on one fd

Any number of `writev`s run on the fd at the same time, and everything succeeds on every child. A `writev`
that has its locks decides whether it does the pre-op by looking at the flags of the fd, under its lock; the
flags are set much later, one by one, when the children answer the pre-op. Each of these is a step of its
own, and the steps of different `writev`s may come in any order.
-/

namespace GlusterFS.Afr

open GlusterFS.Storage

variable {n : Nat}

/-- How far the pre-op is on one child. -/
inductive PreOpOn where
  | sent
  | executed
  | answered
  deriving DecidableEq, Repr

/-- Where a `writev` is. -/
inductive WritePhase (n : Nat) where
  | locking
  | preOp (on : Fin n → PreOpOn)
  | writing (answered : Fin n → Bool)
  | done

/-- The fd, the file, and every `writev`, by its number. -/
structure WritesState (n : Nat) where
  ctx : FdCtx n
  store : FileStore n
  phase : Nat → WritePhase n

/-- One step of one `writev`. -/
inductive WriteStep (n : Nat) where
  /-- the locks are there: `__changelog_needed_pre_op` -/
  | locked (t : Nat)
  /-- child `i` executes the pre-op -/
  | execute (t : Nat) (i : Fin n)
  /-- the answer of child `i` to the pre-op: `afr_changelog_pre_op_cbk` -/
  | answer (t : Nat) (i : Fin n)
  /-- the answer of child `i` to the write: `afr_writev_wind_cbk` -/
  | written (t : Nat) (i : Fin n)

/-- The `writev` is in a new phase. -/
def WritesState.setPhase (s : WritesState n) (t : Nat) (p : WritePhase n) : WritesState n :=
  { s with phase := Function.update s.phase t p }

def startWriting : WritePhase n := .writing fun _ => false

/-- What the pre-op adds on child `i`. -/
def preOpOn (store : FileStore n) (i : Fin n) : FileStore n :=
  Function.update store i
    (doXattrop (setPendingDict (markAllPending (fun _ _ => 0) .data)) none (store i)).1

/-- One step; it is an error if the `writev` is not where the step belongs. -/
def writesStep (priv : Priv n) (s : WritesState n) : WriteStep n → Except Unit (WritesState n)
  | .locked t =>
    match s.phase t with
    | .locking =>
      if changelogNeededPreOp priv .write s.ctx then .ok (s.setPhase t (.preOp fun _ => .sent))
      else .ok (s.setPhase t startWriting)
    | _ => .error ()
  | .execute t i =>
    match s.phase t with
    | .preOp on =>
      if on i = .sent then
        .ok ({ s with store := preOpOn s.store i }.setPhase t (.preOp (Function.update on i .executed)))
      else .error ()
    | _ => .error ()
  | .answer t i =>
    match s.phase t with
    | .preOp on =>
      if on i = .executed then
        let on' := Function.update on i .answered
        let s' := { s with ctx := markPreOpDoneOnFd .write s.ctx i }
        -- the last answer winds the write
        if (List.finRange n).all fun i => on' i == .answered then .ok (s'.setPhase t startWriting)
        else .ok (s'.setPhase t (.preOp on'))
      else .error ()
    | _ => .error ()
  | .written t i =>
    match s.phase t with
    | .writing answered =>
      if answered i = false then
        let answered' := Function.update answered i true
        if (List.finRange n).all answered' then .ok (s.setPhase t .done)
        else .ok (s.setPhase t (.writing answered'))
      else .error ()
    | _ => .error ()

/-- Every `writev` that has started is done. -/
def WritesState.Finished (s : WritesState n) : Prop := ∀ t, s.phase t = .locking ∨ s.phase t = .done

/-- No `writev` has started, and the fd is new and open on every child. -/
structure WritesState.Initial (s : WritesState n) : Prop where
  phase : ∀ t, s.phase t = .locking
  preOpDone : ∀ i, s.ctx.preOpDone i = false
  childFailed : ∀ i, s.ctx.childFailed i = false
  openedOn : ∀ i, s.ctx.openedOn i = true

/-- Every child is up, and answers everything the flush asks for without an error. -/
structure AllSucceed (priv : Priv n) (env : Env n) : Prop where
  up : ∀ i, priv.childUp i = true
  lock : ∀ i, env.lock i = .ok
  fop : ∀ i, env.fop i = .ok
  postOp : ∀ i, env.postOp i .main = ⟨none, none⟩

end GlusterFS.Afr
