import GlusterFS.Locks.Posix

/-!
# `Afr.PosixLock` — `fcntl` locks on a replicated file (`afr.c`)

`afr_lk` asks the children one after the other, each from the callback of the one before it. A child that is
down is passed over; a child that refuses ends the chain, and `afr_lk_unlock` unlocks the range on the
children that granted it. Behind each child stands the lock list of its `locks` translator (`FcntlState`), which
requests of other clients change at any time.

`F_GETLK` goes the same way through `afr_lk` and is left out, and so is the `struct flock` of the answer.
-/

namespace GlusterFS.Afr

open GlusterFS.Locks Transition

/-- The `op_errno` of an answer, as far as `afr_lk_cbk` tells them apart. -/
inductive LkErrno where
  | zero
  | enotconn
  | ebadfd
  | euclean
  | other (code : Nat)
  deriving DecidableEq, Repr

def childWentDown (opRet : Int) (opErrno : LkErrno) : Bool :=
  decide (opRet < 0) && (opErrno == .enotconn || opErrno == .ebadfd)

/-- The `op_errno` of the `locks` translator on the wire; `EAGAIN` is 11. -/
def lkErrno : Errno → LkErrno
  | .ok => .zero
  | .eagain => .other 11
  | .einval => .other 22
  | .enomem => .other 12
  | .enotsup => .other 95

/-- A child. `connected` says that its connection has been up ever since `afr_lk` was called, `fdOpen` that
    the protocol client has a remote fd for the file. -/
structure LkChild where
  brick : FcntlState
  connected : Bool
  fdOpen : Bool
  deriving DecidableEq, Repr

/-- The arguments of `afr_lk`, with the ways in which a request to the `i`-th child is known there: the
    connection, the call root and the fd. -/
structure LkCall where
  flock : Flock
  canBlock : Bool
  pid : Int
  lkOwner : Nat
  trans : Nat → Nat
  root : Nat → Nat
  fd : Nat → Nat
  range_le : flock.lStart ≤ flEndOf flock

/-- The request as it reaches the `i`-th child. -/
def LkCall.request (c : LkCall) (i : Nat) : LkRequest :=
  ⟨c.trans i, c.pid, c.lkOwner, c.root i, c.fd i, c.flock, c.range_le⟩

inductive LkPhase where
  /-- the request to the child is on its way -/
  | winding (i : Nat)
  /-- it is the `n`-th `lk` call of the child's `locks` translator -/
  | waiting (i n : Nat)
  /-- the unlocks that have not been answered -/
  | unlocking (pending : List Nat)
  | unwound (opRet : Int) (opErrno : LkErrno)
  deriving DecidableEq, Repr

inductive LkAnswer where
  | granted
  | down
  | refused
  deriving DecidableEq, Repr

/-- The children and `local`. The last three fields are a record of what happened: the answers, in the order of
    the children, and the unlocks that were sent and that reached the child. -/
structure LkState where
  children : List LkChild
  lockedNodes : List Bool
  opRet : Int
  opErrno : LkErrno
  phase : LkPhase
  answers : List LkAnswer
  unlockWinds : List Nat
  unlocked : List Nat
  deriving DecidableEq, Repr

/-! ## `afr_lk` -/

/-- The loop of `afr_lk_unlock` over `locked_nodes` from the `i`-th child on: where it winds. -/
def unlockLoop : (lockedNodes : List Bool) → (i callCount : Nat) → List Nat
  | [], _, _ => []
  | false :: nodes, i, callCount => unlockLoop nodes (i + 1) callCount
  | true :: nodes, i, callCount =>
    if callCount - 1 = 0 then [i] else i :: unlockLoop nodes (i + 1) (callCount - 1)

variable (s : LkState)

def afrLkUnlock : LkState :=
  if s.lockedNodes.count true = 0 then { s with phase := .unwound s.opRet s.opErrno }
  else
    let winds := unlockLoop s.lockedNodes 0 (s.lockedNodes.count true)
    { s with phase := .unlocking winds, unlockWinds := s.unlockWinds ++ winds }

/-- The record's word for an answer. -/
def lkAnswer (opRet : Int) (opErrno : LkErrno) : LkAnswer :=
  if opRet = 0 then .granted else if childWentDown opRet opErrno then .down else .refused

/-- The part of `afr_lk_cbk` that goes on to the next child, or unwinds after the last one. -/
def nextChild (i : Nat) : LkState :=
  if i + 1 < s.children.length then { s with phase := .winding (i + 1) }
  -- all nodes have gone down
  else if s.opRet = -1 then { s with phase := .unwound (-1) .enotconn }
  -- locking has succeeded on all nodes that are up
  else { s with phase := .unwound s.opRet s.opErrno }

/-- `afr_lk_cbk` for the `i`-th child. -/
def afrLkCbk (i : Nat) (opRet : Int) (opErrno : LkErrno) : LkState :=
  let s := { s with answers := s.answers ++ [lkAnswer opRet opErrno] }
  if !childWentDown opRet opErrno && opRet == -1 then
    afrLkUnlock { s with opRet := -1, opErrno := opErrno }
  else if opRet = 0 then
    nextChild { s with opRet := 0, opErrno := .zero, lockedNodes := s.lockedNodes.set i true } i
  else nextChild s i

/-- `afr_lk_unlock_cbk` for the `i`-th child: the last answer unwinds. -/
def afrLkUnlockCbk (pending : List Nat) (i : Nat) : LkState :=
  if pending.erase i = [] then { s with phase := .unwound s.opRet s.opErrno }
  else { s with phase := .unlocking (pending.erase i) }

/-! ## Runs -/

inductive LkAction where
  /-- the request reaches the `locks` translator of the child -/
  | arrive
  /-- the request fails on its way there, or the connection is lost while it waits -/
  | fail (opErrno : LkErrno)
  /-- the answer of the `locks` translator arrives -/
  | reply
  /-- an unlock reaches its child and is answered -/
  | unlock (i : Nat)
  /-- an unlock fails because the connection was lost -/
  | unlockLost (i : Nat)
  /-- a section of a call of another client, or any grant pass -/
  | other (i : Nat) (a : FcntlSection)
  /-- the connection to a child is lost -/
  | disconnect (i : Nat)

/-- Why there is no next state: the action is not possible, or the child crashes. -/
inductive LkStop where
  | disabled
  | fault (f : Fault)
  deriving DecidableEq, Repr

/-- A section on the `i`-th child. -/
def onBrick (i : Nat) (a : FcntlSection) : Except LkStop LkState :=
  match s.children[i]? with
  | none => .error .disabled
  | some c =>
    match a.step c.brick with
    | .error f => .error (.fault f)
    | .ok brick => .ok { s with children := s.children.set i { c with brick := brick } }

/-- Whether the request to the child can fail with `opErrno`: the protocol client answers `EBADFD` if it has no
    remote fd, and with `ENOTCONN` or `EBADFD` only then or if the connection was lost. -/
def LkChild.fails (c : LkChild) (opErrno : LkErrno) : Bool :=
  !childWentDown (-1) opErrno || !c.connected || (opErrno == .ebadfd && !c.fdOpen)

def LkCall.step (call : LkCall) (s : LkState) : LkAction → Except LkStop LkState
  | .arrive =>
    match s.phase with
    | .winding i =>
      match s.children[i]? with
      | none => .error .disabled
      | some c =>
        if c.connected && !c.fdOpen then .error .disabled
        else
          match onBrick s i (.enter (.lk (call.request i) (if call.canBlock then .setlkw else .setlk))) with
          | .error e => .error e
          | .ok s' => .ok { s' with phase := .waiting i c.brick.lkCalls }
    | _ => .error .disabled
  | .fail opErrno =>
    match s.phase with
    | .winding i =>
      match s.children[i]? with
      | none => .error .disabled
      | some c => if c.fails opErrno then .ok (afrLkCbk s i (-1) opErrno) else .error .disabled
    | .waiting i _ =>
      match s.children[i]? with
      | none => .error .disabled
      | some c =>
        if childWentDown (-1) opErrno && !c.connected then .ok (afrLkCbk s i (-1) opErrno)
        else .error .disabled
    | _ => .error .disabled
  | .reply =>
    match s.phase with
    | .waiting i n =>
      match s.children[i]? with
      | none => .error .disabled
      | some c =>
        match c.brick.replies.find? fun r => frameIs n r.frame with
        | none => .error .disabled
        | some r => .ok (afrLkCbk s i r.opRet (lkErrno r.opErrno))
    | _ => .error .disabled
  | .unlock i =>
    match s.phase with
    | .unlocking pending =>
      if i ∈ pending then
        match onBrick s i (.enter (.lk (call.request i).unlock .setlk)) with
        | .error e => .error e
        | .ok s' => .ok (afrLkUnlockCbk { s' with unlocked := s'.unlocked ++ [i] } pending i)
      else .error .disabled
    | _ => .error .disabled
  | .unlockLost i =>
    match s.phase, s.children[i]? with
    | .unlocking pending, some c =>
      if i ∈ pending ∧ c.connected = false then .ok (afrLkUnlockCbk s pending i) else .error .disabled
    | _, _ => .error .disabled
  | .other i a => onBrick s i a
  | .disconnect i =>
    match s.children[i]? with
    | none => .error .disabled
    | some c => .ok { s with children := s.children.set i { c with connected := false } }

end GlusterFS.Afr
