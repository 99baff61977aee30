import GlusterFS.Locks.Common
import GlusterFS.Lib.Run

/-!
# `Locks.Posix` — the `fcntl` calls on an inode (`posix.c`)

The three entry points that change `ext_list`: `pl_lk` (with every command), `pl_flush` and `pl_release`,
and the runs they make. Every call that deletes or inserts locks ends with a grant pass. The source takes
the inode's mutex twice in such a call, once for the call's own change of the list (`FcntlCall.enter`) and
once for the grant pass, and other threads may come between the two: a run is a sequence of such
sections.

`do_blocked_rw`, which every call runs after its grant pass, resumes reads and writes held back by
mandatory locking. It only reads `ext_list` and is left out.
-/

namespace GlusterFS.Locks

open Transition

/-- The `cmd` of `pl_lk`. -/
inductive LkCmd where
  | getlk
  | setlk
  | setlkw
  | other
  deriving DecidableEq, Repr

/-- A lock request as it reaches `pl_lk`: the client (`frame->root`), the fd and the `flock`, whose range
    is not empty. -/
structure LkRequest where
  trans : Nat
  pid : Int
  lkOwner : Nat
  root : Nat
  fd : Nat
  flock : Flock
  range_le : flock.lStart ≤ flEndOf flock

/-- What the calls on one inode leave behind: its lock list, the number of `lk` calls made so far (the
    `n`-th call's frame has `id = n`) and the answers given to them. -/
structure FcntlState where
  extList : List PosixLock
  lkCalls : Nat
  replies : List LkReply
  deriving DecidableEq, Repr

def FcntlState.init : FcntlState := ⟨[], 0, []⟩

/-- The frame of the call that carries `req`. -/
def LkRequest.frame (req : LkRequest) (n : Nat) : CallFrame := ⟨n, req.trans, req.pid, req.lkOwner, req.root⟩

/-- `reqlock` as `pl_lk` fills it in before `pl_setlk`: only a request that can block keeps its frame. -/
def LkRequest.reqlock (req : LkRequest) (n : Nat) (canBlock : Bool) : PosixLock :=
  { newPosixLock req.flock req.trans req.pid req.lkOwner req.fd with
    userFlock := req.flock
    frame := if canBlock then some (req.frame n) else none }

/-- The request with `l_type = F_UNLCK`. -/
def LkRequest.unlock (req : LkRequest) : LkRequest := { req with flock := { req.flock with lType := .unlck } }

/-- The frame of the `k`-th `lk` call. -/
def frameIs (k : Nat) (f : Option CallFrame) : Bool := f.any fun c => c.id == k

/-! ## Deleting locks -/

variable (extList : List PosixLock)

/-- The list `delete_locks_of_fd` leaves. -/
def dropFd (fd : Nat) : List PosixLock := extList.filter fun l => l.fdNum != fd

/-- The answers `delete_locks_of_fd` gives to the waiting locks it removes. -/
def dropFdReplies (fd : Nat) : List LkReply :=
  (extList.filter fun l => l.fdNum == fd && l.blocked).map fun l =>
    { frame := l.frame, opRet := -1, opErrno := .eagain, flock := l.userFlock }

/-- `__delete_locks_of_owner`: waiting locks go the same way as granted ones. -/
def deleteLocksOfOwner (transport owner : Nat) : List PosixLock :=
  extList.filter fun l => !(l.transport == transport && l.owner == owner)

/-! ## Calls -/

inductive FcntlCall where
  | lk (req : LkRequest) (cmd : LkCmd)
  | flush (transport owner fd : Nat)
  | release (fd : Nat)

variable (s : FcntlState)

/-- `pl_lk` up to the grant pass of `pl_setlk`. The answer to the caller is unwound after that pass; it is
    recorded here, where it is decided. A request that waits is not answered. -/
def lkEnter (req : LkRequest) (cmd : LkCmd) : Except Fault FcntlState :=
  let answer (extList : List PosixLock) (opRet : Int) (opErrno : Errno) (flock : Flock) : FcntlState :=
    { extList := extList, lkCalls := s.lkCalls + 1,
      replies := s.replies ++
        [{ frame := some (req.frame s.lkCalls), opRet := opRet, opErrno := opErrno, flock := flock }] }
  let setlk (canBlock : Bool) : Except Fault FcntlState :=
    match setlkSection s.extList (req.reqlock s.lkCalls canBlock) canBlock with
    | .error e => .error e
    | .ok (ret, xs) =>
      if ret = -1 then
        if canBlock then .ok { s with extList := xs, lkCalls := s.lkCalls + 1 }
        else .ok (answer xs (-1) .eagain req.flock)
      else .ok (answer xs 0 .ok req.flock)
  match cmd with
  | .getlk =>
    let conf := plGetlk s.extList (req.reqlock s.lkCalls false)
    .ok (answer s.extList 0 .ok (posixLockToFlock conf req.flock))
  | .setlkw => setlk true
  | .setlk => setlk false
  | .other => .ok (answer s.extList 0 .ok req.flock)

/-- A call's own change of the inode. `pl_flush` with a lock owner of zero, which the server sends when a
    client disconnects, and `pl_release` delete by fd; other flushes delete by owner. -/
def FcntlCall.enter : FcntlCall → Except Fault FcntlState
  | .lk req cmd => lkEnter s req cmd
  | .flush transport owner fd =>
    if owner = 0 then
      .ok { s with extList := dropFd s.extList fd, replies := s.replies ++ dropFdReplies s.extList fd }
    else .ok { s with extList := deleteLocksOfOwner s.extList transport owner }
  | .release fd =>
    .ok { s with extList := dropFd s.extList fd, replies := s.replies ++ dropFdReplies s.extList fd }

/-- Whether the call runs a grant pass: every call that goes through `pl_setlk` or deletes locks. -/
def FcntlCall.grants : FcntlCall → Bool
  | .lk _ .getlk => false
  | .lk _ .other => false
  | _ => true

/-- `grant_blocked_locks` on the state. -/
def FcntlState.grant : Except Fault FcntlState :=
  match grantBlockedLocks s.extList with
  | .error e => .error e
  | .ok (xs, granted) => .ok { s with extList := xs, replies := s.replies ++ granted }

/-! ## Runs -/

/-- One hold of the inode's mutex: the change a call makes, or a grant pass. -/
inductive FcntlSection where
  | enter (c : FcntlCall)
  | grant

/-- The sections of one call. -/
def FcntlCall.sections (c : FcntlCall) : List FcntlSection := .enter c :: if c.grants then [.grant] else []

def FcntlSection.step : FcntlSection → Except Fault FcntlState
  | .enter c => c.enter s
  | .grant => s.grant

/-- The state after a sequence of sections on a new inode. Calls of several threads interleave their
    sections, so the sections of a run are not required to come call by call. -/
def fcntlRun (sections : List FcntlSection) : Except Fault FcntlState := run FcntlSection.step FcntlState.init sections

/-- The state after a sequence of calls made one after the other. -/
def fcntlCalls (calls : List FcntlCall) : Except Fault FcntlState := fcntlRun (calls.flatMap FcntlCall.sections)

end GlusterFS.Locks
