import Mathlib

/-!
# `Locks.Types` — the data of `features/locks` (`locks.h`)

The structures of the posix-locks translator as its code reads and writes them. Pointers that are only
compared (`transport_t *`, `frame->root`, `fd_t *`) are numbers; `off_t` and `pid_t` are integers. Left
out are the fields no modelled function reads: `this` (needed to unwind, never inspected), `volume` (only
printed), the `user_flock` and `client_pid` of internal locks (only printed) and the embedded list links,
which the lists below stand for.
-/

namespace GlusterFS.Locks

/-- `l_type` of a `struct flock`: `F_RDLCK`, `F_WRLCK`, `F_UNLCK`. -/
inductive FlType where
  | rdlck
  | wrlck
  | unlck
  deriving DecidableEq, Repr

/-- `struct flock`. -/
structure Flock where
  lType : FlType
  lWhence : Int
  lStart : Int
  lLen : Int
  lPid : Int
  deriving DecidableEq, Repr

/-- A `struct flock` in `CALLOC`ed memory: every field is zero, and `F_RDLCK` is zero. -/
def Flock.zero : Flock := ⟨.rdlck, 0, 0, 0, 0⟩

/-- The `errno` values the lock code answers with. -/
inductive Errno where
  | ok
  | eagain
  | einval
  | enomem
  | enotsup
  deriving DecidableEq, Repr

/-- A `call_frame_t` with what the lock code reads of its `call_stack_t`: the client's transport, pid
    and lock owner, and the address of the stack itself, which is the owner of internal locks. `id` tells
    the calls of one run apart. -/
structure CallFrame where
  id : Nat
  trans : Nat
  pid : Int
  lkOwner : Nat
  root : Nat
  deriving DecidableEq, Repr

/-- The ways the modelled code dies: a write through a `NULL` list link, a `NULL` domain. `outOfFuel` is
    the model's own, and is shown never to happen. -/
inductive Fault where
  | nullListHead
  | nullDomain
  | outOfFuel
  deriving DecidableEq, Repr

/-- `posix_lock_t`: a granted or (`blocked`) waiting `fcntl` lock. -/
structure PosixLock where
  flType : FlType
  flStart : Int
  flEnd : Int
  blocked : Bool
  userFlock : Flock
  fdNum : Nat
  frame : Option CallFrame
  transport : Nat
  clientPid : Int
  owner : Nat
  deriving DecidableEq, Repr

/-- `pl_inode_lock_t`: an internal lock on a byte range of an inode. -/
structure InodeLock where
  flType : FlType
  flStart : Int
  flEnd : Int
  transport : Nat
  owner : Nat
  deriving DecidableEq, Repr

/-- A `pl_inode_lock_t` that waits: its `frame` is the call to be answered. -/
structure BlockedInodeLock extends InodeLock where
  frame : CallFrame
  deriving DecidableEq, Repr

inductive EntrylkType where
  | rdlck
  | wrlck
  deriving DecidableEq, Repr

/-- `pl_entry_lock_t`: an internal lock on a name of a directory; a `NULL` basename is every name. -/
structure EntryLock where
  basename : Option String
  type : EntrylkType
  trans : Nat
  owner : Nat
  deriving DecidableEq, Repr

/-- A `pl_entry_lock_t` that waits: `__lock_name` took its holder from the `frame` it waits with. -/
structure BlockedEntryLock extends EntryLock where
  frame : CallFrame
  trans_eq : trans = frame.trans
  owner_eq : owner = frame.root
  deriving DecidableEq, Repr

/-- `pl_dom_list_t`: one lock domain of an inode. -/
structure Dom where
  domain : String
  entrylkList : List EntryLock
  blockedEntrylks : List BlockedEntryLock
  inodelkList : List InodeLock
  blockedInodelks : List BlockedInodeLock
  deriving DecidableEq, Repr

/-- An answer to an `inodelk` or `entrylk` call: the arguments of `STACK_UNWIND_STRICT`. -/
structure LockReply where
  frame : CallFrame
  opRet : Int
  opErrno : Errno
  deriving DecidableEq, Repr

/-- `LLONG_MAX`, the end of a lock that reaches to the end of the file. -/
def llongMax : Int := 2 ^ 63 - 1

/-- The value a 64-bit signed `off_t` holds after an addition that may have wrapped. -/
def offT (x : Int) : Int := x.bmod (2 ^ 64)

/-- The last byte of a range that fits into an `off_t`; a range that does not fit ends below zero. -/
theorem offT_eq {x : Int} (hlow : -1 ≤ x) (hhigh : x < 2 ^ 64 - 1) :
    offT x = if x ≤ llongMax then x else x - 2 ^ 64 := by
  unfold offT llongMax
  rw [Int.bmod_def]
  push_cast
  split <;> split <;> omega

/-- `fl_end` of a new lock, common to `new_posix_lock` and `new_inode_lock`: a length of `0` reaches to
    the end of the file. -/
def flEndOf (flock : Flock) : Int :=
  if flock.lLen = 0 then llongMax else offT (flock.lStart + flock.lLen - 1)

end GlusterFS.Locks
