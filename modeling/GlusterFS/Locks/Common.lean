import GlusterFS.Locks.Types

/-!
# `Locks.Common` — the `fcntl` lock list of an inode (`common.c`)

`ext_list` holds the granted and the waiting locks of an inode in one list, in arrival order. This file
follows `common.c` function by function: the overlap and owner tests, the two tests a lock has to pass
(`firstOverlap`, `isLockGrantable`), the recursive `insertAndMerge`, the grant pass and `plSetlk`.

Allocation is taken to succeed (most of it is under `ERR_ABORT`). What is *not* idealised is the link
field of a lock that is about to be inserted: `add_locks` returns `CALLOC`ed memory whose `list` links are
`NULL`, and `__insert_and_merge` unlinks the lock it was given when it splits a lock of the same owner.
The `listInit` argument of `insertAndMerge` says whether the links were initialised.
-/

namespace GlusterFS.Locks

/-- A `lk` answer: the arguments of `STACK_UNWIND` on a waiting or calling frame. -/
structure LkReply where
  frame : Option CallFrame
  opRet : Int
  opErrno : Errno
  flock : Flock
  deriving DecidableEq, Repr

/-! ## Tests on locks -/

def locksOverlap (l1 l2 : PosixLock) : Bool := decide (l2.flStart ≤ l1.flEnd) && decide (l1.flStart ≤ l2.flEnd)

def sameOwner (l1 l2 : PosixLock) : Bool := l1.owner == l2.owner && l1.transport == l2.transport

/-- `new_posix_lock`; `pl_lk` sets `user_flock` before it hands the lock to `pl_setlk`, and `frame` when
    the request may block. -/
def newPosixLock (flock : Flock) (transport : Nat) (clientPid : Int) (owner fd : Nat) : PosixLock :=
  { flType := flock.lType, flStart := flock.lStart, flEnd := flEndOf flock, blocked := false,
    userFlock := Flock.zero, fdNum := fd, frame := none, transport := transport,
    clientPid := clientPid, owner := owner }

/-- `posix_lock_to_flock`: `l_whence` is left as it was. -/
def posixLockToFlock (lock : PosixLock) (flock : Flock) : Flock :=
  { flock with
    lPid := lock.clientPid, lType := lock.flType, lStart := lock.flStart,
    lLen := if lock.flEnd = llongMax then 0 else offT (lock.flEnd - lock.flStart + 1) }

variable (extList : List PosixLock)

/-- `first_overlap`: the first granted lock whose range meets `lock`'s, whoever owns it. -/
def firstOverlap (lock : PosixLock) : Option PosixLock := extList.find? fun l => !l.blocked && locksOverlap l lock

/-- The body of the loop in `__is_lock_grantable`: the granted lock `l` stands in `lock`'s way. -/
def standsInWay (lock l : PosixLock) : Bool :=
  !l.blocked && locksOverlap lock l &&
    ((l.flType == .wrlck || lock.flType == .wrlck) && lock.flType != .unlck && !sameOwner l lock)

def isLockGrantable (lock : PosixLock) : Bool := !extList.any (standsInWay lock)

/-! ## Merging -/

/-- `add_locks`: zeroed memory that spans both locks. -/
def addLocks (l1 l2 : PosixLock) : PosixLock :=
  { flType := .rdlck, flStart := min l1.flStart l2.flStart, flEnd := max l1.flEnd l2.flEnd,
    blocked := false, userFlock := Flock.zero, fdNum := 0, frame := none, transport := 0,
    clientPid := 0, owner := 0 }

/-- The five assignments after `add_locks`: the sum takes its type and its holder from `l`. -/
def takeHolder (sum l : PosixLock) : PosixLock :=
  { sum with
    flType := l.flType, transport := l.transport, fdNum := l.fdNum, clientPid := l.clientPid,
    owner := l.owner }

/-- `subtract_locks`: the pieces of `big` once `small` is laid over it, in the order they are
    re-inserted. The last case is the one the source logs as unexpected. -/
def subtractLocks (big small : PosixLock) : List PosixLock :=
  if big.flStart = small.flStart ∧ big.flEnd = small.flEnd then
    [{ big with flType := small.flType }]
  else if small.flStart > big.flStart ∧ small.flEnd < big.flEnd then
    [{ big with flEnd := small.flStart - 1 }, small, { big with flStart := small.flEnd + 1 }]
  else if small.flStart = big.flStart then
    [{ big with flStart := small.flEnd + 1 }, small]
  else if small.flEnd = big.flEnd then
    [{ big with flEnd := small.flStart - 1 }, small]
  else []

def deleteUnlckLocks : List PosixLock := extList.filter fun l => l.flType != .unlck

/-- The locks at which the scan of `__insert_and_merge` stops: an overlapping lock of the same owner, or
    an overlapping read lock of another owner when a read lock is inserted. -/
def stopsScan (lock conf : PosixLock) : Bool :=
  locksOverlap conf lock &&
    (sameOwner conf lock ||
      (lock.flType != .unlck && conf.flType == .rdlck && lock.flType == .rdlck))

/-- `__insert_and_merge`, with the recursion bounded by `fuel`. -/
def insertAndMerge : Nat → List PosixLock → PosixLock → (listInit : Bool) → Except Fault (List PosixLock)
  | 0, _, _, _ => .error .outOfFuel
  | fuel + 1, extList, lock, listInit =>
    match extList.find? (stopsScan lock) with
    | none =>
      -- no conflicts, so just insert
      if lock.flType ≠ .unlck then .ok (extList ++ [lock]) else .ok extList
    | some conf =>
      if sameOwner conf lock then
        let rest := extList.eraseP (stopsScan lock)
        if conf.flType = lock.flType then
          -- the links of `sum` are still zero when it is inserted
          insertAndMerge fuel rest (takeHolder (addLocks lock conf) lock) false
        else
          let sum := takeHolder (addLocks lock conf) conf
          -- `__delete_lock (lock)` writes through the links of `lock`
          if listInit = false then .error .nullListHead
          else
            match (subtractLocks sum lock).foldlM (fun xs v => insertAndMerge fuel xs v true) rest with
            | .error e => .error e
            | .ok xs => .ok (deleteUnlckLocks xs)
      else .ok (extList ++ [lock])

def PosixLock.width (l : PosixLock) : Nat := (l.flEnd - l.flStart + 1).toNat

def totalWidth : Nat := (extList.map PosixLock.width).sum

/-- `__insert_and_merge` on a lock whose links are initialised, with enough fuel. -/
def insertLock (lock : PosixLock) : Except Fault (List PosixLock) :=
  insertAndMerge (totalWidth extList + lock.width + 1) extList lock true

/-! ## The grant pass and `pl_setlk` -/

/-- The waiting locks the first loop of `__grant_blocked_locks` moves to `tmp_list`. `first_overlap` skips
    waiting locks, so moving some of them away does not change its later answers. -/
def retried (l : PosixLock) : Bool := l.blocked && (firstOverlap extList l).isNone

/-- The second loop of `__grant_blocked_locks` over `tmp_list`; `granted` grows at its head. -/
def grantLoop : List PosixLock → List PosixLock → List LkReply → Except Fault (List PosixLock × List LkReply)
  | [], extList, granted => .ok (extList, granted)
  | l :: tmpList, extList, granted =>
    if isLockGrantable extList { l with blocked := false } then
      match insertLock extList { l with blocked := false, frame := none } with
      | .error e => .error e
      | .ok xs =>
        grantLoop tmpList xs
          ({ frame := l.frame, opRet := 0, opErrno := .ok,
             flock := posixLockToFlock l Flock.zero } :: granted)
    else
      grantLoop tmpList (extList ++ [{ l with blocked := true }]) granted

/-- `grant_blocked_locks`: the list after the pass, and the answers in the order they are unwound. -/
def grantBlockedLocks : Except Fault (List PosixLock × List LkReply) :=
  grantLoop (extList.filter (retried extList)) (extList.filter fun l => !retried extList l) []

/-- The part of `pl_setlk` under the first lock of the mutex: its return value and the new list. -/
def setlkSection (lock : PosixLock) (canBlock : Bool) : Except Fault (Int × List PosixLock) :=
  if isLockGrantable extList lock then
    match insertLock extList lock with
    | .error e => .error e
    | .ok xs => .ok (0, xs)
  else if canBlock then .ok (-1, extList ++ [{ lock with blocked := true }])
  else .ok (-1, extList)

def plGetlk (lock : PosixLock) : PosixLock :=
  match firstOverlap extList lock with
  | none => { lock with flType := .unlck }
  | some conf => conf

end GlusterFS.Locks
