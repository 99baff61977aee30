import GlusterFS.Locks.Domain

/-!
# `Locks.Inodelk` — internal locks on byte ranges (`inodelk.c`)

A domain keeps the locks that are held (`inodelk_list`, youngest first) and a queue of requests that wait
(`blocked_inodelks`, oldest first). Every lock and unlock request is followed by a grant pass, which takes
the queue off and submits each request again.

Two scans of `inodelk.c` go over the wrong lists. `__blocked_lock_conflict` gives up when
`blocked_entrylks` is empty, and `__owner_has_lock` walks the two *entry* lock lists through a
`pl_inode_lock_t *`. Their `transport` and `owner` are then read from whatever lies at those offsets; the
argument `raw` stands for these values.
-/

namespace GlusterFS.Locks

/-- The transport and the owner `__owner_has_lock` reads off an entry lock, when it looks for the owner of
    the inode lock. -/
abbrev RawFields := InodeLock → EntryLock → Nat × Nat

/-! ## Tests on locks -/

def inodelkTypeConflict (l1 l2 : InodeLock) : Bool := l2.flType == .wrlck || l1.flType == .wrlck

def inodelkOverlap (l1 l2 : InodeLock) : Bool := decide (l2.flStart ≤ l1.flEnd) && decide (l1.flStart ≤ l2.flEnd)

def sameInodelkOwner (l1 l2 : InodeLock) : Bool := l1.owner == l2.owner && l1.transport == l2.transport

def inodelkConflict (l1 l2 : InodeLock) : Bool :=
  !sameInodelkOwner l1 l2 && inodelkOverlap l1 l2 && inodelkTypeConflict l1 l2

/-- `__inodelk_grantable`: the first held lock in the way. -/
def inodelkGrantable (held : List InodeLock) (lock : InodeLock) : Option InodeLock := held.find? (inodelkConflict lock)

/-- `__blocked_lock_conflict`. The list tested for emptiness is not the one that is scanned. -/
def blockedInodelkConflict (d : Dom) (waiting : List BlockedInodeLock) (lock : InodeLock) : Option BlockedInodeLock :=
  if d.blockedEntrylks.isEmpty then none
  else waiting.find? fun l => inodelkConflict lock l.toInodeLock

/-- `__owner_has_lock`, over the entry locks of the domain. -/
def ownerHasEntry (raw : RawFields) (d : Dom) (newlock : InodeLock) : Bool :=
  (d.entrylkList.any fun l => raw newlock l == (newlock.transport, newlock.owner)) ||
    d.blockedEntrylks.any fun l => raw newlock l.toEntryLock == (newlock.transport, newlock.owner)

/-! ## Locking -/

/-- The test of `__lock_inodelk`: the lock goes to the held locks. -/
def inodelkAdmits (raw : RawFields) (d : Dom) (lock : InodeLock) : Bool :=
  (inodelkGrantable d.inodelkList lock).isNone &&
    !((blockedInodelkConflict d d.blockedInodelks lock).isSome && !ownerHasEntry raw d lock)

/-- `__lock_inodelk`. `blockAs` is `can_block` together with `lock->frame`, which is set exactly when the
    request may block. -/
def lockInodelk (raw : RawFields) (d : Dom) (lock : InodeLock) (blockAs : Option CallFrame) : Errno × Dom :=
  if inodelkAdmits raw d lock then (.ok, { d with inodelkList := lock :: d.inodelkList })
  else
    match blockAs with
    | none => (.eagain, d)
    | some frame =>
      (.eagain, { d with blockedInodelks := d.blockedInodelks ++ [{ lock with frame := frame }] })

/-- The loop of `__grant_blocked_inode_locks`; `granted` grows at its head. -/
def grantInodelkLoop (raw : RawFields) :
    List BlockedInodeLock → Dom → List BlockedInodeLock → Dom × List BlockedInodeLock
  | [], d, granted => (d, granted)
  | bl :: blockedList, d, granted =>
    match lockInodelk raw d bl.toInodeLock (some bl.frame) with
    | (.ok, d') => grantInodelkLoop raw blockedList d' (bl :: granted)
    | (_, d') => grantInodelkLoop raw blockedList d' granted

def grantBlockedInodeLocks (raw : RawFields) (d : Dom) : Dom × List BlockedInodeLock :=
  grantInodelkLoop raw d.blockedInodelks { d with blockedInodelks := [] } []

/-- The answers of `grant_blocked_inode_locks`. -/
def inodelkGrantReplies (granted : List BlockedInodeLock) : List LockReply := granted.map fun bl => ⟨bl.frame, 0, .ok⟩

/-! ## Unlocking -/

def inodelksEqual (l1 l2 : InodeLock) : Bool := l1.flStart == l2.flStart && l1.flEnd == l2.flEnd

def findMatchingInodelk (d : Dom) (lock : InodeLock) : Option InodeLock :=
  d.inodelkList.find? fun l => inodelksEqual l lock

/-- `__inode_unlock_lock`: the lock it took off, and the domain without it. -/
def inodeUnlockLock (d : Dom) (lock : InodeLock) : Option InodeLock × Dom :=
  match findMatchingInodelk d lock with
  | none => (none, d)
  | some conf =>
    (some conf, { d with inodelkList := d.inodelkList.eraseP fun l => inodelksEqual l lock })

/-- The part of `pl_inode_setlk` under the first lock of the mutex. -/
def inodeSetlkSection (raw : RawFields) (d : Dom) (lock : InodeLock) (blockAs : Option CallFrame) : Errno × Dom :=
  if lock.flType ≠ .unlck then lockInodelk raw d lock blockAs
  else
    match inodeUnlockLock d lock with
    | (none, d') => (.einval, d')
    | (some _, d') => (.ok, d')

/-! ## Releasing a transport -/

/-- The first loop of `release_inode_locks_of_transport`, over the queue. A lock is taken off before
    `inode_path` is called; when that fails, everything stops. Returns the queue, the locks to answer
    (`released` grows at its head) and the number of `inode_path` calls, or `none` if one failed. -/
def releaseBlocked (trans : Nat) (path : Nat → Bool) : Nat → List BlockedInodeLock → List BlockedInodeLock →
      List BlockedInodeLock × List BlockedInodeLock × Option Nat
  | k, [], released => ([], released, some k)
  | k, l :: ls, released =>
    if l.transport = trans then
      if path k then releaseBlocked trans path (k + 1) ls (l :: released) else (ls, released, none)
    else
      let (rest, released', calls) := releaseBlocked trans path k ls released
      (l :: rest, released', calls)

/-- The second loop, over the held locks: here too the lock goes before `inode_path` is called. -/
def releaseHeld (trans : Nat) (path : Nat → Bool) : Nat → List InodeLock → List InodeLock
  | _, [] => []
  | k, l :: ls =>
    if l.transport = trans then
      if path k then releaseHeld trans path (k + 1) ls else ls
    else l :: releaseHeld trans path k ls

/-- `release_inode_locks_of_transport` up to its grant pass: the domain, and the locks to answer. -/
def releaseInodeLocksOfTransport (d : Dom) (trans : Nat) (path : Nat → Bool) : Dom × List BlockedInodeLock :=
  match releaseBlocked trans path 0 d.blockedInodelks [] with
  | (blocked, released, none) => ({ d with blockedInodelks := blocked }, released)
  | (blocked, released, some k) =>
    ({ d with blockedInodelks := blocked, inodelkList := releaseHeld trans path k d.inodelkList },
      released)

/-! ## Calls -/

/-- The `cmd` of `pl_common_inodelk`. -/
inductive InodelkCmd where
  | setlk
  | setlkw
  | other
  deriving DecidableEq, Repr

/-- A call of `pl_common_inodelk`: its arguments, the client in `frame->root`, and what the environment
    decides during the call: the three allocations, the results of `inode_path`, and the raw memory. -/
structure InodelkCall where
  volume : String
  cmd : InodelkCmd
  flock : Flock
  trans : Nat
  pid : Int
  lkOwner : Nat
  root : Nat
  pinodeMem : Bool
  domMem : Bool
  lockMem : Bool
  path : Nat → Bool
  raw : RawFields

variable (c : InodelkCall)

/-- The frame of the call, when it is the `n`-th. -/
def InodelkCall.frame (n : Nat) : CallFrame := ⟨n, c.trans, c.pid, c.lkOwner, c.root⟩

/-- `new_inode_lock`; the owner of an internal lock is the address of the call stack. -/
def InodelkCall.reqlock : InodeLock :=
  { flType := c.flock.lType, flStart := c.flock.lStart, flEnd := flEndOf c.flock,
    transport := c.trans, owner := c.root }

/-- `can_block`, with the frame a request that may block waits with. -/
def InodelkCall.blockAs (n : Nat) : Option CallFrame :=
  if c.cmd = .setlkw then some (c.frame n) else none

/-- The ways a call of `pl_common_inodelk` can go once it has its domain. -/
inductive InodelkKind where
  | release
  | noMemory
  | setlk
  | notSupported
  deriving DecidableEq, Repr

/-- Which way a call that has its domain goes. A `pid` of zero asks to release the transport's locks. -/
def InodelkCall.kind : InodelkKind :=
  if c.pid = 0 then .release
  else if c.lockMem = false then .noMemory
  else
    match c.cmd with
    | .setlk => .setlk
    | .setlkw => .setlk
    | .other => .notSupported

/-- A call's own change of its domain. -/
def InodelkCall.enter (n : Nat) (d : Dom) : Dom :=
  match c.kind with
  | .release => (releaseInodeLocksOfTransport d c.trans c.path).1
  | .setlk => (inodeSetlkSection c.raw d c.reqlock (c.blockAs n)).2
  | .noMemory => d
  | .notSupported => d

/-- The domain after the whole call, and the answers in the order they are given. -/
def InodelkCall.onDom (n : Nat) (d : Dom) : Dom × List LockReply :=
  match c.kind with
  | .release =>
    let (d₁, released) := releaseInodeLocksOfTransport d c.trans c.path
    let (d₂, granted) := grantBlockedInodeLocks c.raw d₁
    (d₂, (released.map fun l => ⟨l.frame, -1, .eagain⟩) ++ inodelkGrantReplies granted ++
      [⟨c.frame n, -1, .ok⟩])
  | .noMemory => (d, [⟨c.frame n, -1, .enomem⟩])
  | .setlk =>
    let (ret, d₁) := inodeSetlkSection c.raw d c.reqlock (c.blockAs n)
    let (d₂, granted) := grantBlockedInodeLocks c.raw d₁
    -- a request that failed and may block is taken to be waiting, whatever the error
    (d₂, inodelkGrantReplies granted ++
      if ret = .ok then [⟨c.frame n, 0, .ok⟩]
      else if (c.blockAs n).isSome then [] else [⟨c.frame n, -1, ret⟩])
  | .notSupported => (d, [⟨c.frame n, -1, .enotsup⟩])

end GlusterFS.Locks
