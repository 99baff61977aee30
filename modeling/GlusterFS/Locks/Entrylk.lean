import GlusterFS.Locks.Domain

/-!
# `Locks.Entrylk` — internal locks on directory entries (`entrylk.c`)

A lock is on one name of a directory or, with a `NULL` basename, on all of them. As for inode locks a
domain has a list of held locks, youngest first, and a queue. The grant pass calls `__lock_name` again for
each queued request, which builds a new lock from the waiting frame; a request that fails for another
reason than a conflict is freed without an answer.

A failing `strdup` of a basename is not modelled.
-/

namespace GlusterFS.Locks

/-! ## Tests on names and locks -/

variable (basename : Option String)

def allNames : Bool := basename.isNone

def namesConflict (n1 n2 : Option String) : Bool := allNames n1 || allNames n2 || n1 == n2

def namesEqual (n1 n2 : Option String) : Bool := n1 == n2

def sameEntrylkOwner (l1 l2 : EntryLock) : Bool := l1.owner == l2.owner && l1.trans == l2.trans

/-- `__lock_grantable`: the first held lock in the way, whoever holds it. -/
def entrylkGrantable (held : List EntryLock) (basename : Option String) : Option EntryLock :=
  held.find? fun l => namesConflict l.basename basename

/-- `__blocked_lock_conflict`. -/
def blockedEntrylkConflict (waiting : List BlockedEntryLock) (basename : Option String) : Option BlockedEntryLock :=
  waiting.find? fun l => namesConflict l.basename basename

/-- `__owner_has_lock`. -/
def ownerHasEntrylk (held : List EntryLock) (waiting : List BlockedEntryLock) (newlock : EntryLock) : Bool :=
  (held.any fun l => sameEntrylkOwner l newlock) ||
    waiting.any fun l => sameEntrylkOwner l.toEntryLock newlock

/-! ## Locking -/

/-- Whether `new_entrylk_lock` finds memory for the lock of a frame. -/
abbrev EntryMem := CallFrame → Bool

/-- `new_entrylk_lock` as `__lock_name` calls it: the holder is that of the frame. -/
def newEntrylkLock (type : EntrylkType) (frame : CallFrame) : EntryLock :=
  { basename := basename, type := type, trans := frame.trans, owner := frame.root }

/-- The new lock with its frame, as it is queued. -/
def blockedEntrylkLock (type : EntrylkType) (frame : CallFrame) : BlockedEntryLock :=
  { newEntrylkLock basename type frame with frame := frame, trans_eq := rfl, owner_eq := rfl }

/-- The return value of `__lock_name`. -/
def lockNameRet (mem : EntryMem) (d : Dom) (basename : Option String) (type : EntrylkType)
    (frame : CallFrame) : Errno :=
  if mem frame = false then .enomem
  else if (entrylkGrantable d.entrylkList basename).isSome then .eagain
  else if (blockedEntrylkConflict d.blockedEntrylks basename).isSome &&
      !ownerHasEntrylk d.entrylkList d.blockedEntrylks (newEntrylkLock basename type frame) then .eagain
  else
    match type with
    | .wrlck => .ok
    | .rdlck => .einval

def lockName (mem : EntryMem) (d : Dom) (basename : Option String) (type : EntrylkType)
    (frame : CallFrame) (nonblock : Bool) : Errno × Dom :=
  match lockNameRet mem d basename type frame with
  | .ok =>
    (.ok, { d with entrylkList := newEntrylkLock basename type frame :: d.entrylkList })
  | .eagain =>
    if nonblock then (.eagain, d)
    else (.eagain,
      { d with blockedEntrylks := d.blockedEntrylks ++ [blockedEntrylkLock basename type frame] })
  | e => (e, d)

/-- The loop of `__grant_blocked_entry_locks`; `granted` grows at its head. -/
def grantEntrylkLoop (mem : EntryMem) :
    List BlockedEntryLock → Dom → List BlockedEntryLock → Dom × List BlockedEntryLock
  | [], d, granted => (d, granted)
  | bl :: blockedList, d, granted =>
    match lockName mem d bl.basename bl.type bl.frame false with
    | (.ok, d') => grantEntrylkLoop mem blockedList d' (bl :: granted)
    | (_, d') => grantEntrylkLoop mem blockedList d' granted

def grantBlockedEntryLocks (mem : EntryMem) (d : Dom) : Dom × List BlockedEntryLock :=
  grantEntrylkLoop mem d.blockedEntrylks { d with blockedEntrylks := [] } []

/-- The answers of `grant_blocked_entry_locks`. -/
def entrylkGrantReplies (granted : List BlockedEntryLock) : List LockReply := granted.map fun bl => ⟨bl.frame, 0, .ok⟩

/-! ## Unlocking -/

/-- `__find_most_matching_lock`: its loop keeps the last lock on the exact name, and the last lock on all
    names. -/
def findMostMatchingLock (held : List EntryLock) (basename : Option String) : Option EntryLock :=
  let all := held.reverse.find? fun l => allNames l.basename
  let exactly := held.reverse.find? fun l => !allNames l.basename && namesEqual l.basename basename
  exactly.or all

/-- `__unlock_name`. The lock it deletes is the last one on the list with the name of the request. -/
def unlockName (d : Dom) (basename : Option String) (type : EntrylkType) : Option EntryLock × Dom :=
  match findMostMatchingLock d.entrylkList basename with
  | none => (none, d)
  | some lock =>
    if namesEqual lock.basename basename && lock.type == type then
      match type with
      | .wrlck =>
        (some lock,
          { d with entrylkList :=
            (d.entrylkList.reverse.eraseP fun l => namesEqual l.basename basename).reverse })
      | .rdlck => (none, d)
    else (none, d)

/-! ## Releasing a transport -/

/-- `release_entry_locks_for_transport` up to its grant pass: the domain without the transport's locks,
    and the waiting ones among them, which are answered in the order of this list. -/
def releaseEntryLocksForTransport (d : Dom) (trans : Nat) : Dom × List BlockedEntryLock :=
  ({ d with blockedEntrylks := d.blockedEntrylks.filter fun l => l.trans != trans,
            entrylkList := d.entrylkList.filter fun l => l.trans != trans },
    (d.blockedEntrylks.filter fun l => l.trans == trans).reverse)

/-! ## Calls -/

inductive EntrylkCmd where
  | lock
  | lockNb
  | unlock
  | other
  deriving DecidableEq, Repr

/-- A call of `pl_common_entrylk`, with what the environment decides during it: whether the inode and the
    domain can be allocated, and for which frames a lock can. -/
structure EntrylkCall where
  volume : String
  basename : Option String
  cmd : EntrylkCmd
  type : EntrylkType
  trans : Nat
  pid : Int
  lkOwner : Nat
  root : Nat
  pinodeMem : Bool
  domMem : Bool
  lockMem : EntryMem

/-- The frame of the call, when it is the `n`-th. -/
def EntrylkCall.frame (c : EntrylkCall) (n : Nat) : CallFrame := ⟨n, c.trans, c.pid, c.lkOwner, c.root⟩

/-- The domain after the call, and the answers in the order they are given. A `pid` of zero asks to
    release the transport's locks. -/
def EntrylkCall.onDom (c : EntrylkCall) (n : Nat) (d : Dom) : Dom × List LockReply :=
  if c.pid = 0 then
    let (d₁, released) := releaseEntryLocksForTransport d c.trans
    let (d₂, granted) := grantBlockedEntryLocks c.lockMem d₁
    (d₂, (released.map fun l => ⟨l.frame, -1, .eagain⟩) ++ entrylkGrantReplies granted ++
      [⟨c.frame n, 0, .ok⟩])
  else
    match c.cmd with
    | .lock =>
      match lockName c.lockMem d c.basename c.type (c.frame n) false with
      | (.ok, d₁) => (d₁, [⟨c.frame n, 0, .ok⟩])
      | (.eagain, d₁) => (d₁, [])
      | (e, d₁) => (d₁, [⟨c.frame n, -1, e⟩])
    | .lockNb =>
      match lockName c.lockMem d c.basename c.type (c.frame n) true with
      | (.ok, d₁) => (d₁, [⟨c.frame n, 0, .ok⟩])
      | (e, d₁) => (d₁, [⟨c.frame n, -1, e⟩])
    | .unlock =>
      match unlockName d c.basename c.type with
      | (none, d₁) => (d₁, [⟨c.frame n, 0, .ok⟩])
      | (some _, d₁) =>
        let (d₂, granted) := grantBlockedEntryLocks c.lockMem d₁
        (d₂, entrylkGrantReplies granted ++ [⟨c.frame n, 0, .ok⟩])
    | .other => (d, [⟨c.frame n, -1, .ok⟩])

end GlusterFS.Locks
