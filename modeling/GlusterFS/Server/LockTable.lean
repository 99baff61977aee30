import GlusterFS.Locks.Holders

/-!
# `Server.LockTable` — the lock table of a connection (`server-helpers.c`, `server-protocol.c`)

The locks a client holds have to go when its connection does. The server keeps a table for each connection: the
callback of a lock request adds a locker, that of an unlock request takes lockers off, and at a disconnect
`do_lock_table_cleanup` sends for every locker a call with pid 0, which releases all locks of the connection in
one domain of one inode.

A request is wound to the locks translator at once. Its callback runs later, and the answers to several requests
may overtake each other; the answers that are on their way are kept in a list. A request whose path or fd cannot
be resolved is answered with an error and touches neither the locks nor the table, and is left out.
-/

namespace GlusterFS.Server

open Locks

/-! ## The table -/

/-- The `loc` and the `fd` of a request, of which one is `NULL`. -/
inductive Target where
  | loc (inode : Nat)
  | fd (fd : Nat)
  deriving DecidableEq, Repr

/-- `struct _locker`. -/
structure Locker where
  volume : String
  target : Target
  pid : Int
  deriving DecidableEq, Repr

/-- `struct _lock_table`. -/
structure LockTable where
  fileLockers : List Locker
  dirLockers : List Locker
  deriving DecidableEq, Repr

def gfLockTableNew : LockTable := ⟨[], []⟩

/-- What the connections see: the inode an fd is open on, and which inodes are directories. -/
structure Export where
  fdInode : Nat → Nat
  isDir : Nat → Bool

def Export.inodeOf (x : Export) : Target → Nat
  | .loc inode => inode
  | .fd fd => x.fdInode fd

def LockTable.lockers (t : LockTable) (dir : Bool) : List Locker := if dir then t.dirLockers else t.fileLockers

section

variable (x : Export) (volume : String) (target : Target) (pid : Int) (t : LockTable)

/-- `gf_add_locker`; `mem` says whether the locker can be allocated. -/
def gfAddLocker (mem : Bool) : LockTable :=
  if mem = false then t
  else if x.isDir (x.inodeOf target) then { t with dirLockers := t.dirLockers ++ [⟨volume, target, pid⟩] }
  else { t with fileLockers := t.fileLockers ++ [⟨volume, target, pid⟩] }

/-- The test of the loop in `gf_del_locker`. The range or the name of the lock is not part of a locker. -/
def Locker.sameAs (l : Locker) : Bool := l.target == target && l.pid == pid && l.volume == volume

def gfDelLocker : LockTable :=
  if x.isDir (x.inodeOf target) then
    { t with dirLockers := t.dirLockers.filter fun l => !l.sameAs volume target pid }
  else { t with fileLockers := t.fileLockers.filter fun l => !l.sameAs volume target pid }

end

/-! ## Callbacks -/

/-- The callback a call was wound with. -/
inductive Callback where
  | inodelk
  | finodelk
  | entrylk
  | nop
  deriving DecidableEq, Repr

/-- `frame->root` and the `server_state_t` in it, as far as a callback looks at them. -/
structure Root where
  cbk : Callback
  trans : Nat
  pid : Int
  volume : String
  target : Target
  lType : FlType
  cmd : EntrylkCmd
  deriving DecidableEq, Repr

/-- The locker that belongs to the request. -/
def Root.locker (r : Root) : Locker := ⟨r.volume, r.target, r.pid⟩

section

variable (x : Export) (r : Root) (opRet : Int) (mem : Bool) (t : LockTable)

/-- The common part of the callbacks: what becomes of the table. -/
def lockCbk (unlock : Bool) : LockTable :=
  if 0 ≤ opRet then
    if unlock then gfDelLocker x r.volume r.target r.pid t
    else gfAddLocker x r.volume r.target r.pid t mem
  else t

def serverInodelkCbk : LockTable := lockCbk x r opRet mem t (r.lType == .unlck)

def serverFinodelkCbk : LockTable := lockCbk x r opRet mem t (r.lType == .unlck)

def serverEntrylkCbk : LockTable := lockCbk x r opRet mem t (r.cmd == .unlock)

def serverNopCbk : LockTable := t

def Root.callback : LockTable :=
  match r.cbk with
  | .inodelk => serverInodelkCbk x r opRet mem t
  | .finodelk => serverFinodelkCbk x r opRet mem t
  | .entrylk => serverEntrylkCbk x r opRet mem t
  | .nop => serverNopCbk t

end

/-- The callback takes lockers off the table. -/
def Root.unlocks (r : Root) : Bool :=
  match r.cbk with
  | .inodelk => r.lType == .unlck
  | .finodelk => r.lType == .unlck
  | .entrylk => r.cmd == .unlock
  | .nop => false

/-! ## Requests -/

/-- `F_SETLK` and `F_SETLKW`. -/
def fSetlk : Int := 6

@[inherit_doc fSetlk] def fSetlkw : Int := 7

/-- A number as the `cmd` of `finodelk`. -/
def fcntlCmd (cmd : Int) : InodelkCmd :=
  if cmd = fSetlk then .setlk else if cmd = fSetlkw then .setlkw else .other

/-- A lock or unlock request. The client's connection and pid, the volume and what the environment decides are
    in the call; `cmd` is what an `fentrylk` request has on the wire. -/
inductive Request where
  | inodelk (inode : Nat) (c : InodelkCall)
  | finodelk (fd : Nat) (c : InodelkCall)
  | entrylk (inode : Nat) (c : EntrylkCall)
  | fentrylk (fd : Nat) (cmd : Int) (c : InodelkCall)

/-- `server_fentrylk` goes on with `server_finodelk_resume`: what arrives is a `finodelk` with the number of the
    `entrylk_cmd` as its `cmd`, and with a `flock` nobody has filled in. -/
def fentrylkCall (cmd : Int) (c : InodelkCall) : InodelkCall := { c with cmd := fcntlCmd cmd, flock := Flock.zero }

def Request.target : Request → Target
  | .inodelk inode _ => .loc inode
  | .finodelk fd _ => .fd fd
  | .entrylk inode _ => .loc inode
  | .fentrylk fd _ _ => .fd fd

def Request.call : Request → LockCall
  | .inodelk _ c => .inodelk c
  | .finodelk _ c => .inodelk c
  | .entrylk _ c => .entrylk c
  | .fentrylk _ cmd c => .inodelk (fentrylkCall cmd c)

def Request.root (r : Request) : Root :=
  match r with
  | .inodelk _ c => ⟨.inodelk, c.trans, c.pid, c.volume, r.target, c.flock.lType, .other⟩
  | .finodelk _ c => ⟨.finodelk, c.trans, c.pid, c.volume, r.target, c.flock.lType, .other⟩
  | .entrylk _ c => ⟨.entrylk, c.trans, c.pid, c.volume, r.target, Flock.zero.lType, c.cmd⟩
  | .fentrylk _ _ c => ⟨.finodelk, c.trans, c.pid, c.volume, r.target, Flock.zero.lType, .other⟩

/-! ## The server -/

/-- An answer on its way to the callback. -/
structure Answer where
  root : Root
  opRet : Int
  deriving DecidableEq, Repr

/-- The inodes with their locks, the root of every call made for an inode, the answers that are on their way,
    and the table of each connection. -/
structure ServerState where
  inodes : Nat → HolderState
  roots : LockKind → Nat → Nat → Root
  pending : List Answer
  ltable : Nat → LockTable

def ServerState.init : ServerState :=
  { inodes := fun _ => HolderState.init
    roots := fun _ _ _ => ⟨.nop, 0, 0, "", .loc 0, .unlck, .other⟩
    pending := []
    ltable := fun _ => gfLockTableNew }

/-- `STACK_WIND` of a lock call: the answers it gives, to itself and to calls that waited, are on their way. -/
def ServerState.wind (s : ServerState) (inode : Nat) (root : Root) (a : LockCall) : Except Fault ServerState :=
  let old := s.inodes inode
  match old.step a with
  | .error e => .error e
  | .ok new =>
    let roots := fun κ i n => if κ = a.kind ∧ i = inode ∧ n = old.calls κ then root else s.roots κ i n
    let replies := (new.replies a.kind).drop (old.replies a.kind).length
    .ok { s with
      inodes := fun i => if i = inode then new else s.inodes i
      roots := roots
      pending := s.pending ++ replies.map fun r => ⟨roots a.kind inode r.frame.id, r.opRet⟩ }

/-- A request comes in, or the callback for the `k`-th answer runs. -/
inductive Action where
  | request (r : Request)
  | answer (k : Nat) (mem : Bool)

/-- The callback for one of the answers. -/
def ServerState.answer (x : Export) (s : ServerState) (k : Nat) (mem : Bool) : ServerState :=
  match s.pending[k]? with
  | none => s
  | some a =>
    { s with
      pending := s.pending.eraseIdx k
      ltable := fun conn =>
        if conn = a.root.trans then a.root.callback x a.opRet mem (s.ltable conn) else s.ltable conn }

def ServerState.step (x : Export) (s : ServerState) : Action → Except Fault ServerState
  | .request r => s.wind (x.inodeOf r.target) r.root r.call
  | .answer k mem => .ok (s.answer x k mem)

/-! ## A disconnect -/

/-- What the environment decides in a call of the cleanup. -/
structure Surroundings where
  root : Nat
  pinodeMem : Bool
  domMem : Bool
  path : Nat → Bool
  raw : RawFields
  lockMem : EntryMem

/-- The `inodelk` for a locker of `file_lockers`. -/
def fileRelease (conn : Nat) (e : Surroundings) (l : Locker) : InodelkCall :=
  { volume := l.volume, cmd := .setlk, flock := ⟨.unlck, 0, 0, 0, 0⟩, trans := conn, pid := 0, lkOwner := 0,
    root := e.root, pinodeMem := e.pinodeMem, domMem := e.domMem, lockMem := true, path := e.path, raw := e.raw }

/-- The `entrylk` for a locker of `dir_lockers`. -/
def dirRelease (conn : Nat) (e : Surroundings) (l : Locker) : EntrylkCall :=
  { volume := l.volume, basename := none, cmd := .unlock, type := .wrlck, trans := conn, pid := 0, lkOwner := 0,
    root := e.root, pinodeMem := e.pinodeMem, domMem := e.domMem, lockMem := e.lockMem }

section

variable (x : Export) (conn : Nat) (call : Surroundings → Locker → LockCall) (env : Nat → Surroundings)

/-- A loop of `do_lock_table_cleanup`; the answers go to `server_nop_cbk`. -/
def cleanupLoop : Nat → List Locker → ServerState → Except Fault ServerState
  | _, [], s => .ok s
  | k, l :: ls, s =>
    match s.wind (x.inodeOf l.target) ⟨.nop, conn, 0, l.volume, l.target, .unlck, .unlock⟩ (call (env k) l) with
    | .error e => .error e
    | .ok s' => cleanupLoop (k + 1) ls s'

end

/-- `do_lock_table_cleanup`, on the table of a connection that is gone. -/
def doLockTableCleanup (x : Export) (env : Nat → Surroundings) (conn : Nat) (s : ServerState) :
    Except Fault ServerState :=
  let t := s.ltable conn
  let s₀ := { s with ltable := fun c => if c = conn then gfLockTableNew else s.ltable c }
  match cleanupLoop x conn (fun e l => .inodelk (fileRelease conn e l)) env 0 t.fileLockers s₀ with
  | .error e => .error e
  | .ok s₁ => cleanupLoop x conn (fun e l => .entrylk (dirRelease conn e l)) env t.fileLockers.length t.dirLockers s₁

end GlusterFS.Server
