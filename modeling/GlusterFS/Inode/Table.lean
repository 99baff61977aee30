import Mathlib.Data.List.Basic
import Mathlib.Data.BitVec

/-!
# `Inode.Table` — the inode table (`inode.c`)

The inodes a translator knows are in a table: on its `active` list while somebody has a reference, on `lru` if
there is none but the kernel still knows the inode (`nlookup`), and on `purge` when they are about to be freed.
A directory entry (`dentry_t`) has a reference to its parent. Freeing a dentry drops it, and that may retire
the parent, free its dentries and go on upwards (`__dentry_unset`, `__inode_unref`, `__inode_retire`).

The root is the inode with number 1. References to it are counted but never dropped.

The buckets of the two hash tables are one list each here: entries that a search could confuse have the same
hash, so they are in one bucket, in the order of insertion. Everything runs under the lock of the table, one
operation after the other. The recursion through the parents has fuel; every turn frees a dentry.
-/

namespace GlusterFS.Inode

/-! ## Inodes and dentries -/

/-- The address of an inode. -/
abbrev Addr := Nat

/-- The bytes of a name, without the zero that ends it. -/
abbrev Name := List UInt8

structure InodeT where
  ino : BitVec 64
  generation : BitVec 64
  nlookup : BitVec 64
  ref : BitVec 32
  deriving DecidableEq, Repr

/-- `dentry_t`; `hashed` says that it is in the hash of the names. -/
structure DentryT where
  inode : Addr
  parent : Addr
  name : Name
  hashed : Bool
  deriving DecidableEq, Repr

/-- `struct stat`, as far as it is looked at. -/
structure Stat where
  ino : BitVec 64
  dev : BitVec 64
  deriving DecidableEq, Repr

/-- `inode_table_t`, and the memory: the inodes that are allocated and the next free address. The
    `dentry_list` of an inode are its entries of `dentries`, in that order. -/
structure Table where
  heap : List Addr
  next : Addr
  inode : Addr → InodeT
  dentries : List DentryT
  root : Addr
  lruLimit : BitVec 32
  inodeHash : List Addr
  attic : List Addr
  active : List Addr
  lru : List Addr
  purge : List Addr
  activeSize : BitVec 32
  lruSize : BitVec 32
  purgeSize : BitVec 32

/-- What stops a run. `refused` is a caller that breaks the rules, the others are faults of the table. -/
inductive Fault where
  | refused
  | assertion
  | useAfterFree
  | emptyLru
  | outOfFuel
  deriving DecidableEq, Repr

def listDel (x : Addr) (l : List Addr) : List Addr := l.filter fun y => y ≠ x

namespace Table

/-- A store into an inode. -/
def modify (s : Table) (x : Addr) (f : InodeT → InodeT) : Table :=
  { s with inode := fun y => if y = x then f (s.inode y) else s.inode y }

/-- `inode->dentry_list`. -/
def dentriesOf (s : Table) (x : Addr) : List DentryT := s.dentries.filter fun d => d.inode = x

/-- `list_del (&inode->list)`: the inode is on one of the three lists. -/
def detach (s : Table) (x : Addr) : Table :=
  { s with active := listDel x s.active, lru := listDel x s.lru, purge := listDel x s.purge }

end Table

variable (s : Table)

variable (x : Addr)

def isInodeHashed : Bool := x ∈ s.inodeHash || x ∈ s.attic

def inodeUnhash : Table :=
  { s with inodeHash := listDel x s.inodeHash, attic := listDel x s.attic }

/-- `__inode_hash`. -/
def hashInode : Table :=
  let s := inodeUnhash s x
  { s with inodeHash := x :: s.inodeHash }

def inodeAtticize : Table :=
  let s := inodeUnhash s x
  { s with attic := x :: s.attic }

def inodeSearch (ino : BitVec 64) : Option Addr := s.inodeHash.find? fun x => (s.inode x).ino == ino

def dentryGrep (parent : Addr) (name : Name) : Option DentryT :=
  s.dentries.find? fun d => d.hashed && d.parent == parent && d.name == name

def dentrySearchForInode (par : BitVec 64) (name : Name) : Option DentryT :=
  (s.dentriesOf x).find? fun d => (s.inode d.parent).ino == par && d.name == name

/-! ## References -/

def inodeActivate : Table :=
  let s := s.detach x
  { s with active := x :: s.active, activeSize := s.activeSize + 1 }

/-- `__inode_ref`. -/
def inodeRefLocked : Table :=
  let s := if (s.inode x).ref = 0 then inodeActivate { s with lruSize := s.lruSize - 1 } x else s
  s.modify x fun i => { i with ref := i.ref + 1 }

section

variable (unref : Table → Addr → Except Fault Table)

/-- `__dentry_unset`; `unref` is `__inode_unref`. -/
def dentryUnset (s : Table) (d : DentryT) : Except Fault Table :=
  if d ∈ s.dentries then unref { s with dentries := s.dentries.erase d } d.parent else .error .useAfterFree

/-- The loops over a `dentry_list`. The next dentry must not be freed by the turn before. -/
def unsetAll : Table → List DentryT → Except Fault Table
  | s, [] => .ok s
  | s, d :: ds =>
    match dentryUnset unref s d with
    | .error e => .error e
    | .ok s' => unsetAll s' ds

def inodePassivate (s : Table) (x : Addr) : Except Fault Table :=
  let s := s.detach x
  let s := { s with lru := s.lru ++ [x], lruSize := s.lruSize + 1 }
  unsetAll unref s ((s.dentriesOf x).filter fun d => !d.hashed)

def inodeRetire (s : Table) (x : Addr) : Except Fault Table :=
  let s := s.detach x
  let s := { s with purge := s.purge ++ [x], purgeSize := s.purgeSize + 1 }
  let s := inodeUnhash s x
  unsetAll unref s (s.dentriesOf x)

end

/-- `__inode_unref`, with the depth of the recursion. -/
def inodeUnrefFuel : Nat → Table → Addr → Except Fault Table
  | 0, _, _ => .error .outOfFuel
  | n + 1, s, x =>
    if (s.inode x).ino = 1 then .ok s
    else if (s.inode x).ref = 0 then .error .assertion
    else
      let s := s.modify x fun i => { i with ref := i.ref - 1 }
      if (s.inode x).ref = 0 then
        let s := { s with activeSize := s.activeSize - 1 }
        if (s.inode x).nlookup ≠ 0 then inodePassivate (inodeUnrefFuel n) s x
        else inodeRetire (inodeUnrefFuel n) s x
      else .ok s

variable (s : Table)

variable (x : Addr)

/-- `__inode_unref`. -/
def inodeUnrefLocked : Except Fault Table := inodeUnrefFuel (s.dentries.length + 1) s x

/-! ## Pruning -/

/-- The loop of `inode_table_prune`; every turn takes an inode from the lists it can be taken from. -/
def pruneLoop : Nat → Table → Except Fault Table
  | fuel, s =>
    if s.lruLimit ≠ 0 ∧ s.lruLimit < s.lruSize then
      match fuel, s.lru with
      | 0, _ => .error .outOfFuel
      | _ + 1, [] => .error .emptyLru
      | fuel + 1, entry :: _ =>
        match inodeRetire inodeUnrefLocked { s with lruSize := s.lruSize - 1 } entry with
        | .error e => .error e
        | .ok s' => pruneLoop fuel s'
    else .ok s

/-- `__inode_forget` and `__inode_destroy`, for all inodes on `purge`. -/
def destroyPurged : Table :=
  { s with
    heap := s.heap.filter fun x => x ∉ s.purge
    inode := fun x => if x ∈ s.purge then { s.inode x with nlookup := 0 } else s.inode x
    purge := []
    purgeSize := 0 }

def inodeTablePrune : Except Fault Table :=
  match pruneLoop (s.active.length + s.lru.length) s with
  | .error e => .error e
  | .ok s' => .ok (destroyPurged s')

/-! ## Linking -/

def dentryCreate (x parent : Addr) (name : Name) : DentryT × Table :=
  let s := inodeRefLocked s parent
  let d : DentryT := ⟨x, parent, name, false⟩
  (d, { s with dentries := d :: s.dentries })

def dentryHash (d : DentryT) : Table :=
  { s with dentries := s.dentries.replace d { d with hashed := true } }

/-- The second half of `__inode_link`. -/
def linkDentry (x parent : Addr) (name : Name) : Except Fault Table :=
  let (d, created) := dentryCreate s x parent name
  match dentryGrep s parent name with
  | none => .ok (dentryHash created d)
  | some old =>
    if old.inode ≠ x then dentryUnset inodeUnrefLocked (dentryHash created d) old else .ok s

/-- The first half of `__inode_link`: the inode that is linked. -/
def linkInode (stbuf : Stat) : Addr × Table :=
  if isInodeHashed s x then (x, s)
  else
    let s := s.modify x fun i => { i with ino := stbuf.ino, generation := stbuf.dev }
    match inodeSearch s stbuf.ino with
    | none => (x, hashInode s x)
    | some old =>
      if (s.inode old).generation < (s.inode x).generation then (x, hashInode (inodeAtticize s old) x)
      else (old, s)

/-- `__inode_link`. -/
def inodeLinkLocked (parent : Option Addr) (name : Name) (stbuf : Stat) : Except Fault (Addr × Table) :=
  let (linked, s) := linkInode s x stbuf
  match parent with
  | none => .ok (linked, s)
  | some p =>
    match linkDentry s linked p name with
    | .error e => .error e
    | .ok s' => .ok (linked, s')

/-- `__inode_unlink`. -/
def inodeUnlinkLocked (x parent : Addr) (name : Name) : Except Fault Table :=
  match dentrySearchForInode s x (s.inode parent).ino name with
  | none => .ok s
  | some d => dentryUnset inodeUnrefLocked s d

/-! ## The operations -/

def inodeCreate : Addr × Table :=
  (s.next, { s with
    heap := s.next :: s.heap
    next := s.next + 1
    inode := fun y => if y = s.next then ⟨0, 0, 0, 0⟩ else s.inode y
    lru := s.next :: s.lru
    lruSize := s.lruSize + 1 })

def inodeNew : Addr × Table :=
  let (x, s) := inodeCreate s
  (x, inodeRefLocked s x)

def inodeUnref : Except Fault Table := do
  let s ← inodeUnrefLocked s x
  inodeTablePrune s

def inodeLink (parent : Option Addr) (name : Name) (stbuf : Stat) : Except Fault (Addr × Table) := do
  let (linked, s) ← inodeLinkLocked s x parent name stbuf
  let s ← inodeTablePrune (inodeRefLocked s linked)
  pure (linked, s)

def inodeLookup : Table := s.modify x fun i => { i with nlookup := i.nlookup + 1 }

/-- `__inode_forget`. -/
def inodeForgetLocked (nlookup : BitVec 64) : Table :=
  s.modify x fun i => { i with nlookup := if nlookup = 0 then 0 else i.nlookup - nlookup }

def inodeForget (nlookup : BitVec 64) : Except Fault Table :=
  if nlookup ≤ (s.inode x).nlookup then inodeTablePrune (inodeForgetLocked s x nlookup)
  else .error .assertion

def inodeUnlink (x parent : Addr) (name : Name) : Except Fault Table := do
  let s ← inodeUnlinkLocked s x parent name
  inodeTablePrune s

def inodeRename (srcdir : Addr) (srcname : Name) (dstdir : Addr) (dstname : Name) (x : Addr)
    (stbuf : Stat) : Except Fault Table := do
  let (_, s) ← inodeLinkLocked s x (some dstdir) dstname stbuf
  let s ← inodeUnlinkLocked s x srcdir srcname
  inodeTablePrune s

/-- `inode_table_new`: the root is on `lru`. -/
def inodeTableNew (lruLimit : BitVec 32) : Table :=
  let empty : Table :=
    { heap := []
      next := 0
      inode := fun _ => ⟨0, 0, 0, 0⟩
      dentries := []
      root := 0
      lruLimit := lruLimit
      inodeHash := []
      attic := []
      active := []
      lru := []
      purge := []
      activeSize := 0
      lruSize := 0
      purgeSize := 0 }
  let (root, s) := inodeCreate empty
  { (linkInode s root ⟨1, 0⟩).2 with root := root }

/-! ## Runs -/

/-- The callers of the table, and the references they have. -/
structure Client where
  table : Table
  held : Addr → Nat

inductive Op where
  | new
  | ref (x : Addr)
  | unref (x : Addr)
  | lookup (x : Addr)
  | forget (x : Addr) (nlookup : BitVec 64)
  | link (x : Addr) (parent : Option Addr) (name : Name) (stbuf : Stat)
  | unlink (x parent : Addr) (name : Name)
  | rename (srcdir : Addr) (srcname : Name) (dstdir : Addr) (dstname : Name) (x : Addr) (stbuf : Stat)
  | prune
  deriving DecidableEq, Repr

def Op.args : Op → List Addr
  | .new => []
  | .ref x => [x]
  | .unref x => [x]
  | .lookup x => [x]
  | .forget x _ => [x]
  | .link x parent _ _ => x :: parent.toList
  | .unlink x parent _ => [x, parent]
  | .rename srcdir _ dstdir _ x _ => [srcdir, dstdir, x]
  | .prune => []

variable (c : Client)

/-- A caller uses inodes it has a reference to, and the root. -/
def Client.mayUse (x : Addr) : Bool := 0 < c.held x || x == c.table.root

/-- A caller keeps to the rules: it drops what it has. -/
def Client.allowed : Op → Bool
  | .unref x => 0 < c.held x
  | .forget x nlookup => c.mayUse x && nlookup ≤ (c.table.inode x).nlookup
  | op => op.args.all c.mayUse

def gain (held : Addr → Nat) (x : Addr) : Addr → Nat := fun y => if y = x then held y + 1 else held y

def drop (held : Addr → Nat) (x : Addr) : Addr → Nat := fun y => if y = x then held y - 1 else held y

/-- The call itself, and what the callers have afterwards. -/
def Client.call : Op → Except Fault Client
  | .new =>
    let (x, s) := inodeNew c.table
    .ok ⟨s, gain c.held x⟩
  | .ref x => .ok ⟨inodeRefLocked c.table x, gain c.held x⟩
  | .unref x => (inodeUnref c.table x).map fun s => ⟨s, drop c.held x⟩
  | .lookup x => .ok ⟨inodeLookup c.table x, c.held⟩
  | .forget x nlookup => (inodeForget c.table x nlookup).map fun s => ⟨s, c.held⟩
  | .link x parent name stbuf =>
    (inodeLink c.table x parent name stbuf).map fun r => ⟨r.2, gain c.held r.1⟩
  | .unlink x parent name => (inodeUnlink c.table x parent name).map fun s => ⟨s, c.held⟩
  | .rename srcdir srcname dstdir dstname x stbuf =>
    (inodeRename c.table srcdir srcname dstdir dstname x stbuf).map fun s => ⟨s, c.held⟩
  | .prune => (inodeTablePrune c.table).map fun s => ⟨s, c.held⟩

def Client.step (op : Op) : Except Fault Client :=
  if c.allowed op then
    if op.args.all fun x => x ∈ c.table.heap then c.call op else .error .useAfterFree
  else .error .refused

def Client.start (lruLimit : BitVec 32) : Client := ⟨inodeTableNew lruLimit, fun _ => 0⟩

end GlusterFS.Inode
