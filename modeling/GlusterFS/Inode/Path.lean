import GlusterFS.Inode.Table

/-!
# `Inode.Path` — inodes and paths (`inode_path`, `inode_from_path`)

`inode_path` goes up from an inode: from each inode it takes one of its dentries, a hashed one if there is one,
and goes on with the parent until an inode has none. `inode_from_path` goes down from the root and looks up one
component after the other in the hash of the names.
-/

namespace GlusterFS.Inode

def pathMax : Nat := 4096

def slash : UInt8 := 47

/-! ## Up -/

def dentrySearchArbit (s : Table) (x : Addr) : Option DentryT :=
  match (s.dentriesOf x).find? fun d => d.hashed with
  | some d => some d
  | none => (s.dentriesOf x).head?

/-- The first loop of `inode_path`: the dentries it goes through; `i` is the length so far. It gives up when that
    is more than `PATH_MAX`. Every turn adds one at least, so `PATH_MAX + 1` turns are enough. -/
def pathLoop (s : Table) : Nat → Nat → Option DentryT → Option (List DentryT)
  | _, _, none => some []
  | 0, _, some _ => none
  | fuel + 1, i, some trav =>
    let i := i + 1 + trav.name.length
    if i > pathMax then none
    else (pathLoop s fuel i (dentrySearchArbit s trav.parent)).map fun walk => trav :: walk

theorem pathLoop_fuel (s : Table) {fuel i : Nat} (h : pathMax < fuel + i) (trav : Option DentryT) :
    pathLoop s (fuel + 1) i trav = pathLoop s fuel i trav := by
  induction fuel generalizing i trav with
  | zero =>
    cases trav with
    | none => rfl
    | some d =>
      have hlong : i + 1 + d.name.length > pathMax := by omega
      simp [pathLoop, hlong]
  | succ fuel ih =>
    cases trav with
    | none => rfl
    | some d =>
      have hrest := ih (i := i + 1 + d.name.length) (by omega) (dentrySearchArbit s d.parent)
      rw [pathLoop, pathLoop]
      simp only [hrest]

/-- The hash of a name, in `int`. -/
def nameHash (name : Name) : BitVec 32 :=
  name.foldl (fun hash byte => (hash <<< 5) - hash + byte.toBitVec.signExtend 32) 0

/-- `hash_dentry`; `parent` is a pointer. -/
def hashDentry (parent : BitVec 64) (name : Name) (mod : BitVec 32) : BitVec 64 :=
  ((nameHash name).signExtend 64 + parent) % mod.signExtend 64

/-- `hash_name`; `par` is a number. -/
def hashName (par : BitVec 64) (name : Name) (mod : BitVec 32) : BitVec 64 :=
  ((nameHash name).signExtend 64 + par) % mod.signExtend 64

section

variable (address : Addr → BitVec 64) (hashsize : BitVec 32)

/-- `__dentry_search`: the dentries are in the buckets `__dentry_hash` put them in. -/
def dentrySearch (s : Table) (par : BitVec 64) (name : Name) : Option DentryT :=
  s.dentries.find? fun d => d.hashed && hashDentry (address d.parent) d.name hashsize == hashName par name hashsize &&
    (s.inode d.parent).ino == par && d.name == name

/-- `inode_search`, with a name. -/
def inodeSearchName (s : Table) (par : BitVec 64) (name : Name) : Option Addr × Table :=
  match dentrySearch address hashsize s par name with
  | none => (none, s)
  | some d => (some d.inode, inodeRefLocked s d.inode)

end

/-! ## Down -/

def inodeGrep (s : Table) (parent : Addr) (name : Name) : Option Addr × Table :=
  match dentryGrep s parent name with
  | none => (none, s)
  | some d => (some d.inode, inodeRefLocked s d.inode)

end GlusterFS.Inode
