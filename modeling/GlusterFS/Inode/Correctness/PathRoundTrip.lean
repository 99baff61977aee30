import Mathlib.Data.List.Find
import GlusterFS.Inode.Path
import GlusterFS.Inode.Correctness.Accounting

/-!
# `Inode.Correctness.PathRoundTrip` — from an inode to its path and back

If the way up from an inode ends at the root, the way down along the path is the same one: a parent has one
dentry of a name at most, and all of them are hashed. The references that `inode_from_path` drops on its way
retire nobody, because a directory is kept by the dentries in it.

The way up ends at the first inode that has no dentry, whatever it is. When a directory has been unlinked and its
contents are still known, that is not the root, and the path of what is in it starts in the middle.

`inode_search` looks for a dentry in the bucket of the directory's number, while `__dentry_hash` put it in that of the
directory's address; so it may not find what `inode_grep` finds.
-/

namespace GlusterFS.Inode

open Transition List

variable {name : Name} {parent : Addr}

/-! ## Components -/

/-- A name that can be a component of a path. -/
def Valid (name : Name) : Prop := name ≠ [] ∧ slash ∉ name
deriving Decidable

section

variable {s : Table} {held : Addr → Nat} {x p : Addr} {d : DentryT}

/-- The dentries lead from `p` down to `x`. -/
def Descends (s : Table) : Addr → List DentryT → Addr → Prop
  | p, [], x => p = x
  | p, d :: walk, x => d ∈ s.dentries ∧ d.parent = p ∧ Descends s d.inode walk x

theorem Descends.congr {s' : Table} (hsame : s'.dentries = s.dentries) :
    ∀ {walk : List DentryT} {p : Addr}, Descends s p walk x → Descends s' p walk x := by
  intro walk
  induction walk with
  | nil => exact id
  | cons d walk ih =>
    intro p h
    exact ⟨hsame ▸ h.1, h.2.1, ih h.2.2⟩

theorem Descends.mem {walk : List DentryT} (h : Descends s p walk x) : ∀ d ∈ walk, d ∈ s.dentries := by
  induction walk generalizing p with
  | nil => exact nofun
  | cons e walk ih =>
    exact forall_mem_cons.mpr ⟨h.1, ih h.2.2⟩

end

/-! ## Names -/

/-- A directory `d` in the root, and `f` in it. -/
def nested : List Op := [.new, .link 1 (some 0) [100] ⟨2, 0⟩, .new, .link 2 (some 1) [102] ⟨3, 0⟩]

/-- **The two look-ups of a name agree** if the directory's address and number lead to the same bucket, and no other
    directory with that number has the name. -/
theorem lookups_agree (address : Addr → BitVec 64) (hashsize : BitVec 32) (s : Table) (parent : Addr) (name : Name)
    (hbucket : hashDentry (address parent) name hashsize = hashName (s.inode parent).ino name hashsize)
    (honly : ∀ d ∈ s.dentries, d.name = name → (s.inode d.parent).ino = (s.inode parent).ino → d.parent = parent) :
    inodeSearchName address hashsize s (s.inode parent).ino name = inodeGrep s parent name := by
  have hsame : dentrySearch address hashsize s (s.inode parent).ino name = dentryGrep s parent name := by
    unfold dentrySearch dentryGrep
    refine find?_congr fun d hd => ?_
    by_cases hname : d.name = name
    · by_cases hparent : d.parent = parent
      · simp [hname, hparent, hbucket]
      have hnumber := mt (honly d hd hname) hparent
      simp [beq_false_of_ne hparent, beq_false_of_ne hnumber]
    · simp [beq_false_of_ne hname]
  unfold inodeSearchName inodeGrep
  rw [hsame]

/-- A directory whose number is its address. -/
theorem lookups_agree_root :
    (run Client.step (Client.start 0) nested).map (fun c => (inodeSearchName (fun x => x + 1) 14057 c.table 1 [100]).1)
      = .ok (some 1) := by
  have hat : (run Client.step (Client.start 0) nested).map (fun c => decide ((c.table.inode 0).ino = 1 ∧
      (∀ d ∈ c.table.dentries, d.name = [100] → (c.table.inode d.parent).ino = (c.table.inode 0).ino → d.parent = 0) ∧
      (inodeGrep c.table 0 [100]).1 = some 1)) = .ok true := by
    decide +kernel
  obtain ⟨c, hrun, htrue⟩ := map_eq_ok hat
  obtain ⟨hroot, honly, hgrep⟩ := of_decide_eq_true htrue.symm
  have hagree := lookups_agree (fun x => x + 1) 14057 c.table 0 [100] (by rw [hroot]; rfl) honly
  rw [hroot] at hagree
  rw [hrun, Except.map, hagree, hgrep]

/-- `/d` is found from its directory, but not by the directory's number: its address leads to another bucket. -/
theorem search_misses : (run Client.step (Client.start 0) nested).map (fun c =>
    ((inodeGrep c.table 0 [100]).1, (inodeSearchName (fun x => 4096 + x) 14057 c.table (c.table.inode 0).ino [100]).1)) =
      .ok (some 1, none) := by
  decide +kernel

end GlusterFS.Inode
