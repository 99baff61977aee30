import GlusterFS.Dht.Layout
import GlusterFS.Lib.Run
import GlusterFS.Lib.Threads

/-!
# `Storage.Concurrent` — concurrent `xattrop`s on one inode

For each member of its dictionary `do_xattrop` takes the lock of the inode, reads the array, adds and writes it back.
Here any number of requests do so at once, every system call succeeds, and an array is as long as its key says and in
network order. Whatever the interleaving, the additions add up. The dictionary that is returned is left out.
-/

namespace GlusterFS.Storage

open Dht Threads Transition

/-- `__add_array`, on words in network order. -/
def addNetworkArray {n : Nat} (dest src : Fin n → BitVec 32) : Fin n → BitVec 32 :=
  fun i => hton32 (hton32 (dest i) + hton32 (src i))

variable {κ : Type} [DecidableEq κ] {len : κ → Nat}

/-- A member of the dictionary of a request. -/
abbrev Member (len : κ → Nat) := (key : κ) × (Fin (len key) → BitVec 32)

/-- The inode: its extended attributes, who has the lock with the member it is at and the array it read, and the
    members the requests have still to come to. -/
structure Inode (len : κ → Nat) where
  xattrs : (key : κ) → Option (Fin (len key) → BitVec 32)
  lock : Option (Nat × (m : Member len) × (Fin (len m.1) → BitVec 32))
  requests : List (List (Member len))

/-- The array of a key, zeros if there is none. -/
def Inode.array (s : Inode len) (key : κ) : Fin (len key) → BitVec 32 := (s.xattrs key).getD fun _ => 0

/-- A request goes on: it takes the lock and reads, or it adds, writes and unlocks. -/
def xattropStep (s : Inode len) (i : Nat) : Except Unit (Inode len) :=
  match s.lock, next? s.requests i with
  | some (owner, ⟨m, array⟩), _ =>
    if owner = i then
      .ok { s with xattrs := Function.update s.xattrs m.1 (some (addNetworkArray array m.2)), lock := none }
    else .error ()
  | none, some (m, rest) =>
    .ok { s with lock := some (i, ⟨m, s.array m.1⟩), requests := advance s.requests i [] rest }
  | none, none => .error ()

/-- The members that are not added yet. -/
def Inode.left (s : Inode len) : List (Member len) := (s.lock.map fun l => l.2.1).toList ++ pending s.requests

def added (ms : List (Member len)) (key : κ) (k : Fin (len key)) : BitVec 32 :=
  (ms.map fun m => if h : m.1 = key then hton32 (m.2 (k.cast (congrArg len h.symm))) else 0).sum

/-- Nobody has written since the owner of the lock read, and the word with what is still to be added is `v`. -/
def Inode.Sum (s : Inode len) (key : κ) (k : Fin (len key)) (v : BitVec 32) : Prop :=
  (∀ l, s.lock = some l → l.2.2 = s.array l.2.1.1) ∧ hton32 (s.array key k) + added s.left key k = v

/-- **One step** of a request. -/
theorem xattropStep_sum {s s' : Inode len} {i : Nat} {key : κ} {k : Fin (len key)} {v : BitVec 32}
    (hs : s.Sum key k v) (h : xattropStep s i = .ok s') : s'.Sum key k v := by
  obtain ⟨hread, hsum⟩ := hs
  obtain ⟨xattrs, lock, requests⟩ := s
  unfold xattropStep at h
  split at h
  next _ _ owner m array hlock =>
    split at h
    · cases h
      subst hlock
      have harray : array = _ := hread _ rfl
      refine ⟨nofun, ?_⟩
      rw [← hsum]
      by_cases hkey : m.1 = key
      · subst hkey
        simp [Inode.array, Inode.left, added, addNetworkArray, harray, add_assoc]
      · simp [Inode.array, Inode.left, added, hkey, Function.update_of_ne (Ne.symm hkey)]
    · cases h
  next m rest hlock hnext =>
    cases h
    subst hlock
    refine ⟨?_, ?_⟩
    · intro l hl
      cases hl
      rfl
    have hperm : (m :: pending (advance requests i [] rest)).Perm (pending requests) :=
      ((pending_advance hnext []).cons m).trans (pending_next hnext).symm
    rw [← hsum]
    exact congrArg (_ + ·) ((hperm.map _).sum_eq)
  next => cases h

/-- **Concurrent requests add up**, in any interleaving, when all of them are through. -/
theorem xattrops_add_up (xattrs : (key : κ) → Option (Fin (len key) → BitVec 32)) (requests : List (List (Member len)))
    (schedule : List Nat) (s : Inode len) (hrun : run xattropStep ⟨xattrs, none, requests⟩ schedule = .ok s)
    (hdone : s.left = []) (key : κ) (k : Fin (len key)) :
    hton32 (s.array key k) = hton32 ((xattrs key).getD (fun _ => 0) k) + added requests.flatten key k := by
  have hkeep : ∀ v, Inode.Sum ⟨xattrs, none, requests⟩ key k v → s.Sum key k v := fun v hs =>
    run_invariant_all (I := fun t => t.Sum key k v) (fun t i t' => xattropStep_sum) hs hrun
  obtain ⟨-, hsum⟩ := hkeep _ ⟨nofun, rfl⟩
  have hnone : added s.left key k = 0 := by rw [hdone, added, List.map_nil, List.sum_nil]
  rwa [hnone, add_zero] at hsum

/-- One and two are added to nothing, the two first. -/
theorem two_xattrops_add_up :
    let requests : List (List (Member fun _ : Unit => 1)) := [[⟨(), fun _ => 0x01000000⟩], [⟨(), fun _ => 0x02000000⟩]]
    ∃ s, run xattropStep ⟨fun _ => none, none, requests⟩ [1, 1, 0, 0] = .ok s ∧ hton32 (s.array () 0) = 3 := by
  intro requests
  refine ⟨_, rfl, (xattrops_add_up _ requests [1, 1, 0, 0] _ rfl rfl () 0).trans ?_⟩
  decide +kernel

end GlusterFS.Storage
