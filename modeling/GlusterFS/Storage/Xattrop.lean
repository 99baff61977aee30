import GlusterFS.Lib.Numerals

/-!
# `Storage.Xattrop` — adding to the counters of a file (`do_xattrop`)

An `xattrop` carries a dictionary of arrays; `do_xattrop` walks through it and adds each array to the
extended attribute of the same name, which counts as zeros if it is missing. A system call that fails ends
the walk, and what was written before it stays. Numbers are kept in host order: `__add_array` converts both
sides, and the sum wraps.
-/

namespace GlusterFS.Storage

/-- The errors the replicated operations tell apart. -/
inductive Errno where
  | eagain
  | einval
  | enosys
  | enotsup
  | enotconn
  | enotempty
  | euclean
  | other (code : Nat)
  deriving DecidableEq, Repr

/-- `op_ret` and `op_errno` of an answer: an `op_ret` of -1 comes with its error. -/
inductive Reply where
  | ok
  | error (e : Errno)
  deriving DecidableEq, Repr

/-- An array of the change log: the data, metadata and entry counters. -/
abbrev Counters := Fin 3 → BitVec 32

def addArray (dest src : Counters) : Counters := fun k => dest k + src k

section

variable {κ : Type} [DecidableEq κ]

/-- The extended attributes of one file; `none` is `ENODATA`. -/
abbrev Xattrs (κ : Type) := κ → Option Counters

/-- The array read for a key, all zeros if there is none. -/
def Xattrs.counters (xs : Xattrs κ) (key : κ) : Counters := (xs key).getD fun _ => 0

/-- `do_xattrop` with `GF_XATTROP_ADD_ARRAY`. `fail` is the number of members written before a system
    call fails, and its error. -/
def doXattrop : List (κ × Counters) → Option (Nat × Errno) → Xattrs κ → Xattrs κ × Reply
  | [], _, xs => (xs, .ok)
  | _ :: _, some (0, e), xs => (xs, .error e)
  | (key, src) :: trav, some (k + 1, e), xs =>
    doXattrop trav (some (k, e)) (Function.update xs key (some (addArray (xs.counters key) src)))
  | (key, src) :: trav, none, xs =>
    doXattrop trav none (Function.update xs key (some (addArray (xs.counters key) src)))

theorem counters_update (xs : Xattrs κ) (key key' : κ) (a : Counters) :
    Xattrs.counters (Function.update xs key (some a)) key' = if key' = key then a else xs.counters key' := by
  unfold Xattrs.counters
  by_cases h : key' = key
  · subst h
    rw [if_pos rfl, Function.update_self]
    rfl
  · rw [if_neg h, Function.update_of_ne h]

theorem doXattrop_none : ∀ (dict : List (κ × Counters)) (xs : Xattrs κ), (doXattrop dict none xs).2 = .ok
  | [], _ => rfl
  | _ :: trav, _ => doXattrop_none trav _

theorem doXattrop_fresh {key : κ} : ∀ {dict : List (κ × Counters)}, key ∉ dict.map Prod.fst →
    ∀ {fail : Option (Nat × Errno)} {xs : Xattrs κ}, (doXattrop dict fail xs).1.counters key = xs.counters key := by
  intro dict
  induction dict with
  | nil =>
    intro _ fail xs
    rfl
  | cons m trav ih =>
    intro hnot fail xs
    rw [List.map_cons, List.mem_cons, not_or] at hnot
    have hgo : ∀ {fail' : Option (Nat × Errno)} (a : Counters),
        (doXattrop trav fail' (Function.update xs m.1 (some a))).1.counters key = xs.counters key := by
      intro fail' a
      rw [ih hnot.2, counters_update, if_neg hnot.1]
    match fail with
    | none => exact hgo _
    | some (0, e) => rfl
    | some (k + 1, e) => exact hgo _

/-- **Whatever happens to an `xattrop`**, each array has its member of the dictionary added, or is as it
    was and there was an error. -/
theorem doXattrop_cases {dict : List (κ × Counters)} (hkeys : (dict.map Prod.fst).Nodup) :
    ∀ (fail : Option (Nat × Errno)) (xs : Xattrs κ) (key : κ) (src : Counters), (key, src) ∈ dict →
      (doXattrop dict fail xs).1.counters key = addArray (xs.counters key) src ∨
      (doXattrop dict fail xs).2 ≠ .ok ∧ (doXattrop dict fail xs).1.counters key = xs.counters key := by
  induction dict with
  | nil =>
    intro fail xs key src hmem
    cases hmem
  | cons m trav ih =>
    obtain ⟨key0, src0⟩ := m
    rw [List.map_cons, List.nodup_cons] at hkeys
    obtain ⟨hfresh, htrav⟩ := hkeys
    -- both ways to go on write the first member and walk through the rest
    have hgo : ∀ (fail' : Option (Nat × Errno)) (xs : Xattrs κ) (key : κ) (src : Counters),
        (key, src) ∈ (key0, src0) :: trav →
        let r := doXattrop trav fail' (Function.update xs key0 (some (addArray (xs.counters key0) src0)))
        r.1.counters key = addArray (xs.counters key) src ∨ r.2 ≠ .ok ∧ r.1.counters key = xs.counters key := by
      intro fail' xs key src hmem r
      rcases List.mem_cons.mp hmem with heq | htail
      · cases heq
        left
        rw [doXattrop_fresh hfresh, counters_update, if_pos rfl]
      have hkey : key ∈ trav.map Prod.fst := List.mem_map_of_mem htail
      have hne : key ≠ key0 := by
        intro h
        rw [h] at hkey
        exact hfresh hkey
      have hrest := ih htrav fail' (Function.update xs key0 (some (addArray (xs.counters key0) src0)))
        key src htail
      rwa [counters_update, if_neg hne] at hrest
    intro fail xs key src hmem
    match fail with
    | none => exact hgo none xs key src hmem
    | some (0, e) => exact .inr ⟨nofun, rfl⟩
    | some (k + 1, e) => exact hgo (some (k, e)) xs key src hmem

/-- **An `xattrop` that answers has added every member.** -/
theorem doXattrop_ok {dict : List (κ × Counters)} (hkeys : (dict.map Prod.fst).Nodup)
    {fail : Option (Nat × Errno)} {xs : Xattrs κ} (hok : (doXattrop dict fail xs).2 = .ok) {key : κ}
    {src : Counters} (hmem : (key, src) ∈ dict) :
    (doXattrop dict fail xs).1.counters key = addArray (xs.counters key) src := by
  rcases doXattrop_cases hkeys fail xs key src hmem with h | ⟨hfail, -⟩
  · exact h
  · exact absurd hok hfail

end

end GlusterFS.Storage
