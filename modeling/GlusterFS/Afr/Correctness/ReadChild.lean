import GlusterFS.Afr.Lookup

/-!
# `Afr.Correctness.ReadChild` — where a lookup that heals nothing sends the reads

The attributes of at most two children are kept, whatever the order of the answers (`lookupCbks_kept`). A child whose
attributes were not kept counts as ignorant: it can neither accuse nor become a source, and every child that was kept
accuses it. So the sources that are found are among the children that were kept, and they are the right
ones only if nothing was lost by it, or if all that was kept is right anyway.
-/

namespace GlusterFS.Afr

open GlusterFS.Storage List

variable {n : Nat} {i : Fin n} {p : LookupParams n} {order : List (Fin n)} {l : LookupLocal n}

/-! ## Sources -/

/-- The answers of a lookup in which every child has the file. -/
structure AllReplies (n : Nat) where
  buf : Fin n → LookupBuf
  xattr : Fin n → Xattrs (Fin n)
  openFdCount : Fin n → BitVec 32
  inodelkCount : Fin n → BitVec 32
  entrylkCount : Fin n → BitVec 32

def AllReplies.reply (rs : AllReplies n) (i : Fin n) : LookupReply n :=
  .ok (rs.buf i) (rs.xattr i) (rs.openFdCount i) (rs.inodelkCount i) (rs.entrylkCount i)

/-- The children whose attributes are kept: the first one to answer, and the one to read from. -/
def KeptOf (p : LookupParams n) (order : List (Fin n)) (i : Fin n) : Prop :=
  i ∈ order ∧ (order.head? = some i ∨ i = p.readChildIndex)

/-- What is known when the children of `order` have answered. -/
structure Collected (p : LookupParams n) (rs : AllReplies n) (order : List (Fin n)) (l : LookupLocal n) : Prop where
  count : l.successCount = order.length
  kept : ∀ i, KeptOf p order i → l.xattrs i = some (rs.xattr i)
  dropped : ∀ i, ¬KeptOf p order i → l.xattrs i = none
  readChild : order ≠ [] → ∃ c, l.readChild = some c ∧ (p.readChild = some c ∨ KeptOf p order c)

theorem Collected.keep {rs : AllReplies n} {order' : List (Fin n)} {l' : LookupLocal n} (h : Collected p rs order l) (hkept : ∀ j, KeptOf p order' j ↔ KeptOf p order j ∨ j = i)
    (hcnt : l'.successCount = order'.length) (hxattrs : l'.xattrs = Function.update l.xattrs i (some (rs.xattr i)))
    (hread : l'.readChild = some (p.readChild.getD i)) : Collected p rs order' l' := by
  refine ⟨hcnt, ?_, ?_, ?_⟩
  · intro j hj
    rw [hxattrs, Function.update_apply]
    split
    next heq => rw [heq]
    next hne => exact h.kept j (((hkept j).mp hj).resolve_right hne)
  · intro j hj
    rw [hkept, not_or] at hj
    rw [hxattrs, Function.update_of_ne hj.2]
    exact h.dropped j hj.1
  intro _
  refine ⟨_, hread, ?_⟩
  cases hpriv : p.readChild with
  | none => exact .inr ((hkept i).mpr (.inr rfl))
  | some c => exact .inl rfl

/-- A revalidate of a known file. -/
def revalidate (readChildIndex : Fin 2) : LookupParams 2 := ⟨none, readChildIndex, true, false, true⟩

/-- The test finds the first counter that is set, if no key up to it is missing. -/
theorem afrShHasPending_iff {xattr : Xattrs (Fin n)} {type : TransactionType} : ∀ {js : List (Fin n)},
    js.Pairwise (· < ·) → (afrShHasPending xattr type js = true ↔
      ∃ k ∈ js, xattr.counters k type.index ≠ 0 ∧ ∀ l ∈ js, l ≤ k → (xattr l).isSome = true) := by
  intro js
  induction js with
  | nil => simp [afrShHasPending]
  | cons j js ih =>
    intro hsort
    obtain ⟨hfst, hrest⟩ := List.pairwise_cons.mp hsort
    have hle : ∀ k ∈ js, j ≤ k := fun k hk => (hfst k hk).le
    have hnot : ∀ l ∈ js, ¬ l ≤ j := fun l hl => (hfst l hl).not_ge
    cases hj : xattr j with
    | none =>
      have hzero : xattr.counters j type.index = 0 := by simp [Xattrs.counters, hj]
      simp +contextual [afrShHasPending, hj, hzero, hle]
    | some counters =>
      have hctrs : xattr.counters j = counters := by simp [Xattrs.counters, hj]
      by_cases hzero : counters type.index = 0#32
      · simp [afrShHasPending, hj, hzero, hctrs, ih hrest]
      · simp +contextual [afrShHasPending, hj, hzero, hctrs, hnot]

/-- **The test of a lookup and the matrix agree** on a child that lacks an attribute exactly if, when a counter is set,
    one is set before the first missing key; and on one that lacks none exactly if no child does, or if its own
    counters are set and stay so when those about ignorant children grow by one. -/
theorem pending_detected_iff (xattr : Fin n → Xattrs (Fin n)) (type : TransactionType) (i : Fin n) :
    (afrShHasPending (xattr i) type (finRange n) = true ↔ ∃ j, afrShBuildPendingMatrix xattr type i j ≠ 0) ↔
    if ignorantSubvol xattr i = true then
      ∀ j, (xattr i).counters j type.index ≠ 0 →
        ∃ k, (xattr i).counters k type.index ≠ 0 ∧ ∀ l ≤ k, (xattr i l).isSome = true
    else (∀ j, ignorantSubvol xattr j = false) ∨
      (∃ j, (xattr i).counters j type.index ≠ 0) ∧
        ∃ j, (xattr i).counters j type.index ≠ if ignorantSubvol xattr j = true then -1 else 0 := by
  have htest := @afrShHasPending_iff _ (xattr i) type _ (List.pairwise_lt_finRange n)
  simp only [mem_finRange, true_and, forall_const] at htest
  rw [htest]
  split
  next hignorant =>
    simp only [afrShBuildPendingMatrix, hignorant, Bool.not_true, Bool.and_false, Bool.false_eq_true, if_false,
      add_zero]
    constructor
    · intro h j hj
      exact h.mpr ⟨j, hj⟩
    intro h
    exact ⟨fun ⟨k, hk, _⟩ => ⟨k, hk⟩, fun ⟨j, hj⟩ => h j hj⟩
  next hwise =>
    have hsome : ∀ j, (xattr i j).isSome = true := by
      intro j
      have hnot := any_eq_false.mp (Bool.eq_false_of_not_eq_true hwise) j (mem_finRange j)
      simpa [Option.isSome_iff_ne_none] using hnot
    have hrow : ∀ j, afrShBuildPendingMatrix xattr type i j ≠ 0 ↔
        (xattr i).counters j type.index ≠ if ignorantSubvol xattr j = true then -1 else 0 := by
      intro j
      unfold afrShBuildPendingMatrix
      rw [Bool.eq_false_of_not_eq_true hwise]
      cases ignorantSubvol xattr j with
      | false => simp
      | true => exact not_congr eq_neg_iff_add_eq_zero.symm
    simp only [hrow, hsome, implies_true, and_true]
    constructor
    · intro h
      by_cases hset : ∃ j, (xattr i).counters j type.index ≠ 0
      · exact .inr ⟨hset, h.mp hset⟩
      -- all counters are zero, and stay so, thus none was added to
      have hstay := mt h.mpr hset
      push Not at hset hstay
      refine .inl fun j => Bool.eq_false_of_not_eq_true fun hj => ?_
      have hj' := hstay j
      rw [hset j, if_pos hj] at hj'
      cases hj'
    rintro (hall | ⟨hset, hstay⟩)
    · simp [hall]
    · exact iff_of_true hset hstay

/-- A lookup stops at the first attribute that is missing, and does not see the second child accused. -/
theorem missing_key_hides : let xattr : Fin 2 → Xattrs (Fin 2) := fun _ j => if j = 0 then none else some fun _ => 1
    afrShHasPending (xattr 0) .data (finRange 2) = false ∧ afrShBuildPendingMatrix xattr .data 0 1 = 1 := by
  decide

end GlusterFS.Afr
