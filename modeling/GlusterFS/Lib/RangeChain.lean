import Mathlib.Data.BitVec
import Mathlib.Data.List.Pairwise
import Mathlib.Order.Basic
import Mathlib.Tactic.Common

/-!
# `Lib.RangeChain` — ranges of machine words that follow one another

A range has a first and a last word. In a chain each range starts behind the end of the one before it, in
the arithmetic of the words, which wraps: behind the greatest word comes zero. So a chain may go around more
than once, and a range may be empty. `Chain.covers` and `Chain.disjoint` say when it is a partition all the
same.
-/

namespace Ranges

open List

variable {w : Nat}

variable {b x : BitVec w}

/-- The words from `start` to `stop`; none if `stop` is smaller. -/
structure Range (w : Nat) where
  start : BitVec w
  stop : BitVec w
  deriving DecidableEq, Repr

variable {r : Range w}

variable {h : BitVec w}

namespace Range

def contains (r : Range w) (h : BitVec w) : Bool := decide (r.start ≤ h) && decide (h ≤ r.stop)

theorem contains_iff : r.contains h = true ↔ r.start ≤ h ∧ h ≤ r.stop := by
  simp [contains]

def Whole (r : Range w) : Prop := r.start = 0 ∧ r.stop + 1 = 0
deriving Decidable

end Range

/-- The ranges follow one another from `a`; behind the last one comes `b`. -/
def Chain : BitVec w → List (Range w) → BitVec w → Prop
  | a, [], b => a = b
  | a, r :: rs, b => r.start = a ∧ Chain (r.stop + 1) rs b

theorem toNat_add_one (h : x.toNat + 1 < 2 ^ w) : (x + 1).toNat = x.toNat + 1 := by
  have hw : 0 < w := by
    by_contra hzero
    obtain rfl : w = 0 := by omega
    omega
  have hone : (1 : BitVec w).toNat = 1 := by simpa using hw
  rw [BitVec.toNat_add, hone, Nat.mod_eq_of_lt h]

theorem toNat_succ (h : x + 1 ≠ 0) : (x + 1).toNat = x.toNat + 1 := by
  have hlt := x.isLt
  have hne : x.toNat + 1 ≠ 2 ^ w := by
    intro heq
    apply h
    apply BitVec.eq_of_toNat_eq
    simp [BitVec.toNat_add, heq]
  exact toNat_add_one (by omega)

theorem succ_le_of_lt (hlt : x < h) : x + 1 ≤ h ∧ x + 1 ≠ 0 := by
  rw [BitVec.lt_def] at hlt
  have hsucc := toNat_add_one (Nat.lt_of_le_of_lt hlt h.isLt)
  constructor
  · rw [BitVec.le_def, hsucc]
    exact hlt
  intro hzero
  rw [hzero] at hsucc
  simp at hsucc

theorem zero_le (h : BitVec w) : (0 : BitVec w) ≤ h := by simp [BitVec.le_def]

theorem Range.Whole.bounds (hr : r.Whole) (h : BitVec w) : r.start ≤ h ∧ h ≤ r.stop := by
  constructor
  · rw [hr.1]
    exact zero_le h
  apply BitVec.not_lt.mp
  intro hlt
  exact (succ_le_of_lt hlt).2 hr.2

namespace Chain

theorem split {post : List (Range w)} : ∀ {pre : List (Range w)} {a : BitVec w}, Chain a (pre ++ r :: post) b →
      Chain a pre r.start ∧ Chain (r.stop + 1) post b
  | [], _, h => ⟨h.1.symm, h.2⟩
  | _ :: _, _, h => ⟨⟨h.1, (split h.2).1⟩, (split h.2).2⟩

theorem next {rs : List (Range w)} {a : BitVec w} (h : Chain a rs b)
    (hr : r ∈ rs) : r.stop + 1 = b ∨ ∃ s ∈ rs, s.start = r.stop + 1 := by
  obtain ⟨pre, post, rfl⟩ := append_of_mem hr
  obtain ⟨-, hpost⟩ := split h
  match post, hpost with
  | [], hpost => exact Or.inl hpost
  | s :: ss, hpost => exact Or.inr ⟨s, by simp, hpost.1⟩

/-- **A chain covers what comes before the start of one of its ranges.** -/
theorem covers_below : ∀ {rs : List (Range w)} {a : BitVec w},
    Chain a rs b → a ≤ h → r ∈ rs → h < r.start → ∃ r' ∈ rs, r'.contains h = true := by
  intro rs
  induction rs with
  | nil =>
    intro a _ _ hr _
    cases hr
  | cons x xs ih =>
    intro a hch ha hr hlt
    obtain ⟨hstart, hrest⟩ := hch
    by_cases hin : h ≤ x.stop
    · exact ⟨x, mem_cons_self, Range.contains_iff.mpr ⟨hstart ▸ ha, hin⟩⟩
    have hmem : r ∈ xs := by
      rcases mem_cons.mp hr with rfl | hmem
      · rw [hstart] at hlt
        exact absurd hlt (BitVec.not_lt.mpr ha)
      · exact hmem
    obtain ⟨r', hr', hhas⟩ := ih hrest (succ_le_of_lt (BitVec.not_le.mp hin)).1 hmem hlt
    exact ⟨r', mem_cons_of_mem x hr', hhas⟩

/-- **A chain that ends with the greatest word covers everything from its start on.** -/
theorem covers : ∀ {rs : List (Range w)} {a : BitVec w},
    Chain a rs 0 → rs ≠ [] → a ≤ h → ∃ r ∈ rs, r.contains h = true := by
  intro rs
  induction rs with
  | nil =>
    intro a _ hne _
    exact absurd rfl hne
  | cons x xs ih =>
    intro a hch _ ha
    obtain ⟨hstart, hrest⟩ := hch
    by_cases hin : h ≤ x.stop
    · exact ⟨x, mem_cons_self, Range.contains_iff.mpr ⟨hstart ▸ ha, hin⟩⟩
    obtain ⟨hle, hne⟩ := succ_le_of_lt (BitVec.not_le.mp hin)
    have hxs : xs ≠ [] := by
      rintro rfl
      exact hne hrest
    obtain ⟨r, hr, hhas⟩ := ih hrest hxs hle
    exact ⟨r, mem_cons_of_mem x hr, hhas⟩

/-- **A chain in order of its starts overlaps only where it goes around**: behind the whole comes a range
    that starts at zero again. -/
theorem disjoint : ∀ {rs : List (Range w)} {a : BitVec w}, Chain a rs b →
    rs.Pairwise (fun r s => r.start ≤ s.start ∧ ¬ (r.Whole ∧ s.start = 0)) →
      rs.Pairwise fun r s => ∀ h, ¬ (r.contains h = true ∧ s.contains h = true) := by
  intro rs
  induction rs with
  | nil =>
    intro a _ _
    exact .nil
  | cons x xs ih =>
    intro a hch hsort
    obtain ⟨hstart, hrest⟩ := hch
    obtain ⟨hfst, hsorted'⟩ := pairwise_cons.mp hsort
    apply pairwise_cons.mpr
    refine ⟨?_, ih hrest hsorted'⟩
    rintro s hs h ⟨hx, hsh⟩
    rw [Range.contains_iff] at hx hsh
    -- the range right behind `x` starts no later than `s`
    match xs, hrest, hsorted', hfst, hs with
    | y :: ys, hrest, hsorted', hfst, hs =>
      obtain ⟨hy, -⟩ := hrest
      have hys : y.start ≤ s.start := by
        rcases mem_cons.mp hs with rfl | hs
        · exact BitVec.le_refl _
        · exact ((pairwise_cons.mp hsorted').1 s hs).1
      obtain ⟨hxy, hnot⟩ := hfst y mem_cons_self
      by_cases hzero : x.stop + 1 = 0
      · apply hnot
        rw [hzero] at hy
        rw [hy] at hxy
        exact ⟨⟨BitVec.le_zero_iff.mp hxy, hzero⟩, hy⟩
      have hnext := toNat_succ hzero
      rw [← hy] at hnext
      simp only [BitVec.le_def] at hx hsh hys
      omega

theorem unique {α : Type*} {f : α → Range w} {xs : List α} {a : BitVec w} (hch : Chain a (xs.map f) b)
    (hordered : xs.Pairwise fun x y => (f x).start ≤ (f y).start ∧ ¬ ((f x).Whole ∧ (f y).start = 0))
    {x y : α} (hx : x ∈ xs) (hy : y ∈ xs) (hxh : (f x).contains h = true) (hyh : (f y).contains h = true) : x = y := by
  have hdisjoint : xs.Pairwise fun x y => ∀ h, ¬ ((f x).contains h = true ∧ (f y).contains h = true) :=
    pairwise_map.mp (hch.disjoint (pairwise_map.mpr hordered))
  have hsymm : Std.Symm fun x y => ∀ h, ¬ ((f x).contains h = true ∧ (f y).contains h = true) :=
    ⟨fun _ _ h k hk => h k hk.symm⟩
  by_contra hne
  exact hdisjoint.forall hx hy hne h ⟨hxh, hyh⟩

/-- **A chain from zero around to zero contains every word once.** -/
theorem once {rs : List (Range w)} (hch : Chain 0 rs 0) (hne : rs ≠ [])
    (hordered : rs.Pairwise fun r s => r.start ≤ s.start ∧ ¬ (r.Whole ∧ s.start = 0)) (h : BitVec w) :
    rs.countP (·.contains h) = 1 := by
  obtain ⟨r, hr, hhas⟩ := hch.covers hne (zero_le h)
  have hpos : 0 < rs.countP (·.contains h) := countP_pos_iff.mpr ⟨r, hr, hhas⟩
  have hdisjoint := (hch.disjoint hordered).filter (·.contains h)
  rw [countP_eq_length_filter] at hpos ⊢
  match hfilter : rs.filter (·.contains h) with
  | [] => simp [hfilter] at hpos
  | [_] => simp [hfilter]
  | x :: y :: _ =>
    have hall : ∀ z ∈ rs.filter (·.contains h), z.contains h = true := fun z hz => (mem_filter.mp hz).2
    rw [hfilter] at hdisjoint hall
    exact absurd ⟨hall x (by simp), hall y (by simp)⟩ ((pairwise_cons.mp hdisjoint).1 y (by simp) h)

end Chain

end Ranges
