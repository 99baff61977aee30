import Mathlib.Data.List.Basic

/-!
# `Lib.ExchangeSort` — sorting an array by exchanges

The sort with two loops: for each place, every later element that is smaller is exchanged with the one that
is there. A pass over the rest of the array is `pass`; it brings the first of the smallest elements to its
place. The sort is not stable.
-/

namespace Exchange

open List

universe u

variable {α : Type u} (gt : α → α → Bool)

/-- The inner loop: what is at the place afterwards, and the rest of the array. -/
def pass : α → List α → α × List α
  | a, [] => (a, [])
  | a, b :: bs =>
    if gt a b then ((pass b bs).1, a :: (pass b bs).2) else ((pass a bs).1, b :: (pass a bs).2)

/-- The outer loop; the first argument is the number of places. -/
def sortPlaces : Nat → List α → List α
  | 0, l => l
  | _ + 1, [] => []
  | k + 1, a :: as => (pass gt a as).1 :: sortPlaces k (pass gt a as).2

def sort (l : List α) : List α := sortPlaces gt l.length l

variable {gt}

/-! ## Permutation -/

theorem pass_perm : ∀ (a : α) (as : List α), ((pass gt a as).1 :: (pass gt a as).2).Perm (a :: as)
  | a, [] => .refl _
  | a, b :: bs => by
    unfold pass
    split
    · exact (List.Perm.swap _ _ _).trans ((pass_perm b bs).cons a)
    · exact ((List.Perm.swap _ _ _).trans ((pass_perm a bs).cons b)).trans (.swap _ _ _)

theorem length_pass (a : α) (as : List α) : (pass gt a as).2.length = as.length := by
  have hlen := (pass_perm a as : ((pass gt a as).1 :: _).Perm _).length_eq
  simpa using hlen

theorem sortPlaces_perm : ∀ (k : Nat) (l : List α), (sortPlaces gt k l).Perm l
  | 0, _ => .refl _
  | _ + 1, [] => .refl _
  | k + 1, a :: as => ((sortPlaces_perm k _).cons _).trans (pass_perm a as)

/-- **Sorting keeps the elements.** -/
theorem sort_perm (l : List α) : (sort gt l).Perm l := sortPlaces_perm _ l

/-! ## Order -/

section

variable (htrans : ∀ a b c, gt a b = false → gt b c = false → gt a c = false)
  (hasymm : ∀ a b, gt a b = true → gt b a = false)

include hasymm in
theorem gt_self (a : α) : gt a a = false := by
  cases h : gt a a with
  | false => rfl
  | true =>
    rw [hasymm a a h] at h
    cases h

include htrans hasymm

theorem pass_le : ∀ (a : α) (as : List α) (b : α), b ∈ a :: as → gt (pass gt a as).1 b = false
  | a, [], b, hb => by
    rw [mem_singleton.mp hb]
    exact gt_self hasymm a
  | a, c :: cs, b, hb => by
    unfold pass
    split
    next hgt =>
      have hc := pass_le c cs c mem_cons_self
      rcases mem_cons.mp hb with rfl | hb
      · exact htrans _ c _ hc (hasymm _ _ hgt)
      · exact pass_le c cs b hb
    next hgt =>
      have ha := pass_le a cs a mem_cons_self
      rcases mem_cons.mp hb with rfl | hb
      · exact ha
      rcases mem_cons.mp hb with rfl | hb
      · exact htrans _ a _ ha (Bool.eq_false_iff.mpr hgt)
      · exact pass_le a cs b (mem_cons_of_mem a hb)

theorem sortPlaces_sorted : ∀ (k : Nat) (l : List α), l.length ≤ k →
    (sortPlaces gt k l).Pairwise fun a b => gt a b = false
  | 0, l, hk => by
    rw [length_eq_zero_iff.mp (Nat.le_zero.mp hk)]
    exact .nil
  | _ + 1, [], _ => .nil
  | k + 1, a :: as, hk => by
    apply pairwise_cons.mpr
    constructor
    · intro b hb
      have hb' : b ∈ (pass gt a as).2 := (sortPlaces_perm k _).mem_iff.mp hb
      exact pass_le htrans hasymm a as b
        ((pass_perm a as).mem_iff.mp (mem_cons_of_mem _ hb'))
    apply sortPlaces_sorted
    rw [length_pass]
    exact Nat.le_of_succ_le_succ hk

/-- **The array is sorted.** -/
theorem sort_sorted (l : List α) : (sort gt l).Pairwise fun a b => gt a b = false :=
  sortPlaces_sorted htrans hasymm _ l (Nat.le_refl _)

end

/-! ## The first of the smallest -/

theorem pass_first {x : α} {post : List α} (hpost : ∀ y ∈ post, gt x y = false) : (pass gt x post).1 = x := by
  induction post with
  | nil => rfl
  | cons b bs ih =>
    unfold pass
    rw [if_neg (by simp [hpost b mem_cons_self])]
    exact ih fun y hy => hpost y (mem_cons_of_mem b hy)

theorem pass_behind {x : α} {post : List α} (hpost : ∀ y ∈ post, gt x y = false) :
    ∀ {pre : List α} {p : α}, gt p x = true → (∀ y ∈ pre, gt y x = true) → (pass gt p (pre ++ x :: post)).1 = x := by
  intro pre
  induction pre with
  | nil =>
    intro p hp _
    show (pass gt p (x :: post)).1 = x
    unfold pass
    rw [if_pos hp]
    exact pass_first hpost
  | cons q qs ih =>
    intro p hp hpre
    have hqs : ∀ y ∈ qs, gt y x = true := fun y hy => hpre y (mem_cons_of_mem q hy)
    show (pass gt p (q :: (qs ++ x :: post))).1 = x
    unfold pass
    split
    · exact ih (hpre q mem_cons_self) hqs
    · exact ih hp hqs

/-- **The first of the smallest elements comes first.** -/
theorem head?_sort {x : α} {pre post : List α} (hpre : ∀ y ∈ pre, gt y x = true)
    (hpost : ∀ y ∈ post, gt x y = false) : (sort gt (pre ++ x :: post)).head? = some x := by
  match pre, hpre with
  | [], _ => exact congrArg some (pass_first hpost)
  | p :: ps, hpre =>
    apply congrArg some
    exact pass_behind hpost (hpre p mem_cons_self) fun y hy => hpre y (mem_cons_of_mem p hy)

end Exchange
