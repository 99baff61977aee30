import Mathlib.Data.List.Basic

/-!
# `Lib.Scan` — scans that mark or merge the elements of a list

A scan goes over a list once, front to back, and changes some elements on the way. `Marks` is a scan that replaces
elements it selects and collects them; `Merges` is one that joins an element to its left neighbour, or drops it.
Both say only which *single* changes the scan is made of, with the list around each of them. An invariant of the
whole list that every single change keeps is therefore kept by the scan (`Marks.rule`, `Merges.rule`), whatever the
scan's own loop variables are.
-/

namespace Scan

open List

variable {α : Type}

/-! ## Marking -/

/-- The scan is past `pre`, goes over `q`, leaves `q'` and returns the elements it has marked. An element is marked
    if `sel` holds of what is before it, as the scan has left it, and of the element. -/
inductive Marks (sel : List α → α → Prop) (upd : α → α) : List α → List α → List α → List α → Prop where
  | stop (pre q : List α) : Marks sel upd pre q q []
  | skip {pre q q' marked : List α} {a : α} :
      Marks sel upd (pre ++ [a]) q q' marked → Marks sel upd pre (a :: q) (a :: q') marked
  | take {pre q q' marked : List α} {a : α} : sel pre a → Marks sel upd (pre ++ [upd a]) q q' marked →
        Marks sel upd pre (a :: q) (upd a :: q') (upd a :: marked)

variable {P : α → Prop} {x : α}

namespace Marks

variable {sel : List α → α → Prop} {upd : α → α} {pre q q' marked : List α}

/-- **The rule for marking scans**: what marking one element keeps, the scan keeps. -/
theorem rule {P : List α → List α → Prop} (hstep : ∀ pre a post taken, sel pre a → P (pre ++ a :: post) taken →
      P (pre ++ upd a :: post) (taken ++ [upd a])) (h : Marks sel upd pre q q' marked) :
    ∀ taken, P (pre ++ q) taken → P (pre ++ q') (taken ++ marked) := by
  induction h with
  | stop pre q =>
    intro taken hP
    rw [append_nil]
    exact hP
  | @skip pre q q' marked a _ ih =>
    intro taken hP
    have hrest := ih taken (by rw [append_assoc]; exact hP)
    rw [append_assoc] at hrest
    exact hrest
  | @take pre q q' marked a hsel _ ih =>
    intro taken hP
    have hrest := ih (taken ++ [upd a]) (by rw [append_assoc]; exact hstep pre a q taken hsel hP)
    rw [append_assoc, append_assoc] at hrest
    exact hrest

section

variable (h : Marks sel upd pre q q' marked)
include h

theorem forall_mem (hupd : ∀ a, P a → P (upd a)) (hq : ∀ x ∈ q, P x) : ∀ x ∈ q', P x := by
  induction h with
  | stop pre q => exact hq
  | skip _ ih =>
    rw [forall_mem_cons] at hq ⊢
    exact ⟨hq.1, ih hq.2⟩
  | take _ _ ih =>
    rw [forall_mem_cons] at hq ⊢
    exact ⟨hupd _ hq.1, ih hq.2⟩

/-- An element of the result was there before, or is one that was marked. -/
theorem mem_cases (hx : x ∈ q') : x ∈ q ∨ x ∈ marked := by
  induction h with
  | stop pre q => exact .inl hx
  | @skip pre q q' marked a _ ih =>
    rcases mem_cons.mp hx with rfl | hx
    · exact .inl mem_cons_self
    · exact (ih hx).imp_left (mem_cons_of_mem a)
  | @take pre q q' marked a hsel _ ih =>
    rcases mem_cons.mp hx with rfl | hx
    · exact .inr mem_cons_self
    · exact (ih hx).imp (mem_cons_of_mem a) (mem_cons_of_mem _)

theorem mem_marked (hx : x ∈ marked) : ∃ a ∈ q, (∃ before, sel before a) ∧ x = upd a := by
  induction h with
  | stop pre q => cases hx
  | @skip pre q q' marked a _ ih =>
    obtain ⟨b, hb, hsel⟩ := ih hx
    exact ⟨b, mem_cons_of_mem a hb, hsel⟩
  | @take pre q q' marked a hsel _ ih =>
    rcases mem_cons.mp hx with rfl | hx
    · exact ⟨a, mem_cons_self, ⟨pre, hsel⟩, rfl⟩
    obtain ⟨b, hb, hsel⟩ := ih hx
    exact ⟨b, mem_cons_of_mem a hb, hsel⟩

theorem mem_or (hx : x ∈ q) : x ∈ q' ∨ (upd x ∈ marked ∧ ∃ before, sel before x) := by
  induction h with
  | stop pre q => exact .inl hx
  | @skip pre q q' marked a _ ih =>
    rcases mem_cons.mp hx with rfl | hx
    · exact .inl mem_cons_self
    · exact (ih hx).imp_left (mem_cons_of_mem a)
  | @take pre q q' marked a hsel _ ih =>
    rcases mem_cons.mp hx with rfl | hx
    · exact .inr ⟨mem_cons_self, pre, hsel⟩
    refine (ih hx).imp (mem_cons_of_mem _) ?_
    exact fun hm => ⟨mem_cons_of_mem _ hm.1, hm.2⟩

theorem map_eq {β : Type} {f : α → β} (hupd : ∀ a, f (upd a) = f a) : q'.map f = q.map f := by
  induction h with
  | stop pre q => rfl
  | skip _ ih => rw [map_cons, map_cons, ih]
  | take _ _ ih => rw [map_cons, map_cons, ih, hupd]

theorem marked_sublist : marked.Sublist q' := by
  induction h with
  | stop pre q => exact nil_sublist q
  | skip _ ih => exact ih.cons _
  | take _ _ ih => exact ih.cons_cons _

end

end Marks

/-! ## Merging -/

/-- The scan goes over `q`, leaves `q'` and returns the elements it has taken out. -/
inductive Merges (joins : α → α → Prop) (drops : α → Prop) (join : α → α → α) : List α → List α → List α → Prop where
  | done (q : List α) : Merges joins drops join q q []
  | skip {q q' out : List α} {a : α} : Merges joins drops join q q' out → Merges joins drops join (a :: q) (a :: q') out
  | join {q q' out : List α} {a b : α} : joins a b → Merges joins drops join (join a b :: q) q' out →
        Merges joins drops join (a :: b :: q) q' (b :: out)
  | drop {q q' out : List α} {b : α} :
      drops b → Merges joins drops join q q' out → Merges joins drops join (b :: q) q' (b :: out)

namespace Merges

variable {joins : α → α → Prop} {drops : α → Prop} {join : α → α → α} {q q' out : List α}

theorem skipAll (as : List α) (h : Merges joins drops join q q' out) :
    Merges joins drops join (as ++ q) (as ++ q') out := by
  induction as with
  | nil => exact h
  | cons a as ih => exact .skip ih

/-- **The rule for merging scans**: what joining two neighbours and dropping an element keep, the scan keeps. -/
theorem rule {P : List α → Prop}
    (hjoin : ∀ pre a b post, joins a b → P (pre ++ a :: b :: post) → P (pre ++ join a b :: post))
    (hdrop : ∀ pre b post, drops b → P (pre ++ b :: post) → P (pre ++ post))
    (h : Merges joins drops join q q' out) : ∀ pre, P (pre ++ q) → P (pre ++ q') := by
  induction h with
  | done q => exact fun pre hP => hP
  | @skip q q' out a _ ih =>
    intro pre hP
    have hrest := ih (pre ++ [a]) (by rw [append_assoc]; exact hP)
    rw [append_assoc] at hrest
    exact hrest
  | @join q q' out a b hab _ ih =>
    intro pre hP
    exact ih pre (hjoin pre a b q hab hP)
  | @drop q q' out b hb _ ih =>
    intro pre hP
    exact ih pre (hdrop pre b q hb hP)

section

variable (h : Merges joins drops join q q' out)
include h

theorem forall_mem (hjoin : ∀ a b, joins a b → P a → P b → P (join a b)) (hq : ∀ x ∈ q, P x) : ∀ x ∈ q', P x := by
  induction h with
  | done q => exact hq
  | skip _ ih =>
    rw [forall_mem_cons] at hq ⊢
    exact ⟨hq.1, ih hq.2⟩
  | join hab _ ih =>
    rw [forall_mem_cons, forall_mem_cons] at hq
    exact ih (forall_mem_cons.mpr ⟨hjoin _ _ hab hq.1 hq.2.1, hq.2.2⟩)
  | drop _ _ ih =>
    rw [forall_mem_cons] at hq
    exact ih hq.2

theorem mem_out (hx : x ∈ out) : (∃ a, joins a x) ∨ drops x := by
  induction h with
  | done q => cases hx
  | skip _ ih => exact ih hx
  | @join q q' out a b hab _ ih =>
    rcases mem_cons.mp hx with rfl | hx
    · exact .inl ⟨a, hab⟩
    · exact ih hx
  | @drop q q' out b hb _ ih =>
    rcases mem_cons.mp hx with rfl | hx
    · exact .inr hb
    · exact ih hx

theorem forall_out (hjoin : ∀ a b, joins a b → P a → P b → P (join a b)) (hq : ∀ x ∈ q, P x) : ∀ x ∈ out, P x := by
  induction h with
  | done q => exact nofun
  | skip _ ih => exact ih (forall_mem_cons.mp hq).2
  | join hab _ ih =>
    rw [forall_mem_cons, forall_mem_cons] at hq
    have hrest := ih (forall_mem_cons.mpr ⟨hjoin _ _ hab hq.1 hq.2.1, hq.2.2⟩)
    exact forall_mem_cons.mpr ⟨hq.2.1, hrest⟩
  | drop _ _ ih =>
    rw [forall_mem_cons] at hq
    exact forall_mem_cons.mpr ⟨hq.1, ih hq.2⟩

theorem mem (hx : x ∈ q) (hjoins : ∀ a b, joins a b → x ≠ a ∧ x ≠ b) (hdrops : ¬ drops x) : x ∈ q' := by
  induction h with
  | done q => exact hx
  | @skip q q' out a _ ih =>
    rcases mem_cons.mp hx with rfl | hx
    · exact mem_cons_self
    · exact mem_cons_of_mem a (ih hx)
  | @join q q' out a b hab _ ih =>
    obtain ⟨hna, hnb⟩ := hjoins a b hab
    exact ih (mem_cons_of_mem _ ((mem_cons.mp ((mem_cons.mp hx).resolve_left hna)).resolve_left hnb))
  | @drop q q' out b hb _ ih =>
    refine ih ((mem_cons.mp hx).resolve_left ?_)
    rintro rfl
    exact hdrops hb

end

end Merges

/-! ## One element of a list -/

variable {pre post : List α}

theorem pairwise_update {R : α → α → Prop} {a a' : α} (h : (pre ++ a :: post).Pairwise R)
    (hpre : ∀ x ∈ pre, R x a → R x a') (hpost : ∀ x ∈ post, R a x → R a' x) : (pre ++ a' :: post).Pairwise R := by
  rw [pairwise_append, pairwise_cons] at h ⊢
  obtain ⟨hl, ⟨ha, hr⟩, hcross⟩ := h
  refine ⟨hl, ⟨fun x hx => hpost x hx (ha x hx), hr⟩, ?_⟩
  intro x hx y hy
  rcases mem_cons.mp hy with rfl | hy
  · exact hpre x hx (hcross x hx a mem_cons_self)
  · exact hcross x hx y (mem_cons_of_mem a hy)

theorem forall_mem_update {P Q : α → Prop} {a a' : α} (h : ∀ x ∈ pre ++ a :: post, P x)
    (hother : ∀ x, P x → Q x) (ha : P a → Q a') : ∀ x ∈ pre ++ a' :: post, Q x := by
  intro x hx
  rcases mem_append.mp hx with hx | hx
  · exact hother x (h x (mem_append_left _ hx))
  rcases mem_cons.mp hx with rfl | hx
  · exact ha (h a (mem_append_right _ mem_cons_self))
  · exact hother x (h x (mem_append_right _ (mem_cons_of_mem a hx)))

theorem exists_mem_update {P Q : α → Prop} (a a' : α) (hother : ∀ x, P x → Q x)
    (ha : P a → Q a') (h : ∃ x ∈ pre ++ a :: post, P x) : ∃ x ∈ pre ++ a' :: post, Q x := by
  obtain ⟨x, hx, hP⟩ := h
  rcases mem_append.mp hx with hx | hx
  · exact ⟨x, mem_append_left _ hx, hother x hP⟩
  rcases mem_cons.mp hx with rfl | hx
  · exact ⟨a', mem_append_right _ mem_cons_self, ha hP⟩
  · exact ⟨x, mem_append_right _ (mem_cons_of_mem a' hx), hother x hP⟩

end Scan
