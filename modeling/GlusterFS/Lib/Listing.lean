import Mathlib

/-!
# `Lib.Listing` — listings that are read by position

A listing has at most one slot for a key, and a slot keeps its position for as long as it is there. A reader
holds an offset and takes the next few slots from there on. Others may add and remove slots between two reads:
what has been there all the time is not missed and not read twice, because each slot is either behind the
offset or still ahead of it (`taken_or_ahead`).
-/

namespace Listing

open List

universe u v

/-- A key and its value at a position. -/
structure Slot (κ : Type u) (α : Type v) where
  pos : Nat
  key : κ
  val : α

/-- Slots in the order of their positions. -/
structure Table (κ : Type u) (α : Type v) where
  slots : List (Slot κ α)
  sorted : slots.Pairwise fun a b => a.pos < b.pos
  distinct : slots.Pairwise fun a b => a.key ≠ b.key

variable {κ : Type u} {α : Type v}

variable {k : κ}

namespace Table

variable (t : Table κ α)

/-- There is a slot for the key. -/
def Has (k : κ) : Prop := ∃ e ∈ t.slots, e.key = k

def empty : Table κ α := ⟨[], List.Pairwise.nil, List.Pairwise.nil⟩

variable (pos : Nat)

/-- `pos` if it is free, and otherwise a position behind all others. -/
def freePos : Nat :=
  if t.slots.any fun e => decide (e.pos = pos) then (t.slots.map Slot.pos).sum + 1 else pos

theorem freePos_free : ∀ e ∈ t.slots, e.pos ≠ t.freePos pos := by
  intro e he heq
  unfold freePos at heq
  split at heq
  · have hle : e.pos ≤ (t.slots.map Slot.pos).sum :=
      single_le_sum (fun _ _ => Nat.zero_le _) e.pos (mem_map_of_mem he)
    omega
  · rename_i hfree
    exact hfree (any_eq_true.mpr ⟨e, he, decide_eq_true heq⟩)

/-- The slots before a new one, the new one and the slots behind it. -/
def spliced (k : κ) (v : α) : List (Slot κ α) :=
  (t.slots.filter fun e => decide (e.pos < pos)) ++ ⟨pos, k, v⟩ :: t.slots.filter fun e => decide (pos < e.pos)

theorem spliced_sorted (k : κ) (v : α) : (t.spliced pos k v).Pairwise fun a b => a.pos < b.pos := by
  unfold spliced
  rw [pairwise_append, pairwise_cons]
  refine ⟨t.sorted.filter _, ⟨?_, t.sorted.filter _⟩, ?_⟩
  · intro b hb
    simpa using (mem_filter.mp hb).2
  intro a ha b hb
  have ha' : a.pos < pos := by simpa using (mem_filter.mp ha).2
  rcases mem_cons.mp hb with rfl | hb
  · exact ha'
  have hb' : pos < b.pos := by simpa using (mem_filter.mp hb).2
  omega

theorem spliced_distinct {t : Table κ α} (hk : ¬ t.Has k) (pos : Nat) (v : α) :
    (t.spliced pos k v).Pairwise fun a b => a.key ≠ b.key := by
  have hne : ∀ e ∈ t.slots, e.key ≠ k := fun e he h => hk ⟨e, he, h⟩
  unfold spliced
  rw [pairwise_append, pairwise_cons]
  refine ⟨t.distinct.filter _, ⟨?_, t.distinct.filter _⟩, ?_⟩
  · intro b hb
    exact fun h => hne b (mem_filter.mp hb).1 h.symm
  intro a ha b hb
  obtain ⟨ha, hapos⟩ := mem_filter.mp ha
  rcases mem_cons.mp hb with rfl | hb
  · exact hne a ha
  obtain ⟨hb, hbpos⟩ := mem_filter.mp hb
  have hlt : a.pos < b.pos := by
    have h1 : a.pos < pos := by simpa using hapos
    have h2 : pos < b.pos := by simpa using hbpos
    omega
  have : Std.Symm fun a b : Slot κ α => a.key ≠ b.key := ⟨fun _ _ h => h.symm⟩
  exact t.distinct.forall ha hb fun h => by
    rw [h] at hlt
    omega

/-- At most `count` slots from `off` on. -/
def readFrom (off count : Nat) : List (Slot κ α) := (t.slots.filter fun e => decide (off ≤ e.pos)).take count

section

variable [DecidableEq κ]

instance decidableHas (t : Table κ α) (k : κ) : Decidable (t.Has k) :=
  inferInstanceAs (Decidable (∃ e ∈ t.slots, e.key = k))

def find? (t : Table κ α) (k : κ) : Option α := (t.slots.find? fun e => decide (e.key = k)).map Slot.val

def erase (t : Table κ α) (k : κ) : Table κ α where
  slots := t.slots.filter fun e => decide (e.key ≠ k)
  sorted := t.sorted.filter _
  distinct := t.distinct.filter _

/-- A new slot at `pos`, or behind all others if `pos` is taken; a key that is there stays as it is. -/
def put (t : Table κ α) (pos : Nat) (k : κ) (v : α) : Table κ α :=
  if hk : t.Has k then t
  else ⟨t.spliced (t.freePos pos) k v, t.spliced_sorted _ k v, spliced_distinct hk _ v⟩

end

end Table

/-- Where to read on after `batch`. -/
def nextOffset (off : Nat) (batch : List (Slot κ α)) : Nat :=
  match batch.getLast? with
  | none => off
  | some e => e.pos + 1

namespace Table

/-! ## What is there -/

variable {e : Slot κ α} {t : Table κ α}

theorem mem_spliced {pos : Nat} {v : α} (hfree : ∀ e ∈ t.slots, e.pos ≠ pos)
    : e ∈ t.spliced pos k v ↔ e = ⟨pos, k, v⟩ ∨ e ∈ t.slots := by
  simp only [spliced, mem_append, mem_cons, mem_filter, decide_eq_true_eq]
  constructor
  · rintro (⟨he, -⟩ | rfl | ⟨he, -⟩)
    · exact .inr he
    · exact .inl rfl
    · exact .inr he
  rintro (rfl | he)
  · exact .inr (.inl rfl)
  rcases lt_or_gt_of_ne (hfree e he) with hlt | hgt
  · exact .inl ⟨he, hlt⟩
  · exact .inr (.inr ⟨he, hgt⟩)

section

variable [DecidableEq κ]

theorem find?_eq_none : t.find? k = none ↔ ¬ t.Has k := by
  simp [find?, Has]

theorem has_of_find? {v : α} (h : t.find? k = some v) : t.Has k := by
  by_contra hk
  rw [find?_eq_none.mpr hk] at h
  cases h

@[simp] theorem has_erase {t : Table κ α} {k x : κ} : (t.erase k).Has x ↔ x ≠ k ∧ t.Has x := by
  constructor
  · rintro ⟨e, he, rfl⟩
    obtain ⟨he, hk⟩ := mem_filter.mp he
    exact ⟨by simpa using hk, e, he, rfl⟩
  rintro ⟨hne, e, he, rfl⟩
  exact ⟨e, mem_filter.mpr ⟨he, by simpa using hne⟩, rfl⟩

/-- The slots after a `put` are the old ones and at most one new one, with the key that was put. -/
theorem mem_put {pos : Nat} {v : α} (he : e ∈ (t.put pos k v).slots) : e.key = k ∨ e ∈ t.slots := by
  unfold put at he
  split at he
  · exact .inr he
  rcases (mem_spliced (t.freePos_free pos)).mp he with rfl | he
  · exact .inl rfl
  · exact .inr he

@[simp] theorem has_put {t : Table κ α} {pos : Nat} {k : κ} {v : α} {x : κ} :
    (t.put pos k v).Has x ↔ x = k ∨ t.Has x := by
  constructor
  · rintro ⟨e, he, rfl⟩
    rcases mem_put he with hk | he
    · exact .inl hk
    · exact .inr ⟨e, he, rfl⟩
  unfold put
  split
  · rintro (rfl | hx)
    · assumption
    · exact hx
  rintro (rfl | ⟨e, he, rfl⟩)
  · exact ⟨_, (mem_spliced (t.freePos_free pos)).mpr (.inl rfl), rfl⟩
  · exact ⟨e, (mem_spliced (t.freePos_free pos)).mpr (.inr he), rfl⟩

end

/-! ## Reading -/

theorem behind_of_readFrom_nil {off count : Nat} (hcnt : 0 < count)
    (hnil : t.readFrom off count = []) (he : e ∈ t.slots) : e.pos < off := by
  by_contra hlt
  have hmem : e ∈ t.slots.filter fun e => decide (off ≤ e.pos) :=
    mem_filter.mpr ⟨he, decide_eq_true (Nat.le_of_not_lt hlt)⟩
  rcases take_eq_nil_iff.mp hnil with h | h
  · omega
  rw [h] at hmem
  cases hmem

/-- **Nothing is skipped.** A slot in front of the offset the next read starts from was in front of the old
    one or has been read. -/
theorem taken_or_ahead {off count : Nat} (he : e ∈ t.slots)
    (hlt : e.pos < nextOffset off (t.readFrom off count)) : e.pos < off ∨ e ∈ t.readFrom off count := by
  by_cases hoff : e.pos < off
  · exact .inl hoff
  right
  have hmem : e ∈ t.slots.filter fun e => decide (off ≤ e.pos) :=
    mem_filter.mpr ⟨he, decide_eq_true (Nat.le_of_not_lt hoff)⟩
  have hsort := t.sorted.filter fun e => decide (off ≤ e.pos)
  unfold readFrom at hlt ⊢
  generalize t.slots.filter (fun e => decide (off ≤ e.pos)) = rest at hmem hsort hlt
  -- what was not taken stands behind everything that was
  rw [← take_append_drop count rest] at hmem hsort
  rcases mem_append.mp hmem with htake | hdrop
  · exact htake
  exfalso
  unfold nextOffset at hlt
  cases hlast : (rest.take count).getLast? with
  | none =>
    rw [hlast] at hlt
    exact hoff hlt
  | some l =>
    rw [hlast] at hlt
    have hl : l ∈ rest.take count := mem_of_getLast? hlast
    have hle := (pairwise_append.mp hsort).2.2 l hl e hdrop
    exact absurd hlt (by simp only; omega)

end Table

end Listing
