import Mathlib.Data.List.Perm.Basic

/-!
# `Lib.Threads` — threads that run in turns

A thread is the list of operations it has still to do, front to back, and an interleaving says again and again
which thread goes on. Doing an operation can put new ones in front of what is left of the thread, as a call does.

What is true of a system of threads at any time is mostly about the operations that are still to be done by *some*
thread (`pending`), in no order. `pending_advance` says how one step changes them.
-/

namespace Threads

open List

variable {α : Type}

variable (ts : List (List α))

/-- The operations that are still to be done. -/
def pending : List α := ts.flatten

/-- The next operation of a thread, and what the thread does after it. -/
def next? (i : Nat) : Option (α × List α) :=
  match ts[i]? with
  | some (a :: as) => some (a, as)
  | _ => none

/-- The thread goes on with `new`, and then with the rest. -/
def advance (i : Nat) (new rest : List α) : List (List α) := ts.set i (new ++ rest)

/-- What the other threads have to do, and this one after its next operation. -/
def others (i : Nat) (rest : List α) : List α := (ts.take i).flatten ++ (rest ++ (ts.drop (i + 1)).flatten)

variable {ts : List (List α)} {i : Nat} {a : α} {rest : List α}

theorem next?_eq_some : next? ts i = some (a, rest) ↔ ts[i]? = some (a :: rest) := by
  unfold next?
  split
  next b bs h => simp [h]
  next h =>
    constructor
    · exact nofun
    · exact fun h' => absurd h' (h a rest)

section

variable (h : next? ts i = some (a, rest))
include h

theorem split : ts = ts.take i ++ (a :: rest) :: ts.drop (i + 1) := by
  obtain ⟨hlt, hget⟩ := List.getElem?_eq_some_iff.mp (next?_eq_some.mp h)
  rw [← hget, ← List.drop_eq_getElem_cons hlt, List.take_append_drop]

theorem pending_next : (pending ts).Perm (a :: others ts i rest) := by
  have hpend : pending ts = (ts.take i).flatten ++ a :: (rest ++ (ts.drop (i + 1)).flatten) := by
    calc pending ts = (ts.take i ++ (a :: rest) :: ts.drop (i + 1)).flatten := congrArg List.flatten (split h)
      _ = _ := by simp
  rw [hpend]
  exact perm_middle

/-- **One step of one thread**: its next operation is no longer to be done, the new ones are. -/
theorem pending_advance (new : List α) : (pending (advance ts i new rest)).Perm (new ++ others ts i rest) := by
  obtain ⟨hlt, -⟩ := List.getElem?_eq_some_iff.mp (next?_eq_some.mp h)
  have hset : advance ts i new rest = ts.take i ++ (new ++ rest) :: ts.drop (i + 1) := by
    rw [advance, List.set_eq_take_append_cons_drop, if_pos hlt]
  have hpend : pending (advance ts i new rest) =
      (ts.take i).flatten ++ (new ++ (rest ++ (ts.drop (i + 1)).flatten)) := by
    rw [pending, hset]
    simp
  rw [hpend, others, ← List.append_assoc, ← List.append_assoc new]
  exact List.perm_append_comm.append_right _

end

theorem pending_start (ts : List (List α)) (as : List α) : (pending (ts ++ [as])).Perm (as ++ pending ts) := by
  have hpend : pending (ts ++ [as]) = pending ts ++ as := by simp [pending]
  rw [hpend]
  exact perm_append_comm

/-! ## Operations that only one thread has -/

/-- At most one thread has operations of this kind to do. -/
def Sole (p : α → Prop) (ts : List (List α)) : Prop := ∃ i : Nat, ∀ (j : Nat) t, ts[j]? = some t → j ≠ i → ∀ a ∈ t, ¬ p a

variable {p : α → Prop}

theorem sole_nil : Sole p ([] : List (List α)) := ⟨0, fun j t h => by simp at h⟩

theorem sole_of_none (h : ∀ a ∈ pending ts, ¬ p a) (i : Nat) (new rest : List α) : Sole p (advance ts i new rest) := by
  refine ⟨i, ?_⟩
  intro j t ht hne a ha
  rw [advance, getElem?_set_ne (Ne.symm hne)] at ht
  exact h a (mem_flatten.mpr ⟨t, mem_of_getElem? ht, ha⟩)

theorem sole_advance (h : Sole p ts) (hnext : next? ts i = some (a, rest)) {new : List α}
    (hnew : ∀ b ∈ new, ¬ p b) : Sole p (advance ts i new rest) := by
  obtain ⟨k, hk⟩ := h
  refine ⟨k, ?_⟩
  intro j t ht hne b hb
  by_cases hji : j = i
  · subst hji
    have hget := next?_eq_some.mp hnext
    rw [advance, List.getElem?_set_self (List.getElem?_eq_some_iff.mp hget).1] at ht
    cases ht
    rcases List.mem_append.mp hb with hb | hb
    · exact hnew b hb
    · exact hk j _ hget hne b (List.mem_cons_of_mem a hb)
  rw [advance, List.getElem?_set_ne (Ne.symm hji)] at ht
  exact hk j t ht hne b hb

theorem sole_start (h : Sole p ts) {t : List α} (ht : ∀ b ∈ t, ¬ p b) : Sole p (ts ++ [t]) := by
  obtain ⟨k, hk⟩ := h
  refine ⟨k, ?_⟩
  intro j t' ht' hne b hb
  by_cases hlt : j < ts.length
  · rw [getElem?_append_left hlt] at ht'
    exact hk j t' ht' hne b hb
  rw [getElem?_append_right (Nat.le_of_not_lt hlt)] at ht'
  have hmem := mem_of_getElem? ht'
  rw [mem_singleton.mp hmem] at hb
  exact ht b hb

theorem sole_next (h : Sole p ts) (hnext : next? ts i = some (a, rest)) (ha : p a) {b : α}
    (hb : b ∈ others ts i rest) (hpb : p b) : b ∈ rest := by
  obtain ⟨k, hk⟩ := h
  have hget := next?_eq_some.mp hnext
  have hik : i = k := by
    by_contra hne
    exact hk i _ hget hne a mem_cons_self ha
  subst hik
  -- operations of another thread are not of this kind
  have hother : ∀ (j : Nat) t, ts[j]? = some t → j ≠ i → b ∉ t := fun j t ht hne hbt => hk j t ht hne b hbt hpb
  rcases mem_append.mp hb with hb | hb
  · obtain ⟨t, ht, hbt⟩ := mem_flatten.mp hb
    obtain ⟨j, hj, rfl⟩ := mem_take_iff_getElem.mp ht
    refine absurd hbt (hother j _ (getElem?_eq_getElem (by omega)) (by omega))
  rcases mem_append.mp hb with hb | hb
  · exact hb
  obtain ⟨t, ht, hbt⟩ := mem_flatten.mp hb
  obtain ⟨j, hj, rfl⟩ := mem_drop_iff_getElem.mp ht
  refine absurd hbt (hother (i + 1 + j) _ ?_ (by omega))
  exact getElem?_eq_getElem (by omega)

end Threads
