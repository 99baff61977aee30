import Mathlib.Data.List.Basic

/-!
# `Lib.History` — events judged by what came before them

A history is a list of events with the last one first. `Each P` says that every event meets `P`, given the events
before it: the shape of "`a` only happens after `b`".
-/

namespace History

variable {α : Type}

/-- Every event of the history meets `P` with the history before it. -/
def Each (P : α → List α → Prop) (h : List α) : Prop := ∀ later e earlier, h = later ++ e :: earlier → P e earlier

variable {P Q : α → List α → Prop} {h : List α} {e : α}

theorem each_nil : Each P [] := by
  intro later e earlier hsplit
  simp at hsplit

theorem each_cons : Each P (e :: h) ↔ P e h ∧ Each P h := by
  constructor
  · intro hall
    refine ⟨hall [] e h rfl, ?_⟩
    intro later e' earlier hsplit
    exact hall (e :: later) e' earlier (by rw [hsplit]; rfl)
  rintro ⟨hhead, hrest⟩ later e' earlier hsplit
  cases later with
  | nil =>
    cases hsplit
    exact hhead
  | cons x later =>
    cases hsplit
    exact hrest later e' earlier rfl

theorem Each.append (hall : Each P h) {es : List α} (hes : ∀ e ∈ es, ∀ earlier, P e earlier) : Each P (es ++ h) := by
  induction es with
  | nil => exact hall
  | cons e es ih =>
    refine each_cons.mpr ⟨hes e List.mem_cons_self _, ih ?_⟩
    exact fun e' he' => hes e' (List.mem_cons_of_mem e he')

/-- Two histories one after the other, if it does not matter that there was more before. -/
theorem Each.concat (hP : ∀ e earlier more, P e earlier → P e (earlier ++ more)) {h' : List α} (hall : Each P h)
    (hall' : Each P h') : Each P (h ++ h') := by
  induction h with
  | nil => exact hall'
  | cons e h ih =>
    obtain ⟨hhead, hrest⟩ := each_cons.mp hall
    exact each_cons.mpr ⟨hP e h h' hhead, ih hrest⟩

theorem Each.mono (hPQ : ∀ e earlier, P e earlier → Q e earlier) (hall : Each P h) : Each Q h :=
  fun later e earlier hsplit => hPQ e earlier (hall later e earlier hsplit)

end History
