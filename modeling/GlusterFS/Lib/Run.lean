import Mathlib.Data.List.Basic

/-!
# `Lib.Run` — runs of a fallible step function

A component is a step function `step : σ → α → Except ε σ`: in state `s` the action `a` either leads to
one next state or stops the run with an error. `run` threads a list of actions through it, `Along` says
that a condition on *(state, action)* holds at every step the run takes, and `run_invariant` is the one
induction every safety result of the development goes through: an invariant kept by each step that meets
the condition holds wherever a run of such steps ends.
-/

namespace Transition

universe u v w

variable {σ : Type u} {α : Type v} {ε : Type w}

/-- Thread the actions through `step`, front to back; the first error ends the run. -/
def run (step : σ → α → Except ε σ) : σ → List α → Except ε σ
  | s, [] => .ok s
  | s, a :: as =>
    match step s a with
    | .error e => .error e
    | .ok s' => run step s' as

/-- The condition `C` holds of every state and action the run from `s` meets. -/
def Along (step : σ → α → Except ε σ) (C : σ → α → Prop) : σ → List α → Prop
  | _, [] => True
  | s, a :: as => C s a ∧ ∀ s', step s a = .ok s' → Along step C s' as

variable {step : σ → α → Except ε σ}

variable {as : List α} {C : σ → α → Prop} {I : σ → Prop}

theorem run_cons_ok {s s' : σ} {a : α} :
    run step s (a :: as) = .ok s' ↔ ∃ s₁, step s a = .ok s₁ ∧ run step s₁ as = .ok s' := by
  cases h : step s a with
  | error e | ok s₁ => simp [run, h]

theorem run_append_ok {s s' : σ} {as bs : List α} :
    run step s (as ++ bs) = .ok s' ↔ ∃ s₁, run step s as = .ok s₁ ∧ run step s₁ bs = .ok s' := by
  induction as generalizing s with
  | nil => simp [run]
  | cons a as ih =>
    rw [List.cons_append, run_cons_ok]
    constructor
    · rintro ⟨s₁, h1, hrest⟩
      obtain ⟨s2, h2, hbs⟩ := ih.mp hrest
      exact ⟨s2, run_cons_ok.mpr ⟨s₁, h1, h2⟩, hbs⟩
    rintro ⟨s2, has, hbs⟩
    obtain ⟨s₁, h1, h2⟩ := run_cons_ok.mp has
    exact ⟨s₁, h1, ih.mpr ⟨s2, h2, hbs⟩⟩

theorem Along.mono {C D : σ → α → Prop} (h : ∀ s a, C s a → D s a) :
    ∀ {as : List α} {s : σ}, Along step C s as → Along step D s as := by
  intro as
  induction as with
  | nil =>
    intro s _
    trivial
  | cons a as ih =>
    intro s hC
    exact ⟨h s a hC.1, fun s' hs' => ih (hC.2 s' hs')⟩

theorem along_of_forall : ∀ {as : List α} {s : σ}, (∀ a ∈ as, ∀ s, C s a) → Along step C s as := by
  intro as
  induction as with
  | nil =>
    intro s _
    trivial
  | cons a as ih =>
    intro s h
    exact ⟨h a List.mem_cons_self s, fun s' _ => ih fun b hb => h b (List.mem_cons_of_mem a hb)⟩

theorem along_true : ∀ (as : List α) (s : σ), Along step (fun _ _ => True) s as := by
  intro as
  induction as with
  | nil =>
    intro s
    trivial
  | cons a as ih =>
    intro s
    exact ⟨trivial, fun s' _ => ih s'⟩

theorem Along.and {C D : σ → α → Prop} : ∀ {as : List α} {s : σ}, Along step C s as → Along step D s as →
    Along step (fun s a => C s a ∧ D s a) s as := by
  intro as
  induction as with
  | nil =>
    intro s _ _
    trivial
  | cons a as ih =>
    intro s hC hD
    exact ⟨⟨hC.1, hD.1⟩, fun s' hs' => ih (hC.2 s' hs') (hD.2 s' hs')⟩

theorem along_cons_ok {s s₁ : σ} {a : α} (hs : step s a = .ok s₁) :
    Along step C s (a :: as) ↔ C s a ∧ Along step C s₁ as := by
  constructor
  · rintro ⟨hC, hrest⟩
    exact ⟨hC, hrest s₁ hs⟩
  rintro ⟨hC, hrest⟩
  refine ⟨hC, ?_⟩
  intro s' hs'
  rw [hs] at hs'
  cases hs'
  exact hrest

theorem along_cons_error {s : σ} {e : ε} {a : α} (hs : step s a = .error e) : Along step C s (a :: as) ↔ C s a := by
  constructor
  · exact fun h => h.1
  intro hC
  refine ⟨hC, ?_⟩
  intro s' hs'
  rw [hs] at hs'
  cases hs'

/-- A decidable condition can be checked along a run. -/
instance decidableAlong {C : σ → α → Prop} [∀ s a, Decidable (C s a)] :
    ∀ (s : σ) (as : List α), Decidable (Along step C s as)
  | _, [] => isTrue trivial
  | s, a :: as =>
    match h : step s a with
    | .error _ => decidable_of_iff _ (along_cons_error h).symm
    | .ok s₁ =>
      have := decidableAlong (C := C) s₁ as
      decidable_of_iff _ (along_cons_ok h).symm

/-- **The invariant rule.** An invariant kept by every step that meets `C` holds at the end of every run
    whose steps all meet `C`. -/
theorem run_invariant (hstep : ∀ s a s', I s → C s a → step s a = .ok s' → I s') :
    ∀ {as : List α} {s s' : σ}, I s → Along step C s as → run step s as = .ok s' → I s' := by
  intro as
  induction as with
  | nil =>
    intro s s' hs _ hrun
    cases hrun
    exact hs
  | cons a as ih =>
    intro s s' hs hC hrun
    obtain ⟨s₁, h1, hrest⟩ := run_cons_ok.mp hrun
    exact ih (hstep s a s₁ hs hC.1 h1) (hC.2 s₁ h1) hrest

theorem run_invariant_all (hstep : ∀ s a s', I s → step s a = .ok s' → I s') {s s' : σ}
    (hs : I s) (hrun : run step s as = .ok s') : I s' := by
  induction as generalizing s with
  | nil =>
    cases hrun
    exact hs
  | cons a as ih =>
    obtain ⟨s₁, h1, hrest⟩ := run_cons_ok.mp hrun
    exact ih (hstep s a s₁ hs h1) hrest

theorem run_invariant_counted {I : Nat → σ → Prop}
    (hstep : ∀ k s a s', I k s → C s a → step s a = .ok s' → I (k + 1) s') :
    ∀ {as : List α} {k : Nat} {s s' : σ}, I k s → Along step C s as → run step s as = .ok s' →
      I (k + as.length) s' := by
  intro as
  induction as with
  | nil =>
    intro k s s' hs _ hrun
    cases hrun
    exact hs
  | cons a as ih =>
    intro k s s' hs hC hrun
    obtain ⟨s₁, h1, hrest⟩ := run_cons_ok.mp hrun
    have hlen : k + (a :: as).length = k + 1 + as.length := by
      rw [List.length_cons]
      omega
    rw [hlen]
    exact ih (hstep k s a s₁ hs hC.1 h1) (hC.2 s₁ h1) hrest

/-- **When a run fails.** If under the invariant a step fails with `e` exactly where `D` says, then a run does
    exactly if it meets such a step. -/
theorem run_error_iff {D : σ → α → Prop} {e : ε}
    (hkeep : ∀ s a s', I s → step s a = .ok s' → I s') (herror : ∀ s a, I s → (step s a = .error e ↔ D s a)) :
    ∀ {as : List α} {s : σ}, I s → (run step s as = .error e ↔ ¬ Along step (fun s a => ¬ D s a) s as) := by
  intro as
  induction as with
  | nil =>
    intro s _
    simp [run, Along]
  | cons a as ih =>
    intro s hs
    have hD := herror s a hs
    cases hstep : step s a with
    | error e' =>
      rw [along_cons_error hstep, not_not, ← hD]
      simp [run, hstep]
    | ok s' =>
      have hnot : ¬ D s a := by
        rw [← hD, hstep]
        exact nofun
      have hrun : run step s (a :: as) = run step s' as := by simp [run, hstep]
      rw [hrun, ih (hkeep s a s' hs hstep), along_cons_ok hstep, and_iff_right hnot]

theorem run_ne_error {e : ε} (hkeep : ∀ s a s', I s → step s a = .ok s' → I s')
    (herror : ∀ s a, I s → step s a ≠ .error e) {s : σ} (hs : I s) : run step s as ≠ .error e := by
  have hnever : ∀ s a, I s → (step s a = .error e ↔ False) := fun s a hs => iff_false_intro (herror s a hs)
  rw [Ne, run_error_iff hkeep hnever hs, not_not]
  exact along_of_forall fun _ _ _ => not_false

/-- What is known about a part of the result of a call says that there is a result. -/
theorem map_eq_ok {ε α β : Type} {r : Except ε α} {f : α → β} {b : β} (h : r.map f = .ok b) :
    ∃ a, r = .ok a ∧ b = f a := by
  cases r with
  | error e => cases h
  | ok a => exact ⟨a, rfl, (Except.ok.inj h).symm⟩

/-! ## Numbered calls -/

/-- When `n` calls have been counted once each, counting the next one, number `n`, makes it `n + 1`. -/
theorem count_next {n k c : Nat} (h : c = if k < n then 1 else 0) :
    (if k < n + 1 then 1 else 0) = c + (n == k).toNat := by
  rw [h]
  by_cases hk : n = k
  · rw [hk]
    simp
  have hbeq : (n == k) = false := by simpa using hk
  rw [hbeq]
  by_cases hlt : k < n
  · simp [hlt, show k < n + 1 by omega]
  · simp [hlt, show ¬ k < n + 1 by omega]

end Transition
