import Mathlib.Data.List.Basic
import Mathlib.Data.List.Pairwise

/-!
# `Lib.WaitQueue` — a queue of waiting requests that is retried in passes

What is held is a list of `η`, what waits a list of `ω`; `judge` decides a request against both lists, and
`hold` is what a granted request turns into. A *pass* takes the whole queue off and submits its requests
again one by one, so a request is judged against a queue that is only partly rebuilt.

`pass_spec` says what a pass has done without mentioning the loop: with requests stamped in increasing
order, a request was judged against exactly the older requests that are still waiting *now*, and against
the locks held before the pass together with the older requests granted in it. Order, fairness and
progress results about a particular queue are read off from it.
-/

namespace WaitQueue

open List

universe u v

/-- What becomes of a request that is submitted. -/
inductive Verdict where
  | grant
  | wait
  | drop
  deriving DecidableEq, Repr

variable {η : Type u} {ω : Type v}

/-- The two lists: the youngest held lock is at the head, the youngest request at the tail. -/
structure State (η : Type u) (ω : Type v) where
  held : List η
  waiting : List ω

section

variable (judge : List η → List ω → ω → Verdict) (hold : ω → η)

/-- Submit the requests one after the other; `granted` collects the granted ones, youngest first. -/
def retry : List ω → State η ω → List ω → State η ω × List ω
  | [], q, granted => (q, granted)
  | w :: ws, q, granted =>
    match judge q.held q.waiting w with
    | .grant => retry ws ⟨hold w :: q.held, q.waiting⟩ (w :: granted)
    | .wait => retry ws ⟨q.held, q.waiting ++ [w]⟩ granted
    | .drop => retry ws q granted

/-- The lists once `w` has been submitted. -/
def submit (q : State η ω) (w : ω) : State η ω :=
  match judge q.held q.waiting w with
  | .grant => ⟨hold w :: q.held, q.waiting⟩
  | .wait => ⟨q.held, q.waiting ++ [w]⟩
  | .drop => q

/-- The requests a loop over `ws` submits, each with the lists it is judged against. -/
def submissions : List ω → State η ω → List (State η ω × ω)
  | [], _ => []
  | w :: ws, q => (q, w) :: submissions ws (submit judge hold q w)

/-- One pass over the queue. -/
def pass (q : State η ω) : State η ω × List ω := retry judge hold q.waiting ⟨q.held, []⟩ []

/-! ## The pass as a relation -/

variable (stamp : ω → Nat)

/-- The locks held when `w` was judged, in a pass that found `held` and granted `granted`. -/
def heldAt (held : List η) (granted : List ω) (w : ω) : List η :=
  (granted.filter fun g => decide (stamp g < stamp w)).map hold ++ held

/-- The requests of `waiting` that are older than `w`. -/
def olderThan (waiting : List ω) (w : ω) : List ω := waiting.filter fun a => decide (stamp a < stamp w)

/-- What a pass from `q` to `q'` has done. -/
structure PassSpec (q q' : State η ω) (granted : List ω) : Prop where
  held : q'.held = granted.map hold ++ q.held
  kept : q'.waiting.Sublist q.waiting
  taken : granted.reverse.Sublist q.waiting
  grant : ∀ w ∈ granted, judge (heldAt hold stamp q.held granted w) (olderThan stamp q'.waiting w) w = .grant
  wait : ∀ w ∈ q'.waiting, judge (heldAt hold stamp q.held granted w) (olderThan stamp q'.waiting w) w = .wait
  submitted : ∀ w, w ∈ granted ∨ w ∈ q'.waiting →
    (⟨heldAt hold stamp q.held granted w, olderThan stamp q'.waiting w⟩, w) ∈
      submissions judge hold q.waiting ⟨q.held, []⟩

end

variable {judge : List η → List ω → ω → Verdict} {hold : ω → η} {stamp : ω → Nat}

theorem mem_olderThan {ws : List ω} {a w : ω} : a ∈ olderThan stamp ws w ↔ a ∈ ws ∧ stamp a < stamp w := by
  rw [olderThan, mem_filter, decide_eq_true_eq]

theorem heldAt_subset {held : List η} {granted : List ω} (w : ω) :
    heldAt hold stamp held granted w ⊆ granted.map hold ++ held := by
  intro h hh
  rcases mem_append.mp hh with hh | hh
  · obtain ⟨g, hg, rfl⟩ := mem_map.mp hh
    exact mem_append_left _ (mem_map_of_mem (mem_filter.mp hg).1)
  · exact mem_append_right _ hh

/-- The loop, from the middle of a pass: `new` is what it grants of `ws` and `kept` what it requeues. -/
theorem retry_spec : ∀ {ws : List ω} (q : State η ω) (g : List ω), ws.Pairwise (fun a b => stamp a < stamp b) →
    ∃ new kept, retry judge hold ws q g = (⟨new.map hold ++ q.held, q.waiting ++ kept⟩, new ++ g) ∧
      kept.Sublist ws ∧ new.reverse.Sublist ws ∧ ∀ v w, v = .grant ∧ w ∈ new ∨ v = .wait ∧ w ∈ kept →
        judge (heldAt hold stamp q.held new w) (q.waiting ++ olderThan stamp kept w) w = v ∧
        (⟨heldAt hold stamp q.held new w, q.waiting ++ olderThan stamp kept w⟩, w) ∈ submissions judge hold ws q := by
  intro ws
  induction ws with
  | nil =>
    intro q g _
    exact ⟨[], [], by simp [retry], List.Sublist.refl _, List.Sublist.refl _, by simp⟩
  | cons w ws ih =>
    intro q g hws
    obtain ⟨hw, hws⟩ := pairwise_cons.mp hws
    -- nothing in the loop is older than `w`, which is judged against the lists as the loop found them
    have hfst : ∀ (new kept : List ω), new ⊆ w :: ws → kept ⊆ w :: ws →
        heldAt hold stamp q.held new w = q.held ∧ q.waiting ++ olderThan stamp kept w = q.waiting := by
      intro new kept hnew hkept
      have hnone : ∀ {xs : List ω}, xs ⊆ w :: ws → (xs.filter fun x => decide (stamp x < stamp w)) = [] := by
        intro xs hsub
        rw [filter_eq_nil_iff]
        intro x hx
        rcases mem_cons.mp (hsub hx) with rfl | hx'
        · simp
        have hlt := hw x hx'
        simp only [decide_eq_true_eq]
        omega
      rw [heldAt, olderThan, hnone hnew, hnone hkept]
      simp
    cases hj : judge q.held q.waiting w with
    | grant =>
      obtain ⟨new, kept, heq, hk, hn, hall⟩ := ih ⟨hold w :: q.held, q.waiting⟩ (w :: g) hws
      have hnsub : new ⊆ ws := fun x hx => hn.subset (mem_reverse.mpr hx)
      -- an older `w` is part of what is held when `x` is judged
      have hheld : ∀ x ∈ ws, heldAt hold stamp q.held (new ++ [w]) x = heldAt hold stamp (hold w :: q.held) new x := by
        intro x hx
        have hlt := hw x hx
        simp [heldAt, hlt]
      have hnew : new ++ [w] ⊆ w :: ws := by
        intro x hx
        rcases mem_append.mp hx with hx | hx
        · exact mem_cons_of_mem _ (hnsub hx)
        rw [mem_singleton.mp hx]
        exact mem_cons_self
      have hself := hfst (new ++ [w]) kept hnew (fun x hx => mem_cons_of_mem _ (hk.subset hx))
      refine ⟨new ++ [w], kept, ?_, hk.cons w, ?_, ?_⟩
      · rw [retry, hj]
        simp only [heq, map_append, map_cons, map_nil, append_assoc, singleton_append]
      · rw [reverse_append]
        exact hn.cons_cons w
      intro v x hx
      rw [submissions, submit, hj]
      have hcases : (v = .grant ∧ x ∈ new ∨ v = .wait ∧ x ∈ kept) ∨ v = .grant ∧ x = w := by
        rw [mem_append, mem_singleton] at hx
        tauto
      rcases hcases with hin | ⟨rfl, rfl⟩
      · rw [hheld x (hin.elim (fun h => hnsub h.2) fun h => hk.subset h.2)]
        exact (hall v x hin).imp_right (mem_cons_of_mem _)
      rw [hself.1, hself.2]
      exact ⟨hj, mem_cons_self⟩
    | wait =>
      obtain ⟨new, kept, heq, hk, hn, hall⟩ := ih ⟨q.held, q.waiting ++ [w]⟩ g hws
      have hnsub : new ⊆ ws := fun x hx => hn.subset (mem_reverse.mpr hx)
      -- an older `w` is part of the queue when `x` is judged
      have holder : ∀ x ∈ ws, q.waiting ++ olderThan stamp (w :: kept) x =
          (q.waiting ++ [w]) ++ olderThan stamp kept x := by
        intro x hx
        have hlt := hw x hx
        simp [olderThan, hlt]
      have hself := hfst new (w :: kept) (fun x hx => mem_cons_of_mem _ (hnsub hx))
        (cons_subset_cons w hk.subset)
      refine ⟨new, w :: kept, ?_, hk.cons_cons w, hn.cons w, ?_⟩
      · rw [retry, hj]
        simp only [heq, append_assoc, singleton_append]
      intro v x hx
      rw [submissions, submit, hj]
      have hcases : (v = .grant ∧ x ∈ new ∨ v = .wait ∧ x ∈ kept) ∨ v = .wait ∧ x = w := by
        rw [mem_cons] at hx
        tauto
      rcases hcases with hin | ⟨rfl, rfl⟩
      · rw [holder x (hin.elim (fun h => hnsub h.2) fun h => hk.subset h.2)]
        exact (hall v x hin).imp_right (mem_cons_of_mem _)
      rw [hself.1, hself.2]
      exact ⟨hj, mem_cons_self⟩
    | drop =>
      obtain ⟨new, kept, heq, hk, hn, hall⟩ := ih q g hws
      refine ⟨new, kept, by rw [retry, hj]; exact heq, hk.cons w, hn.cons w, ?_⟩
      intro v x hx
      rw [submissions, submit, hj]
      exact (hall v x hx).imp_right (mem_cons_of_mem _)

variable {q : State η ω}

/-- **A pass, as a relation.** -/
theorem pass_spec (hq : q.waiting.Pairwise fun a b => stamp a < stamp b) :
    PassSpec judge hold stamp q (pass judge hold q).1 (pass judge hold q).2 := by
  obtain ⟨new, kept, heq, hk, hn, hall⟩ := retry_spec ⟨q.held, []⟩ [] hq
  have hpass : pass judge hold q = (⟨new.map hold ++ q.held, kept⟩, new) := by
    rw [pass, heq]
    simp
  rw [hpass]
  refine ⟨rfl, hk, hn, fun w hw => (hall _ w (.inl ⟨rfl, hw⟩)).1, fun w hw => (hall _ w (.inr ⟨rfl, hw⟩)).1, ?_⟩
  rintro w (hw | hw)
  · exact (hall _ w (.inl ⟨rfl, hw⟩)).2
  · exact (hall _ w (.inr ⟨rfl, hw⟩)).2

/-! ## Held locks and nothing lost -/

theorem retry_held {P : List η → Prop}
    (hgrant : ∀ held waiting w, P held → judge held waiting w = .grant → P (hold w :: held)) :
    ∀ {ws : List ω} {q : State η ω} {g : List ω}, P q.held → P (retry judge hold ws q g).1.held := by
  intro ws
  induction ws with
  | nil =>
    intro q g hq
    exact hq
  | cons w ws ih =>
    intro q g hq
    rw [retry]
    cases hj : judge q.held q.waiting w with
    | grant => exact ih (hgrant _ _ _ hq hj)
    | wait | drop => exact ih hq

theorem pass_held {P : List η → Prop}
    (hgrant : ∀ held waiting w, P held → judge held waiting w = .grant → P (hold w :: held))
    (hq : P q.held) : P (pass judge hold q).1.held := retry_held hgrant (q := ⟨q.held, []⟩) hq

theorem pass_grows (q : State η ω) : q.held.Sublist (pass judge hold q).1.held := by
  apply pass_held (P := fun held => q.held.Sublist held)
  · intro held waiting w hsub _
    exact hsub.cons _
  · exact List.Sublist.refl _

theorem retry_idle : ∀ {ws : List ω} {q : State η ω} {g : List ω},
    (∀ pre w post, ws = pre ++ w :: post → judge q.held (q.waiting ++ pre) w = .wait) →
    retry judge hold ws q g = (⟨q.held, q.waiting ++ ws⟩, g) := by
  intro ws
  induction ws with
  | nil =>
    intro q g _
    rw [retry, append_nil]
  | cons w ws ih =>
    intro q g hwait
    have hw : judge q.held q.waiting w = .wait := by
      have h := hwait [] w ws rfl
      rwa [append_nil] at h
    rw [retry, hw]
    dsimp only
    rw [ih, append_assoc, singleton_append]
    intro pre v post hsplit
    have h := hwait (w :: pre) v post (by rw [hsplit, cons_append])
    rwa [append_assoc, singleton_append]

theorem pass_idle (hwait : ∀ pre w post, q.waiting = pre ++ w :: post → judge q.held pre w = .wait) :
    pass judge hold q = (q, []) := retry_idle (q := ⟨q.held, []⟩) hwait

/-- When no request is dropped, each one is granted or waits again, and never both. -/
theorem retry_perm (hdrop : ∀ held waiting w, judge held waiting w ≠ .drop) :
    ∀ (ws : List ω) (q : State η ω) (g : List ω),
      ((retry judge hold ws q g).2 ++ (retry judge hold ws q g).1.waiting).Perm (g ++ q.waiting ++ ws) := by
  intro ws
  induction ws with
  | nil =>
    intro q g
    simp [retry]
  | cons w ws ih =>
    intro q g
    rw [retry]
    cases hj : judge q.held q.waiting w with
    | grant =>
      have hmiddle : (w :: g ++ q.waiting ++ ws).Perm (g ++ q.waiting ++ w :: ws) :=
        perm_middle.symm
      exact (ih ⟨hold w :: q.held, q.waiting⟩ (w :: g)).trans hmiddle
    | wait =>
      have hassoc : g ++ (q.waiting ++ [w]) ++ ws = g ++ q.waiting ++ w :: ws := by simp
      rw [← hassoc]
      exact ih ⟨q.held, q.waiting ++ [w]⟩ g
    | drop => exact absurd hj (hdrop _ _ _)

theorem pass_perm (hdrop : ∀ held waiting w, judge held waiting w ≠ .drop) :
    ((pass judge hold q).2 ++ (pass judge hold q).1.waiting).Perm q.waiting :=
  retry_perm hdrop q.waiting ⟨q.held, []⟩ []

/-- What is held after a loop was held before or has been granted in it, and what waits or was granted was there
    already. -/
theorem retry_mem (judge : List η → List ω → ω → Verdict) (hold : ω → η) : ∀ (ws : List ω) (q : State η ω) (g : List ω),
    (∀ h ∈ (retry judge hold ws q g).1.held, h ∈ q.held ∨ ∃ w ∈ (retry judge hold ws q g).2, h = hold w) ∧
      (∀ w ∈ (retry judge hold ws q g).1.waiting, w ∈ q.waiting ∨ w ∈ ws) ∧
      g ⊆ (retry judge hold ws q g).2 ∧ ∀ w ∈ (retry judge hold ws q g).2, w ∈ g ∨ w ∈ ws := by
  intro ws
  induction ws with
  | nil =>
    intro q g
    exact ⟨fun h hh => .inl hh, fun w hw => .inl hw, List.Subset.refl g, fun w hw => .inl hw⟩
  | cons w ws ih =>
    intro q g
    rw [retry]
    cases hj : judge q.held q.waiting w with
    | grant =>
      obtain ⟨hheld, hwait, hsub, hgrant⟩ := ih ⟨hold w :: q.held, q.waiting⟩ (w :: g)
      refine ⟨?_, fun v hv => (hwait v hv).imp_right (mem_cons_of_mem w),
        fun v hv => hsub (mem_cons_of_mem w hv), ?_⟩
      · intro h hh
        rcases hheld h hh with hin | hin
        · rcases mem_cons.mp hin with rfl | hin
          · exact .inr ⟨w, hsub mem_cons_self, rfl⟩
          · exact .inl hin
        · exact .inr hin
      intro v hv
      rcases hgrant v hv with hin | hin
      · rcases mem_cons.mp hin with rfl | hin
        · exact .inr mem_cons_self
        · exact .inl hin
      · exact .inr (mem_cons_of_mem w hin)
    | wait =>
      obtain ⟨hheld, hwait, hsub, hgrant⟩ := ih ⟨q.held, q.waiting ++ [w]⟩ g
      refine ⟨hheld, ?_, hsub, fun v hv => (hgrant v hv).imp_right (mem_cons_of_mem w)⟩
      intro v hv
      rcases hwait v hv with hin | hin
      · rcases mem_append.mp hin with hin | hin
        · exact .inl hin
        · exact .inr (mem_singleton.mp hin ▸ mem_cons_self)
      · exact .inr (mem_cons_of_mem w hin)
    | drop =>
      obtain ⟨hheld, hwait, hsub, hgrant⟩ := ih q g
      exact ⟨hheld, fun v hv => (hwait v hv).imp_right (mem_cons_of_mem w), hsub,
        fun v hv => (hgrant v hv).imp_right (mem_cons_of_mem w)⟩

theorem pass_mem (judge : List η → List ω → ω → Verdict) (hold : ω → η) (q : State η ω) :
    (∀ h ∈ (pass judge hold q).1.held, h ∈ q.held ∨ ∃ w ∈ (pass judge hold q).2, h = hold w) ∧
      (∀ w ∈ (pass judge hold q).1.waiting, w ∈ q.waiting) ∧ ∀ w ∈ (pass judge hold q).2, w ∈ q.waiting := by
  obtain ⟨hheld, hwait, -, hgrant⟩ := retry_mem judge hold q.waiting ⟨q.held, []⟩ []
  exact ⟨hheld, fun w hw => (hwait w hw).resolve_left not_mem_nil,
    fun w hw => (hgrant w hw).resolve_left not_mem_nil⟩

theorem retry_map {η' : Type u} (judge : List η → List ω → ω → Verdict) (f : η' → η) {hold' : ω → η'}
    (hf : ∀ w, f (hold' w) = hold w) : ∀ (ws : List ω) (held : List η') (waiting g : List ω),
      retry judge hold ws ⟨held.map f, waiting⟩ g =
        (⟨(retry (fun held => judge (held.map f)) hold' ws ⟨held, waiting⟩ g).1.held.map f,
          (retry (fun held => judge (held.map f)) hold' ws ⟨held, waiting⟩ g).1.waiting⟩,
          (retry (fun held => judge (held.map f)) hold' ws ⟨held, waiting⟩ g).2) := by
  intro ws
  induction ws with
  | nil =>
    intro held waiting g
    rfl
  | cons w ws ih =>
    intro held waiting g
    rw [retry, retry]
    cases hj : judge (held.map f) waiting w with
    | grant =>
      simp only []
      rw [← hf w, ← map_cons]
      exact ih (hold' w :: held) waiting (w :: g)
    | wait => exact ih held (waiting ++ [w]) g
    | drop => exact ih held waiting g

theorem pass_map {η' : Type u} (judge : List η → List ω → ω → Verdict) (f : η' → η) {hold' : ω → η'}
    (hf : ∀ w, f (hold' w) = hold w) (held : List η') (waiting : List ω) :
    (pass judge hold ⟨held.map f, waiting⟩).1.held =
        (pass (fun held => judge (held.map f)) hold' ⟨held, waiting⟩).1.held.map f ∧
      (pass judge hold ⟨held.map f, waiting⟩).2 = (pass (fun held => judge (held.map f)) hold' ⟨held, waiting⟩).2 := by
  have hmap := retry_map judge f hf waiting held [] []
  exact ⟨congrArg (fun r => r.1.held) hmap, congrArg (fun r => r.2) hmap⟩

/-! ## Stamps -/

/-- The stamps increase along the queue and are all below `n`. -/
structure Stamped (stamp : ω → Nat) (n : Nat) (ws : List ω) : Prop where
  increasing : ws.Pairwise fun a b => stamp a < stamp b
  below : ∀ w ∈ ws, stamp w < n

theorem Stamped.nil {n : Nat} : Stamped stamp n [] := ⟨List.Pairwise.nil, by simp⟩

theorem Stamped.mono {n m : Nat} {ws : List ω} (h : Stamped stamp n ws) (hnm : n ≤ m) :
    Stamped stamp m ws := ⟨h.increasing, fun w hw => Nat.lt_of_lt_of_le (h.below w hw) hnm⟩

theorem Stamped.sublist {n : Nat} {ws ws' : List ω} (h : Stamped stamp n ws) (hs : ws'.Sublist ws) :
    Stamped stamp n ws' := ⟨h.increasing.sublist hs, fun w hw => h.below w (hs.subset hw)⟩

theorem Stamped.queue {n : Nat} {ws : List ω} {w : ω} (h : Stamped stamp n ws) (hw : stamp w = n) :
    Stamped stamp (n + 1) (ws ++ [w]) := by
  constructor
  · rw [pairwise_append]
    refine ⟨h.increasing, pairwise_singleton _ _, ?_⟩
    intro a ha b hb
    rw [mem_singleton.mp hb, hw]
    exact h.below a ha
  intro x hx
  rcases mem_append.mp hx with hx | hx
  · exact Nat.lt_succ_of_lt (h.below x hx)
  rw [mem_singleton.mp hx, hw]
  exact Nat.lt_succ_self n

end WaitQueue
