import GlusterFS.Lib.History
import GlusterFS.Lib.Run
import Mathlib.Data.List.DropRight

/-!
# `Common.Timer` — the timers of a process

Events wait on `active`, the first one due in front. The timer thread moves an event that is due to `stale` under the
lock of the registry, and calls it back after the lock is released. `gf_timer_call_cancel` unlinks an event and frees
it, but cannot know that the timer thread has it in its hand.
-/

namespace GlusterFS.Common

open History Transition List

/-- `struct timeval`. -/
structure Timeval where
  sec : Nat
  usec : Nat
  deriving DecidableEq

def Timeval.ts (tv : Timeval) : Nat := tv.sec * 1000000 + tv.usec

/-- `gf_timer_t`; the number stands for its address, and no address is used twice. -/
structure Timer where
  id : Nat
  due : Timeval
  deriving DecidableEq

/-- What happens to an event; one that is cancelled may be waiting still. -/
inductive TimerEvent where
  | started (id : Nat)
  | cancelled (id : Nat) (waiting : Bool)
  deriving DecidableEq

/-- `gf_timer_registry_t`, the event the timer thread has picked and not called yet, and what happened, last first. -/
structure Registry where
  active : List Timer := []
  stale : List Timer := []
  next : Nat := 0
  picked : Option Nat := none
  log : List TimerEvent := []
  deriving DecidableEq

inductive TimerAction where
  | callAfter (now delta : Timeval)
  | cancel (id : Nat)
  | pick (now : Timeval)
  | call
  deriving DecidableEq

/-- When the event is due. The seconds are carried from microseconds that are wrapped already. -/
def dueAfter (now delta : Timeval) : Timeval :=
  let usec := (now.usec + delta.usec) % 1000000
  ⟨now.sec + (usec + delta.usec) / 1000000 + delta.sec, usec⟩

/-- The event is put behind the last one that is due before it. -/
def linkTimer (active : List Timer) (event : Timer) : List Timer :=
  let later (trav : Timer) : Bool := event.due.ts ≤ trav.due.ts
  active.rdropWhile later ++ event :: active.rtakeWhile later

/-- `gf_timer_call_after`, `gf_timer_call_cancel`, and the two halves of a turn of `gf_timer_proc`. -/
def timerStep (s : Registry) : TimerAction → Except Unit Registry
  | .callAfter now delta =>
    .ok { s with active := linkTimer s.active ⟨s.next, dueAfter now delta⟩, next := s.next + 1 }
  | .cancel id =>
    if id ∈ (s.active ++ s.stale).map Timer.id then
      .ok { s with active := s.active.filter (·.id ≠ id), stale := s.stale.filter (·.id ≠ id),
                   log := .cancelled id (id ∈ s.active.map Timer.id) :: s.log }
    else .error ()
  | .pick now =>
    match s.picked, s.active with
    | none, event :: active =>
      if event.due.ts ≤ now.ts then .ok { s with active, stale := s.stale ++ [event], picked := some event.id }
      else .ok s
    | none, [] => .ok s
    | some _, _ => .error ()
  | .call =>
    match s.picked with
    | some id => .ok { s with picked := none, log := .started id :: s.log }
    | none => .error ()

/-- No event is started that was cancelled before, and one that was waiting when it was cancelled is never started. -/
def CancelFinal (log : List TimerEvent) : Prop :=
  Each (fun e earlier => ∀ id waiting, (e = .started id → .cancelled id waiting ∉ earlier) ∧
    (e = .cancelled id true → .started id ∉ earlier)) log

/-- The event the timer thread has in its hand is not cancelled. -/
def NotInHand (s : Registry) (a : TimerAction) : Prop := ∀ id ∈ s.picked, a ≠ .cancel id
deriving Decidable

theorem linkTimer_perm (active : List Timer) (event : Timer) : (linkTimer active event).Perm (event :: active) := by
  refine perm_middle.trans (.cons _ ?_)
  rw [rdropWhile, rtakeWhile, ← reverse_append, takeWhile_append_dropWhile, reverse_reverse]

/-- What holds of the registry at any time. -/
structure Registry.Sound (s : Registry) : Prop where
  ids : (s.active.map Timer.id).Nodup
  below : ∀ t ∈ s.active ++ s.stale, t.id < s.next
  begun : ∀ id, .started id ∈ s.log ∨ s.picked = some id → id < s.next ∧ id ∉ s.active.map Timer.id
  gone : ∀ id w, .cancelled id w ∈ s.log → id < s.next ∧ id ∉ s.active.map Timer.id ∧ s.picked ≠ some id
  final : CancelFinal s.log

/-- **One step** that does not cancel the event in the hand of the timer thread. -/
theorem timerStep_sound {s s' : Registry} {a : TimerAction} (hs : s.Sound) (hcond : NotInHand s a)
    (h : timerStep s a = .ok s') : s'.Sound := by
  have ⟨hids, hbelow, hbegun, hgone, hfinal⟩ := hs
  cases a with
  | callAfter now delta =>
    cases h
    have hperm := linkTimer_perm s.active ⟨s.next, dueAfter now delta⟩
    have hmem := fun t => hperm.mem_iff (a := t)
    exact ⟨(hperm.map _).nodup_iff.mpr (by grind), by grind, by grind, by grind, hfinal⟩
  | cancel id =>
    simp only [timerStep] at h
    split at h
    · cases h
      have hpicked : s.picked ≠ some id := fun h => hcond id h rfl
      exact ⟨hids.sublist (filter_sublist.map _), by grind, by grind, by grind, each_cons.mpr ⟨by grind, hfinal⟩⟩
    · cases h
  | pick now =>
    simp only [timerStep] at h
    split at h
    · split at h
      · cases h
        exact ⟨by grind, by grind, by grind, by grind, hfinal⟩
      cases h
      exact hs
    · cases h
      exact hs
    · cases h
  | call =>
    simp only [timerStep] at h
    split at h
    · cases h
      exact ⟨hids, hbelow, by grind, by grind, each_cons.mpr ⟨by grind, hfinal⟩⟩
    · cases h

/-- **Cancellation is final** in every run that cancels no event in the hand of the timer thread. -/
theorem cancelled_never_started (actions : List TimerAction) (s : Registry)
    (hcond : Along timerStep NotInHand {} actions) (hrun : run timerStep {} actions = .ok s) : CancelFinal s.log := by
  have hinit : Registry.Sound {} := ⟨by simp, by simp, by simp, by simp, each_nil⟩
  exact (run_invariant (fun _ _ _ => timerStep_sound) hinit hcond hrun).final

/-- An event is cancelled before it is due. -/
theorem cancel_before_due : ∃ s : Registry, CancelFinal s.log ∧ s.log = [.cancelled 0 true] :=
  ⟨⟨[], [], 1, none, [.cancelled 0 true]⟩, cancelled_never_started
    [.callAfter ⟨0, 0⟩ ⟨1, 0⟩, .cancel 0, .pick ⟨1, 0⟩] _ (by decide +kernel) (by decide +kernel), rfl⟩

/-- The callback starts after the cancellation has returned, and the event is freed. -/
theorem cancel_in_hand : ∃ s, run timerStep {} [.callAfter ⟨0, 0⟩ ⟨1, 0⟩, .pick ⟨1, 0⟩, .cancel 0, .call] = .ok s ∧
    ¬ CancelFinal s.log := by
  refine ⟨⟨[], [], 1, none, [.started 0, .cancelled 0 false]⟩, by decide +kernel, ?_⟩
  intro hfinal
  exact hfinal [] (.started 0) [.cancelled 0 false] rfl 0 false |>.1 rfl mem_cons_self

/-! ## Due times and order -/

theorem linkTimer_sorted {active : List Timer} (event : Timer) (h : active.Pairwise (·.due.ts ≤ ·.due.ts)) :
    (linkTimer active event).Pairwise (·.due.ts ≤ ·.due.ts) := by
  unfold linkTimer
  generalize hlater : (fun trav : Timer => decide (event.due.ts ≤ trav.due.ts)) = later
  have hsplit : active.rdropWhile later ++ active.rtakeWhile later = active := by
    rw [rdropWhile, rtakeWhile, ← reverse_append, takeWhile_append_dropWhile, reverse_reverse]
  rw [← hsplit, pairwise_append] at h
  obtain ⟨hfront, hback, hcross⟩ := h
  have hbehind : ∀ t ∈ active.rtakeWhile later, event.due.ts ≤ t.due.ts := by
    intro t ht
    simpa [← hlater] using mem_rtakeWhile_imp ht
  -- the last one in front is due before the event, and the others are due before it
  have hbefore : ∀ t ∈ active.rdropWhile later, t.due.ts ≤ event.due.ts := by
    intro t ht
    have hne := ne_nil_of_mem ht
    have hlast : ¬ event.due.ts ≤ ((active.rdropWhile later).getLast hne).due.ts := by
      simpa [← hlater] using rdropWhile_last_not later active hne
    have hle : t.due.ts ≤ ((active.rdropWhile later).getLast hne).due.ts := by
      rw [← dropLast_append_getLast hne, pairwise_append] at hfront
      rw [← dropLast_append_getLast hne, mem_append, mem_singleton] at ht
      rcases ht with ht | ht
      · exact hfront.2.2 t ht _ mem_cons_self
      · exact ht ▸ le_rfl
    omega
  refine pairwise_append.mpr ⟨hfront, pairwise_cons.mpr ⟨hbehind, hback⟩, ?_⟩
  intro a ha b hb
  rcases mem_cons.mp hb with rfl | hb
  · exact hbefore a ha
  · exact hcross a ha b hb

def TimerEvent.startedId : TimerEvent → Option Nat
  | .started id => some id
  | .cancelled _ _ => none

/-- The events that were started, the one that is about to be, and those that wait. -/
def Registry.fired (s : Registry) : List Nat :=
  s.log.filterMap TimerEvent.startedId ++ (s.picked.toList ++ s.active.map Timer.id)

structure Registry.Ordered (s : Registry) : Prop where
  sorted : s.active.Pairwise (·.due.ts ≤ ·.due.ts)
  once : s.fired.Nodup
  below : ∀ id ∈ s.fired, id < s.next

theorem timerStep_ordered {s s' : Registry} {a : TimerAction} (hs : s.Ordered) (h : timerStep s a = .ok s') :
    s'.Ordered := by
  have ⟨hsorted, honce, hbelow⟩ := hs
  cases a with
  | callAfter now delta =>
    cases h
    have hperm : (s.log.filterMap TimerEvent.startedId ++ (s.picked.toList ++
        (linkTimer s.active ⟨s.next, dueAfter now delta⟩).map Timer.id)).Perm (s.next :: s.fired) :=
      ((((linkTimer_perm _ _).map _).append_left _).append_left _).trans
        ((perm_middle.append_left _).trans perm_middle)
    refine ⟨linkTimer_sorted _ hsorted, hperm.nodup_iff.mpr (nodup_cons.mpr ⟨?_, honce⟩), ?_⟩
    · exact fun hmem => (hbelow _ hmem).false
    · intro id hid
      rcases mem_cons.mp (hperm.mem_iff.mp hid) with rfl | hid
      · exact Nat.lt_succ_self _
      · exact (hbelow id hid).trans (Nat.lt_succ_self _)
  | cancel id =>
    simp only [timerStep] at h
    split at h
    · cases h
      have hsub : (s.log.filterMap TimerEvent.startedId ++ (s.picked.toList ++
          (s.active.filter (·.id ≠ id)).map Timer.id)).Sublist s.fired :=
        ((filter_sublist.map _).append_left _).append_left _
      exact ⟨hsorted.filter _, honce.sublist hsub, fun i hi => hbelow i (hsub.subset hi)⟩
    · cases h
  | pick now =>
    simp only [timerStep] at h
    split at h
    next event active hpicked hactive =>
      split at h
      · cases h
        rw [hactive] at hsorted
        simp only [Registry.fired, hpicked, hactive] at honce hbelow
        exact ⟨hsorted.of_cons, honce, hbelow⟩
      cases h
      exact hs
    · cases h
      exact hs
    · cases h
  | call =>
    simp only [timerStep] at h
    split at h
    next id hpicked =>
      cases h
      have hperm : (id :: s.log.filterMap TimerEvent.startedId ++ s.active.map Timer.id).Perm s.fired := by
        unfold Registry.fired
        rw [hpicked]
        exact perm_middle.symm
      exact ⟨hsorted, hperm.nodup_iff.mpr honce, fun i hi => hbelow i (hperm.mem_iff.mp hi)⟩
    · cases h

/-- **Where an event comes from**: it was there before, or is registered with this step. -/
theorem timerStep_events {s s' : Registry} {a : TimerAction} (h : timerStep s a = .ok s') :
    s.next ≤ s'.next ∧ ∀ t ∈ s'.active ++ s'.stale, t ∈ s.active ++ s.stale ∨
      ∃ now delta, a = .callAfter now delta ∧ s.next < s'.next ∧ t = ⟨s.next, dueAfter now delta⟩ := by
  cases a with
  | callAfter now delta =>
    cases h
    refine ⟨Nat.le_succ _, ?_⟩
    intro t ht
    rcases mem_append.mp ht with ht | ht
    · rcases mem_cons.mp ((linkTimer_perm _ _).mem_iff.mp ht) with rfl | ht
      · exact .inr ⟨now, delta, rfl, Nat.lt_succ_self _, rfl⟩
      · exact .inl (mem_append_left _ ht)
    · exact .inl (mem_append_right _ ht)
  | cancel id =>
    simp only [timerStep] at h
    split at h
    · cases h
      exact ⟨le_rfl, fun t ht => .inl ((filter_sublist.append filter_sublist).subset ht)⟩
    · cases h
  | pick now =>
    simp only [timerStep] at h
    split at h
    next event active _ hactive =>
      split at h
      · cases h
        refine ⟨le_rfl, fun t ht => .inl ?_⟩
        rw [hactive]
        exact (append_assoc active s.stale [event] ▸ perm_append_singleton event _).subset ht
      cases h
      exact ⟨le_rfl, fun t ht => .inl ht⟩
    · cases h
      exact ⟨le_rfl, fun t ht => .inl ht⟩
    · cases h
  | call =>
    simp only [timerStep] at h
    split at h
    · cases h
      exact ⟨le_rfl, fun t ht => .inl ht⟩
    · cases h

/-- Wrapping the microseconds before they are carried makes no difference. -/
def CarriesRight (now delta : Timeval) : Prop :=
  now.usec + 2 * (delta.usec % 1000000) < 1000000 ∨ 2000000 ≤ now.usec + 2 * (delta.usec % 1000000)
deriving Decidable

theorem dueAfter_ts_iff {now delta : Timeval} (hnow : now.usec < 1000000) :
    (dueAfter now delta).ts = now.ts + delta.ts ↔ CarriesRight now delta := by
  simp only [dueAfter, Timeval.ts, CarriesRight]
  omega

theorem run_events {s s' : Registry} {actions : List TimerAction} (hrun : run timerStep s actions = .ok s') :
    s.next ≤ s'.next ∧ ∀ t ∈ s'.active ++ s'.stale, t ∈ s.active ++ s.stale ∨ s.next ≤ t.id ∧ t.id < s'.next := by
  refine run_invariant_all (I := fun s' => s.next ≤ s'.next ∧ ∀ t ∈ s'.active ++ s'.stale,
    t ∈ s.active ++ s.stale ∨ s.next ≤ t.id ∧ t.id < s'.next) ?_ ⟨le_rfl, fun t ht => .inl ht⟩ hrun
  intro s₁ a s₂ ⟨hle, hold⟩ hstep
  obtain ⟨hle', hnew⟩ := timerStep_events hstep
  refine ⟨hle.trans hle', ?_⟩
  intro t ht
  rcases hnew t ht with ht | ⟨now, delta, -, hlt, rfl⟩
  · exact (hold t ht).imp id fun h => ⟨h.1, h.2.trans_le hle'⟩
  · exact .inr ⟨hle, hlt⟩

/-- **Timers in every run.** The list is sorted, no event is started twice, and the timer thread takes an event that is
    due and before which none is due. The due time is the one asked for exactly if the carry is right. -/
theorem timers_in_order (actions : List TimerAction) (s : Registry) (hrun : run timerStep {} actions = .ok s) :
    (∀ pre now delta post s₀, actions = pre ++ .callAfter now delta :: post → run timerStep {} pre = .ok s₀ →
      now.usec < 1000000 → ∀ t ∈ s.active ++ s.stale, t.id = s₀.next →
        (t.due.ts = now.ts + delta.ts ↔ CarriesRight now delta)) ∧
    s.active.Pairwise (·.due.ts ≤ ·.due.ts) ∧ (s.log.filterMap TimerEvent.startedId).Nodup ∧
    ∀ now s' id, timerStep s (.pick now) = .ok s' → s'.picked = some id →
      ∃ t ∈ s.active, t.id = id ∧ t.due.ts ≤ now.ts ∧ ∀ u ∈ s.active, t.due.ts ≤ u.due.ts := by
  have hinit : Registry.Ordered {} := ⟨Pairwise.nil, Pairwise.nil, nofun⟩
  have hord := run_invariant_all (fun _ _ _ => timerStep_ordered) hinit hrun
  refine ⟨?_, hord.sorted, (nodup_append.mp hord.once).1, ?_⟩
  · rintro pre now delta post s₀ rfl hpre hnow t ht hid
    obtain ⟨s₁, hpre', hpost⟩ := run_append_ok.mp hrun
    obtain rfl : s₀ = s₁ := Except.ok.inj (hpre.symm.trans hpre')
    obtain ⟨s₂, hcall, hrest⟩ := run_cons_ok.mp hpost
    cases hcall
    -- the event was registered by this call: those from before have smaller numbers, those from after greater ones
    have hnew : t = ⟨s₀.next, dueAfter now delta⟩ := by
      have hmem := (linkTimer_perm s₀.active ⟨s₀.next, dueAfter now delta⟩).mem_iff (a := t)
      have hafter := (run_events hrest).2 t ht
      have hbefore := (run_events hpre).2 t
      grind
    rw [hnew]
    exact dueAfter_ts_iff hnow
  · intro now s' id hstep hid
    simp only [timerStep] at hstep
    split at hstep
    next event active hpicked hactive =>
      split at hstep
      next hdue =>
        cases hstep
        obtain rfl : event.id = id := Option.some.inj hid
        have hfirst := pairwise_cons.mp (hactive ▸ hord.sorted)
        rw [hactive]
        refine ⟨event, mem_cons_self, rfl, hdue, ?_⟩
        exact fun u hu => (mem_cons.mp hu).elim (fun h => h ▸ le_rfl) (hfirst.1 u)
      cases hstep
      rw [hpicked] at hid
      cases hid
    next hpicked _ =>
      cases hstep
      rw [hpicked] at hid
      cases hid
    · cases hstep

/-- An event of 0.4 s and then one of 0.3 s. -/
theorem short_timers_in_order : ∃ s : Registry, s.active.Pairwise (·.due.ts ≤ ·.due.ts) ∧
    s.active.map (·.due.ts) = [300000, 400000] :=
  ⟨⟨[⟨1, ⟨0, 300000⟩⟩, ⟨0, ⟨0, 400000⟩⟩], [], 2, none, []⟩, (timers_in_order
    [.callAfter ⟨0, 0⟩ ⟨0, 400000⟩, .callAfter ⟨0, 0⟩ ⟨0, 300000⟩] _ (by decide +kernel)).2.1,
    by simp [Timeval.ts]⟩

/-- An event of 0.6 s is due after 1.6 s. -/
theorem timer_a_second_late : run timerStep {} [.callAfter ⟨0, 0⟩ ⟨0, 600000⟩] =
    .ok { active := [⟨0, ⟨1, 600000⟩⟩], next := 1 } := by
  decide +kernel

end GlusterFS.Common
