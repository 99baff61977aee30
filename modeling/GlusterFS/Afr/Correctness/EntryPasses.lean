import GlusterFS.Afr.SelfHeal.Entry

/-!
# `Afr.Correctness.EntryPasses` — the two loops of an entry self-heal come to their end

The heal goes from one directory to the next when a `readdir` says that there is nothing more, or fails, and from
one batch to the next when the counts of calls and frames are down to zero. `Ordered` says where in this order a
heal is: the directories before the one being read have all been read to an end, and the counts are the numbers of
what is still out. It holds whatever the children answer.
-/

namespace GlusterFS.Afr.EntryHeal

open GlusterFS.Storage
open Transition
open List

variable {n : Nat} {cfg : Config n} {s s' : State n}

variable {a : Action n} {current : Option (Fin n)} {c i sink : Fin n} {fr : ImpungeFrame n} {f off : Nat}
  {call : Impunge} {name : String} {pass : Pass}

/-! ## The steps -/

/-- Every step is one of the callbacks, in the phase that waits for it. -/
theorem step_cases (h : step cfg s a = .ok s') :
    (∃ pending i ok, s.phase = .opening pending ∧ pending i = true ∧ s' = opendirCbk cfg s pending i ok) ∨
    (∃ src off count ok, s.phase = .impungeRead src off ∧ s' = impungeReaddirCbk cfg s src off count ok) ∨
    (∃ src off callCount frames f fr i call ok pos, s.phase = .impunge src off callCount frames ∧
      frames[f]? = some fr ∧ fr.calls i = some call ∧ s' = impungeCbk s src off callCount frames f fr i call ok pos) ∨
    (∃ sink off count ok, s.phase = .expungeRead sink off ∧ s' = expungeReaddirCbk cfg s sink off count ok) ∨
    (∃ src sink off callCount frames f name call ok cached pos, cfg.source = some src ∧
      s.phase = .expunge sink off callCount frames ∧ frames[f]? = some ⟨name, some call⟩ ∧
      s' = expungeCbk cfg s src sink off callCount frames f name call ok cached pos) := by
  cases a with
  | opendir i ok =>
    simp only [step] at h
    split at h
    · rename_i pending hph
      split at h
      · rename_i hi
        exact .inl ⟨pending, i, ok, hph, hi, (Except.ok.inj h).symm⟩
      · cases h
    · cases h
  | readdir count ok =>
    simp only [step] at h
    split at h
    · rename_i src off hph
      exact .inr (.inl ⟨src, off, count, ok, hph, (Except.ok.inj h).symm⟩)
    · rename_i sink off hph
      exact .inr (.inr (.inr (.inl ⟨sink, off, count, ok, hph, (Except.ok.inj h).symm⟩)))
    · cases h
  | impunge f i ok pos =>
    simp only [step] at h
    split at h
    · rename_i src off callCount frames hph
      split at h
      · cases h
      · rename_i fr hf
        split at h
        · cases h
        · rename_i call hcall
          exact .inr (.inr (.inl ⟨src, off, callCount, frames, f, fr, i, call, ok, pos, hph, hf, hcall,
            (Except.ok.inj h).symm⟩))
    · cases h
  | expunge f ok cached pos =>
    simp only [step] at h
    split at h
    · rename_i sink off callCount frames src hph hsrc
      split at h
      · rename_i name call hf
        exact .inr (.inr (.inr (.inr ⟨src, sink, off, callCount, frames, f, name, call, ok, cached, pos, hsrc,
          hph, hf, (Except.ok.inj h).symm⟩)))
      · cases h
    · cases h

/-- Only the phase changes, and the counters if it is the last one. -/
structure PhaseOnly (s s' : State n) : Prop where
  log : s'.log = s.log
  opFailed : s'.opFailed = s.opFailed
  dirs : s'.dirs = s.dirs
  store : s'.phase ≠ .erased → s'.store = s.store

theorem State.goto_phaseOnly (s : State n) (phase : Phase n) : PhaseOnly s (s.goto phase) :=
  ⟨rfl, rfl, rfl, fun _ => rfl⟩

theorem erasePending_phaseOnly (cfg : Config n) (s : State n) : PhaseOnly s (erasePending cfg s) :=
  ⟨rfl, rfl, rfl, fun h => absurd rfl h⟩

theorem expungeAll_phaseOnly (cfg : Config n) (s : State n) (current : Option (Fin n)) :
    PhaseOnly s (expungeAll cfg s current) := by
  unfold expungeAll
  split
  · exact erasePending_phaseOnly cfg s
  split
  · exact erasePending_phaseOnly cfg s
  split
  · exact erasePending_phaseOnly cfg s
  · exact s.goto_phaseOnly _

theorem impungeAll_phaseOnly (cfg : Config n) (s : State n) (current : Option (Fin n)) :
    PhaseOnly s (impungeAll cfg s current) := by
  unfold impungeAll
  split
  · exact s.goto_phaseOnly _
  split
  · exact expungeAll_phaseOnly cfg s none
  · exact s.goto_phaseOnly _

theorem readdirCbk_cases (cfg : Config n) (s : State n) (i : Fin n) (off count : Nat) (ok : Bool) :
    ((∃ r, (r = .failed ∨ r = .complete ∧ ∀ e ∈ (s.dirs i).slots, e.pos < off) ∧
      impungeReaddirCbk cfg s i off count ok = impungeAll cfg (s.heard (.readdir .impunge i r)) (some i)) ∨
    (∃ batch, batch = (s.dirs i).readFrom off (count + 1) ∧
      (batch.filterMap (impungeEntry cfg i) = [] ∧ impungeReaddirCbk cfg s i off count ok =
          (s.heard (.readdir .impunge i .batch)).goto (.impungeRead i (Listing.nextOffset off batch)) ∨
        impungeReaddirCbk cfg s i off count ok = (s.heard (.readdir .impunge i .batch)).goto
          (.impunge i (Listing.nextOffset off batch) (batch.filterMap (impungeEntry cfg i)).length
            (batch.filterMap (impungeEntry cfg i)))))) ∧
    ((∃ r, (r = .failed ∨ r = .complete ∧ ∀ e ∈ (s.dirs i).slots, e.pos < off) ∧
      expungeReaddirCbk cfg s i off count ok = expungeAll cfg (s.heard (.readdir .expunge i r)) (some i)) ∨
    (∃ batch, batch = (s.dirs i).readFrom off (count + 1) ∧
      (batch.filterMap (expungeEntry cfg) = [] ∧ expungeReaddirCbk cfg s i off count ok =
          (s.heard (.readdir .expunge i .batch)).goto (.expungeRead i (Listing.nextOffset off batch)) ∨
        expungeReaddirCbk cfg s i off count ok = (s.heard (.readdir .expunge i .batch)).goto
          (.expunge i (Listing.nextOffset off batch) (batch.filterMap (expungeEntry cfg)).length
            (batch.filterMap (expungeEntry cfg)))))) := by
  unfold impungeReaddirCbk expungeReaddirCbk
  constructor
  all_goals
    split
    · exact .inl ⟨.failed, .inl rfl, rfl⟩
    simp only
    split
    · rename_i hnil
      refine .inl ⟨.complete, .inr ⟨rfl, ?_⟩, rfl⟩
      intro e he
      exact Listing.Table.behind_of_readFrom_nil (Nat.succ_pos count) (isEmpty_iff.mp hnil) he
    refine .inr ⟨_, rfl, ?_⟩
    split
    · rename_i hlen
      exact .inl ⟨length_eq_zero_iff.mp hlen, rfl⟩
    · exact .inr rfl

/-! ## The next child -/

theorem nextActiveSink_some (h : nextActiveSink cfg current = some c) :
    cfg.sink c = true ∧ ∀ j, cfg.sink j = true → j < c → ∃ p, current = some p ∧ j ≤ p := by
  obtain ⟨hc, pre, post, heq, hpre⟩ := find?_eq_some_iff_append.mp h
  rw [Bool.and_eq_true] at hc
  refine ⟨hc.1, ?_⟩
  intro j hsink hlt
  -- `finRange` is in order, so `j` was tried before `c`
  have hsort := pairwise_lt_finRange n
  rw [heq] at hsort
  have hj : j ∈ pre ++ c :: post := heq ▸ mem_finRange j
  have hjpre : j ∈ pre := by
    rcases mem_append.mp hj with hj | hj
    · exact hj
    exfalso
    rcases mem_cons.mp hj with rfl | hj
    · exact lt_irrefl _ hlt
    have := (pairwise_cons.mp (pairwise_append.mp hsort).2.1).1 j hj
    exact absurd hlt (not_lt.mpr this.le)
  have hfail := hpre j hjpre
  rw [hsink, Bool.true_and] at hfail
  cases current with
  | none => simp at hfail
  | some p => exact ⟨p, rfl, by simpa using hfail⟩

theorem nextActiveSink_none (h : nextActiveSink cfg current = none) {j : Fin n}
    (hsink : cfg.sink j = true) : ∃ p, current = some p ∧ j ≤ p := by
  have hfail := find?_eq_none.mp h j (mem_finRange j)
  rw [hsink, Bool.true_and] at hfail
  cases current with
  | none => simp at hfail
  | some p => exact ⟨p, rfl, by simpa using hfail⟩

variable {src : Fin n}

theorem not_sink_of_source (h : cfg.source = some src) : cfg.sink src = false := by
  simp [Config.sink, cfg.choice.marked src h]

/-- There is somebody to ask about an entry: a sink, and without a source another sink. -/
def Armed (cfg : Config n) : Prop :=
  0 < (finRange n).countP cfg.sink ∧ (cfg.source = none → 2 ≤ (finRange n).countP cfg.sink)

/-- A child that entries are read from. -/
def Scans (cfg : Config n) (c : Fin n) : Prop := cfg.source = some c ∨ cfg.source = none ∧ cfg.sink c = true

theorem target_pos (harmed : Armed cfg) (hsrc : Scans cfg src) : 0 < (finRange n).countP (cfg.target src) := by
  rw [countP_pos_iff]
  rcases hsrc with hsource | ⟨hnone, hsink⟩
  · obtain ⟨i, hi, hsink⟩ := countP_pos_iff.mp harmed.1
    refine ⟨i, hi, ?_⟩
    have hne : i ≠ src := by
      rintro rfl
      rw [not_sink_of_source hsource] at hsink
      cases hsink
    simp [Config.target, hne, hsink]
  -- two sinks, so one that is not `src`
  by_contra hall
  have hone : (finRange n).countP cfg.sink ≤ (finRange n).countP fun i => decide (i = src) := by
    apply countP_mono_left
    intro i hi his
    by_contra hne
    exact hall ⟨i, hi, by simpa [Config.target, his] using hne⟩
  have hcnt : (finRange n).countP (fun i => decide (i = src)) ≤ 1 := by
    have := nodup_iff_count_le_one.mp (nodup_finRange n) src
    simpa [List.count, BEq.beq] using this
  have := harmed.2 hnone
  omega

/-! ## Counting what is out -/

theorem ImpungeFrame.answered_self (fr : ImpungeFrame n) (i : Fin n) (r : Impunged n) :
    (fr.answered i r).calls i = r.next := Function.update_self _ _ _

theorem ImpungeFrame.answered_ne (fr : ImpungeFrame n) {j : Fin n} (h : j ≠ i) (r : Impunged n) :
    (fr.answered i r).calls j = fr.calls j := Function.update_of_ne h _ _

structure ImpungeCounts (cfg : Config n) (src : Fin n) (callCount : Nat) (frames : List (ImpungeFrame n)) : Prop where
  calls : ∀ fr ∈ frames, fr.callCount = (finRange n).countP fun i => (fr.calls i).isSome
  live : callCount = frames.countP fun fr => decide (fr.callCount ≠ 0)
  targets : ∀ fr ∈ frames, ∀ i, (fr.calls i).isSome = true → cfg.target src i = true

def ExpungeCounts (callCount : Nat) (frames : List ExpungeFrame) : Prop :=
  callCount = frames.countP fun fr => fr.call.isSome

/-- One of the counted is taken out by a change at `i`. -/
theorem countP_update {α : Type} (calls : Fin n → Option α) (hi : (calls i).isSome = true) (next : Option α) :
    (finRange n).countP (fun j => (Function.update calls i next j).isSome) =
      if next.isSome then (finRange n).countP (fun j => (calls j).isSome)
      else (finRange n).countP (fun j => (calls j).isSome) - 1 := by
  have hperm := perm_cons_erase (mem_finRange i)
  have hnotin : i ∉ (finRange n).erase i := (nodup_finRange n).not_mem_erase
  have hsame : ((finRange n).erase i).countP (fun j => (Function.update calls i next j).isSome) =
      ((finRange n).erase i).countP (fun j => (calls j).isSome) := by
    apply countP_congr
    intro j hj
    have hne : j ≠ i := by
      rintro rfl
      exact hnotin hj
    rw [Function.update_of_ne hne]
  rw [hperm.countP_eq, hperm.countP_eq, countP_cons, countP_cons, hsame, Function.update_self, hi]
  cases next with
  | none | some _ => simp

namespace ImpungeCounts

variable {src : Fin n} {callCount : Nat} {frames : List (ImpungeFrame n)}

theorem none_out (h : ImpungeCounts cfg src 0 frames) (hfr : fr ∈ frames) (i : Fin n) : fr.calls i = none := by
  have hzero : fr.callCount = 0 := by
    have := countP_eq_zero.mp h.live.symm fr hfr
    simpa using this
  have hcalls := h.calls fr hfr
  rw [hzero] at hcalls
  have := countP_eq_zero.mp hcalls.symm i (mem_finRange i)
  simpa using this

theorem batch (htarget : 0 < (finRange n).countP (cfg.target src)) (entries : List (Listing.Slot String Content)) :
    ImpungeCounts cfg src (entries.filterMap (impungeEntry cfg src)).length
      (entries.filterMap (impungeEntry cfg src)) := by
  have hframe : ∀ fr ∈ entries.filterMap (impungeEntry cfg src), fr.callCount = (finRange n).countP (cfg.target src) ∧
        ∀ i, fr.calls i = if cfg.target src i then some .lookup else none := by
    intro fr hfr
    obtain ⟨e, -, he⟩ := mem_filterMap.mp hfr
    unfold impungeEntry at he
    split at he
    · cases he
    cases he
    exact ⟨rfl, fun _ => rfl⟩
  refine ⟨?_, ?_, ?_⟩
  · intro fr hfr
    rw [(hframe fr hfr).1]
    apply countP_congr
    intro i _
    rw [(hframe fr hfr).2 i]
    cases cfg.target src i <;> simp
  · rw [eq_comm, countP_eq_length]
    intro fr hfr
    rw [(hframe fr hfr).1]
    simpa using htarget.ne'
  intro fr hfr i hi
  rw [(hframe fr hfr).2 i] at hi
  by_contra hnot
  simp [hnot] at hi

theorem answered (h : ImpungeCounts cfg src callCount frames)
    (hf : frames[f]? = some fr) (hcall : fr.calls i = some call) (r : Impunged n) : ImpungeCounts cfg src
      (if r.next.isNone && decide ((fr.answered i r).callCount = 0) then callCount - 1 else callCount)
      (frames.set f (fr.answered i r)) := by
  have hmem : fr ∈ frames := List.mem_of_getElem? hf
  have hisSome : (fr.calls i).isSome = true := by rw [hcall]; rfl
  have hcnt : (fr.answered i r).callCount = (finRange n).countP fun j => ((fr.answered i r).calls j).isSome := by
    show (if r.next.isSome then fr.callCount else fr.callCount - 1) = _
    rw [h.calls fr hmem]
    exact (countP_update fr.calls hisSome r.next).symm
  refine ⟨?_, ?_, ?_⟩
  · intro g hg
    rcases List.mem_or_eq_of_mem_set hg with hg | rfl
    · exact h.calls g hg
    · exact hcnt
  · obtain ⟨hlt, rfl⟩ := List.getElem?_eq_some_iff.mp hf
    have hlive : frames[f].callCount ≠ 0 := by
      rw [h.calls _ hmem]
      exact (List.countP_pos_iff.mpr ⟨i, mem_finRange i, hisSome⟩).ne'
    have hpos : 0 < frames.countP fun fr => decide (fr.callCount ≠ 0) :=
      List.countP_pos_iff.mpr ⟨_, hmem, by simpa using hlive⟩
    rw [List.countP_set hlt, h.live]
    generalize frames.countP (fun fr => decide (fr.callCount ≠ 0)) = live at hpos ⊢
    cases hnext : r.next with
    | none =>
      by_cases hzero : (frames[f].answered i r).callCount = 0
      · simp [hzero, hlive]
      simp [hzero, hlive]
      omega
    | some next =>
      have hkeep : (frames[f].answered i r).callCount = frames[f].callCount := by
        simp [ImpungeFrame.answered, hnext]
      simp [hkeep, hlive]
      omega
  intro g hg j hj
  rcases List.mem_or_eq_of_mem_set hg with hg | rfl
  · exact h.targets g hg j hj
  by_cases hji : j = i
  · rw [hji]
    exact h.targets fr hmem i hisSome
  apply h.targets fr hmem j
  rwa [← fr.answered_ne hji r]

end ImpungeCounts

namespace ExpungeCounts

variable {callCount : Nat} {frames : List ExpungeFrame}

theorem none_out (h : ExpungeCounts 0 frames) {fr : ExpungeFrame} (hfr : fr ∈ frames) : fr.call = none := by
  have := countP_eq_zero.mp h.symm fr hfr
  simpa using this

theorem batch (entries : List (Listing.Slot String Content)) :
    ExpungeCounts (entries.filterMap (expungeEntry cfg)).length (entries.filterMap (expungeEntry cfg)) := by
  unfold ExpungeCounts
  rw [eq_comm, countP_eq_length]
  intro fr hfr
  obtain ⟨e, -, he⟩ := mem_filterMap.mp hfr
  unfold expungeEntry at he
  split at he
  · cases he
  cases he
  rfl

theorem answered (h : ExpungeCounts callCount frames) {call : Expunge}
    (hf : frames[f]? = some ⟨name, some call⟩) (next : Option Expunge) :
    ExpungeCounts (if next.isNone then callCount - 1 else callCount) (frames.set f ⟨name, next⟩) := by
  have hmem : ⟨name, some call⟩ ∈ frames := List.mem_of_getElem? hf
  obtain ⟨hlt, heq⟩ := List.getElem?_eq_some_iff.mp hf
  have hpos : 0 < frames.countP fun fr => fr.call.isSome := List.countP_pos_iff.mpr ⟨_, hmem, rfl⟩
  unfold ExpungeCounts at h ⊢
  rw [List.countP_set hlt, h, heq]
  cases next with
  | none => simp
  | some _ =>
    simp
    omega

end ExpungeCounts

variable {callCount : Nat} {frames : List (ImpungeFrame n)}

/-- After an answer the frames go on, or the last of them is done and the next batch is read. -/
theorem impungeCbk_cases (hcounts : ImpungeCounts cfg src callCount frames)
    (hf : frames[f]? = some fr) (hcall : fr.calls i = some call) (s : State n) (off : Nat) (ok : Bool) (pos : Nat) :
    ∃ r, r = impungeCall src i fr s.dirs ok pos call ∧ ((∀ g ∈ frames.set f (fr.answered i r), ∀ j, g.calls j = none) ∧
        impungeCbk s src off callCount frames f fr i call ok pos =
          (s.impunged call i fr.name r).goto (.impungeRead src off) ∨
      ∃ c, ImpungeCounts cfg src c (frames.set f (fr.answered i r)) ∧
        impungeCbk s src off callCount frames f fr i call ok pos =
          (s.impunged call i fr.name r).goto (.impunge src off c (frames.set f (fr.answered i r)))) := by
  refine ⟨_, rfl, ?_⟩
  have hnext := hcounts.answered hf hcall (impungeCall src i fr s.dirs ok pos call)
  unfold impungeCbk
  simp only
  generalize impungeCall src i fr s.dirs ok pos call = r at hnext ⊢
  split
  · rename_i hdone
    rw [if_pos hdone] at hnext
    split
    · rename_i hzero
      rw [hzero] at hnext
      exact .inl ⟨fun g hg j => hnext.none_out hg j, rfl⟩
    · exact .inr ⟨_, hnext, rfl⟩
  · rename_i hdone
    rw [if_neg hdone] at hnext
    exact .inr ⟨_, hnext, rfl⟩

theorem expungeCbk_cases {frames : List ExpungeFrame}
    {call : Expunge} (hcounts : ExpungeCounts callCount frames) (hf : frames[f]? = some ⟨name, some call⟩)
    (cfg : Config n) (s : State n) (src : Fin n) (off : Nat) (ok cached : Bool) (pos : Nat) :
    ∃ r, r = expungeCall cfg src sink name s.dirs s.trash ok cached pos call ∧
      ((∀ g ∈ frames.set f ⟨name, r.next⟩, g.call = none) ∧
        expungeCbk cfg s src sink off callCount frames f name call ok cached pos =
          (s.expunged call sink name r).goto (.expungeRead sink off) ∨
      ∃ c, ExpungeCounts c (frames.set f ⟨name, r.next⟩) ∧
        expungeCbk cfg s src sink off callCount frames f name call ok cached pos =
          (s.expunged call sink name r).goto (.expunge sink off c (frames.set f ⟨name, r.next⟩))) := by
  refine ⟨_, rfl, ?_⟩
  have hnext := hcounts.answered hf (expungeCall cfg src sink name s.dirs s.trash ok cached pos call).next
  unfold expungeCbk
  simp only
  generalize expungeCall cfg src sink name s.dirs s.trash ok cached pos call = r at hnext ⊢
  split
  · rename_i hdone
    rw [if_pos hdone] at hnext
    split
    · rename_i hzero
      rw [hzero] at hnext
      exact .inl ⟨fun g hg => hnext.none_out hg, rfl⟩
    · exact .inr ⟨_, hnext, rfl⟩
  · rename_i hdone
    rw [if_neg hdone] at hnext
    exact .inr ⟨_, hnext, rfl⟩

/-! ## The order of the directories -/

/-- The directory of `c` was read until there was nothing more or a read failed. -/
def Ended (log : List (Answer n)) (pass : Pass) (c : Fin n) : Prop :=
  Answer.readdir pass c .complete ∈ log ∨ Answer.readdir pass c .failed ∈ log

/-- The sinks before `c` have been read. -/
def Before (cfg : Config n) (log : List (Answer n)) (pass : Pass) (c : Fin n) : Prop :=
  ∀ j, cfg.sink j = true → j < c → Ended log pass j

/-- The sinks up to `current` have been read. -/
def UpTo (cfg : Config n) (log : List (Answer n)) (pass : Pass) (current : Option (Fin n)) : Prop :=
  ∀ j, cfg.sink j = true → (∃ p, current = some p ∧ j ≤ p) → Ended log pass j

def Opened (cfg : Config n) (s : State n) : Prop :=
  s.opFailed = false ∧ ∀ i, cfg.success i = true → Answer.opendir i true ∈ s.log

/-- The directory of `src` is being read. -/
def Scanning (cfg : Config n) (s : State n) (src : Fin n) : Prop :=
  Opened cfg s ∧ (cfg.source = some src ∨ cfg.source = none ∧ cfg.sink src = true ∧ Before cfg s.log .impunge src)

/-- All directories entries are created from have been read. -/
def Scanned (cfg : Config n) (s : State n) : Prop := Opened cfg s ∧ ∀ c, Scans cfg c → Ended s.log .impunge c

/-- The directory of `sink` is being read, after all of them. -/
def Purging (cfg : Config n) (s : State n) (sink : Fin n) : Prop :=
  Scanned cfg s ∧ cfg.source ≠ none ∧ cfg.sink sink = true ∧ Before cfg s.log .expunge sink

/-- All directories entries are removed from have been read. -/
def Purged (cfg : Config n) (s : State n) : Prop :=
  Scanned cfg s ∧ (cfg.source ≠ none → ∀ j, cfg.sink j = true → Ended s.log .expunge j)

def PhaseOrder (cfg : Config n) (s : State n) : Prop :=
  match s.phase with
  | .opening pending =>
    s.opFailed = false → ∀ i, cfg.success i = true → pending i = false → Answer.opendir i true ∈ s.log
  | .impungeRead src _ => Scanning cfg s src
  | .impunge src _ callCount frames => Scanning cfg s src ∧ ImpungeCounts cfg src callCount frames
  | .expungeRead sink _ => Purging cfg s sink
  | .expunge sink _ callCount frames => Purging cfg s sink ∧ ExpungeCounts callCount frames
  | .erased => Purged cfg s
  | .finished => s.log = [] ∨ s.opFailed = true

structure Ordered (cfg : Config n) (store₀ : FileStore n) (s : State n) : Prop where
  armed : s.log ≠ [] ∨ s.phase ≠ .finished → Armed cfg
  failed : s.opFailed = true → ∃ i, Answer.opendir i false ∈ s.log
  unerased : s.phase ≠ .erased → s.store = store₀
  order : PhaseOrder cfg s

structure LogGrows (s s' : State n) : Prop where
  log : s.log ⊆ s'.log
  opFailed : s'.opFailed = s.opFailed

namespace LogGrows

section

variable (h : LogGrows s s')
include h

theorem opened (ho : Opened cfg s) : Opened cfg s' := ⟨h.opFailed.trans ho.1, fun i hi => h.log (ho.2 i hi)⟩

theorem ended (he : Ended s.log pass c) : Ended s'.log pass c := he.imp (fun hc => h.log hc) (fun hf => h.log hf)

theorem before (hb : Before cfg s.log pass c) : Before cfg s'.log pass c := fun j hj hlt => h.ended (hb j hj hlt)

theorem scanning (hs : Scanning cfg s src) : Scanning cfg s' src := by
  refine ⟨h.opened hs.1, ?_⟩
  rcases hs.2 with hsrc | ⟨hnone, hsink, hbefore⟩
  · exact .inl hsrc
  · exact .inr ⟨hnone, hsink, h.before hbefore⟩

theorem scanned (hs : Scanned cfg s) : Scanned cfg s' := ⟨h.opened hs.1, fun c hc => h.ended (hs.2 c hc)⟩

theorem purging (hp : Purging cfg s sink) : Purging cfg s' sink := ⟨h.scanned hp.1, hp.2.1, hp.2.2.1, h.before hp.2.2.2⟩

end

end LogGrows

theorem Scanning.scans (h : Scanning cfg s src) : Scans cfg src := h.2.imp id fun h => ⟨h.1, h.2.1⟩

/-- Together with `c` itself, the sinks before it are those up to it. -/
theorem Before.upTo {log : List (Answer n)} (h : Before cfg log pass c)
    (hc : Ended log pass c) : UpTo cfg log pass (some c) := by
  rintro j hj ⟨p, hp, hle⟩
  cases hp
  rcases lt_or_eq_of_le hle with hlt | rfl
  · exact h j hj hlt
  · exact hc

theorem expungeAll_order (hs : Scanned cfg s) (hup : UpTo cfg s.log .expunge current) :
    PhaseOrder cfg (expungeAll cfg s current) := by
  unfold expungeAll
  split
  · rename_i hnone
    exact ⟨hs, fun h => absurd hnone h⟩
  · rename_i src hsrc
    have hne : cfg.source ≠ none := by simp [hsrc]
    split
    · rename_i hnext
      exact ⟨hs, fun _ j hj => hup j hj (nextActiveSink_none hnext hj)⟩
    · rename_i sink hnext
      obtain ⟨hsink, hbefore⟩ := nextActiveSink_some hnext
      rw [hs.1.1]
      exact ⟨hs, hne, hsink, fun j hj hlt => hup j hj (hbefore j hj hlt)⟩

theorem impungeAll_order (ho : Opened cfg s)
    (hsrc : ∀ src, cfg.source = some src → current = some src → Ended s.log .impunge src)
    (hmerge : cfg.source = none → UpTo cfg s.log .impunge current) : PhaseOrder cfg (impungeAll cfg s current) := by
  unfold impungeAll
  rw [ho.1]
  simp only [Bool.false_eq_true, if_false]
  split
  · rename_i hnext
    apply expungeAll_order
    · refine ⟨ho, ?_⟩
      intro c hc
      unfold nextActiveSource at hnext
      rcases hc with hc | ⟨hnone, hsink⟩
      · simp only [hc, ite_eq_left_iff, reduceCtorEq, imp_false, not_not] at hnext
        exact hsrc c hc hnext
      simp only [hnone] at hnext
      exact hmerge hnone c hsink (nextActiveSink_none hnext hsink)
    rintro j _ ⟨p, hp, _⟩
    cases hp
  · rename_i src hnext
    refine ⟨ho, ?_⟩
    unfold nextActiveSource at hnext
    cases hchoice : cfg.source with
    | some p =>
      simp only [hchoice, ite_eq_iff, reduceCtorEq, and_false, Option.some.injEq, false_or] at hnext
      exact .inl (by rw [hnext.2])
    | none =>
      simp only [hchoice] at hnext
      obtain ⟨hsink, hbefore⟩ := nextActiveSink_some hnext
      exact .inr ⟨rfl, hsink, fun j hj hlt => hmerge hchoice j hj (hbefore j hj hlt)⟩

/-! ## Every step keeps the order -/

theorem heard_grows (s : State n) (a : Answer n) : LogGrows s (s.heard a) := ⟨subset_cons_self a s.log, rfl⟩

theorem impunged_grows (s : State n) (call : Impunge) (i : Fin n) (name : String) (r : Impunged n) :
    LogGrows s (s.impunged call i name r) := ⟨subset_cons_self _ s.log, rfl⟩

theorem expunged_grows (s : State n) (call : Expunge) (sink : Fin n) (name : String) (r : Expunged n) :
    LogGrows s (s.expunged call sink name r) := ⟨subset_cons_self _ s.log, rfl⟩

theorem opendirCbk_order {pending : Fin n → Bool} (hph : s.phase = .opening pending)
    (horder : PhaseOrder cfg s) (i : Fin n) (ok : Bool) : PhaseOrder cfg (opendirCbk cfg s pending i ok) := by
  have hopening : s.opFailed = false → ∀ j, cfg.success j = true → pending j = false →
      Answer.opendir j true ∈ s.log := by
    simpa only [PhaseOrder, hph] using horder
  -- with this answer the others are those that were answered before
  have hans : (s.opFailed || !ok) = false → ∀ j, cfg.success j = true →
      Function.update pending i false j = false → Answer.opendir j true ∈ Answer.opendir i ok :: s.log := by
    intro hfail j hj hpend
    rw [Bool.or_eq_false_iff, Bool.not_eq_false'] at hfail
    by_cases hji : j = i
    · rw [hji, hfail.2]
      exact mem_cons_self
    rw [Function.update_of_ne hji] at hpend
    exact mem_cons_of_mem _ (hopening hfail.1 j hj hpend)
  unfold opendirCbk
  simp only
  split
  · exact hans
  · rename_i hnone
    split
    · rename_i hfail
      exact .inr hfail
    · rename_i hfail
      have hok : (s.opFailed || !ok) = false := by simpa using hfail
      have hopened : Opened cfg { s.heard (.opendir i ok) with opFailed := s.opFailed || !ok } := by
        refine ⟨hok, fun j hj => hans hok j hj ?_⟩
        have hj := hnone
        simp only [anyPending, Bool.not_eq_true, any_eq_false] at hj
        simpa using hj j (mem_finRange j)
      apply impungeAll_order hopened
      · intro src _ h
        cases h
      rintro _ j _ ⟨p, hp, _⟩
      cases hp

theorem impungeReaddirCbk_order (harmed : Armed cfg)
    (hph : s.phase = .impungeRead src off) (horder : PhaseOrder cfg s) (count : Nat) (ok : Bool) :
    PhaseOrder cfg (impungeReaddirCbk cfg s src off count ok) := by
  have hscan : Scanning cfg s src := by simpa only [PhaseOrder, hph] using horder
  rcases (readdirCbk_cases cfg s src off count ok).1 with ⟨r, hr, heq⟩ | ⟨batch, -, ⟨-, heq⟩ | heq⟩ <;> rw [heq]
  · -- the directory has been read
    have hgrows := heard_grows s (.readdir .impunge src r)
    have hended : Ended (s.heard (.readdir .impunge src r)).log .impunge src := by
      rcases hr with rfl | ⟨rfl, -⟩
      · exact .inr mem_cons_self
      · exact .inl mem_cons_self
    apply impungeAll_order (hgrows.opened hscan.1)
    · intro p _ hp
      cases hp
      exact hended
    intro hnone
    rcases hscan.2 with hsrc | ⟨-, -, hbefore⟩
    · rw [hnone] at hsrc
      cases hsrc
    · exact (hgrows.before hbefore).upTo hended
  · exact (heard_grows s _).scanning hscan
  · exact ⟨(heard_grows s _).scanning hscan, .batch (target_pos harmed hscan.scans) batch⟩

theorem impungeCbk_order (hph : s.phase = .impunge src off callCount frames)
    (hf : frames[f]? = some fr) (hcall : fr.calls i = some call) (horder : PhaseOrder cfg s) (ok : Bool) (pos : Nat) :
    PhaseOrder cfg (impungeCbk s src off callCount frames f fr i call ok pos) := by
  obtain ⟨hscan, hcounts⟩ : Scanning cfg s src ∧ ImpungeCounts cfg src callCount frames := by
    simpa only [PhaseOrder, hph] using horder
  obtain ⟨r, -, ⟨-, heq⟩ | ⟨c, hnext, heq⟩⟩ := impungeCbk_cases hcounts hf hcall s off ok pos <;> rw [heq]
  · exact (impunged_grows s call i fr.name r).scanning hscan
  · exact ⟨(impunged_grows s call i fr.name r).scanning hscan, hnext⟩

theorem expungeReaddirCbk_order (hph : s.phase = .expungeRead sink off)
    (horder : PhaseOrder cfg s) (count : Nat) (ok : Bool) :
    PhaseOrder cfg (expungeReaddirCbk cfg s sink off count ok) := by
  have hpurge : Purging cfg s sink := by simpa only [PhaseOrder, hph] using horder
  rcases (readdirCbk_cases cfg s sink off count ok).2 with ⟨r, hr, heq⟩ | ⟨batch, -, ⟨-, heq⟩ | heq⟩ <;> rw [heq]
  · have hgrows := heard_grows s (.readdir .expunge sink r)
    have hended : Ended (s.heard (.readdir .expunge sink r)).log .expunge sink := by
      rcases hr with rfl | ⟨rfl, -⟩
      · exact .inr mem_cons_self
      · exact .inl mem_cons_self
    exact expungeAll_order (hgrows.scanned hpurge.1) ((hgrows.before hpurge.2.2.2).upTo hended)
  · exact (heard_grows s _).purging hpurge
  · exact ⟨(heard_grows s _).purging hpurge, .batch batch⟩

theorem expungeCbk_order {frames : List ExpungeFrame}
    {call : Expunge} (hph : s.phase = .expunge sink off callCount frames)
    (hf : frames[f]? = some ⟨name, some call⟩) (horder : PhaseOrder cfg s) (ok cached : Bool) (pos : Nat) :
    PhaseOrder cfg (expungeCbk cfg s src sink off callCount frames f name call ok cached pos) := by
  obtain ⟨hpurge, hcounts⟩ : Purging cfg s sink ∧ ExpungeCounts callCount frames := by
    simpa only [PhaseOrder, hph] using horder
  obtain ⟨r, -, ⟨-, heq⟩ | ⟨c, hnext, heq⟩⟩ := expungeCbk_cases hcounts hf cfg s src off ok cached pos <;>
    rw [heq]
  · exact (expunged_grows s call sink name r).purging hpurge
  · exact ⟨(expunged_grows s call sink name r).purging hpurge, hnext⟩

/-- What a callback does to everything but the directories: one answer is kept, an error of an `opendir` is
    remembered, and the counters are erased in the last phase only. -/
structure Heard (s s' : State n) (a : Answer n) : Prop where
  log : s'.log = a :: s.log
  opFailed : s'.opFailed = true → s.opFailed = true ∨ ∃ i, a = .opendir i false
  store : s'.phase ≠ .erased → s'.store = s.store

theorem PhaseOnly.heard {a : Answer n} {t : State n} (h : PhaseOnly t s') (hlog : t.log = a :: s.log)
    (hfail : t.opFailed = s.opFailed) (hstore : t.store = s.store) : Heard s s' a :=
  ⟨h.log.trans hlog, fun hs => .inl (by rw [← hfail, ← h.opFailed, hs]), fun hp => (h.store hp).trans hstore⟩

theorem opendirCbk_heard (cfg : Config n) (s : State n) (pending : Fin n → Bool) (i : Fin n) (ok : Bool) :
    Heard s (opendirCbk cfg s pending i ok) (.opendir i ok) := by
  have hfail : (s.opFailed || !ok) = true → s.opFailed = true ∨ ∃ j, Answer.opendir i ok = .opendir j false := by
    intro h
    rcases Bool.or_eq_true_iff.mp h with h | h
    · exact .inl h
    rw [Bool.not_eq_true'] at h
    exact .inr ⟨i, by rw [h]⟩
  unfold opendirCbk
  simp only
  split
  · exact ⟨rfl, hfail, fun _ => rfl⟩
  split
  · exact ⟨rfl, hfail, fun _ => rfl⟩
  have hph := impungeAll_phaseOnly cfg { s.heard (.opendir i ok) with opFailed := s.opFailed || !ok } none
  exact ⟨hph.log, fun h => hfail (hph.opFailed.symm.trans h), fun h => hph.store h⟩

theorem step_heard (h : step cfg s a = .ok s') : s.phase ≠ .erased ∧ s.phase ≠ .finished ∧ ∃ ans, Heard s s' ans := by
  rcases step_cases h with ⟨pending, i, ok, hph, -, rfl⟩ | ⟨src, off, count, ok, hph, rfl⟩ |
    ⟨src, off, callCount, frames, f, fr, i, call, ok, pos, hph, -, -, rfl⟩ | ⟨sink, off, count, ok, hph, rfl⟩ |
    ⟨src, sink, off, callCount, frames, f, name, call, ok, cached, pos, -, hph, -, rfl⟩ <;>
    refine ⟨by rw [hph]; exact nofun, by rw [hph]; exact nofun, ?_⟩
  · exact ⟨_, opendirCbk_heard cfg s pending i ok⟩
  · rcases (readdirCbk_cases cfg s src off count ok).1 with ⟨r, -, heq⟩ | ⟨batch, -, ⟨-, heq⟩ | heq⟩ <;> rw [heq]
    · exact ⟨_, (impungeAll_phaseOnly cfg _ _).heard rfl rfl rfl⟩
    all_goals exact ⟨_, (State.goto_phaseOnly _ _).heard rfl rfl rfl⟩
  · unfold impungeCbk
    simp only
    generalize impungeCall src i fr s.dirs ok pos call = r
    refine ⟨.impunge call i fr.name r.ok, ?_⟩
    split
    · split
      all_goals exact (State.goto_phaseOnly _ _).heard rfl rfl rfl
    · exact (State.goto_phaseOnly _ _).heard rfl rfl rfl
  · rcases (readdirCbk_cases cfg s sink off count ok).2 with ⟨r, -, heq⟩ | ⟨batch, -, ⟨-, heq⟩ | heq⟩ <;> rw [heq]
    · exact ⟨_, (expungeAll_phaseOnly cfg _ _).heard rfl rfl rfl⟩
    all_goals exact ⟨_, (State.goto_phaseOnly _ _).heard rfl rfl rfl⟩
  unfold expungeCbk
  simp only
  generalize expungeCall cfg src sink name s.dirs s.trash ok cached pos call = r
  refine ⟨.expunge call sink name r.ok, ?_⟩
  split
  · split
    all_goals exact (State.goto_phaseOnly _ _).heard rfl rfl rfl
  · exact (State.goto_phaseOnly _ _).heard rfl rfl rfl

theorem step_order (harmed : Armed cfg) (horder : PhaseOrder cfg s) (h : step cfg s a = .ok s') :
    PhaseOrder cfg s' := by
  rcases step_cases h with ⟨pending, i, ok, hph, -, rfl⟩ | ⟨src, off, count, ok, hph, rfl⟩ |
    ⟨src, off, callCount, frames, f, fr, i, call, ok, pos, hph, hf, hcall, rfl⟩ |
    ⟨sink, off, count, ok, hph, rfl⟩ |
    ⟨src, sink, off, callCount, frames, f, name, call, ok, cached, pos, -, hph, hf, rfl⟩
  · exact opendirCbk_order hph horder i ok
  · exact impungeReaddirCbk_order harmed hph horder count ok
  · exact impungeCbk_order hph hf hcall horder ok pos
  · exact expungeReaddirCbk_order hph horder count ok
  · exact expungeCbk_order hph hf horder ok cached pos

theorem Ordered.step {store₀ : FileStore n} (hinv : Ordered cfg store₀ s)
    (h : step cfg s a = .ok s') : Ordered cfg store₀ s' := by
  obtain ⟨herased, hfinished, ans, hheard⟩ := step_heard h
  have harmed : Armed cfg := hinv.armed (.inr hfinished)
  refine ⟨fun _ => harmed, ?_, ?_, step_order harmed hinv.order h⟩
  · intro hfail
    rw [hheard.log]
    rcases hheard.opFailed hfail with hs | ⟨i, rfl⟩
    · obtain ⟨i, hi⟩ := hinv.failed hs
      exact ⟨i, mem_cons_of_mem _ hi⟩
    · exact ⟨i, mem_cons_self⟩
  intro hph
  rw [hheard.store hph]
  exact hinv.unerased herased

theorem afrShEntrySyncPrepare_ordered (cfg : Config n) (dirs : Fin n → Dir) (trash : Fin n → Bool)
    (store : FileStore n) : Ordered cfg store (afrShEntrySyncPrepare cfg dirs trash store) := by
  unfold afrShEntrySyncPrepare
  simp only
  split
  · exact ⟨fun h => h.elim (absurd rfl) (absurd rfl), nofun, fun _ => rfl, .inl rfl⟩
  · rename_i hsinks
    split
    · exact ⟨fun h => h.elim (absurd rfl) (absurd rfl), nofun, fun _ => rfl, .inl rfl⟩
    · rename_i hmerge
      refine ⟨fun _ => ⟨Nat.pos_of_ne_zero hsinks, ?_⟩, nofun, fun _ => rfl, ?_⟩
      · intro hnone
        by_contra hlt
        exact hmerge ⟨hnone, Nat.lt_of_not_le hlt⟩
      intro _ i hi hpend
      rw [hi] at hpend
      cases hpend

/-- **The order of a heal.** -/
theorem run_ordered {dirs : Fin n → Dir} {trash : Fin n → Bool} {store : FileStore n} {as : List (Action n)}
    (hrun : run (step cfg) (afrShEntrySyncPrepare cfg dirs trash store) as = .ok s) : Ordered cfg store s :=
  run_invariant_all (fun _ _ _ hinv h => hinv.step h) (afrShEntrySyncPrepare_ordered cfg dirs trash store) hrun

end GlusterFS.Afr.EntryHeal
