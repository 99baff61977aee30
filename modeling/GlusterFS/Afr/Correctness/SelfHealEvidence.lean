import GlusterFS.Afr.Correctness.SelfHealLoops

/-!
# `Afr.Correctness.SelfHealEvidence` — when a data self-heal takes the accusations back

The counters that accuse a sink are the evidence that it has to be healed, so they may be erased only after
every block of the source was read and everything sent to the sink was done in full. The callbacks record an
error in `op_failed`, which ends the heal without erasing. They do not record all of them:

- `afr_sh_data_trim_cbk` logs a failed truncate;
- `sh_diff_read_cbk` takes a read that failed for a block without work;
- a read or write that did less than it was asked for is no error.

If none of these happens (`Told`), the evidence is safe: `erase_only_after_complete_heal`.
-/

namespace GlusterFS.Afr

open GlusterFS.Storage
open Sparse (File)
open Transition
open Function (update_of_ne update_self update)

variable {n : Nat} {δ : Type} {cfg : HealConfig n δ} {s s' t : Healing n δ} {store₀ : FileStore n}

variable {data : List UInt8} {pending : Fin n → Bool}

/-! ## What the claims of a block rest on -/

/-- The block was read in full; where the diff algorithm did not have to read it, all checksums were taken
    from the whole of it. -/
def Settled (cfg : HealConfig n δ) (s : Healing n δ) (b : Nat) : Prop :=
  s.fetched b = .complete ∨
    cfg.algo = .diff ∧ s.fetched b = .unsent ∧ ∀ i, cfg.summer i = true → s.summed b i = .complete

/-- Nothing was asked of the child, or it was done in full. -/
def SubOp.Done (op : SubOp) : Prop := op = .unsent ∨ op = .complete

/-- What is known of a block in each stage, as long as no failure was recorded. -/
def StageEvidence (cfg : HealConfig n δ) (s : Healing n δ) (b : Nat) : Option (Stage n δ) → Prop
  | none => s.fetched b = .unsent ∧ ∀ i, s.wrote b i = .unsent
  | some (.checksum pending _) => cfg.algo = .diff ∧ s.fetched b = .unsent ∧ (∀ i, s.wrote b i = .unsent) ∧
      ∀ i, cfg.summer i = true → pending i = false → s.summed b i = .complete
  | some (.read _) => ∀ i, s.wrote b i = .unsent
  | some (.write _ pending) => s.fetched b = .complete ∧ ∀ i, pending i = false → (s.wrote b i).Done
  | some .returned => Settled cfg s b ∧ ∀ i, (s.wrote b i).Done

/-- The evidence about block `b` is complete, or a failure was recorded. -/
def Evidence (cfg : HealConfig n δ) (s : Healing n δ) (b : Nat) : Prop :=
  s.opFailed = true ∨ StageEvidence cfg s b ((s.loops b).map Loop.stage)

/-- What all runs keep about the evidence. -/
structure EvidenceInv (cfg : HealConfig n δ) (store₀ : FileStore n) (s : Healing n δ) : Prop where
  blocks : ∀ b, Evidence cfg s b
  store : s.phase ≠ .erased → s.store = store₀
  trimming : ∀ pending, s.phase = .trimming pending → ∀ i, cfg.sink i = true → pending i = false →
    s.trimmed i = .complete
  erased : s.phase = .erased → ∀ i, cfg.sink i = true → s.trimmed i = .complete

/-! ## What an answer changes -/

/-- An answer for block `b` changes what is known of this block only, and never forgets a failure. -/
structure Answers (b : Nat) (s t : Healing n δ) : Prop where
  loops : t.loops = s.loops
  phase : t.phase = s.phase
  store : t.store = s.store
  trimmed : t.trimmed = s.trimmed
  opFailed : s.opFailed = true → t.opFailed = true
  others : ∀ c, c ≠ b → t.summed c = s.summed c ∧ t.fetched c = s.fetched c ∧ t.wrote c = s.wrote c

namespace Answers

variable {b off : Nat} {i : Fin n} {reply : Option Nat}

theorem trans {u : Healing n δ} (h : Answers b s t) (h' : Answers b t u) : Answers b s u where
  loops := h'.loops.trans h.loops
  phase := h'.phase.trans h.phase
  store := h'.store.trans h.store
  trimmed := h'.trimmed.trans h.trimmed
  opFailed := fun hs => h'.opFailed (h.opFailed hs)
  others := by
    intro c hc
    obtain ⟨hs, hf, hw⟩ := h.others c hc
    obtain ⟨hs', hf', hw'⟩ := h'.others c hc
    exact ⟨hs'.trans hs, hf'.trans hf, hw'.trans hw⟩

theorem checksumAnswered : Answers b s (checksumAnswered cfg s b off i reply) :=
  ⟨rfl, rfl, rfl, rfl, fun h => Bool.or_eq_true_iff.mpr (Or.inl h), fun _ hc => ⟨update_of_ne hc _ _, rfl, rfl⟩⟩

theorem readSent : Answers b s (s.readSent b) := ⟨rfl, rfl, rfl, rfl, id, fun _ hc => ⟨rfl, update_of_ne hc _ _, rfl⟩⟩

theorem readAnswered : Answers b s (readAnswered cfg s b off data) :=
  ⟨rfl, rfl, rfl, rfl, id, fun _ hc => ⟨rfl, update_of_ne hc _ _, rfl⟩⟩

theorem readEmpty : Answers b s (readEmpty cfg s) :=
  ⟨rfl, rfl, rfl, rfl, fun h => Bool.or_eq_true_iff.mpr (Or.inl h), fun _ _ => ⟨rfl, rfl, rfl⟩⟩

theorem writesSent {needed : Fin n → Bool} : Answers b s (s.writesSent b needed) :=
  ⟨rfl, rfl, rfl, rfl, id, fun _ hc => ⟨rfl, rfl, update_of_ne hc _ _⟩⟩

theorem writeAnswered : Answers b s (writeAnswered s b off data i reply) :=
  ⟨rfl, rfl, rfl, rfl, fun h => Bool.or_eq_true_iff.mpr (Or.inl h), fun _ hc => ⟨rfl, rfl, update_of_ne hc _ _⟩⟩

end Answers

theorem Evidence.congr {b : Nat} (h : Evidence cfg s b) (hloops : t.loops b = s.loops b)
    (hfail : s.opFailed = true → t.opFailed = true)
    (hsame : t.summed b = s.summed b ∧ t.fetched b = s.fetched b ∧ t.wrote b = s.wrote b) : Evidence cfg t b := by
  obtain ⟨hsummed, hfetched, hwrote⟩ := hsame
  rcases h with hs | hs
  · exact Or.inl (hfail hs)
  right
  rw [hloops]
  unfold StageEvidence Settled at hs ⊢
  rw [hsummed, hfetched, hwrote]
  exact hs

namespace EvidenceInv

section

variable (hinv : EvidenceInv cfg store₀ s)
include hinv

theorem setStage {b off r : Nat} {stage : Stage n δ} (ht : Answers b s t)
    (hph : s.phase = .copying) (hstage : t.opFailed = true ∨ StageEvidence cfg t b (some stage)) :
    EvidenceInv cfg store₀ { t.setStage b off stage with loopsRunning := r } := by
  have hcopy : t.phase = .copying := ht.phase.trans hph
  refine ⟨?_, ?_, ?_, ?_⟩
  · intro c
    by_cases hc : c = b
    · subst hc
      rcases hstage with hfail | hstage
      · exact Or.inl hfail
      right
      show StageEvidence cfg _ c ((update t.loops c _ c).map Loop.stage)
      rw [update_self]
      exact hstage
    apply (hinv.blocks c).congr
    · show update t.loops b _ c = s.loops c
      rw [update_of_ne hc, ht.loops]
    · exact ht.opFailed
    · exact ht.others c hc
  · intro _
    apply ht.store.trans
    apply hinv.store
    rw [hph]
    exact nofun
  · intro pending h
    exact nomatch hcopy.symm.trans h
  intro h
  exact nomatch hcopy.symm.trans h

theorem spawn [Inhabited δ] (hloops : LoopsInv cfg s) : EvidenceInv cfg store₀ (spawn cfg s) := by
  refine ⟨?_, ?_, ?_, ?_⟩
  · intro b
    by_cases hb : b = s.spawned
    · subst hb
      rcases hinv.blocks s.spawned with hfail | hfresh
      · left
        rw [spawn_opFailed]
        exact hfail
      right
      rw [hloops.unspawned _ (Nat.le_refl _)] at hfresh
      obtain ⟨hfetched, hwrote⟩ := hfresh
      rw [spawn_loops, update_self]
      unfold Afr.spawn firstStage
      cases halgo : cfg.algo with
      | full => exact hwrote
      | diff =>
        refine ⟨halgo, hfetched, hwrote, ?_⟩
        intro i hi hpend
        rw [hi] at hpend
        cases hpend
    apply (hinv.blocks b).congr
    · rw [spawn_loops, update_of_ne hb]
    · rw [spawn_opFailed]
      exact id
    unfold Afr.spawn
    cases cfg.algo with
    | full => exact ⟨rfl, update_of_ne hb _ _, rfl⟩
    | diff => exact ⟨update_of_ne hb _ _, rfl, rfl⟩
  · rw [spawn_phase, spawn_store]
    exact hinv.store
  · rw [spawn_phase, spawn_trimmed]
    exact hinv.trimming
  rw [spawn_phase, spawn_trimmed]
  exact hinv.erased

theorem store_of_copying (hph : s.phase = .copying) : s.store = store₀ := by
  apply hinv.store
  rw [hph]
  exact nofun

theorem driver [Inhabited δ] (hloops : LoopsInv cfg s)
    (hph : s.phase = .copying) : EvidenceInv cfg store₀ (loopDriver cfg s) := by
  apply hloops.driver_keeps _ _ _ hinv hph
  · -- a spawned block needs that its loop was not there
    intro s hloops hinv
    exact hinv.spawn hloops
  · intro s hinv hph
    refine ⟨hinv.blocks, fun _ => hinv.store_of_copying hph, ?_, ?_⟩
    · exact nofun
    · exact nofun
  intro s hinv hph
  refine ⟨hinv.blocks, fun _ => hinv.store_of_copying hph, ?_, ?_⟩
  · intro pending hpend i hi hdone
    cases hpend
    rw [hi] at hdone
    cases hdone
  · exact nofun

theorem loopReturn [Inhabited δ] (hloops : LoopsInv cfg t) {b : Nat}
    {l : Loop n δ} (hl : t.loops b = some l) (hrun : l.stage.running = true) (ht : Answers b s t)
    (hreturned : t.opFailed = true ∨ StageEvidence cfg t b (some .returned)) :
    EvidenceInv cfg store₀ (loopReturn cfg t b l.offset) := by
  have hcopy := hloops.copying (running_of_loop hl hrun)
  apply driver _ (hloops.returned hl hrun) hcopy
  exact hinv.setStage ht (ht.phase.symm.trans hcopy) hreturned

end

end EvidenceInv

/-! ## The condition -/

/-- **What the callbacks are told.** A request that does not answer with an error was done in full, the diff
    algorithm reads without errors, and no truncate fails. -/
def Told (cfg : HealConfig n δ) (s : Healing n δ) : HealAction n → Prop
  | .checksum b i reply => ∀ k l, reply = some k → s.loops b = some l →
      ((s.files i).read l.offset cfg.blockSize).length ≤ k
  | .read b reply => ∀ l, s.loops b = some l → cfg.want l.offset ≤ (readData cfg s l.offset reply).length ∨
        cfg.algo = .full ∧ readData cfg s l.offset reply = []
  | .write b _ reply => ∀ k off data pending, reply = some k →
      s.loops b = some ⟨off, .write data pending⟩ → data.length ≤ k
  | .trim _ ok => ok = true

namespace EvidenceInv

variable [Inhabited δ] {b off : Nat} {i : Fin n} {reply : Option Nat}

section

variable (hinv : EvidenceInv cfg store₀ s)
include hinv

theorem checksum [DecidableEq δ] (hloops : LoopsInv cfg s) {digest : Fin n → δ} (hl : s.loops b = some ⟨off, .checksum pending digest⟩)
    (htold : Told cfg s (.checksum b i reply)) :
    EvidenceInv cfg store₀ (shDiffChecksumCbk cfg s b off pending digest i reply) := by
  have hcopy := hloops.copying (running_of_loop hl rfl)
  have ht : Answers b s (checksumAnswered cfg s b off i reply) := .checksumAnswered
  set t := checksumAnswered cfg s b off i reply with hteq
  have hloopst : LoopsInv cfg t := hloops.congr rfl rfl rfl rfl hcopy
  -- the answer is an error, which is recorded, or one more checksum is complete
  have hknown : t.opFailed = true ∨ cfg.algo = .diff ∧ t.fetched b = .unsent ∧ (∀ j, t.wrote b j = .unsent) ∧
      ∀ j, cfg.summer j = true → update pending i false j = false → t.summed b j = .complete := by
    rcases hinv.blocks b with hfail | hblock
    · exact Or.inl (ht.opFailed hfail)
    rw [hl] at hblock
    obtain ⟨halgo, hfetched, hwrote, hsummed⟩ := hblock
    cases hrep : reply with
    | none =>
      left
      rw [hteq, hrep]
      exact Bool.or_true _
    | some k =>
      right
      refine ⟨halgo, hfetched, hwrote, ?_⟩
      intro j hj hpend
      show update s.summed b _ b j = _
      rw [update_self]
      by_cases hji : j = i
      · subst hji
        rw [update_self, hrep, Option.any_some, decide_eq_true (htold k _ hrep hl)]
        rfl
      rw [update_of_ne hji] at hpend ⊢
      exact hsummed j hj hpend
  rcases shDiffChecksumCbk_cases cfg s b off pending digest i reply with
      hr | ⟨-, -, hr⟩ | ⟨hnone, -, hr⟩
  · rw [hr]
    exact hinv.setStage ht hcopy hknown
  · rw [hr]
    apply hinv.setStage (ht.trans .readSent) hcopy
    exact hknown.imp id fun h => h.2.2.1
  rw [hr]
  apply hinv.loopReturn hloopst hl rfl ht
  apply hknown.imp id
  rintro ⟨halgo, hfetched, hwrote, hsummed⟩
  refine ⟨Or.inr ⟨halgo, hfetched, ?_⟩, fun j => Or.inl (hwrote j)⟩
  exact fun j hj => hsummed j hj (hnone j)

theorem read (hloops : LoopsInv cfg s) {needed : Fin n → Bool}
    (hl : s.loops b = some ⟨off, .read needed⟩) (htold : Told cfg s (.read b reply)) :
    EvidenceInv cfg store₀ (shReadCbk cfg s b off needed reply) := by
  have hcopy := hloops.copying (running_of_loop hl rfl)
  set data := readData cfg s off reply with hdata
  have ht : Answers b s (readAnswered cfg s b off data) := .readAnswered
  set t := readAnswered cfg s b off data with hteq
  have hloopst : LoopsInv cfg t := hloops.congr rfl rfl rfl rfl hcopy
  have hwrote : t.opFailed = true ∨ ∀ j, t.wrote b j = .unsent := by
    rcases hinv.blocks b with hfail | hblock
    · exact Or.inl (ht.opFailed hfail)
    rw [hl] at hblock
    exact Or.inr hblock
  have hfull : cfg.want off ≤ data.length → t.fetched b = .complete := by
    intro hwant
    show update s.fetched b _ b = _
    rw [update_self, decide_eq_true hwant]
    rfl
  rcases htold _ hl with hwant | ⟨halgo, hnil⟩
  · have hfetched := hfull hwant
    have hreturned : t.opFailed = true ∨ StageEvidence cfg t b (some .returned) :=
      hwrote.imp id fun h => ⟨Or.inl hfetched, fun j => Or.inl (h j)⟩
    rcases shReadCbk_cases cfg s b off needed reply with ⟨-, hr⟩ | ⟨-, -, hr⟩ | ⟨-, -, hr⟩
    · rw [hr]
      apply hinv.loopReturn (t := readEmpty cfg t) _ hl rfl (ht.trans .readEmpty)
      · apply hreturned.imp _ id
        exact Answers.readEmpty (b := b).opFailed
      · exact hloopst.congr rfl rfl rfl rfl hcopy
    · rw [hr]
      exact hinv.loopReturn hloopst hl rfl ht hreturned
    rw [hr]
    apply hinv.setStage (ht.trans .writesSent) hcopy
    right
    refine ⟨hfetched, ?_⟩
    intro j hj
    left
    show update t.wrote b (sentTo needed) b j = _
    rw [update_self]
    unfold sentTo
    rw [hj]
    rfl
  -- an empty read of the full algorithm is recorded
  rcases shReadCbk_cases cfg s b off needed reply with ⟨-, hr⟩ | ⟨hne, -, -⟩ | ⟨hne, -, -⟩
  · rw [hr]
    apply hinv.loopReturn (t := readEmpty cfg t) _ hl rfl (ht.trans .readEmpty)
    · left
      show (t.opFailed || decide (cfg.algo = .full)) = true
      rw [decide_eq_true halgo, Bool.or_true]
    · exact hloopst.congr rfl rfl rfl rfl hcopy
  all_goals exact absurd hnil hne

theorem write (hloops : LoopsInv cfg s) (hl : s.loops b = some ⟨off, .write data pending⟩)
    (htold : Told cfg s (.write b i reply)) : EvidenceInv cfg store₀ (shWriteCbk cfg s b off data pending i reply) := by
  have hcopy := hloops.copying (running_of_loop hl rfl)
  have ht : Answers b s (writeAnswered s b off data i reply) := .writeAnswered
  set t := writeAnswered s b off data i reply with hteq
  have hloopst : LoopsInv cfg t := hloops.congr rfl rfl rfl rfl hcopy
  have hknown : t.opFailed = true ∨ t.fetched b = .complete ∧
      ∀ j, update pending i false j = false → (t.wrote b j).Done := by
    rcases hinv.blocks b with hfail | hblock
    · exact Or.inl (ht.opFailed hfail)
    rw [hl] at hblock
    obtain ⟨hfetched, hwrote⟩ := hblock
    cases hrep : reply with
    | none =>
      left
      rw [hteq, hrep]
      exact Bool.or_true _
    | some k =>
      right
      refine ⟨hfetched, ?_⟩
      intro j hpend
      show SubOp.Done (update s.wrote b _ b j)
      rw [update_self]
      by_cases hji : j = i
      · subst hji
        right
        rw [update_self, hrep, Option.any_some, decide_eq_true (htold k _ _ _ hrep hl)]
        rfl
      rw [update_of_ne hji] at hpend ⊢
      exact hwrote j hpend
  rcases shWriteCbk_cases cfg s b off data pending i reply with hr | ⟨hnone, hr⟩
  · rw [hr]
    exact hinv.setStage ht hcopy hknown
  rw [hr]
  apply hinv.loopReturn hloopst hl rfl ht
  exact hknown.imp id fun h => ⟨Or.inl h.1, fun j => h.2 j (hnone j)⟩

omit [Inhabited δ] in
theorem trim {ok : Bool} (hph : s.phase = .trimming pending) (htold : Told cfg s (.trim i ok)) :
    EvidenceInv cfg store₀ (afrShDataTrimCbk cfg s pending i ok) := by
  have hblocks : ∀ b, Evidence cfg (trimAnswered cfg s i ok) b :=
    fun b => (hinv.blocks b).congr rfl id ⟨rfl, rfl, rfl⟩
  have htrimmed : ∀ j, cfg.sink j = true → update pending i false j = false →
      (trimAnswered cfg s i ok).trimmed j = .complete := by
    intro j hj hdone
    show update s.trimmed i _ j = _
    by_cases hji : j = i
    · subst hji
      rw [update_self, show ok = true from htold]
      rfl
    rw [update_of_ne hji] at hdone ⊢
    exact hinv.trimming pending hph j hj hdone
  rcases afrShDataTrimCbk_cases cfg s pending i ok with hr | ⟨hnone, hr⟩
  · rw [hr]
    refine ⟨hblocks, ?_, ?_, ?_⟩
    · intro _
      apply hinv.store
      rw [hph]
      exact nofun
    · intro pending' hpending'
      cases hpending'
      exact htrimmed
    · exact nofun
  rw [hr]
  refine ⟨hblocks, fun h => absurd rfl h, nofun, ?_⟩
  intro _ j hj
  exact htrimmed j hj (hnone j)

/-- **Every answer that is told keeps the evidence.** -/
theorem step [DecidableEq δ] {a : HealAction n} (hloops : LoopsInv cfg s)
    (htold : Told cfg s a) (h : healStep cfg s a = .ok s') : EvidenceInv cfg store₀ s' := by
  rcases healStep_cases h with ⟨b, i, reply, off, pending, digest, rfl, hl, -, rfl⟩ |
      ⟨b, reply, off, needed, rfl, hl, rfl⟩ | ⟨b, i, reply, off, data, pending, rfl, hl, -, rfl⟩ |
      ⟨i, ok, pending, rfl, hph, -, rfl⟩
  · exact hinv.checksum hloops hl htold
  · exact hinv.read hloops hl htold
  · exact hinv.write hloops hl htold
  · exact hinv.trim hph htold

end

theorem syncPrepare (files : Fin n → File) (store : FileStore n) :
    EvidenceInv cfg store (afrShDataSyncPrepare cfg files store) := by
  have hfresh : EvidenceInv cfg store (Healing.fresh files store : Healing n δ) :=
    ⟨fun _ => Or.inr ⟨rfl, fun _ => rfl⟩, fun _ => rfl, nofun, nofun⟩
  unfold afrShDataSyncPrepare
  split
  · exact hfresh.driver (.fresh files store) rfl
  · exact ⟨hfresh.blocks, fun _ => rfl, nofun, nofun⟩

end EvidenceInv

/-! ## The evidence is safe -/

theorem EvidenceInv.complete (hinv : EvidenceInv cfg store₀ s) (hloops : LoopsInv cfg s) (herased : s.phase = .erased) :
    (∀ b, b * cfg.blockSize < cfg.fileSize → Settled cfg s b) ∧ ∀ b i, (s.wrote b i).Done := by
  have hzero : s.loopsRunning = 0 := by
    apply hloops.idle
    rw [herased]
    exact nofun
  obtain ⟨hover, hok⟩ := hloops.completing (by rw [herased]; rfl)
  have hblock : ∀ b, StageEvidence cfg s b ((s.loops b).map Loop.stage) := by
    intro b
    apply (hinv.blocks b).resolve_left
    rw [hok]
    exact Bool.false_ne_true
  have hreturned : ∀ b, b * cfg.blockSize < cfg.fileSize → Settled cfg s b ∧ ∀ i, (s.wrote b i).Done := by
    intro b hb
    have h := hblock b
    rw [hloops.returned_of_idle hzero hover hb] at h
    exact h
  refine ⟨fun b hb => (hreturned b hb).1, ?_⟩
  intro b i
  by_cases hb : b < s.spawned
  · obtain ⟨-, -, -, hlt⟩ := hloops.started b hb
    exact (hreturned b hlt).2 i
  have h := hblock b
  rw [hloops.unspawned b (Nat.le_of_not_lt hb)] at h
  exact Or.inl (h.2 i)

/-- **The evidence of an incomplete heal is not erased.** In every run in which what goes wrong is told, a
    counter that accuses a sink changes only after every block of the source was read and every write and
    truncate sent to the sink was done in full. -/
theorem erase_only_after_complete_heal [Inhabited δ] [DecidableEq δ] (cfg : HealConfig n δ)
    (files : Fin n → File) (store : FileStore n) (as : List (HealAction n)) (s : Healing n δ)
    (hrun : run (healStep cfg) (afrShDataSyncPrepare cfg files store) as = .ok s)
    (htold : Along (healStep cfg) (Told cfg) (afrShDataSyncPrepare cfg files store) as)
    (i j : Fin n) (hsink : cfg.sink j = true) (hchanged : s.store.counter i j ≠ store.counter i j) :
    (∀ b, b * cfg.blockSize < cfg.fileSize → Settled cfg s b) ∧
      (∀ b, (s.wrote b j).Done) ∧ s.trimmed j = .complete := by
  obtain ⟨hloops, hinv⟩ : LoopsInv cfg s ∧ EvidenceInv cfg store s := by
    apply run_invariant (I := fun s => LoopsInv cfg s ∧ EvidenceInv cfg store s) _ _ htold hrun
    · rintro s a s' ⟨hloops, hinv⟩ htold hstep
      exact ⟨hloops.step hstep, hinv.step hloops htold hstep⟩
    · exact ⟨.syncPrepare files store, .syncPrepare files store⟩
  have herased : s.phase = .erased := by
    by_contra hphase
    apply hchanged
    rw [hinv.store hphase]
  obtain ⟨hsettled, hdone⟩ := hinv.complete hloops herased
  exact ⟨hsettled, fun b => hdone b j, hinv.erased herased j hsink⟩

/-- The answers of a heal in which everything goes well. -/
def wellAnswered : List (HealAction 2) := [.read 0 (some 2), .write 0 1 (some 2), .trim 1 true]

theorem erase_only_after_complete_heal_full :
    (healed (twoCopies .full 2 1) [1, 2] [0] wellAnswered).store.counter 0 1 ≠ accused.counter 0 1 ∧
      (healed (twoCopies .full 2 1) [1, 2] [0] wellAnswered).trimmed 1 = .complete := by
  have hchanged : (healed (twoCopies .full 2 1) [1, 2] [0] wellAnswered).store.counter 0 1 ≠ accused.counter 0 1 := by
    decide +kernel
  refine ⟨hchanged, ?_⟩
  have hcomplete := erase_only_after_complete_heal (twoCopies .full 2 1) (twoFiles [1, 2] [0]) accused
    wellAnswered (healed (twoCopies .full 2 1) [1, 2] [0] wellAnswered) rfl ?_ 0 1 rfl hchanged
  · exact hcomplete.2.2
  refine (along_cons_ok rfl).mpr ⟨?_, (along_cons_ok rfl).mpr ⟨?_, (along_cons_ok rfl).mpr ⟨rfl, trivial⟩⟩⟩
  · intro l hl
    obtain rfl := Option.some.inj hl
    left
    decide +kernel
  intro k off data pending hk hl
  obtain rfl := Option.some.inj hk
  obtain rfl : [1, 2] = data := by
    injection Option.some.inj hl with hoff hstage
    injection hstage
  exact Nat.le_refl 2

/-- What is left of a heal: the read of the first block, its write, the truncate and the accusation. -/
def leftBehind (s : Healing 2 (List UInt8)) : SubOp × SubOp × SubOp × BitVec 32 :=
  (s.fetched 0, s.wrote 0 1, s.trimmed 1, s.store.counter 0 1)

/-- **Three heals that erase too much.** The diff algorithm cannot read the block it has to copy; a write
    stores one of two bytes; the truncate fails. The accusation is gone each time, as after a heal that went
    well. -/
theorem incomplete_heals_erased : accused.counter 0 1 = 1 ∧ leftBehind (healed (twoCopies .diff 2 1) [1, 2] [0]
      [.checksum 0 0 (some 2), .checksum 0 1 (some 2), .read 0 none, .trim 1 true]) =
        (.incomplete, .unsent, .complete, 0) ∧ leftBehind (healed (twoCopies .full 2 1) [1, 2] [0]
      [.read 0 (some 2), .write 0 1 (some 1), .trim 1 true]) = (.complete, .incomplete, .complete, 0) ∧
    leftBehind (healed (twoCopies .full 2 1) [1, 2] [0]
      [.read 0 (some 2), .write 0 1 (some 2), .trim 1 false]) = (.complete, .complete, .incomplete, 0) := by
  refine ⟨?_, ?_, ?_, ?_⟩ <;> decide +kernel

end GlusterFS.Afr
