import GlusterFS.Afr.SelfHeal.Data

/-!
# `Afr.Correctness.SelfHealLoops` — the loops of a data self-heal

What every run of a heal keeps, whatever the children answer: the blocks are spawned one after another from
the beginning of the file, `loops_running` is the number of loops that have not returned, and the sinks are
trimmed only when the whole file was handed out and every loop has returned (`LoopsInv`).

`loopDriver_keeps` is the rule for the driver, which spawns in a loop: a property kept by one spawned block
and by the two ways to end is kept by it.
-/

namespace GlusterFS.Afr

open GlusterFS.Storage
open Sparse (File)
open Transition
open Function (update update_of_ne update_self)

variable {n : Nat} {δ : Type} {cfg : HealConfig n δ} {s s' : Healing n δ}

variable {b : Nat} {l : Loop n δ}

/-! ## The steps -/

/-- **What an answer can do.** -/
theorem healStep_cases [Inhabited δ] [DecidableEq δ] {a : HealAction n} (h : healStep cfg s a = .ok s') :
    (∃ b i reply off pending digest, a = .checksum b i reply ∧
      s.loops b = some ⟨off, .checksum pending digest⟩ ∧ pending i = true ∧
      s' = shDiffChecksumCbk cfg s b off pending digest i reply) ∨
    (∃ b reply off needed, a = .read b reply ∧ s.loops b = some ⟨off, .read needed⟩ ∧
      s' = shReadCbk cfg s b off needed reply) ∨ (∃ b i reply off data pending, a = .write b i reply ∧
      s.loops b = some ⟨off, .write data pending⟩ ∧ pending i = true ∧
      s' = shWriteCbk cfg s b off data pending i reply) ∨
    (∃ i ok pending, a = .trim i ok ∧ s.phase = .trimming pending ∧ pending i = true ∧
      s' = afrShDataTrimCbk cfg s pending i ok) := by
  cases a with
  | checksum b i reply =>
    simp only [healStep] at h
    split at h
    next off pending digest hloop =>
      split at h
      next hpend =>
        cases h
        exact .inl ⟨b, i, reply, off, pending, digest, rfl, hloop, hpend, rfl⟩
      · cases h
    · cases h
  | read b reply =>
    simp only [healStep] at h
    split at h
    next off needed hloop =>
      cases h
      exact .inr (.inl ⟨b, reply, off, needed, rfl, hloop, rfl⟩)
    · cases h
  | write b i reply =>
    simp only [healStep] at h
    split at h
    next off data pending hloop =>
      split at h
      next hpend =>
        cases h
        exact .inr (.inr (.inl ⟨b, i, reply, off, data, pending, rfl, hloop, hpend, rfl⟩))
      · cases h
    · cases h
  | trim i ok =>
    simp only [healStep] at h
    split at h
    next pending hph =>
      split at h
      next hpend =>
        cases h
        exact .inr (.inr (.inr ⟨i, ok, pending, rfl, hph, hpend, rfl⟩))
      · cases h
    · cases h

theorem anyPending_eq_false {pending : Fin n → Bool} : anyPending pending = false ↔ ∀ i, pending i = false := by
  unfold anyPending
  rw [List.any_eq_false]
  constructor
  · intro h i
    exact Bool.eq_false_iff.mpr (h i (List.mem_finRange i))
  intro h i _
  exact Bool.eq_false_iff.mp (h i)

/-! ## The callbacks -/

/-- **A checksum came**: others are still missing, or the block is read, or the loop returns. -/
theorem shDiffChecksumCbk_cases [Inhabited δ] [DecidableEq δ] (cfg : HealConfig n δ) (s : Healing n δ) (b off : Nat)
    (pending : Fin n → Bool) (digest : Fin n → δ) (i : Fin n) (reply : Option Nat) :
    let t := checksumAnswered cfg s b off i reply
    let pending' := update pending i false
    let digest' := digestAnswered cfg s off digest i reply
    let r := shDiffChecksumCbk cfg s b off pending digest i reply
    r = t.setStage b off (.checksum pending' digest') ∨ ((∀ j, pending' j = false) ∧ t.opFailed = false ∧
      r = (t.readSent b).setStage b off (.read (writeNeeded cfg digest'))) ∨
    ((∀ j, pending' j = false) ∧ (t.opFailed = false → ∀ j, writeNeeded cfg digest' j = false) ∧
      r = loopReturn cfg t b off) := by
  intro t pending' digest' r
  by_cases hpend : anyPending pending' = true
  · left
    exact if_pos hpend
  right
  have hr : r = if anyPending (writeNeeded cfg digest') && !t.opFailed then _ else _ := if_neg hpend
  rw [Bool.not_eq_true, anyPending_eq_false] at hpend
  by_cases hneeded : (anyPending (writeNeeded cfg digest') && !t.opFailed) = true
  · left
    rw [if_pos hneeded] at hr
    rw [Bool.and_eq_true, Bool.not_eq_true'] at hneeded
    exact ⟨hpend, hneeded.2, hr⟩
  right
  rw [if_neg hneeded] at hr
  refine ⟨hpend, ?_, hr⟩
  intro hok
  rw [hok, Bool.not_false, Bool.and_true, Bool.not_eq_true, anyPending_eq_false] at hneeded
  exact hneeded

/-- **The block came**: it was empty, or there is nothing to write, or it is written. -/
theorem shReadCbk_cases [Inhabited δ] (cfg : HealConfig n δ) (s : Healing n δ) (b off : Nat) (needed : Fin n → Bool)
    (reply : Option Nat) : let data := readData cfg s off reply
    let t := readAnswered cfg s b off data
    let r := shReadCbk cfg s b off needed reply
    (data = [] ∧ r = loopReturn cfg (readEmpty cfg t) b off) ∨
    (data ≠ [] ∧ ((∀ j, needed j = false) ∨ (cfg.fileHasHoles && data.all (fun x => x == 0)) = true) ∧
      r = loopReturn cfg t b off) ∨
    (data ≠ [] ∧ (cfg.fileHasHoles && data.all (fun x => x == 0)) = false ∧
      r = (t.writesSent b needed).setStage b off (.write data needed)) := by
  intro data t r
  by_cases hnil : data = []
  · left
    exact ⟨hnil, if_pos hnil⟩
  right
  have hr : r = if cfg.algo = .diff ∧ anyPending needed = false then _ else _ := if_neg hnil
  by_cases hnone : cfg.algo = .diff ∧ anyPending needed = false
  · left
    rw [if_pos hnone] at hr
    exact ⟨hnil, Or.inl (anyPending_eq_false.mp hnone.2), hr⟩
  rw [if_neg hnone] at hr
  by_cases hzero : (cfg.fileHasHoles && data.all fun x => x == 0) = true
  · left
    rw [if_pos hzero] at hr
    exact ⟨hnil, Or.inr hzero, hr⟩
  right
  rw [if_neg hzero] at hr
  exact ⟨hnil, Bool.eq_false_iff.mpr hzero, hr⟩

/-- **A write was answered**: others are still missing, or the loop returns. -/
theorem shWriteCbk_cases [Inhabited δ] (cfg : HealConfig n δ) (s : Healing n δ) (b off : Nat) (data : List UInt8)
    (pending : Fin n → Bool) (i : Fin n) (reply : Option Nat) : let t := writeAnswered s b off data i reply
    let pending' := update pending i false
    let r := shWriteCbk cfg s b off data pending i reply
    r = t.setStage b off (.write data pending') ∨ ((∀ j, pending' j = false) ∧ r = loopReturn cfg t b off) := by
  intro t pending' r
  by_cases hpend : anyPending pending' = true
  · left
    exact if_pos hpend
  right
  refine ⟨?_, if_neg hpend⟩
  rw [Bool.not_eq_true, anyPending_eq_false] at hpend
  exact hpend

/-- **A truncate was answered**: others are still missing, or the counters are erased. -/
theorem afrShDataTrimCbk_cases (cfg : HealConfig n δ) (s : Healing n δ) (pending : Fin n → Bool) (i : Fin n)
    (ok : Bool) : let t := trimAnswered cfg s i ok
    let pending' := update pending i false
    let r := afrShDataTrimCbk cfg s pending i ok
    r = { t with phase := .trimming pending' } ∨ ((∀ j, pending' j = false) ∧
      r = { t with phase := .erased, store := afrShDataErasePending cfg t.store }) := by
  intro t pending' r
  by_cases hpend : anyPending pending' = true
  · left
    exact if_pos hpend
  right
  refine ⟨?_, if_neg hpend⟩
  rw [Bool.not_eq_true, anyPending_eq_false] at hpend
  exact hpend

/-! ## The driver -/

variable {P : Healing n δ → Prop}

section

variable [Inhabited δ]

@[simp] theorem spawn_phase : (spawn cfg s).phase = s.phase := by
  unfold spawn
  cases cfg.algo <;> rfl

@[simp] theorem spawn_opFailed : (spawn cfg s).opFailed = s.opFailed := by
  unfold spawn
  cases cfg.algo <;> rfl

@[simp] theorem spawn_files : (spawn cfg s).files = s.files := by
  unfold spawn
  cases cfg.algo <;> rfl

@[simp] theorem spawn_store : (spawn cfg s).store = s.store := by
  unfold spawn
  cases cfg.algo <;> rfl

@[simp] theorem spawn_trimmed : (spawn cfg s).trimmed = s.trimmed := by
  unfold spawn
  cases cfg.algo <;> rfl

@[simp] theorem spawn_offset : (spawn cfg s).offset = s.offset + cfg.blockSize := by
  unfold spawn
  cases cfg.algo <;> rfl

@[simp] theorem spawn_loopsRunning : (spawn cfg s).loopsRunning = s.loopsRunning + 1 := by
  unfold spawn
  cases cfg.algo <;> rfl

@[simp] theorem spawn_spawned : (spawn cfg s).spawned = s.spawned + 1 := by
  unfold spawn
  cases cfg.algo <;> rfl

/-- The stage a loop starts in. -/
def firstStage (cfg : HealConfig n δ) : Stage n δ :=
  match cfg.algo with
  | .full => .read cfg.sink
  | .diff => .checksum cfg.summer fun _ => default

@[simp] theorem spawn_loops : (spawn cfg s).loops = update s.loops s.spawned (some ⟨s.offset, firstStage cfg⟩) := by
  unfold spawn firstStage
  cases cfg.algo <;> rfl

/-- A property that every spawned block keeps is kept by the spawning loop. -/
theorem spawnLoops_keeps (hspawn : ∀ s, P s → s.phase = .copying → s.opFailed = false → s.offset < cfg.fileSize →
      P (spawn cfg s)) : ∀ (room : Nat) (s : Healing n δ), P s → s.phase = .copying → s.opFailed = false →
      P (spawnLoops cfg room s) := by
  intro room
  induction room with
  | zero =>
    intro s hP _ _
    exact hP
  | succ room ih =>
    intro s hP hph hok
    unfold spawnLoops
    split
    next hlt =>
      apply ih
      · exact hspawn s hP hph hok hlt
      · rw [spawn_phase]
        exact hph
      rw [spawn_opFailed]
      exact hok
    · exact hP

/-- **The rule for the driver.** -/
theorem loopDriver_keeps (hspawn : ∀ s, P s → s.phase = .copying → s.opFailed = false → s.offset < cfg.fileSize →
      P (spawn cfg s)) (hfinish : ∀ s, P s → s.phase = .copying → s.loopsRunning = 0 → P { s with phase := .finished })
    (htrim : ∀ s, P s → s.phase = .copying → s.opFailed = false → cfg.fileSize ≤ s.offset →
      s.loopsRunning = 0 → P (afrShDataTrimSinks cfg s))
    (hP : P s) (hph : s.phase = .copying) : P (loopDriver cfg s) := by
  unfold loopDriver
  split
  · split
    next hzero => exact hfinish s hP hph hzero
    · exact hP
  next hok =>
    rw [Bool.not_eq_true] at hok
    split
    next hover =>
      split
      next hzero => exact htrim s hP hph hok hover hzero
      · exact hP
    · exact spawnLoops_keeps hspawn _ s hP hph hok

end

/-! ## The loops that are running -/

/-- The loop waits for an answer. -/
def Stage.running : Stage n δ → Bool
  | .returned => false
  | _ => true

/-- Loop `b` was spawned and has not returned. -/
def Healing.Running (s : Healing n δ) (b : Nat) : Prop := (s.loops b).any (fun l => l.stage.running) = true

theorem running_of_loop (hl : s.loops b = some l) (hrun : l.stage.running = true) : s.Running b := by
  unfold Healing.Running
  rw [hl]
  exact hrun

variable {stage : Stage n δ}

theorem running_setStage_self {off : Nat} : (s.setStage b off stage).Running b ↔ stage.running = true := by
  show (update s.loops b _ b).any _ = true ↔ _
  rw [update_self]
  rfl

theorem running_setStage_of_ne {c off : Nat} (hcb : c ≠ b) : (s.setStage b off stage).Running c ↔ s.Running c := by
  show (update s.loops b _ c).any _ = true ↔ _
  rw [update_of_ne hcb]
  rfl

/-- The file was copied, as far as the driver knows. -/
def HealPhase.completing : HealPhase n → Bool
  | .trimming _ => true
  | .erased => true
  | _ => false

/-- **What all runs keep about the loops.** -/
structure LoopsInv (cfg : HealConfig n δ) (s : Healing n δ) : Prop where
  offset : s.offset = s.spawned * cfg.blockSize
  started : ∀ b, b < s.spawned → ∃ l, s.loops b = some l ∧ l.offset = b * cfg.blockSize ∧
    b * cfg.blockSize < cfg.fileSize
  unspawned : ∀ b, s.spawned ≤ b → s.loops b = none
  running : ∃ S : Finset Nat, S.card = s.loopsRunning ∧ ∀ b, b ∈ S ↔ s.Running b
  idle : s.phase ≠ .copying → s.loopsRunning = 0
  completing : s.phase.completing = true → cfg.fileSize ≤ s.offset ∧ s.opFailed = false

namespace LoopsInv

section

variable (hinv : LoopsInv cfg s)
include hinv

theorem loop_offset (hl : s.loops b = some l) :
    l.offset = b * cfg.blockSize ∧ b * cfg.blockSize < cfg.fileSize ∧ b < s.spawned := by
  have hb : b < s.spawned := by
    by_contra hge
    rw [hinv.unspawned b (Nat.le_of_not_lt hge)] at hl
    cases hl
  obtain ⟨l', hl', hoff, hlt⟩ := hinv.started b hb
  rw [hl] at hl'
  cases hl'
  exact ⟨hoff, hlt, hb⟩

theorem loopsRunning_pos (hb : s.Running b) : 0 < s.loopsRunning := by
  obtain ⟨S, hcard, hmem⟩ := hinv.running
  rw [← hcard, Finset.card_pos]
  exact ⟨b, (hmem b).mpr hb⟩

theorem copying (hb : s.Running b) : s.phase = .copying := by
  by_contra hph
  have hpos := hinv.loopsRunning_pos hb
  have hzero := hinv.idle hph
  omega

/-- When no loop runs, every block that was handed out has returned. -/
theorem returned_of_idle (hzero : s.loopsRunning = 0)
    (hover : cfg.fileSize ≤ s.offset) (hb : b * cfg.blockSize < cfg.fileSize) :
    s.loops b = some ⟨b * cfg.blockSize, .returned⟩ := by
  have hspawned : b < s.spawned := by
    by_contra hge
    have hle : s.spawned * cfg.blockSize ≤ b * cfg.blockSize :=
      Nat.mul_le_mul_right _ (Nat.le_of_not_lt hge)
    have hoff := hinv.offset
    omega
  obtain ⟨⟨off, stage⟩, hl, hoff, -⟩ := hinv.started b hspawned
  have hnot : ¬ s.Running b := by
    intro hrun
    have := hinv.loopsRunning_pos hrun
    omega
  unfold Healing.Running at hnot
  rw [hl] at hnot ⊢
  change off = b * cfg.blockSize at hoff
  subst hoff
  cases stage with
  | returned => rfl
  | checksum _ _ | read _ | write _ _ => exact absurd rfl hnot

theorem congr {t : Healing n δ} (hoffset : t.offset = s.offset)
    (hspawned : t.spawned = s.spawned) (hloops : t.loops = s.loops)
    (hrunning : t.loopsRunning = s.loopsRunning) (hph : t.phase = .copying) : LoopsInv cfg t where
  offset := by
    rw [hoffset, hspawned]
    exact hinv.offset
  started := by
    rw [hspawned, hloops]
    exact hinv.started
  unspawned := by
    rw [hspawned, hloops]
    exact hinv.unspawned
  running := by
    unfold Healing.Running
    rw [hloops, hrunning]
    exact hinv.running
  idle := fun hne => absurd hph hne
  completing := by
    intro hcompleting
    rw [hph] at hcompleting
    cases hcompleting

/-- The loop of a block goes to another stage: what is left to show is which loops are running. -/
theorem setStage_of {r : Nat} (hl : s.loops b = some l) (hcopy : s.phase = .copying)
    (hrunning : ∃ S : Finset Nat, S.card = r ∧ ∀ c, c ∈ S ↔ (s.setStage b l.offset stage).Running c) :
    LoopsInv cfg { s.setStage b l.offset stage with loopsRunning := r } := by
  obtain ⟨hoff, hlt, hb⟩ := hinv.loop_offset hl
  refine ⟨hinv.offset, ?_, ?_, hrunning, fun hne => absurd hcopy hne, hinv.completing⟩
  · intro c hc
    show ∃ l', update s.loops b _ c = some l' ∧ _
    by_cases hcb : c = b
    · subst hcb
      rw [update_self]
      exact ⟨_, rfl, hoff, hlt⟩
    rw [update_of_ne hcb]
    exact hinv.started c hc
  intro c hc
  show update s.loops b _ c = none
  have hcb : c ≠ b := by
    intro heq
    have hge : s.spawned ≤ c := hc
    omega
  rw [update_of_ne hcb]
  exact hinv.unspawned c hc

theorem setStage (hl : s.loops b = some l) (hrun : l.stage.running = true) (hstage : stage.running = true) :
    LoopsInv cfg (s.setStage b l.offset stage) := by
  have hrunning := running_of_loop hl hrun
  apply hinv.setStage_of (r := s.loopsRunning) hl (hinv.copying hrunning)
  obtain ⟨S, hcard, hmem⟩ := hinv.running
  refine ⟨S, hcard, ?_⟩
  intro c
  rw [hmem c]
  by_cases hcb : c = b
  · subst hcb
    exact iff_of_true hrunning (running_setStage_self.mpr hstage)
  · exact (running_setStage_of_ne hcb).symm

theorem returned (hl : s.loops b = some l) (hrun : l.stage.running = true) : LoopsInv cfg (s.returned b l.offset) := by
  have hrunning := running_of_loop hl hrun
  apply hinv.setStage_of hl (hinv.copying hrunning)
  obtain ⟨S, hcard, hmem⟩ := hinv.running
  refine ⟨S.erase b, ?_, ?_⟩
  · rw [Finset.card_erase_of_mem ((hmem b).mpr hrunning), hcard]
  intro c
  rw [Finset.mem_erase, hmem c]
  by_cases hcb : c = b
  · subst hcb
    apply iff_of_false
    · exact fun h => h.1 rfl
    · exact fun h => Bool.false_ne_true (running_setStage_self.mp h)
  rw [running_setStage_of_ne hcb]
  exact and_iff_right hcb

theorem spawn [Inhabited δ] (hph : s.phase = .copying) (hlt : s.offset < cfg.fileSize) :
    LoopsInv cfg (spawn cfg s) := by
  have hstage : (firstStage cfg).running = true := by
    unfold firstStage
    cases cfg.algo <;> rfl
  have hfresh : ¬ s.Running s.spawned := by
    unfold Healing.Running
    rw [hinv.unspawned s.spawned (Nat.le_refl _)]
    exact Bool.false_ne_true
  refine ⟨?_, ?_, ?_, ?_, ?_, ?_⟩
  · rw [spawn_offset, spawn_spawned, hinv.offset, Nat.succ_mul]
  · intro b hb
    rw [spawn_spawned] at hb
    rw [spawn_loops]
    by_cases hbs : b = s.spawned
    · subst hbs
      rw [update_self]
      exact ⟨_, rfl, hinv.offset, hinv.offset ▸ hlt⟩
    rw [update_of_ne hbs]
    exact hinv.started b (by omega)
  · intro b hb
    rw [spawn_spawned] at hb
    rw [spawn_loops, update_of_ne (by omega)]
    exact hinv.unspawned b (by omega)
  · obtain ⟨S, hcard, hmem⟩ := hinv.running
    have hnot : s.spawned ∉ S := fun h => hfresh ((hmem _).mp h)
    refine ⟨insert s.spawned S, ?_, ?_⟩
    · rw [Finset.card_insert_of_notMem hnot, hcard, spawn_loopsRunning]
    intro b
    rw [Finset.mem_insert, hmem b]
    unfold Healing.Running
    rw [spawn_loops]
    by_cases hbs : b = s.spawned
    · subst hbs
      rw [update_self]
      exact iff_of_true (Or.inl rfl) hstage
    rw [update_of_ne hbs]
    exact or_iff_right hbs
  · intro hne
    rw [spawn_phase] at hne
    exact absurd hph hne
  intro hcompleting
  rw [spawn_phase, hph] at hcompleting
  cases hcompleting

theorem finish (hzero : s.loopsRunning = 0) : LoopsInv cfg { s with phase := .finished } :=
  ⟨hinv.offset, hinv.started, hinv.unspawned, hinv.running, fun _ => hzero, nofun⟩

theorem trimSinks (hok : s.opFailed = false) (hover : cfg.fileSize ≤ s.offset)
    (hzero : s.loopsRunning = 0) : LoopsInv cfg (afrShDataTrimSinks cfg s) :=
  ⟨hinv.offset, hinv.started, hinv.unspawned, hinv.running, fun _ => hzero, fun _ => ⟨hover, hok⟩⟩

theorem driver [Inhabited δ] (hph : s.phase = .copying) : LoopsInv cfg (loopDriver cfg s) := by
  apply loopDriver_keeps _ _ _ hinv hph
  · intro s hinv hph _ hlt
    exact hinv.spawn hph hlt
  · intro s hinv _ hzero
    exact hinv.finish hzero
  intro s hinv _ hok hover hzero
  exact hinv.trimSinks hok hover hzero

end

/-- What a spawned block keeps while the loops are in order, the driver keeps. -/
theorem driver_keeps [Inhabited δ] (hspawn : ∀ s, LoopsInv cfg s → P s → P (Afr.spawn cfg s))
    (hfinish : ∀ s, P s → s.phase = .copying → P { s with phase := .finished })
    (htrim : ∀ s, P s → s.phase = .copying → P (afrShDataTrimSinks cfg s))
    (hinv : LoopsInv cfg s) (hP : P s) (hph : s.phase = .copying) : P (loopDriver cfg s) := by
  have hboth : LoopsInv cfg (loopDriver cfg s) ∧ P (loopDriver cfg s) := by
    apply loopDriver_keeps (P := fun s => LoopsInv cfg s ∧ P s) _ _ _ ⟨hinv, hP⟩ hph
    · rintro s ⟨hinv, hP⟩ hph - hlt
      exact ⟨hinv.spawn hph hlt, hspawn s hinv hP⟩
    · rintro s ⟨hinv, hP⟩ hph hzero
      exact ⟨hinv.finish hzero, hfinish s hP hph⟩
    rintro s ⟨hinv, hP⟩ hph hok hover hzero
    exact ⟨hinv.trimSinks hok hover hzero, htrim s hP hph⟩
  exact hboth.2

theorem loopReturn [Inhabited δ] (hinv : LoopsInv cfg s) (hl : s.loops b = some l)
    (hrun : l.stage.running = true) : LoopsInv cfg (loopReturn cfg s b l.offset) :=
  (hinv.returned hl hrun).driver (hinv.copying (running_of_loop hl hrun))

/-- **Every answer keeps the loops in order.** -/
theorem step [Inhabited δ] [DecidableEq δ] {a : HealAction n} (hinv : LoopsInv cfg s)
    (h : healStep cfg s a = .ok s') : LoopsInv cfg s' := by
  rcases healStep_cases h with ⟨b, i, reply, off, pending, digest, -, hl, -, rfl⟩ |
      ⟨b, reply, off, needed, -, hl, rfl⟩ | ⟨b, i, reply, off, data, pending, -, hl, -, rfl⟩ |
      ⟨i, ok, pending, -, hph, -, rfl⟩
  · have hcopy := hinv.copying (running_of_loop hl rfl)
    have ht : LoopsInv cfg (checksumAnswered cfg s b off i reply) := hinv.congr rfl rfl rfl rfl hcopy
    rcases shDiffChecksumCbk_cases cfg s b off pending digest i reply with hr | ⟨-, -, hr⟩ | ⟨-, -, hr⟩
    · rw [hr]
      exact ht.setStage hl rfl rfl
    · rw [hr]
      apply LoopsInv.setStage (s := (checksumAnswered cfg s b off i reply).readSent b) _ hl rfl rfl
      exact ht.congr rfl rfl rfl rfl hcopy
    rw [hr]
    exact ht.loopReturn hl rfl
  · have hcopy := hinv.copying (running_of_loop hl rfl)
    set t := readAnswered cfg s b off (readData cfg s off reply) with hteq
    have ht : LoopsInv cfg t := hinv.congr rfl rfl rfl rfl hcopy
    rcases shReadCbk_cases cfg s b off needed reply with ⟨-, hr⟩ | ⟨-, -, hr⟩ | ⟨-, -, hr⟩
    · rw [hr]
      apply LoopsInv.loopReturn (s := readEmpty cfg t) _ hl rfl
      exact ht.congr rfl rfl rfl rfl hcopy
    · rw [hr]
      exact ht.loopReturn hl rfl
    rw [hr]
    apply LoopsInv.setStage (s := t.writesSent b needed) _ hl rfl rfl
    exact ht.congr rfl rfl rfl rfl hcopy
  · have hcopy := hinv.copying (running_of_loop hl rfl)
    have ht : LoopsInv cfg (writeAnswered s b off data i reply) := hinv.congr rfl rfl rfl rfl hcopy
    rcases shWriteCbk_cases cfg s b off data pending i reply with hr | ⟨-, hr⟩
    · rw [hr]
      exact ht.setStage hl rfl rfl
    rw [hr]
    exact ht.loopReturn hl rfl
  have hcompleting : s.phase.completing = true := by
    rw [hph]
    rfl
  have hzero : s.loopsRunning = 0 := by
    apply hinv.idle
    rw [hph]
    exact nofun
  have hover := hinv.completing hcompleting
  rcases afrShDataTrimCbk_cases cfg s pending i ok with hr | ⟨-, hr⟩
  all_goals
    rw [hr]
    exact ⟨hinv.offset, hinv.started, hinv.unspawned, hinv.running, fun _ => hzero, fun _ => hover⟩

theorem fresh (files : Fin n → File) (store : FileStore n) :
    LoopsInv cfg (Healing.fresh files store : Healing n δ) where
  offset := (Nat.zero_mul _).symm
  started := fun _ hb => absurd hb (Nat.not_lt_zero _)
  unspawned := fun _ _ => rfl
  running := ⟨∅, rfl, fun _ => iff_of_false (Finset.notMem_empty _) Bool.false_ne_true⟩
  idle := fun _ => rfl
  completing := nofun

theorem syncPrepare [Inhabited δ] (files : Fin n → File) (store : FileStore n) :
    LoopsInv cfg (afrShDataSyncPrepare cfg files store) := by
  unfold afrShDataSyncPrepare
  split
  · exact (fresh files store).driver rfl
  · exact (fresh files store).finish rfl

end LoopsInv

/-! ## Two copies of a file -/

/-- Two children, the first of which accuses the second; the blocks have two bytes and go one by one. -/
def twoCopies (algo : Algorithm) (fileSize stBlocks : Nat) : HealConfig 2 (List UInt8) where
  algo := algo
  source := 0
  sources := fun i => i == 0
  source_marked := rfl
  childUp := fun _ => true
  blockSize := 2
  windowSize := 1
  fileSize := fileSize
  stBlocks := stBlocks
  strongChecksum := id
  xattr := fun i => some fun j => some fun _ => if i = 0 ∧ j = 1 then 1 else 0
  eraseFail := fun _ => none

def accused : FileStore 2 := fun i j => some fun _ => if i = 0 ∧ j = 1 then 1 else 0

def twoFiles (source sink : List UInt8) : Fin 2 → File := fun i => .ofList (if i = 0 then source else sink)

/-- The state a heal of the two files ends in; a run that stops does not leave the start. -/
def healed (cfg : HealConfig 2 (List UInt8)) (source sink : List UInt8) (as : List (HealAction 2)) :
    Healing 2 (List UInt8) :=
  let s := afrShDataSyncPrepare cfg (twoFiles source sink) accused
  match run (healStep cfg) s as with
  | .ok s' => s'
  | .error _ => s

end GlusterFS.Afr
