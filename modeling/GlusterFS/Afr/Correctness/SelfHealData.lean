import GlusterFS.Afr.Correctness.SelfHealLoops

/-!
# `Afr.Correctness.SelfHealData` — what a data self-heal leaves on the sinks

If every request is done in full, a sink has the bytes of the source in every block that was written to it,
and in every block whose checksum was the same. There is one more kind of block: if the source has holes, a
block of zeros is not written at all. The sink then keeps what it had, and the truncate only sets the size.
So the copies are equal exactly if the sinks have zeros there already (`ZerosKept`): `sinks_equal_iff`.

The invariant is per block and stage (`StageBytes`); blocks do not overlap, so an answer for one of them
leaves the others alone.

Two more steps go wrong: a missing key is erased like the one before it (`erase_exact_iff`), and the locks are
all asked of the first child (`data_locks_recorded_iff`).
-/

namespace GlusterFS.Afr

open GlusterFS.Storage
open Sparse (File)
open Transition
open Function (update update_of_ne update_self)

variable {n : Nat} {δ : Type} {cfg : HealConfig n δ} {s s' t : Healing n δ} {old : Fin n → File}

/-! ## Blocks -/

/-- Byte `k` belongs to block `b`. -/
def HealConfig.InBlock (cfg : HealConfig n δ) (b k : Nat) : Prop :=
  b * cfg.blockSize ≤ k ∧ k < b * cfg.blockSize + cfg.blockSize

theorem inBlock_unique {b c k : Nat} (hb : cfg.InBlock b k) (hc : cfg.InBlock c k) : b = c := by
  obtain ⟨hblow, hbhigh⟩ := hb
  obtain ⟨hclow, hchigh⟩ := hc
  have below : ∀ {x y : Nat}, x < y → x * cfg.blockSize + cfg.blockSize ≤ y * cfg.blockSize := by
    intro x y hxy
    rw [← Nat.succ_mul]
    exact Nat.mul_le_mul_right _ hxy
  rcases Nat.lt_trichotomy b c with hlt | heq | hlt
  · have := below hlt
    omega
  · exact heq
  have := below hlt
  omega

theorem inBlock_div (hpos : 0 < cfg.blockSize) (k : Nat) : cfg.InBlock (k / cfg.blockSize) k := by
  have hdiv := Nat.div_add_mod' k cfg.blockSize
  have hmod := Nat.mod_lt k hpos
  unfold HealConfig.InBlock
  omega

/-- The block is one of zeros, and the source has holes. -/
def Skipped (cfg : HealConfig n δ) (old : Fin n → File) (b : Nat) : Bool :=
  cfg.fileHasHoles && ((old cfg.source).read (b * cfg.blockSize) cfg.blockSize).all fun x => x == 0

/-! ## The invariant -/

/-- The block is as it was, on child `i`. -/
def Untouched (cfg : HealConfig n δ) (old : Fin n → File) (s : Healing n δ) (b : Nat) (i : Fin n) : Prop :=
  ∀ k, cfg.InBlock b k → (s.files i).byte k = (old i).byte k

/-- The block was the same on child `i` and on the source. -/
def Agreed (cfg : HealConfig n δ) (old : Fin n → File) (b : Nat) (i : Fin n) : Prop :=
  ∀ k, cfg.InBlock b k → (old i).byte k = (old cfg.source).byte k

/-- Child `i` has the block of the source. -/
def Copied (cfg : HealConfig n δ) (old : Fin n → File) (s : Healing n δ) (b : Nat) (i : Fin n) : Prop :=
  ∀ k, cfg.InBlock b k → k < cfg.fileSize → (s.files i).byte k = (old cfg.source).byte k

/-- What child `i` has in the end: its own bytes if the block was skipped. -/
def Final (cfg : HealConfig n δ) (old : Fin n → File) (s : Healing n δ) (b : Nat) (i : Fin n) : Prop :=
  ∀ k, cfg.InBlock b k → k < cfg.fileSize →
    (s.files i).byte k = if Skipped cfg old b then (old i).byte k else (old cfg.source).byte k

/-- What is known of the bytes of block `b` in each stage. -/
def StageBytes (cfg : HealConfig n δ) (old : Fin n → File) (s : Healing n δ) (b : Nat) : Option (Stage n δ) → Prop
  | none => ∀ i, Untouched cfg old s b i
  | some (.checksum pending digest) => (∀ i, Untouched cfg old s b i) ∧ ∀ i, cfg.summer i = true → pending i = false →
        digest i = cfg.strongChecksum ((old i).block (b * cfg.blockSize) cfg.blockSize)
  | some (.read needed) => (∀ i, Untouched cfg old s b i) ∧ (∀ i, needed i = true → cfg.sink i = true) ∧
      ∀ i, cfg.sink i = true → needed i = false → Agreed cfg old b i
  | some (.write data pending) =>
      data = (old cfg.source).read (b * cfg.blockSize) cfg.blockSize ∧ Skipped cfg old b = false ∧
      (∀ i, pending i = true → cfg.sink i = true) ∧ ∀ i, cfg.sink i = true → pending i = false → Copied cfg old s b i
  | some .returned => ∀ i, cfg.sink i = true → Final cfg old s b i

/-- **What a heal without failures keeps.** -/
structure FilesInv (cfg : HealConfig n δ) (old : Fin n → File) (s : Healing n δ) : Prop where
  source : s.files cfg.source = old cfg.source
  opFailed : s.opFailed = false
  blocks : ∀ b, b * cfg.blockSize < cfg.fileSize → StageBytes cfg old s b ((s.loops b).map Loop.stage)
  trimming : ∀ pending, s.phase = .trimming pending → (∀ i, pending i = true → cfg.sink i = true) ∧
    ∀ i, cfg.sink i = true → pending i = false → (s.files i).size = cfg.fileSize
  erased : s.phase = .erased → ∀ i, cfg.sink i = true → (s.files i).size = cfg.fileSize

theorem ne_source_of_sink {i : Fin n} (h : cfg.sink i = true) : i ≠ cfg.source := by
  rintro rfl
  simp [HealConfig.sink, cfg.source_marked] at h

variable {b : Nat}

theorem StageBytes.congr {stage : Option (Stage n δ)} (h : StageBytes cfg old s b stage)
    (hbytes : ∀ i k, cfg.InBlock b k → (t.files i).byte k = (s.files i).byte k) : StageBytes cfg old t b stage := by
  have hsame : ∀ {i}, Untouched cfg old s b i → Untouched cfg old t b i :=
    fun {i} h k hk => (hbytes i k hk).trans (h k hk)
  match stage with
  | none => exact fun i => hsame (h i)
  | some (.checksum pending digest) => exact ⟨fun i => hsame (h.1 i), h.2⟩
  | some (.read needed) => exact ⟨fun i => hsame (h.1 i), h.2⟩
  | some (.write data pending) =>
    obtain ⟨hdata, hskip, hsinks, hcopied⟩ := h
    refine ⟨hdata, hskip, hsinks, ?_⟩
    intro i hi hpend k hk hlt
    rw [hbytes i k hk]
    exact hcopied i hi hpend k hk hlt
  | some .returned =>
    intro i hi k hk hlt
    rw [hbytes i k hk]
    exact h i hi k hk hlt

/-- An answer for block `b` leaves the source and the other blocks alone, and is no failure. -/
structure Moves (cfg : HealConfig n δ) (b : Nat) (s t : Healing n δ) : Prop where
  loops : t.loops = s.loops
  phase : t.phase = s.phase
  opFailed : t.opFailed = false
  source : t.files cfg.source = s.files cfg.source
  others : ∀ c, c ≠ b → ∀ i k, cfg.InBlock c k → (t.files i).byte k = (s.files i).byte k

namespace FilesInv

section

variable (hinv : FilesInv cfg old s)
include hinv

theorem setStage {b off r : Nat} {stage : Stage n δ} (ht : Moves cfg b s t)
    (hph : s.phase = .copying) (hstage : StageBytes cfg old t b (some stage)) :
    FilesInv cfg old { t.setStage b off stage with loopsRunning := r } := by
  have hcopy : t.phase = .copying := ht.phase.trans hph
  refine ⟨ht.source.trans hinv.source, ht.opFailed, ?_, ?_, ?_⟩
  · intro c hc
    show StageBytes cfg old t c ((update t.loops b _ c).map Loop.stage)
    by_cases hcb : c = b
    · subst hcb
      simpa using hstage
    simp only [update_of_ne hcb, ht.loops]
    exact (hinv.blocks c hc).congr (ht.others c hcb)
  · intro pending h
    exact nomatch hcopy.symm.trans h
  intro h
  exact nomatch hcopy.symm.trans h

theorem spawn [Inhabited δ] (hloops : LoopsInv cfg s) : FilesInv cfg old (spawn cfg s) := by
  refine ⟨?_, ?_, ?_, ?_, ?_⟩
  · simpa using hinv.source
  · simpa using hinv.opFailed
  · intro b hb
    have hbytes : ∀ i k, cfg.InBlock b k → ((Afr.spawn cfg s).files i).byte k = (s.files i).byte k := by
      simp
    apply StageBytes.congr _ hbytes
    by_cases hbs : b = s.spawned
    · subst hbs
      have hfresh := hinv.blocks s.spawned hb
      rw [hloops.unspawned _ le_rfl] at hfresh
      simp only [spawn_loops, update_self, Option.map_some, firstStage]
      cases cfg.algo with
      | full => exact ⟨hfresh, fun _ h => h, fun i hi hnot => by simp [hi] at hnot⟩
      | diff => exact ⟨hfresh, fun i hi hnot => by simp [hi] at hnot⟩
    simp only [spawn_loops, update_of_ne hbs]
    exact hinv.blocks b hb
  · simpa using hinv.trimming
  · simpa using hinv.erased

theorem driver [Inhabited δ] (hloops : LoopsInv cfg s)
    (hph : s.phase = .copying) : FilesInv cfg old (loopDriver cfg s) := by
  apply hloops.driver_keeps _ _ _ hinv hph
  · intro s hloops hinv
    exact hinv.spawn hloops
  · intro s hinv _
    exact ⟨hinv.source, hinv.opFailed, hinv.blocks, nofun, nofun⟩
  intro s hinv _
  refine ⟨hinv.source, hinv.opFailed, hinv.blocks, ?_, nofun⟩
  intro pending hpend
  cases hpend
  exact ⟨fun _ h => h, fun i hi hnot => by simp [hi] at hnot⟩

theorem loopReturn [Inhabited δ] (hloops : LoopsInv cfg t)
    {l : Loop n δ} (hl : t.loops b = some l) (hrun : l.stage.running = true) (ht : Moves cfg b s t)
    (hfinal : ∀ i, cfg.sink i = true → Final cfg old t b i) : FilesInv cfg old (loopReturn cfg t b l.offset) := by
  have hcopy := hloops.copying (running_of_loop hl hrun)
  apply driver _ (hloops.returned hl hrun) hcopy
  exact hinv.setStage ht (ht.phase.symm.trans hcopy) hfinal

end

end FilesInv

/-! ## The answers -/

/-- **Every request is done in full.** -/
def InFull (cfg : HealConfig n δ) (s : Healing n δ) : HealAction n → Prop
  | .checksum b i reply => ∀ l, s.loops b = some l →
      ∃ k, reply = some k ∧ ((s.files i).read l.offset cfg.blockSize).length ≤ k
  | .read b reply => ∀ l, s.loops b = some l →
      ∃ k, reply = some k ∧ ((s.files cfg.source).read l.offset cfg.blockSize).length ≤ k
  | .write b _ reply => ∀ off data pending, s.loops b = some ⟨off, .write data pending⟩ →
      ∃ k, reply = some k ∧ data.length ≤ k
  | .trim _ ok => ok = true

/-- Blocks with the same checksum are equal. -/
def ChecksumsTell (cfg : HealConfig n δ) : Prop := ∀ x y : List UInt8, x.length = cfg.blockSize →
  y.length = cfg.blockSize → cfg.strongChecksum x = cfg.strongChecksum y → x = y

theorem Agreed.final {i : Fin n} (hagreed : Agreed cfg old b i)
    (hsame : Untouched cfg old s b i) : Final cfg old s b i := by
  intro k hk _
  rw [hsame k hk, hagreed k hk, ite_self]

namespace FilesInv

variable {b off : Nat} {i : Fin n} {reply : Option Nat}

section

variable (hinv : FilesInv cfg old s)
include hinv

section

variable (hloops : LoopsInv cfg s)
include hloops

variable {pending : Fin n → Bool}

theorem checksum [Inhabited δ] [DecidableEq δ] (htell : ChecksumsTell cfg) {digest : Fin n → δ}
    (hl : s.loops b = some ⟨off, .checksum pending digest⟩) (hfull : InFull cfg s (.checksum b i reply)) :
    FilesInv cfg old (shDiffChecksumCbk cfg s b off pending digest i reply) := by
  have hcopy := hloops.copying (running_of_loop hl rfl)
  obtain ⟨rfl, hlt, -⟩ := hloops.loop_offset hl
  obtain ⟨k, rfl, hk⟩ := hfull _ hl
  have hblock := hinv.blocks b hlt
  rw [hl] at hblock
  obtain ⟨huntouched, hdigest⟩ := hblock
  set t := checksumAnswered cfg s b (b * cfg.blockSize) i (some k) with hteq
  set digest' := digestAnswered cfg s (b * cfg.blockSize) digest i (some k) with hdigest'
  have ht : Moves cfg b s t := by
    refine ⟨rfl, rfl, ?_, rfl, fun _ _ _ _ _ => rfl⟩
    simp [hteq, checksumAnswered, hinv.opFailed]
  have hloopst : LoopsInv cfg t := hloops.congr rfl rfl rfl rfl hcopy
  have hnew : ∀ j, cfg.summer j = true → update pending i false j = false →
      digest' j = cfg.strongChecksum ((old j).block (b * cfg.blockSize) cfg.blockSize) := by
    intro j hj hdone
    by_cases hji : j = i
    · subst hji
      simp only [hdigest', digestAnswered, update_self]
      unfold rchecksum readPart
      rw [List.take_of_length_le hk, File.read_append_zeros]
      congr 1
      apply (File.block_eq_iff _ _ _ _).mpr
      exact fun k hlow hhigh => huntouched j k ⟨hlow, hhigh⟩
    simp only [hdigest', digestAnswered, update_of_ne hji]
    rw [update_of_ne hji] at hdone
    exact hdigest j hj hdone
  -- once all checksums are there, a sink that needs nothing agrees with the source
  have hagreed : (∀ j, update pending i false j = false) →
      ∀ j, cfg.sink j = true → writeNeeded cfg digest' j = false → Agreed cfg old b j := by
    intro hnone j hj hnot
    have hsame : digest' j = digest' cfg.source := by simpa [writeNeeded, hj] using hnot
    rw [hnew j (by simp [HealConfig.summer, hj]) (hnone j),
      hnew cfg.source (by simp [HealConfig.summer]) (hnone cfg.source)] at hsame
    have heq := htell _ _ (File.length_block _ _ _) (File.length_block _ _ _) hsame
    exact fun k hk => (File.block_eq_iff _ _ _ _).mp heq k hk.1 hk.2
  rcases shDiffChecksumCbk_cases cfg s b (b * cfg.blockSize) pending digest i (some k) with
      hr | ⟨hnone, -, hr⟩ | ⟨hnone, hneeded, hr⟩
  · rw [hr]
    exact hinv.setStage ht hcopy ⟨huntouched, hnew⟩
  · rw [hr]
    apply hinv.setStage (t := t.readSent b) ⟨rfl, rfl, ht.opFailed, rfl, ht.others⟩ hcopy
    refine ⟨huntouched, ?_, hagreed hnone⟩
    intro j hj
    simp only [writeNeeded, Bool.and_eq_true] at hj
    exact hj.1
  rw [hr]
  apply hinv.loopReturn hloopst hl rfl ht
  intro j hj
  exact (hagreed hnone j hj (hneeded ht.opFailed j)).final (huntouched j)

theorem read [Inhabited δ] (hsize : cfg.fileSize = (old cfg.source).size) (hpos : cfg.fileSize = 0 ∨ 0 < cfg.blockSize)
    {needed : Fin n → Bool} (hl : s.loops b = some ⟨off, .read needed⟩)
    (hfull : InFull cfg s (.read b reply)) : FilesInv cfg old (shReadCbk cfg s b off needed reply) := by
  have hcopy := hloops.copying (running_of_loop hl rfl)
  obtain ⟨rfl, hlt, -⟩ := hloops.loop_offset hl
  obtain ⟨k, rfl, hk⟩ := hfull _ hl
  have hblock := hinv.blocks b hlt
  rw [hl] at hblock
  obtain ⟨hsame, hsinks, hagreed⟩ := hblock
  have hdata : readData cfg s (b * cfg.blockSize) (some k) =
      (old cfg.source).read (b * cfg.blockSize) cfg.blockSize := by
    simp only [readData, readPart, Option.map_some, Option.getD_some]
    rw [List.take_of_length_le hk, hinv.source]
  have hne : (old cfg.source).read (b * cfg.blockSize) cfg.blockSize ≠ [] := by
    apply File.read_ne_nil <;> omega
  have hskip : ∀ v, (cfg.fileHasHoles && (readData cfg s (b * cfg.blockSize) (some k)).all
      fun x => x == 0) = v → Skipped cfg old b = v := by
    intro v hv
    rw [hdata] at hv
    exact hv
  set data := readData cfg s (b * cfg.blockSize) (some k) with hdataeq
  set t := readAnswered cfg s b (b * cfg.blockSize) data with hteq
  have ht : Moves cfg b s t := ⟨rfl, rfl, hinv.opFailed, rfl, fun _ _ _ _ _ => rfl⟩
  have hloopst : LoopsInv cfg t := hloops.congr rfl rfl rfl rfl hcopy
  rcases shReadCbk_cases cfg s b (b * cfg.blockSize) needed (some k) with
      ⟨hnil, -⟩ | ⟨-, hnothing, hr⟩ | ⟨-, hwritten, hr⟩
  · exact absurd (hdata.symm.trans hnil) hne
  · rw [hr]
    apply hinv.loopReturn hloopst hl rfl ht
    intro j hj
    rcases hnothing with hnone | hzeros
    · exact (hagreed j hj (hnone j)).final (hsame j)
    intro k' hk' _
    rw [hskip true hzeros, if_pos rfl]
    exact hsame j k' hk'
  rw [hr]
  apply hinv.setStage (t := t.writesSent b needed) ⟨rfl, rfl, ht.opFailed, rfl, ht.others⟩ hcopy
  refine ⟨hdata, hskip false hwritten, hsinks, ?_⟩
  intro j hj hnot k' hk' _
  exact (hsame j k' hk').trans (hagreed j hj hnot k' hk')

theorem write [Inhabited δ] (hsize : cfg.fileSize = (old cfg.source).size) {data : List UInt8}
    (hl : s.loops b = some ⟨off, .write data pending⟩) (hpend : pending i = true)
    (hfull : InFull cfg s (.write b i reply)) : FilesInv cfg old (shWriteCbk cfg s b off data pending i reply) := by
  have hcopy := hloops.copying (running_of_loop hl rfl)
  obtain ⟨rfl, hlt, -⟩ := hloops.loop_offset hl
  obtain ⟨k, rfl, hk⟩ := hfull _ _ _ hl
  have hblock := hinv.blocks b hlt
  rw [hl] at hblock
  obtain ⟨rfl, hskip, hsinks, hcopied⟩ := hblock
  set data := (old cfg.source).read (b * cfg.blockSize) cfg.blockSize with hdata
  set t := writeAnswered s b (b * cfg.blockSize) data i (some k) with hteq
  -- the bytes of child `i` inside the block and below the size are those of the source
  have hbyte : ∀ k', (t.files i).byte k' =
      if b * cfg.blockSize ≤ k' ∧ k' < b * cfg.blockSize + cfg.blockSize ∧ k' < (old cfg.source).size then
        (old cfg.source).byte k' else (s.files i).byte k' := by
    intro k'
    simp only [hteq, writeAnswered, update_self, Option.getD_some, List.take_of_length_le hk]
    exact File.write_read_byte _ _ _ _ k'
  have hother : ∀ j, j ≠ i → t.files j = s.files j := by
    intro j hji
    exact update_of_ne hji _ _
  have ht : Moves cfg b s t := by
    refine ⟨rfl, rfl, by simp [hteq, writeAnswered, hinv.opFailed], ?_, ?_⟩
    · exact hother _ (ne_source_of_sink (hsinks i hpend)).symm
    intro c hcb j k' hk'
    by_cases hji : j = i
    · subst hji
      rw [hbyte k', if_neg]
      rintro ⟨hlow, hhigh, -⟩
      exact hcb (inBlock_unique hk' ⟨hlow, hhigh⟩)
    · rw [hother j hji]
  have hloopst : LoopsInv cfg t := hloops.congr rfl rfl rfl rfl hcopy
  have hcopied' : ∀ j, cfg.sink j = true → update pending i false j = false → Copied cfg old t b j := by
    intro j hj hdone k' hk' hltk
    by_cases hji : j = i
    · subst hji
      rw [hbyte k', if_pos ⟨hk'.1, hk'.2, hsize ▸ hltk⟩]
    rw [update_of_ne hji] at hdone
    rw [hother j hji]
    exact hcopied j hj hdone k' hk' hltk
  rcases shWriteCbk_cases cfg s b (b * cfg.blockSize) data pending i (some k) with hr | ⟨hnone, hr⟩
  · rw [hr]
    apply hinv.setStage ht hcopy
    refine ⟨hdata, hskip, ?_, hcopied'⟩
    intro j hj
    by_cases hji : j = i
    · simp [hji] at hj
    rw [update_of_ne hji] at hj
    exact hsinks j hj
  rw [hr]
  apply hinv.loopReturn hloopst hl rfl ht
  intro j hj k' hk' hltk
  rw [hskip, if_neg Bool.false_ne_true]
  exact hcopied' j hj (hnone j) k' hk' hltk

theorem trim {ok : Bool} (hph : s.phase = .trimming pending) (hpend : pending i = true)
    (hfull : InFull cfg s (.trim i ok)) : FilesInv cfg old (afrShDataTrimCbk cfg s pending i ok) := by
  obtain rfl : ok = true := hfull
  obtain ⟨hsinks, hsizes⟩ := hinv.trimming pending hph
  have hzero : s.loopsRunning = 0 := hloops.idle (by rw [hph]; simp)
  obtain ⟨hover, -⟩ := hloops.completing (by rw [hph]; rfl)
  set t := trimAnswered cfg s i true with hteq
  have hself : t.files i = (s.files i).truncate cfg.fileSize := by
    simp [hteq, trimAnswered]
  have hother : ∀ j, j ≠ i → t.files j = s.files j := by
    intro j hji
    simp [hteq, trimAnswered, update_of_ne hji]
  have hsrc : t.files cfg.source = old cfg.source := by
    rw [hother _ (ne_source_of_sink (hsinks i hpend)).symm]
    exact hinv.source
  have hblocks : ∀ b, b * cfg.blockSize < cfg.fileSize → StageBytes cfg old t b ((s.loops b).map Loop.stage) := by
    intro b hb
    have hblock := hinv.blocks b hb
    rw [hloops.returned_of_idle hzero hover hb] at hblock ⊢
    intro j hj k hk hlt
    rw [← hblock j hj k hk hlt]
    by_cases hji : j = i
    · subst hji
      rw [hself, File.truncate_byte _ hlt]
    · rw [hother j hji]
  have hsizes' : ∀ j, cfg.sink j = true → update pending i false j = false → (t.files j).size = cfg.fileSize := by
    intro j hj hdone
    by_cases hji : j = i
    · subst hji
      rw [hself, File.truncate_size]
    rw [update_of_ne hji] at hdone
    rw [hother j hji]
    exact hsizes j hj hdone
  rcases afrShDataTrimCbk_cases cfg s pending i true with hr | ⟨hnone, hr⟩
  · rw [hr]
    refine ⟨hsrc, hinv.opFailed, hblocks, ?_, nofun⟩
    intro pending' hpending'
    cases hpending'
    refine ⟨?_, hsizes'⟩
    intro j hj
    by_cases hji : j = i
    · simp [hji] at hj
    rw [update_of_ne hji] at hj
    exact hsinks j hj
  rw [hr]
  refine ⟨hsrc, hinv.opFailed, hblocks, nofun, ?_⟩
  intro _ j hj
  exact hsizes' j hj (hnone j)

/-- **Every answer of a request done in full keeps what is known of the files.** -/
theorem step [Inhabited δ] [DecidableEq δ] {a : HealAction n} (hsize : cfg.fileSize = (old cfg.source).size)
    (hpos : cfg.fileSize = 0 ∨ 0 < cfg.blockSize) (htell : ChecksumsTell cfg) (hfull : InFull cfg s a)
    (h : healStep cfg s a = .ok s') : FilesInv cfg old s' := by
  rcases healStep_cases h with ⟨b, i, reply, off, pending, digest, rfl, hl, -, rfl⟩ |
      ⟨b, reply, off, needed, rfl, hl, rfl⟩ | ⟨b, i, reply, off, data, pending, rfl, hl, hpend, rfl⟩ |
      ⟨i, ok, pending, rfl, hph, hpend, rfl⟩
  · exact hinv.checksum hloops htell hl hfull
  · exact hinv.read hloops hsize hpos hl hfull
  · exact hinv.write hloops hsize hl hpend hfull
  · exact hinv.trim hloops hph hpend hfull

end

end

theorem syncPrepare [Inhabited δ] (old : Fin n → File) (store : FileStore n) :
    FilesInv cfg old (afrShDataSyncPrepare cfg old store) := by
  have hfresh : FilesInv cfg old (Healing.fresh old store : Healing n δ) :=
    ⟨rfl, rfl, fun _ _ _ _ _ => rfl, nofun, nofun⟩
  unfold afrShDataSyncPrepare
  split
  · exact hfresh.driver (.fresh old store) rfl
  · exact ⟨rfl, rfl, hfresh.blocks, nofun, nofun⟩

end FilesInv

/-! ## Equal copies -/

/-- If the source has holes, the sinks have zeros wherever the source has a block of them. -/
def ZerosKept (cfg : HealConfig n δ) (files : Fin n → File) : Prop :=
  cfg.fileHasHoles = true → ∀ i, cfg.sink i = true → ∀ b, (∀ k, cfg.InBlock b k → (files cfg.source).byte k = 0) →
    ∀ k, cfg.InBlock b k → k < cfg.fileSize → (files i).byte k = 0

theorem skipped_iff : Skipped cfg old b = true ↔
    cfg.fileHasHoles = true ∧ ∀ k, cfg.InBlock b k → (old cfg.source).byte k = 0 := by
  unfold Skipped HealConfig.InBlock
  rw [Bool.and_eq_true, File.read_all_zero_iff]
  simp only [and_imp]

theorem FilesInv.final (hinv : FilesInv cfg old s) (hloops : LoopsInv cfg s) (herased : s.phase = .erased)
    {i : Fin n} (hi : cfg.sink i = true) (hb : b * cfg.blockSize < cfg.fileSize) : Final cfg old s b i := by
  have hzero : s.loopsRunning = 0 := hloops.idle (by rw [herased]; simp)
  obtain ⟨hover, -⟩ := hloops.completing (by rw [herased]; rfl)
  have hblock := hinv.blocks b hb
  rw [hloops.returned_of_idle hzero hover hb] at hblock
  exact hblock i hi

/-- A heal with blocks of no bytes comes to its end only if the file has none. -/
theorem LoopsInv.blockSize_pos (hloops : LoopsInv cfg s) (herased : s.phase = .erased) :
    cfg.fileSize = 0 ∨ 0 < cfg.blockSize := by
  obtain ⟨hover, -⟩ := hloops.completing (by rw [herased]; rfl)
  rw [hloops.offset] at hover
  rcases Nat.eq_zero_or_pos cfg.blockSize with hzero | hpos
  · rw [hzero, Nat.mul_zero] at hover
    exact Or.inl (Nat.le_zero.mp hover)
  · exact Or.inr hpos

/-- **When a heal makes the copies equal.** All requests are done in full and equal checksums mean equal
    blocks; when the heal is over, every sink is the source byte for byte, exactly if the sinks had zeros
    where a source with holes has blocks of them. -/
theorem sinks_equal_iff [Inhabited δ] [DecidableEq δ] (cfg : HealConfig n δ) (files : Fin n → File)
    (store : FileStore n) (as : List (HealAction n)) (s : Healing n δ)
    (hsize : cfg.fileSize = (files cfg.source).size) (htell : ChecksumsTell cfg)
    (hrun : run (healStep cfg) (afrShDataSyncPrepare cfg files store) as = .ok s)
    (hfull : Along (healStep cfg) (InFull cfg) (afrShDataSyncPrepare cfg files store) as)
    (herased : s.phase = .erased) : (∀ i, cfg.sink i = true → s.files i = files cfg.source) ↔ ZerosKept cfg files := by
  have hloops : LoopsInv cfg s :=
    run_invariant_all (fun _ _ _ hinv hstep => hinv.step hstep) (.syncPrepare files store) hrun
  have hpos := hloops.blockSize_pos herased
  have hinv : FilesInv cfg files s := by
    have hboth : LoopsInv cfg s ∧ FilesInv cfg files s := by
      apply run_invariant (I := fun s => LoopsInv cfg s ∧ FilesInv cfg files s) _ _ hfull hrun
      · rintro s a s' ⟨hloops, hinv⟩ hfull hstep
        exact ⟨hloops.step hstep, hinv.step hloops hsize hpos htell hfull hstep⟩
      · exact ⟨.syncPrepare files store, .syncPrepare files store⟩
    exact hboth.2
  constructor
  · intro hequal hholes i hi b hzeros k hk hlt
    have hfinal := hinv.final hloops herased hi (lt_of_le_of_lt hk.1 hlt) k hk hlt
    rw [skipped_iff.mpr ⟨hholes, hzeros⟩, if_pos rfl, hequal i hi, hzeros k hk] at hfinal
    exact hfinal.symm
  intro hkept i hi
  apply (File.eq_iff_byte ((hinv.erased herased i hi).trans hsize)).mpr
  intro k hlt
  rw [← hsize] at hlt
  have hk : cfg.InBlock (k / cfg.blockSize) k := inBlock_div (by omega) k
  rw [hinv.final hloops herased hi (lt_of_le_of_lt hk.1 hlt) k hk hlt]
  by_cases hskipped : Skipped cfg files (k / cfg.blockSize) = true
  · obtain ⟨hholes, hzeros⟩ := skipped_iff.mp hskipped
    rw [if_pos hskipped, hkept hholes i hi _ hzeros k hk hlt, hzeros k hk]
  · rw [if_neg hskipped]

/-- The answers of the diff algorithm for one block that differs. -/
def diffAnswered : List (HealAction 2) :=
  [.checksum 0 0 (some 2), .checksum 0 1 (some 2), .read 0 (some 2), .write 0 1 (some 2), .trim 1 true]

theorem sinks_equal_iff_diff :
    (healed (twoCopies .diff 2 1) [1, 2] [7, 7, 7] diffAnswered).files 1 = .ofList [1, 2] := by
  have hequal := sinks_equal_iff (twoCopies .diff 2 1) (twoFiles [1, 2] [7, 7, 7]) accused diffAnswered
    (healed (twoCopies .diff 2 1) [1, 2] [7, 7, 7] diffAnswered) rfl (fun _ _ _ _ h => h) rfl ?_ rfl
  · exact hequal.mpr (fun hholes => absurd hholes (by decide +kernel)) 1 rfl
  refine (along_cons_ok rfl).mpr ⟨?_, (along_cons_ok rfl).mpr ⟨?_, (along_cons_ok rfl).mpr ⟨?_,
    (along_cons_ok rfl).mpr ⟨?_, (along_cons_ok rfl).mpr ⟨rfl, trivial⟩⟩⟩⟩⟩
  iterate 3
    · intro l hl
      obtain rfl := Option.some.inj hl
      exact ⟨2, rfl, by decide +kernel⟩
  · intro off data pending hl
    obtain rfl : [1, 2] = data := by
      injection Option.some.inj hl with hoff hstage
      injection hstage
    exact ⟨2, rfl, Nat.le_refl 2⟩

/-- **A hole leaves the old bytes.** The source is a hole of two bytes, and the sink has other ones. The
    block is read in full and not written, the truncate goes well, the accusation is erased; the sink is as
    it was. -/
theorem hole_leaves_old_bytes : Along (healStep (twoCopies .full 2 0)) (InFull (twoCopies .full 2 0))
      (afrShDataSyncPrepare (twoCopies .full 2 0) (twoFiles [0, 0] [7, 7]) accused)
      [.read 0 (some 2), .trim 1 true] ∧
    (healed (twoCopies .full 2 0) [0, 0] [7, 7] [.read 0 (some 2), .trim 1 true]).phase = .erased ∧
    (healed (twoCopies .full 2 0) [0, 0] [7, 7] [.read 0 (some 2), .trim 1 true]).files 1 ≠
      (twoFiles [0, 0] [7, 7]) (twoCopies .full 2 0).source := by
  refine ⟨(along_cons_ok rfl).mpr ⟨?_, (along_cons_ok rfl).mpr ⟨rfl, trivial⟩⟩, rfl, ?_⟩
  · intro l hl
    obtain rfl := Option.some.inj hl
    exact ⟨2, rfl, by decide +kernel⟩
  intro heq
  have hbyte := congrArg (fun f => File.byte f 0) heq
  revert hbyte
  decide +kernel

/-! ## What is erased -/

section

open List

variable (read : Xattrs (Fin n)) (success : Fin n → Bool) (k : Fin 3)

theorem deltaRow_keys : ∀ (js : List (Fin n)) (p : Option Counters), (deltaRow read success k js p).map Prod.fst = js
  | [], _ => rfl
  | j :: js, _ => congrArg (j :: ·) (deltaRow_keys js _)

/-- The delta for a key is from the last key up to it that is not missing. -/
theorem mem_deltaRow (j : Fin n) (rest : List (Fin n)) : ∀ (js : List (Fin n)) (p : Option Counters),
    (j, if success j then -(((((js ++ [j]).reverse.findSome? read).or p).map fun c => c k).getD 0) else 0) ∈
      deltaRow read success k (js ++ j :: rest) p := by
  intro js
  induction js with
  | nil =>
    intro p
    simp [deltaRow]
  | cons a js ih =>
    intro p
    have hlast : ((a :: js ++ [j]).reverse.findSome? read).or p =
        ((js ++ [j]).reverse.findSome? read).or ((read a).or p) := by
      rw [cons_append, reverse_cons, findSome?_append, Option.or_assoc]
      simp
    rw [hlast]
    exact .tail _ (ih _)

/-- **Erasing is exact** if and only if for every successful child the last of the keys up to its own that is not missing
    has its counter. For the key itself it has, unless its array is too short, and what is behind it was read. -/
theorem erase_exact_iff (value st : Xattrs (Fin n)) :
    (∀ j k', Xattrs.counters (doXattrop (deltaToXattr (deltaRow read success k (finRange n) none) k) none st).1 j k' =
      st.counters j k' - if success j = true ∧ k' = k then value.counters j k else 0) ↔
    ∀ j, success j = true →
      ((((finRange n).take (j + 1)).reverse.findSome? read).map fun c => c k).getD 0 = value.counters j k := by
  have hnodup : ((deltaToXattr (deltaRow read success k (finRange n) none) k).map Prod.fst).Nodup := by
    rw [deltaToXattr, map_map]
    exact (deltaRow_keys read success k (finRange n) none).symm ▸ nodup_finRange n
  refine forall_congr' fun j => ?_
  have hj : (j : Nat) < (finRange n).length := by simp
  have htake := take_succ_eq_append_getElem hj
  have hdrop := take_append_drop j (finRange n)
  rw [drop_eq_getElem_cons hj] at hdrop
  have hmem := mem_deltaRow read success k j ((finRange n).drop (j + 1)) ((finRange n).take j) none
  rw [getElem_finRange] at htake hdrop
  simp only [Fin.cast_mk, Fin.eta] at htake hdrop
  rw [hdrop, ← htake, Option.or_none] at hmem
  generalize ((((finRange n).take (j + 1)).reverse.findSome? read).map fun c => c k).getD 0 = v at hmem ⊢
  have hadd : Xattrs.counters (doXattrop (deltaToXattr (deltaRow read success k (finRange n) none) k) none st).1 j =
      addArray (st.counters j) (update (fun _ => 0) k (if success j then -v else 0)) :=
    doXattrop_ok hnodup (doXattrop_none _ st) (mem_map_of_mem hmem)
  rw [hadd]
  constructor
  · intro h hsuccess
    simpa [addArray, hsuccess, sub_eq_add_neg] using h k
  intro h k'
  by_cases hk : k' = k
  · by_cases hsuccess : success j = true
    · simp [addArray, hk, hsuccess, h hsuccess, sub_eq_add_neg]
    · simp [addArray, hk, hsuccess]
  · simp [addArray, hk]

end

/-- The first key has a one, and the second is missing. -/
def firstAccused : Xattrs (Fin 2) := fun j => if j = 0 then some fun _ => 1 else none

/-- The counter of the second child was zero, and one is taken from it. -/
theorem missing_key_underflows : Xattrs.counters (doXattrop (deltaToXattr
    (deltaRow firstAccused (fun _ => true) 0 (List.finRange 2) none) 0) none firstAccused).1 1 0 = -1 := by
  decide

/-! ## The locks of a heal -/

section

open List

variable {childUp : Fin (n + 1) → Bool} {servers : Nat} {grant : Fin (n + 1) → Fin (n + 1) → Bool}

/-- The first children that are up and for which a lock is granted are recorded, as many as are wanted; each of the
    locks is the first child's. -/
theorem afrShDataLockRec_eq : ∀ {cs : List (Fin (n + 1))} {s : DataLocks (n + 1)}, cs.Nodup →
    (∀ c ∈ cs, s.lockedNodes c = false) → s.lockCount ≤ servers →
    let taken := (cs.filter fun c => childUp c && grant 0 c).take (servers - s.lockCount)
    let r := afrShDataLockRec childUp servers grant cs s
    (∀ c, r.lockedNodes c = (s.lockedNodes c || decide (c ∈ taken))) ∧ r.granted = s.granted ++ taken.map fun _ => 0 := by
  intro cs
  induction cs with
  | nil => simp [afrShDataLockRec]
  | cons c cs ih =>
    intro s hnd hfalse hle
    obtain ⟨hc, hnodup'⟩ := nodup_cons.mp hnd
    have hfalse' : ∀ c' ∈ cs, s.lockedNodes c' = false := fun c' h => hfalse c' (.tail _ h)
    unfold afrShDataLockRec
    by_cases hup : childUp c = false
    · rw [if_pos hup, filter_cons_of_neg (by simp [hup])]
      exact ih hnodup' hfalse' hle
    rw [if_neg hup]
    by_cases hdone : s.lockCount = servers
    · simp [hdone]
    rw [if_neg hdone]
    dsimp only
    by_cases hgrant : grant 0 c = true
    · obtain ⟨k, hk⟩ : ∃ k, servers - s.lockCount = k + 1 := ⟨servers - s.lockCount - 1, by omega⟩
      have hrest := ih (s := ⟨update s.lockedNodes c true, s.lockCount + 1, s.granted ++ [0]⟩) hnodup' ?_
        (by dsimp only; omega)
      · obtain ⟨hlocked, hgranted⟩ := hrest
        rw [if_pos hgrant, filter_cons_of_pos (by simp [hup, hgrant]), hk, take_succ_cons]
        have hk' : servers - (s.lockCount + 1) = k := by omega
        dsimp only at hlocked hgranted
        rw [hk'] at hlocked hgranted
        refine ⟨?_, by simp [hgranted]⟩
        intro c'
        rw [hlocked c', Function.update_apply]
        by_cases h : c' = c <;> simp [h]
      intro c' hc'
      exact (update_of_ne (ne_of_mem_of_not_mem hc' hc) _ _).trans (hfalse' c' hc')
    -- a refusal is recorded where nothing was
    have hsame : update s.lockedNodes c false = s.lockedNodes := by
      rw [Function.update_eq_self_iff, hfalse c (.head _)]
    rw [if_neg hgrant, hsame, filter_cons_of_neg (by simp [hgrant])]
    exact ih hnodup' hfalse' hle

/-- **The record of the locks is right**, and the unlocks go where locks were granted, exactly if of the children that
    are up and for which a lock is granted the first ones, as many as are wanted, are none or only the first child. -/
theorem data_locks_recorded_iff (childUp : Fin (n + 1) → Bool) (servers : Nat)
    (grant : Fin (n + 1) → Fin (n + 1) → Bool) :
    let s := afrShDataLock childUp servers grant
    ((∀ i, s.lockedNodes i = true ↔ i ∈ s.granted) ∧
      ∀ i, (afrShDataUnlock s).count i = if i ∈ s.granted then 1 else 0) ↔
    ∀ c ∈ ((finRange (n + 1)).filter fun c => childUp c && grant 0 c).take servers, c = 0 := by
  obtain ⟨hlocked, hgranted⟩ := @afrShDataLockRec_eq n childUp servers grant _ ⟨fun _ => false, 0, []⟩
    (nodup_finRange (n + 1)) (fun _ _ => rfl) (Nat.zero_le servers)
  dsimp only at hlocked hgranted ⊢
  unfold afrShDataLock afrShDataUnlock
  generalize ((finRange (n + 1)).filter fun c => childUp c && grant 0 c) = good at hlocked hgranted ⊢
  simp only [hlocked, hgranted, Bool.false_or, decide_eq_true_eq, nil_append, mem_map, Nat.sub_zero]
  constructor
  · rintro ⟨hrecord, -⟩ c hc
    obtain ⟨-, -, rfl⟩ := (hrecord c).mp hc
    rfl
  intro hzero
  have hrecord : ∀ i, i ∈ good.take servers ↔ ∃ c ∈ good.take servers, 0 = i := by
    intro i
    constructor
    · intro hi
      exact ⟨i, hi, (hzero i hi).symm⟩
    rintro ⟨c, hc, rfl⟩
    exact hzero c hc ▸ hc
  refine ⟨hrecord, ?_⟩
  intro i
  rw [((nodup_finRange (n + 1)).filter _).count]
  simp [hlocked, hrecord i]

end

/-- With two lock servers both locks are asked of the first child; the second is sent an unlock for none. -/
theorem second_lock_misdirected : let s := afrShDataLock (fun _ : Fin 2 => true) 2 fun _ _ => true
    s.granted = [0, 0] ∧ s.lockedNodes 1 = true ∧ afrShDataUnlock s = [0, 1] := by
  decide

end GlusterFS.Afr
