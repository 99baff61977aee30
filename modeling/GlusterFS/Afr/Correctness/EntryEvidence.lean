import GlusterFS.Afr.Correctness.EntryHeal

/-!
# `Afr.Correctness.EntryEvidence` — when an entry self-heal takes the accusations back

The counters that accuse a sink may be erased only if the directories it is compared with were read to their end and
what was created and removed on it was done. Of all the callbacks of the heal only those of the lock and of `opendir`
record an error. The others log it:

- `afr_sh_entry_impunge_readdir_cbk` and `afr_sh_entry_expunge_readdir_cbk` take a failed `readdir` for the end of the
  directory;
- `afr_sh_entry_impunge_newfile_cbk`, `afr_sh_entry_impunge_symlink_unlink_cbk` and `afr_sh_entry_expunge_rename_cbk`
  go on with the next entry.

`sh->success` is set before the first entry is read, so the counters are erased all the same
(`creation_fails_and_is_forgotten`). `entry_evidence_kept` says what is left.
-/

namespace GlusterFS.Afr.EntryHeal

open GlusterFS.Storage
open Transition

variable {n : Nat} {cfg : Config n} {s : State n}

/-- The directory of `c` has to be read to its end for sink `i`: its entries are created on `i`, or it is the directory
    of `i` and entries are removed from it. -/
def Needs (cfg : Config n) (i : Fin n) (pass : Pass) (c : Fin n) : Prop :=
  pass = .impunge ∧ Scans cfg c ∧ c ≠ i ∨ pass = .expunge ∧ cfg.source ≠ none ∧ c = i

/-- The calls that create or remove something on the child. -/
def Impunge.changes : Impunge → Bool
  | .mknod _ => true
  | .mkdir _ => true
  | .symlink _ => true
  | .unlink => true
  | _ => false

def Expunge.changes : Expunge → Bool
  | .mkdirTrash => true
  | .rename => true
  | _ => false

/-- The answer is to a read that sink `i` needs, or to a creation or a removal on it. -/
def Answer.Concerns (cfg : Config n) (i : Fin n) : Answer n → Prop
  | .opendir _ _ => False
  | .readdir pass c _ => Needs cfg i pass c
  | .impunge call j _ _ => j = i ∧ call.changes = true
  | .expunge call j _ _ => j = i ∧ call.changes = true

/-- The heal of sink `i` is complete: what it needs was read to the end, and every creation and removal on it
    succeeded. -/
structure Complete (cfg : Config n) (s : State n) (i : Fin n) : Prop where
  reads : ∀ pass c, Needs cfg i pass c → Answer.readdir pass c .complete ∈ s.log ∧ Answer.readdir pass c .failed ∉ s.log
  created : ∀ call name ok, Answer.impunge call i name ok ∈ s.log → call.changes = true → ok = true
  removed : ∀ call name ok, Answer.expunge call i name ok ∈ s.log → call.changes = true → ok = true

theorem Purged.ended (h : Purged cfg s) {i : Fin n} (hi : cfg.sink i = true) {pass : Pass} {c : Fin n}
    (hneeds : Needs cfg i pass c) : Ended s.log pass c := by
  rcases hneeds with ⟨hpass, hscans, -⟩ | ⟨hpass, hsrc, hc⟩
  · rw [hpass]
    exact h.1.2 c hscans
  rw [hpass, hc]
  exact h.2 hsrc i hi

/-- After that the heal of a sink is complete exactly if none of the answers it rests on was an error. -/
theorem complete_iff (h : Purged cfg s) {i : Fin n} (hi : cfg.sink i = true) :
    Complete cfg s i ↔ ∀ a ∈ s.log, a.Concerns cfg i → a.ok = true := by
  constructor
  · intro hcomplete a ha hconcerns
    cases a with
    | opendir j ok => exact absurd hconcerns id
    | readdir pass c r =>
      cases r with
      | batch | complete => rfl
      | failed => exact absurd ha (hcomplete.reads pass c hconcerns).2
    | impunge call j name ok =>
      obtain ⟨rfl, hchanges⟩ := hconcerns
      exact hcomplete.created call name ok ha hchanges
    | expunge call j name ok =>
      obtain ⟨rfl, hchanges⟩ := hconcerns
      exact hcomplete.removed call name ok ha hchanges
  intro hok
  refine ⟨?_, ?_, ?_⟩
  · intro pass c hneeds
    have hnot : Answer.readdir pass c .failed ∉ s.log := by
      intro hfail
      have := hok _ hfail hneeds
      cases this
    exact ⟨(h.ended hi hneeds).resolve_right hnot, hnot⟩
  all_goals
    intro call name ok ha hchanges
    exact hok _ ha ⟨rfl, hchanges⟩

/-- **What erased counters say.** All directories were opened, and every directory a sink needs was read until a `readdir`
    brought nothing or failed; the heal of a sink is complete exactly if no such read and no creation or removal on the
    sink failed. -/
theorem entry_evidence_kept (cfg : Config n) (dirs : Fin n → Dir) (trash : Fin n → Bool) (store : FileStore n)
    (as : List (Action n)) (s : State n)
    (hrun : run (step cfg) (afrShEntrySyncPrepare cfg dirs trash store) as = .ok s) (k i : Fin n)
    (hi : cfg.sink i = true)
    (herased : (s.store k).counters i TransactionType.entry.index ≠ (store k).counters i TransactionType.entry.index) :
    (∀ j, cfg.success j = true → Answer.opendir j true ∈ s.log) ∧ (∀ pass c, Needs cfg i pass c → Ended s.log pass c) ∧
    (Complete cfg s i ↔ ∀ a ∈ s.log, a.Concerns cfg i → a.ok = true) := by
  have hordered := run_ordered hrun
  have hphase : s.phase = .erased := by
    by_contra hphase
    rw [hordered.unerased hphase] at herased
    exact herased rfl
  have hpurged : Purged cfg s := by simpa only [PhaseOrder, hphase] using hordered.order
  exact ⟨hpurged.1.1.2, fun pass c hneeds => hpurged.ended hi hneeds, complete_iff hpurged hi⟩

def accusingStore : FileStore 2 := fun i j => some fun k => if i = 0 ∧ j = 1 ∧ k = 2 then 1 else 0

def accusingConfig : Config 2 := { sampleConfig with xattr := fun i => some (accusingStore i) }

theorem sample_evidence_complete : ∃ s,
    run (step accusingConfig) (afrShEntrySyncPrepare accusingConfig sampleDirs (fun _ => false) accusingStore)
      sampleRun = .ok s ∧ (accusingStore 0).counters 1 2 = 1 ∧ (s.store 0).counters 1 2 = 0 ∧
      Complete accusingConfig s 1 := by
  have hend : (run (step accusingConfig)
      (afrShEntrySyncPrepare accusingConfig sampleDirs (fun _ => false) accusingStore) sampleRun).map
        (fun s => (s.healed, (s.store 0).counters 1 2)) = .ok (true, 0) := by
    decide +kernel
  obtain ⟨s, hrun, hs⟩ := map_eq_ok hend
  obtain ⟨hhealed, hzero⟩ := Prod.mk.inj hs
  obtain ⟨-, hok⟩ := State.healed_iff.mp hhealed.symm
  have hone : (accusingStore 0).counters 1 2 = 1 := by decide
  have hkept := entry_evidence_kept accusingConfig sampleDirs (fun _ => false) accusingStore sampleRun s hrun 0 1
    (by decide) (by
      show (s.store 0).counters 1 2 ≠ (accusingStore 0).counters 1 2
      rw [← hzero, hone]
      decide)
  exact ⟨s, hrun, hone, hzero.symm, hkept.2.2.mpr fun a ha _ => hok a ha⟩

/-- The creation of "a" on the second child fails; everything else succeeds. -/
def failingRun : List (Action 2) :=
  [.opendir 1 true, .opendir 0 true, .readdir 1 true, .impunge 0 1 true 0, .impunge 0 1 true 0, .impunge 0 1 false 0,
    .readdir 0 true, .impunge 0 1 true 0, .impunge 0 1 true 0, .impunge 0 1 true 0, .impunge 0 1 true 0,
    .impunge 0 1 true 0, .impunge 0 1 true 3, .impunge 0 1 true 0, .impunge 0 1 true 0, .readdir 0 true,
    .readdir 0 true, .expunge 0 true true 0, .expunge 0 true true 0, .expunge 0 true true 0, .expunge 0 true true 0,
    .readdir 0 true, .expunge 0 true true 0, .readdir 0 true]

/-- The counter is taken back although the creation failed, and so it is if the directory of the source could not be
    read. -/
theorem creation_fails_and_is_forgotten : (accusingStore 0).counters 1 2 = 1 ∧
    ((run (step accusingConfig) (afrShEntrySyncPrepare accusingConfig sampleDirs (fun _ => true) accusingStore)
      failingRun).map fun s => ((s.store 0).counters 1 2,
        decide (Answer.impunge (.mknod ⟨.reg, ""⟩) 1 "a" false ∈ s.log), decide ((s.dirs 1).Has "a"))) =
      .ok (0, true, false) ∧
    ((run (step accusingConfig) (afrShEntrySyncPrepare accusingConfig sampleDirs (fun _ => true) accusingStore)
      [.opendir 0 true, .opendir 1 true, .readdir 0 false, .readdir 0 false]).map fun s => ((s.store 0).counters 1 2,
        decide (Answer.readdir .impunge 0 .failed ∈ s.log), decide ((s.dirs 1).Has "a"))) = .ok (0, true, false) := by
  decide +kernel

end GlusterFS.Afr.EntryHeal
