import GlusterFS.Dht.Remove

/-!
# `Dht.Correctness.Rmdir` — is a directory removed everywhere or nowhere?

`dht_rmdir` returns 0 only if every subvolume has removed the directory. If it returns -1, those that have removed
theirs have to make it again. `dht_rmdir_cbk` asks for that only if one of them has failed with an error other than
`ENOENT`: a directory that one subvolume does not have is removed from all others, and the client is told that it was
not (`missing_directory_removed`).

The phases are the source's own: the directory is read, removed, made again, and gets its ranges again.
-/

namespace GlusterFS.Dht

open Transition List

variable {ξ : Type}

/-- **What is removed will be made again**: some `rmdir` has failed with an error other than `ENOENT`, or none has
    succeeded. -/
def Restorable (rmdirs : List (ξ × Nat)) : Prop :=
  (∃ q ∈ rmdirs, q.2 ≠ 0 ∧ (q.2 : Int) ≠ enoent) ∨ ∀ q ∈ rmdirs, q.2 ≠ 0

/-- The layout has an entry for every subvolume with the directory. -/
def Covers (conf : Conf ξ) (layout : Layout ξ) (before : DirStore ξ) : Prop :=
  ∀ x ∈ conf.subvolumes, before x ≠ none → ∃ e ∈ layout.list, e.xlator = some x

/-- The `mkdir` that makes the directory again does not fail. -/
def Remakes : RmdirAnswer ξ → Prop
  | .healMkdir _ err => err = 0
  | _ => True

/-- All answers that are missing are for one of these callbacks, and they are counted. -/
structure Awaits (s : RmdirLocal ξ) (calls : RmdirCall → Prop) : Prop where
  calls : ∀ q ∈ s.pending, calls q.2
  count : s.pending.length ≤ s.callCnt

instance decidableRemakes : (a : RmdirAnswer ξ) → Decidable (Remakes a)
  | .healMkdir _ err => inferInstanceAs (Decidable (err = 0))
  | .opendir _ _ | .readdir _ _ | .rmdir _ _ | .healSetxattr _ _ => isTrue trivial

instance decidableCovers [DecidableEq ξ] (conf : Conf ξ) (layout : Layout ξ) (before : DirStore ξ) :
    Decidable (Covers conf layout before) := inferInstanceAs (Decidable (∀ _ ∈ _, _ → ∃ _ ∈ _, _))

/-! ## Phases -/

/-- What the `rmdir`s that were answered have done. -/
structure Removing (conf : Conf ξ) (before : DirStore ξ) (s : RmdirLocal ξ) : Prop where
  ret : s.opRet = 0 ∧ (∀ q ∈ s.rmdirs, q.2 = 0) ∨ s.opRet = -1 ∧ ∃ q ∈ s.rmdirs, q.2 ≠ 0
  heal : s.needSelfheal = true ↔ ∃ q ∈ s.rmdirs, q.2 ≠ 0 ∧ (q.2 : Int) ≠ enoent
  waiting : ∀ x, (x, .rmdir) ∈ s.pending → s.dirs x = before x
  asked : ∀ x ∈ conf.subvolumes, (x, .rmdir) ∈ s.pending ∨ ∃ err, (x, err) ∈ s.rmdirs
  done : ∀ q ∈ s.rmdirs, (q.1, .rmdir) ∉ s.pending
  gone : ∀ q ∈ s.rmdirs, q.2 = 0 → s.dirs q.1 = none
  kept : ∀ q ∈ s.rmdirs, q.2 ≠ 0 → s.dirs q.1 = before q.1

/-- What the answer to the client says; the second half only if the restoring is `good`. -/
structure Told (conf : Conf ξ) (before : DirStore ξ) (good : Prop) (s : RmdirLocal ξ) : Prop where
  removed : s.opRet = 0 → ∀ x ∈ conf.subvolumes, s.dirs x = none
  restored : s.opRet = -1 → Restorable s.rmdirs → good → ∀ x ∈ conf.subvolumes, before x ≠ none → s.dirs x ≠ none

/-- **Where the operation can be.** -/
inductive RmdirPhase (conf : Conf ξ) (before : DirStore ξ) (good : Prop) (s : RmdirLocal ξ) : Prop where
  | checking (hawaits : Awaits s fun call => call = .opendir ∨ call = .readdir) (hret : s.opRet = 0 ∨ s.opRet = -1)
      (hheal : s.needSelfheal = false) (hdirs : s.dirs = before) (hnone : s.rmdirs = [])
      (hcovers : good → Covers conf s.layout before) (hresult : s.result = none)
  | removing (hawaits : Awaits s (· = .rmdir)) (hdistinct : s.pending.Nodup) (hremoving : Removing conf before s)
      (hcovers : good → Covers conf s.layout before) (hresult : s.result = none)
  | restoring (hawaits : Awaits s (· = .healMkdir)) (hret : s.opRet = -1)
      (hdirs : good → ∀ x ∈ conf.subvolumes, before x ≠ none → (x, .healMkdir) ∈ s.pending ∨ s.dirs x ≠ none)
      (hresult : s.result = none)
  | writing (hawaits : Awaits s (· = .healSetxattr)) (hret : s.opRet = -1)
      (hdirs : good → ∀ x ∈ conf.subvolumes, before x ≠ none → s.dirs x ≠ none) (hresult : s.result = none)
  | finished (hpending : s.pending = []) (hresult : s.result = some (s.opRet, s.opErrno)) (htold : Told conf before good s)

section

variable {conf : Conf ξ} {before : DirStore ξ} {good : Prop} {s t : RmdirLocal ξ}

/-! ## What a callback waits for -/

theorem Awaits.nil {calls : RmdirCall → Prop} (h : Awaits s calls) (hlast : s.callCnt = 0) : s.pending = [] := by
  have hcnt := h.count
  exact length_eq_zero_iff.mp (by omega)

theorem Awaits.wind {xs : List ξ} {call : RmdirCall} {n : Nat} (hpend : s.pending = []) (hcnt : xs.length ≤ n) :
    Awaits ({ s with callCnt := n }.wind xs call) (· = call) := by
  constructor
  · intro q hq
    simp only [RmdirLocal.wind, hpend, nil_append, mem_map] at hq
    obtain ⟨x, -, rfl⟩ := hq
    rfl
  · simpa [RmdirLocal.wind, hpend] using hcnt

theorem Awaits.answered [DecidableEq ξ] {calls : RmdirCall → Prop} (h : Awaits s calls) {q : ξ × RmdirCall} (hq : q ∈ s.pending)
    (hpend : t.pending = s.pending.erase q) (hcnt : t.callCnt = s.callCnt - 1) : Awaits t calls := by
  constructor
  · intro q' hq'
    rw [hpend] at hq'
    exact h.calls q' (mem_of_mem_erase hq')
  have hcount := h.count
  rw [hpend, length_erase_of_mem hq, hcnt]
  omega

/-! ## Making the directory again -/

theorem rmdirHealXattr_phase (hpend : s.pending = []) (hret : s.opRet = -1) (hres : s.result = none)
    (hdirs : good → ∀ x ∈ conf.subvolumes, before x ≠ none → s.dirs x ≠ none) :
    RmdirPhase conf before good (rmdirHealXattr s) := by
  unfold rmdirHealXattr
  dsimp only
  split
  · refine .finished hpend rfl ⟨?_, ?_⟩
    · intro hzero
      have hzero : s.opRet = 0 := hzero
      omega
    · exact fun _ _ => hdirs
  refine .writing (.wind hpend ?_) hret hdirs hres
  exact length_filterMap_le _ _

theorem dhtSelfhealRestore_phase (hpend : s.pending = []) (hret : s.opRet = -1) (hres : s.result = none)
    (hcovers : good → Covers conf s.layout before) : RmdirPhase conf before good (dhtSelfhealRestore s) := by
  unfold dhtSelfhealRestore
  split
  next hempty =>
    apply rmdirHealXattr_phase hpend hret hres
    intro hgood x hx hthere
    obtain ⟨e, he, -⟩ := hcovers hgood x hx hthere
    rw [length_eq_zero_iff.mp hempty] at he
    exact nomatch he
  refine .restoring (.wind hpend (length_filterMap_le _ _)) hret ?_ hres
  intro hgood x hx hthere
  obtain ⟨e, he, hxlator⟩ := hcovers hgood x hx hthere
  refine .inl ?_
  show (x, .healMkdir) ∈ s.pending ++ (s.layout.list.filterMap Entry.xlator).map fun x => (x, RmdirCall.healMkdir)
  rw [hpend, nil_append]
  exact mem_map.mpr ⟨x, mem_filterMap.mpr ⟨e, he, hxlator⟩, rfl⟩

/-! ## Reading the directory -/

theorem rmdirChecked_phase (hawaits : Awaits s.frameReturn fun call => call = .opendir ∨ call = .readdir)
    (hret : s.opRet = 0 ∨ s.opRet = -1) (hheal : s.needSelfheal = false) (hdirs : s.dirs = before)
    (hnone : s.rmdirs = []) (hcovers : good → Covers conf s.layout before) (hres : s.result = none) :
    RmdirPhase conf before good (rmdirChecked conf s) := by
  unfold rmdirChecked
  dsimp only
  split
  next hlast =>
    have hpend : s.pending = [] := hawaits.nil hlast
    unfold dhtRmdirDo
    split
    next hfail =>
      have hfail : s.opRet = -1 := hfail
      refine .finished hpend rfl ⟨?_, ?_⟩
      · intro hzero
        have hzero : s.opRet = 0 := hzero
        omega
      intro _ _ _ x _ hthere
      show s.dirs x ≠ none
      rwa [hdirs]
    next hok =>
      have hzero : s.opRet = 0 := hret.resolve_right hok
      have hall : ({ s.frameReturn with callCnt := conf.subvolumeCnt }.wind conf.subvolumes .rmdir).pending =
          conf.subvolumes.map fun x => (x, RmdirCall.rmdir) := by
        show s.pending ++ _ = _
        rw [hpend, nil_append]
      refine .removing (.wind hpend le_rfl) ?_ ⟨.inl ⟨hzero, ?_⟩, ?_, ?_, ?_, ?_, ?_, ?_⟩ hcovers hres
      · rw [hall]
        apply conf.distinct.map
        intro x y h
        exact congrArg Prod.fst h
      · show ∀ q ∈ s.rmdirs, q.2 = 0
        simp [hnone]
      · show s.needSelfheal = true ↔ ∃ q ∈ s.rmdirs, q.2 ≠ 0 ∧ (q.2 : Int) ≠ enoent
        simp [hnone, hheal]
      · intro x _
        exact congrFun hdirs x
      · intro x hx
        rw [hall]
        exact .inl (mem_map.mpr ⟨x, hx, rfl⟩)
      all_goals
        intro q hq
        have hq : q ∈ s.rmdirs := hq
        rw [hnone] at hq
        exact nomatch hq
  · exact .checking hawaits hret hheal hdirs hnone hcovers hres

/-! ## Steps -/

variable [DecidableEq ξ] {s' : RmdirLocal ξ} {x : ξ}

theorem rmdirStep_ok {a : RmdirAnswer ξ} (h : rmdirStep conf s a = .ok s') :
    a.asked ∈ s.pending ∧ s' = rmdirCallback conf { s with pending := s.pending.erase a.asked } a := by
  unfold rmdirStep at h
  split at h
  next hmem => exact ⟨hmem, (Except.ok.inj h).symm⟩
  · cases h

/-- What an answer that is noted leaves as it was. -/
structure Noted (t s : RmdirLocal ξ) : Prop where
  pending : s.pending = t.pending
  rmdirs : s.rmdirs = t.rmdirs
  dirs : s.dirs = t.dirs
  callCnt : s.callCnt = t.callCnt
  layout : s.layout = t.layout
  result : s.result = t.result

omit [DecidableEq ξ] in
theorem noteRmdir_noted (t : RmdirLocal ξ) (err : Nat) : Noted t (noteRmdir t err) := by
  unfold noteRmdir
  split <;> exact ⟨rfl, rfl, rfl, rfl, rfl, rfl⟩

/-- The frame once the subvolume has answered the `rmdir`. -/
abbrev RmdirLocal.gone (s : RmdirLocal ξ) (x : ξ) (err : Nat) : RmdirLocal ξ :=
  RmdirLocal.removed { s with pending := s.pending.erase (x, .rmdir) } x err

theorem Removing.step {err : Nat} (h : Removing conf before s) (hdist : s.pending.Nodup)
    (hmem : (x, .rmdir) ∈ s.pending) (hs' : s' = noteRmdir (s.gone x err) err) : Removing conf before s' := by
  have hnoted := noteRmdir_noted (s.gone x err) err
  rw [← hs'] at hnoted
  have hpend : s'.pending = s.pending.erase (x, .rmdir) := hnoted.pending
  have hrmdirs : s'.rmdirs = (x, err) :: s.rmdirs := hnoted.rmdirs
  have hdirs : s'.dirs = if err = 0 then Function.update s.dirs x none else s.dirs := hnoted.dirs
  have hother : ∀ y, y ≠ x → s'.dirs y = s.dirs y := by
    intro y hy
    rw [hdirs]
    split
    · exact Function.update_of_ne hy _ _
    · rfl
  -- those that have answered before are others
  have hearlier : ∀ q ∈ s.rmdirs, q.1 ≠ x := by
    rintro q hq rfl
    exact h.done q hq hmem
  refine ⟨?_, ?_, ?_, ?_, ?_, ?_, ?_⟩
  · rw [hrmdirs]
    by_cases herr : err = 0
    · have hret : s'.opRet = s.opRet := by simp [hs', noteRmdir, herr, RmdirLocal.removed]
      rw [hret]
      rcases h.ret with ⟨hzero, hall⟩ | ⟨hfail, q, hq, hne⟩
      · refine .inl ⟨hzero, ?_⟩
        exact forall_mem_cons.mpr ⟨herr, hall⟩
      · exact .inr ⟨hfail, q, mem_cons_of_mem _ hq, hne⟩
    have hret : s'.opRet = -1 := by simp [hs', noteRmdir, herr]
    exact .inr ⟨hret, (x, err), mem_cons_self, herr⟩
  · have hheal : s'.needSelfheal = true ↔ (err ≠ 0 ∧ (err : Int) ≠ enoent) ∨ s.needSelfheal = true := by
      rw [hs']
      unfold noteRmdir
      split
      next herr => simp [RmdirLocal.removed, herr, or_comm]
      next herr => simp [RmdirLocal.removed, not_not.mp herr]
    rw [hheal, h.heal, hrmdirs]
    simp
  · intro y hy
    rw [hpend] at hy
    have hyx : y ≠ x := by
      rintro rfl
      exact hdist.not_mem_erase hy
    rw [hother y hyx]
    exact h.waiting y (mem_of_mem_erase hy)
  · intro y hy
    rw [hpend, hrmdirs]
    by_cases hyx : y = x
    · exact .inr ⟨err, by simp [hyx]⟩
    rcases h.asked y hy with hmem' | ⟨err', hq⟩
    · exact .inl ((mem_erase_of_ne (by simp [hyx])).mpr hmem')
    · exact .inr ⟨err', mem_cons_of_mem _ hq⟩
  · intro q hq
    rw [hpend]
    rw [hrmdirs] at hq
    rcases mem_cons.mp hq with rfl | hq
    · exact hdist.not_mem_erase
    · exact fun hmem' => h.done q hq (mem_of_mem_erase hmem')
  · intro q hq hzero
    rw [hrmdirs] at hq
    rcases mem_cons.mp hq with rfl | hq
    · rw [hdirs, if_pos hzero, Function.update_self]
    rw [hother q.1 (hearlier q hq)]
    exact h.gone q hq hzero
  intro q hq hne
  rw [hrmdirs] at hq
  rcases mem_cons.mp hq with rfl | hq
  · rw [hdirs, if_neg hne]
    exact h.waiting x hmem
  rw [hother q.1 (hearlier q hq)]
  exact h.kept q hq hne

omit [DecidableEq ξ] in
theorem Removing.told (h : Removing conf before s) (hpend : s.pending = []) (hheal : s.needSelfheal ≠ true) :
    Told conf before good s := by
  have hans : ∀ x ∈ conf.subvolumes, ∃ err, (x, err) ∈ s.rmdirs := by
    intro x hx
    refine (h.asked x hx).resolve_left ?_
    rw [hpend]
    exact nofun
  constructor
  · intro hzero x hx
    obtain ⟨err, hq⟩ := hans x hx
    rcases h.ret with ⟨-, hall⟩ | ⟨hfail, -⟩
    · exact h.gone (x, err) hq (hall _ hq)
    · omega
  intro _ hrestorable _ x hx hthere
  obtain ⟨err, hq⟩ := hans x hx
  rcases hrestorable with hsome | hall
  · exact absurd (h.heal.mpr hsome) hheal
  rw [h.kept (x, err) hq (hall _ hq)]
  exact hthere

theorem removing_step {err : Nat} (hawaits : Awaits s (· = .rmdir)) (hdist : s.pending.Nodup)
    (hremoving : Removing conf before s) (hcovers : good → Covers conf s.layout before) (hres : s.result = none)
    (hmem : (x, .rmdir) ∈ s.pending) : RmdirPhase conf before good (dhtRmdirCbk (s.gone x err) err) := by
  set t := noteRmdir (s.gone x err) err with ht
  have hnoted := noteRmdir_noted (s.gone x err) err
  rw [← ht] at hnoted
  have hremoved : Removing conf before t := hremoving.step hdist hmem ht
  have hreturn : Removing conf before t.frameReturn :=
    ⟨hremoved.ret, hremoved.heal, hremoved.waiting, hremoved.asked, hremoved.done, hremoved.gone, hremoved.kept⟩
  have hcnt : t.frameReturn.callCnt = s.callCnt - 1 := congrArg (· - 1) hnoted.callCnt
  have hnext : Awaits t.frameReturn (· = .rmdir) := hawaits.answered hmem hnoted.pending hcnt
  have hcovers : good → Covers conf t.frameReturn.layout before := by
    have hlayout : t.frameReturn.layout = s.layout := hnoted.layout
    rwa [hlayout]
  have hres : t.frameReturn.result = none := hnoted.result.trans hres
  unfold dhtRmdirCbk
  dsimp only
  rw [← ht]
  split
  next hlast =>
    have hpend := hnext.nil hlast
    split
    next hheal =>
      have hret : t.frameReturn.opRet = -1 := by
        obtain ⟨q, hq, hne, -⟩ := hreturn.heal.mp hheal
        rcases hreturn.ret with ⟨-, hall⟩ | ⟨hfail, -⟩
        · exact absurd (hall q hq) hne
        · exact hfail
      exact dhtSelfhealRestore_phase hpend hret hres hcovers
    next hheal =>
      have htold : Told conf before good t.frameReturn := hreturn.told hpend hheal
      exact .finished hpend rfl ⟨htold.removed, htold.restored⟩
  · refine .removing hnext ?_ hreturn hcovers hres
    show t.pending.Nodup
    rw [hnoted.pending]
    exact hdist.erase _

theorem restoring_step {err err' : Nat} (hawaits : Awaits s (· = .healMkdir)) (hret : s.opRet = -1)
    (hdirs : good → ∀ x ∈ conf.subvolumes, before x ≠ none → (x, .healMkdir) ∈ s.pending ∨ s.dirs x ≠ none)
    (hres : s.result = none) (hmem : (x, .healMkdir) ∈ s.pending) (hgood : good → err = 0) : RmdirPhase conf before good
      (rmdirHealMkdirCbk (RmdirLocal.made { s with pending := s.pending.erase (x, .healMkdir) } x err) x err') := by
  set t := RmdirLocal.made { s with pending := s.pending.erase (x, .healMkdir) } x err
  have hmade : good → ∀ y ∈ conf.subvolumes, before y ≠ none → (y, .healMkdir) ∈ t.pending ∨ t.dirs y ≠ none := by
    intro hg y hy hthere
    have htdirs : t.dirs = Function.update s.dirs x ((s.dirs x).or (some 0)) := if_pos (hgood hg)
    rw [htdirs]
    by_cases hyx : y = x
    · rw [hyx, Function.update_self]
      refine .inr ?_
      cases s.dirs x <;> simp
    rw [Function.update_of_ne hyx]
    rcases hdirs hg y hy hthere with hq | hd
    · exact .inl ((mem_erase_of_ne (by simp [hyx])).mpr hq)
    · exact .inr hd
  unfold rmdirHealMkdirCbk
  dsimp only
  set list := if err' = 0 ∨ err' = eexist then setErr x (-1) t.layout.list else t.layout.list
  set u : RmdirLocal ξ := { t with layout.list := list }
  have hnext : Awaits u.frameReturn (· = .healMkdir) := hawaits.answered hmem rfl rfl
  split
  next hlast =>
    have hpend := hnext.nil hlast
    apply rmdirHealXattr_phase hpend hret hres
    intro hg y hy hthere
    refine (hmade hg y hy hthere).resolve_left ?_
    have htpending : t.pending = [] := hpend
    rw [htpending]
    exact nofun
  · exact .restoring hnext hret hmade hres

theorem writing_step {err : Nat} (hawaits : Awaits s (· = .healSetxattr)) (hret : s.opRet = -1)
    (hdirs : good → ∀ x ∈ conf.subvolumes, before x ≠ none → s.dirs x ≠ none) (hres : s.result = none)
    (hmem : (x, .healSetxattr) ∈ s.pending) : RmdirPhase conf before good
      (rmdirHealXattrCbk { s with pending := s.pending.erase (x, .healSetxattr) } x err) := by
  unfold rmdirHealXattrCbk
  dsimp only
  set u : RmdirLocal ξ :=
    { s with pending := s.pending.erase (x, .healSetxattr), layout.list := setErr x err s.layout.list }
  have hnext : Awaits u.frameReturn (· = .healSetxattr) := hawaits.answered hmem rfl rfl
  split
  next hlast =>
    refine .finished (hnext.nil hlast) rfl ⟨?_, ?_⟩
    · intro hzero
      have hzero : s.opRet = 0 := hzero
      omega
    · exact fun _ _ => hdirs
  · exact .writing hnext hret hdirs hres

/-- **One step.** -/
theorem rmdirStep_phase {a : RmdirAnswer ξ} (hph : RmdirPhase conf before good s) (hgood : good → Remakes a)
    (hstep : rmdirStep conf s a = .ok s') : RmdirPhase conf before good s' := by
  obtain ⟨hmem, rfl⟩ := rmdirStep_ok hstep
  cases hph with
  | finished hpend =>
    rw [hpend] at hmem
    exact nomatch hmem
  | checking hawaits hret hheal hdirs hnone hcovers hres =>
    cases a with
    | opendir y err =>
      show RmdirPhase conf before good (dhtRmdirOpendirCbk conf _ y err)
      unfold dhtRmdirOpendirCbk
      split
      · exact rmdirChecked_phase (hawaits.answered hmem rfl rfl) hret hheal hdirs hnone hcovers hres
      refine .checking ⟨?_, ?_⟩ hret hheal hdirs hnone hcovers hres
      · intro q hq
        rcases mem_append.mp hq with hq | hq
        · exact hawaits.calls q (mem_of_mem_erase hq)
        rw [mem_singleton.mp hq]
        exact .inr rfl
      have hcnt := hawaits.count
      have hmem : (y, RmdirCall.opendir) ∈ s.pending := hmem
      have hpos := length_pos_of_mem hmem
      show (s.pending.erase (y, RmdirCall.opendir) ++ [(y, RmdirCall.readdir)]).length ≤ s.callCnt
      rw [length_append, length_erase_of_mem hmem, length_singleton]
      omega
    | readdir y opRet =>
      show RmdirPhase conf before good (dhtRmdirReaddirCbk conf _ opRet)
      unfold dhtRmdirReaddirCbk
      split
      · exact rmdirChecked_phase (hawaits.answered hmem rfl rfl) (.inr rfl) hheal hdirs hnone hcovers hres
      · exact rmdirChecked_phase (hawaits.answered hmem rfl rfl) hret hheal hdirs hnone hcovers hres
    | rmdir | healMkdir | healSetxattr => rcases hawaits.calls _ hmem with h | h <;> cases h
  | removing hawaits hdist hremoving hcovers hres =>
    cases a with
    | rmdir y err => exact removing_step hawaits hdist hremoving hcovers hres hmem
    | opendir | readdir | healMkdir | healSetxattr => cases hawaits.calls _ hmem
  | restoring hawaits hret hdirs hres =>
    cases a with
    | healMkdir y err => exact restoring_step hawaits hret hdirs hres hmem hgood
    | opendir | readdir | rmdir | healSetxattr => cases hawaits.calls _ hmem
  | writing hawaits hret hdirs hres =>
    cases a with
    | healSetxattr y err => exact writing_step hawaits hret hdirs hres hmem
    | opendir | readdir | rmdir | healMkdir => cases hawaits.calls _ hmem

/-! ## Runs -/

/-- The phases along a run; what is to hold of the restoring is a parameter. -/
theorem run_phase {layout : Layout ξ} {as : List (RmdirAnswer ξ)} (hcovers : good → Covers conf layout before)
    (hgood : good → ∀ a ∈ as, Remakes a) (hrun : run (rmdirStep conf) (dhtRmdir conf layout before) as = .ok s) :
    RmdirPhase conf before good s := by
  have hstart : RmdirPhase conf before good (dhtRmdir conf layout before) := by
    refine .checking ⟨?_, ?_⟩ (.inl rfl) rfl rfl rfl hcovers rfl
    · intro q hq
      have hq : q ∈ [] ++ conf.subvolumes.map fun x => (x, RmdirCall.opendir) := hq
      obtain ⟨x, -, rfl⟩ := mem_map.mp hq
      exact .inl rfl
    show ([] ++ conf.subvolumes.map fun x => (x, RmdirCall.opendir)).length ≤ conf.subvolumes.length
    simp
  exact run_invariant (C := fun _ a => good → Remakes a) (fun _ _ _ hi hC hstep => rmdirStep_phase hi hC hstep) hstart
    (along_of_forall fun a ha _ hg => hgood hg a ha) hrun

/-- **A directory is removed everywhere or nowhere**, whatever the subvolumes answer and in whatever order. If 0 is
    returned, no subvolume has it. If -1 is returned, those that had it have it, provided that the restoring `mkdir`s
    succeed and go to all of them, and that some `rmdir` has failed with an error other than `ENOENT` or none has
    succeeded. -/
theorem rmdir_all_or_nothing {layout : Layout ξ} {as : List (RmdirAnswer ξ)}
    (hrun : run (rmdirStep conf) (dhtRmdir conf layout before) as = .ok s) :
    (∀ errno, s.result = some (0, errno) → ∀ x ∈ conf.subvolumes, s.dirs x = none) ∧
      (∀ errno, s.result = some (-1, errno) → Covers conf layout before → (∀ a ∈ as, Remakes a) →
        Restorable s.rmdirs → ∀ x ∈ conf.subvolumes, before x ≠ none → s.dirs x ≠ none) := by
  have htold : ∀ {good : Prop} {r : Int × Int}, RmdirPhase conf before good s → s.result = some r →
      Told conf before good s ∧ r.1 = s.opRet := by
    intro good r hphase hr
    cases hphase with
    | finished hpending hresult htold =>
      rw [hresult] at hr
      obtain rfl := Option.some.inj hr
      exact ⟨htold, rfl⟩
    | checking _ _ _ _ _ _ hresult | removing _ _ _ _ hresult | restoring _ _ _ hresult | writing _ _ _ hresult =>
      rw [hresult] at hr
      cases hr
  constructor
  · intro errno hresult
    have hphase : RmdirPhase conf before False s := run_phase (fun h => h.elim) (fun h => h.elim) hrun
    obtain ⟨htold, hret⟩ := htold hphase hresult
    exact htold.removed hret.symm
  intro errno hresult hcovers hmkdirs hrestorable
  have hphase : RmdirPhase conf before True s := run_phase (fun _ => hcovers) (fun _ => hmkdirs) hrun
  obtain ⟨htold, hret⟩ := htold hphase hresult
  exact htold.restored hret.symm hrestorable trivial

end

theorem trio_nonempty : ([0, 1, 2] : List (Fin 3)) ≠ [] := by decide

theorem trio_distinct : ([0, 1, 2] : List (Fin 3)).Nodup := by decide

def trioConf : Conf (Fin 3) := ⟨[0, 1, 2], fun _ => true, trio_nonempty, trio_distinct⟩

/-- The layout of a directory that was healthy when it was looked up. -/
def trioLayout : Layout (Fin 3) := ⟨0, [⟨0, 0, 99, some 0⟩, ⟨0, 100, 199, some 1⟩, ⟨0, 200, 299, some 2⟩]⟩

/-- Every subvolume is asked, none finds an entry. -/
def allEmpty : List (RmdirAnswer (Fin 3)) :=
  [.opendir 0 0, .opendir 1 0, .opendir 2 0, .readdir 0 2, .readdir 1 2, .readdir 2 2]

/-- Subvolume 1 fails with `EIO` after the others have removed the directory, and they make it again. -/
theorem rmdir_failure_restored :
    ∃ s, run (rmdirStep trioConf) (dhtRmdir trioConf trioLayout fun _ => some 0)
        (allEmpty ++ [.rmdir 0 0, .rmdir 2 0, .rmdir 1 5, .healMkdir 0 0, .healMkdir 1 0, .healMkdir 2 0,
          .healSetxattr 0 0, .healSetxattr 1 0, .healSetxattr 2 0]) = .ok s ∧
      s.result = some (-1, 5) ∧ ∀ x ∈ trioConf.subvolumes, s.dirs x ≠ none := by
  have hrun : (run (rmdirStep trioConf) (dhtRmdir trioConf trioLayout fun _ => some 0)
      (allEmpty ++ [.rmdir 0 0, .rmdir 2 0, .rmdir 1 5, .healMkdir 0 0, .healMkdir 1 0, .healMkdir 2 0,
        .healSetxattr 0 0, .healSetxattr 1 0, .healSetxattr 2 0])).map (fun s => (s.result, s.rmdirs)) =
      .ok (some (-1, 5), [(1, 5), (2, 0), (0, 0)]) := by
    decide +kernel
  obtain ⟨s, hrun, hend⟩ := map_eq_ok hrun
  have hresult : s.result = some (-1, 5) := (congrArg Prod.fst hend).symm
  have hrmdirs : s.rmdirs = [(1, 5), (2, 0), (0, 0)] := (congrArg Prod.snd hend).symm
  have hrestorable : Restorable s.rmdirs := by
    rw [hrmdirs]
    exact .inl ⟨(1, 5), by simp, by decide, by decide⟩
  have hcovers : Covers trioConf trioLayout fun _ => some 0 := by decide
  have hmkdirs := (rmdir_all_or_nothing hrun).2 5 hresult hcovers (by decide) hrestorable
  exact ⟨s, hrun, hresult, fun x hx => hmkdirs x hx (by simp)⟩

/-! ## A directory that is removed for the most part -/

/-- Subvolume 2 does not have the directory. -/
def mostDirs : DirStore (Fin 3) := fun x => if x = 2 then none else some 0

/-- **The directory is removed from the subvolumes that had it, and -1 is returned**: the only error was `ENOENT`. -/
theorem missing_directory_removed :
    (run (rmdirStep trioConf) (dhtRmdir trioConf trioLayout mostDirs)
      [.opendir 0 0, .opendir 1 0, .opendir 2 2, .readdir 0 2, .readdir 1 2, .rmdir 0 0, .rmdir 1 0, .rmdir 2 0]).map
      (fun s => (s.result, s.pending.length, trioConf.subvolumes.map mostDirs, trioConf.subvolumes.map s.dirs)) =
    .ok (some (-1, enoent), 0, [some 0, some 0, none], [none, none, none]) := by
  decide +kernel

end GlusterFS.Dht
