import GlusterFS.Dht.Correctness.FileLookup
import GlusterFS.Dht.Remove

/-!
# `Dht.Correctness.Unlink` — is the file gone?

`dht_unlink` returns -1 only if no subvolume has removed anything, so the file is still there. It returns 0 as soon
as one of the two has succeeded: with the link file gone and an error for the file itself the client is told that
the file was removed, and the next lookup that searches finds it again (`unlinked_file_comes_back`). If an `unlink`
fails only where nothing is, 0 means that the name is gone, and no lookup finds it.
-/

namespace GlusterFS.Dht.NameLookup

open Transition List

variable {ξ : Type} [DecidableEq ξ] {env : DirEnv ξ}

/-! ## Removing -/

section

variable {store : NameStore ξ} {asked : List ξ} {s s' : UnlinkLocal ξ} {a : UnlinkAnswer ξ}

/-- **A `dht_unlink` on its way.** As long as none has succeeded, nothing is removed. -/
structure Unlinking (store : NameStore ξ) (s : UnlinkLocal ξ) : Prop where
  count : s.callCnt = s.pending.length
  ret : s.opRet = 0 ∨ s.opRet = -1 ∧ s.store = store
  less : ∀ x, s.store x = store x ∨ s.store x = none
  result : ∀ r, s.result = some r → r.1 = s.opRet ∧ s.pending = []

/-- Those that have answered do not have the name any more. -/
def Gone (asked : List ξ) (s : UnlinkLocal ξ) : Prop := ∀ x ∈ asked, x ∈ s.pending ∨ s.store x = none

theorem unlinkStep_ok (h : unlinkStep s a = .ok s') :
    a.subvol ∈ s.pending ∧ s'.pending = s.pending.erase a.subvol ∧ s'.callCnt = s.callCnt - 1 ∧
      (unlinkErr s.store a = 0 ∧ s'.opRet = 0 ∧ s'.store = Function.update s.store a.subvol none ∨
        unlinkErr s.store a ≠ 0 ∧ s'.opRet = s.opRet ∧ s'.store = s.store) ∧
      (s'.result = s.result ∨ s.callCnt - 1 = 0 ∧ s'.result = some (s'.opRet, s'.opErrno)) := by
  unfold unlinkStep at h
  split at h
  case isFalse => cases h
  next hmem =>
  obtain rfl := Except.ok.inj h
  by_cases herr : unlinkErr s.store a = 0
  all_goals by_cases hlast : s.callCnt - 1 = 0 <;> simp [dhtUnlinkCbk, herr, hlast, hmem]

theorem unlinking_start (store : NameStore ξ) (hashed cached : ξ) :
    Unlinking store (dhtUnlink (some hashed) (some cached) store) where
  count := rfl
  ret := .inr ⟨rfl, rfl⟩
  less _ := .inl rfl
  result _ h := nomatch h

theorem Unlinking.step (hi : Unlinking store s) (h : unlinkStep s a = .ok s') : Unlinking store s' := by
  obtain ⟨hmem, hpend, hcnt, hcases, hresult⟩ := unlinkStep_ok h
  have hlen : s'.pending.length = s.pending.length - 1 := by
    rw [hpend, length_erase_of_mem hmem]
  refine ⟨?_, ?_, ?_, ?_⟩
  · rw [hcnt, hlen, hi.count]
  · rcases hcases with ⟨-, hret, -⟩ | ⟨-, hret, hstore⟩
    · exact .inl hret
    rw [hret, hstore]
    exact hi.ret
  · intro x
    rcases hcases with ⟨-, -, hstore⟩ | ⟨-, -, hstore⟩
    · rw [hstore]
      by_cases hx : x = a.subvol
      · rw [hx, Function.update_self]
        exact .inr rfl
      rw [Function.update_of_ne hx]
      exact hi.less x
    rw [hstore]
    exact hi.less x
  intro r hr
  rcases hresult with hsame | ⟨hlast, hres⟩
  · rw [hsame] at hr
    rw [(hi.result r hr).2] at hmem
    exact nomatch hmem
  rw [hres] at hr
  obtain rfl := Option.some.inj hr
  have hzero := hi.count
  exact ⟨rfl, length_eq_zero_iff.mp (by omega)⟩

/-- An `unlink` that fails only where nothing is leaves nothing. -/
theorem Gone.step (hi : Unlinking store s) (hgone : Gone asked s) (hfails : a.err ≠ 0 → store a.subvol = none)
    (h : unlinkStep s a = .ok s') : Gone asked s' := by
  obtain ⟨-, hpend, -, hcases, -⟩ := unlinkStep_ok h
  intro x hx
  rw [hpend]
  by_cases hxa : x = a.subvol
  · refine .inr ?_
    rcases hcases with ⟨-, -, hstore⟩ | ⟨herr, -, hstore⟩
    · rw [hstore, hxa, Function.update_self]
    rw [hstore, hxa]
    by_contra hthere
    have hsame : s.store a.subvol = store a.subvol := (hi.less _).resolve_right hthere
    have hzero : a.err = 0 := by
      by_contra hne
      exact hthere (hsame.trans (hfails hne))
    exact herr (by simp [unlinkErr, hzero, hthere])
  rcases hgone x hx with hmem | hnone
  · exact .inl ((mem_erase_of_ne hxa).mpr hmem)
  refine .inr ?_
  rcases hcases with ⟨-, -, hstore⟩ | ⟨-, -, hstore⟩
  · rw [hstore, Function.update_of_ne hxa]
    exact hnone
  rw [hstore]
  exact hnone

end

/-! ## Looking for what is not there -/

/-- A lookup by a client that has no layout for the name, or a revalidation. -/
inductive LooksAgain (env : DirEnv ξ) : DirLocal ξ → Prop where
  | fresh (hashed : Option ξ) : LooksAgain env (dhtLookup env hashed none)
  | revalidate (hashed cached : Option ξ) (layout : Layout ξ) (inodeMode : BitVec 32) :
      LooksAgain env (dhtLookupRevalidate hashed cached layout inodeMode)

/-- No subvolume has more than a link file. -/
def Cleared (store : NameStore ξ) : Prop := ∀ x file, store x ≠ some (.data file)

/-- What is shown of such a name: an error or a link file. -/
def Shown (reply : DirReply) : Prop :=
  (∃ errno pos, reply = .failed errno pos) ∨ ∃ xattr, reply = .ok newLinkfileStat xattr

theorem respond_cleared (env : DirEnv ξ) {store : NameStore ξ} (hcleared : Cleared store) {call : DirCall} (h : looks call = true)
    (cached : Option ξ) (x : ξ) (err : Nat) :
    ∃ reply, respond env cached store x call err = (reply, store) ∧ Shown reply := by
  rcases Nat.eq_zero_or_pos err with rfl | hpos
  · rw [respond_executed h]
    refine ⟨_, rfl, ?_⟩
    cases hstore : store x with
    | none => exact .inl ⟨2, by decide, rfl⟩
    | some o =>
      cases o with
      | data file => exact absurd hstore (hcleared x file)
      | linkfile linkto => exact .inr ⟨_, rfl⟩
  · exact ⟨_, respond_failed hpos .., .inl ⟨err, hpos, rfl⟩⟩

/-- **Nothing has been found.** -/
structure Blank (s : DirLocal ξ) : Prop where
  ret : s.opRet = -1
  dirs : s.dirCount = 0
  result : s.result ≠ some 0

omit [DecidableEq ξ] in
theorem Blank.unwind {t : DirLocal ξ} (h : Blank t) : Blank (t.unwind (-1)) := ⟨h.ret, h.dirs, nofun⟩

/-- A lookup that may search: no subvolume is known to have the file. -/
structure Searches (s : DirLocal ξ) : Prop extends Blank s where
  unknown : s.cachedSubvol = none
  calls : ∀ q ∈ s.pending, looks q.2 = true ∧ q.2 ≠ .revalidate

namespace Searches

variable {t t' : DirLocal ξ} {reply : DirReply}

omit [DecidableEq ξ]

section

variable (h : Searches t)
include h

theorem wind {t' : DirLocal ξ} (ht' : Blank t') (hcached : t'.cachedSubvol = none) (xs : List ξ)
    (call : DirCall) (hcall : looks call = true ∧ call ≠ .revalidate) (hpend : t'.pending = t.pending ++ xs.map fun x => (x, call)) :
    Searches t' := by
  refine ⟨ht', hcached, ?_⟩
  intro q hq
  rw [hpend] at hq
  rcases mem_append.mp hq with hq | hq
  · exact h.calls q hq
  obtain ⟨x, -, rfl⟩ := mem_map.mp hq
  exact hcall

theorem unwound : Searches (t.unwind (-1)) := ⟨h.toBlank.unwind, h.unknown, h.calls⟩

theorem everywhere : Searches (dhtLookupEverywhere env t) :=
  h.wind ⟨h.ret, h.dirs, h.result⟩ h.unknown env.conf.subvolumes .everywhere (by decide) rfl

theorem directory : Searches (dhtLookupDirectory env t) :=
  h.wind ⟨h.ret, h.dirs, h.result⟩ h.unknown env.conf.subvolumes .directory (by decide) rfl

section

variable (hshown : Shown reply)
include hshown

theorem lookupCbk : Searches (dhtLookupCbk env t reply) := by
  rcases hshown with ⟨errno, pos, rfl⟩ | ⟨xattr, rfl⟩
  · unfold dhtLookupCbk
    dsimp only
    split
    · exact h.everywhere
    split
    · exact h.directory
    · exact h.unwound
  cases hsubvol : dhtLinkfileSubvol env xattr with
  | none =>
    rw [dhtLookupCbk_lost hsubvol]
    exact h.everywhere
  | some x =>
    rw [dhtLookupCbk_followed hsubvol]
    exact h.wind ⟨h.ret, h.dirs, h.result⟩ h.unknown [x] .linkfile (by decide) rfl

theorem linkfileCbk : Searches (dhtLookupLinkfileCbk env t reply) := by
  rcases hshown with ⟨errno, pos, rfl⟩ | ⟨xattr, rfl⟩
  · exact h.everywhere
  have hcbk : dhtLookupLinkfileCbk env t (.ok newLinkfileStat xattr) = dhtLookupEverywhere env t := by
    simp [dhtLookupLinkfileCbk, checkIsLinkfile_newLinkfileStat]
  rw [hcbk]
  exact h.everywhere

theorem everywhereCbk (x : ξ) : Searches (dhtLookupEverywhereCbk env t x reply) := by
  have hreturn : Searches t.frameReturn := ⟨⟨h.ret, h.dirs, h.result⟩, h.unknown, h.calls⟩
  have hnote : noteFound t x reply = t := by
    rcases hshown with ⟨errno, pos, rfl⟩ | ⟨xattr, rfl⟩
    · rfl
    · simp [noteFound, checkIsLinkfile_newLinkfileStat]
  unfold dhtLookupEverywhereCbk
  rw [hnote]
  dsimp only
  split
  · rw [if_neg (by simp [hreturn.dirs]), if_neg (by simp [hreturn.dirs]), hreturn.unknown]
    exact hreturn.unwound
  · exact hreturn

theorem dirCbk {x : ξ} (hcbk : dhtLookupDirCbk env t x reply = .ok t') : Searches t' := by
  obtain ⟨layout, hcbk⟩ := dhtLookupDirCbk_ok hcbk
  obtain ⟨heal, hnote⟩ : ∃ heal, noteDir { t with layout := layout } reply =
      { t with layout := layout, needSelfheal := heal } := by
    rcases hshown with ⟨errno, pos, rfl⟩ | ⟨xattr, rfl⟩
    · exact ⟨t.needSelfheal, rfl⟩
    · exact ⟨true, by simp [noteDir, checkIsDir_newLinkfileStat]⟩
  rw [hnote] at hcbk
  set u := ({ t with layout := layout, needSelfheal := heal } : DirLocal ξ).frameReturn
  have hu : ∀ heal', Searches { u with needSelfheal := heal' } := by
    intro heal'
    exact ⟨⟨h.ret, h.dirs, h.result⟩, h.unknown, h.calls⟩
  by_cases hlast : u.callCnt = 0
  · have hret : u.opRet ≠ 0 := by
      have hret : u.opRet = -1 := h.ret
      omega
    rw [if_pos hlast, lookupDirDone] at hcbk
    by_cases hheal : u.needSelfheal = true
    · rw [if_pos hheal] at hcbk
      obtain rfl := Except.ok.inj hcbk
      exact (hu false).everywhere
    rw [if_neg hheal, if_neg hret, show u.opRet = -1 from h.ret] at hcbk
    obtain rfl := Except.ok.inj hcbk
    exact (hu heal).unwound
  rw [if_neg hlast] at hcbk
  obtain rfl := Except.ok.inj hcbk
  exact hu heal

end

end

end Searches

/-! ### Revalidation -/

theorem Blank.revalidateCbk {t : DirLocal ξ} {reply : DirReply} (h : Blank t) (hshown : Shown reply) (x : ξ) :
    Blank (dhtRevalidateCbk t x reply) := by
  have hnote : Blank (noteRevalidated t x reply).frameReturn := by
    rcases hshown with ⟨errno, pos, rfl⟩ | ⟨xattr, rfl⟩
    · unfold noteRevalidated
      dsimp only
      split <;> exact ⟨h.ret, h.dirs, h.result⟩
    unfold noteRevalidated
    dsimp only
    split
    · exact ⟨rfl, h.dirs, h.result⟩
    rw [if_pos checkIsLinkfile_newLinkfileStat]
    exact ⟨h.ret, h.dirs, h.result⟩
  unfold dhtRevalidateCbk
  dsimp only
  split
  · split
    · exact hnote.unwind
    rw [hnote.ret]
    exact hnote.unwind
  · exact hnote

/-! ### Runs -/

/-- **A lookup that finds nothing**: one that may search, or a revalidation. -/
def Vain (s : NameLookup ξ) : Prop :=
  Cleared s.store ∧ (Searches s.frame ∨ Blank s.frame ∧ ∀ q ∈ s.frame.pending, q.2 = .revalidate)

theorem Vain.step {s s' : NameLookup ξ} {e : NameEvent ξ} (h : Vain s) (hstep : nameStep env s e = .ok s') :
    Vain s' := by
  obtain ⟨hcleared, hfr⟩ := h
  cases e with
  | unlink x ok =>
    have hx : x ∈ s.unlinking := by
      by_contra hx
      rw [nameStep, if_neg hx] at hstep
      cases hstep
    rw [nameStep, if_pos hx] at hstep
    obtain rfl := Except.ok.inj hstep
    cases ok with
    | false => exact ⟨hcleared, hfr⟩
    | true =>
      refine ⟨?_, hfr⟩
      intro y file hy
      have hy : Function.update s.store x none y = some (.data file) := hy
      by_cases hyx : y = x
      · rw [hyx, Function.update_self] at hy
        cases hy
      rw [Function.update_of_ne hyx] at hy
      exact hcleared y file hy
  | answer x call err =>
    obtain ⟨frame, hmem, hcbk, hs'⟩ := nameStep_answer hstep
    have hlooks : looks call = true := by
      rcases hfr with hsearches | ⟨-, hcalls⟩
      · exact (hsearches.calls _ hmem).1
      rw [show call = .revalidate from hcalls _ hmem]
      rfl
    obtain ⟨reply, hrep, hshown⟩ := respond_cleared env hcleared hlooks s.frame.cachedSubvol x err
    rw [hrep] at hcbk hs'
    rw [hs']
    refine ⟨hcleared, ?_⟩
    show Searches frame ∨ Blank frame ∧ ∀ q ∈ frame.pending, q.2 = .revalidate
    rcases hfr with hsearches | ⟨hblank, hcalls⟩
    · have ht : Searches { s.frame with pending := s.frame.pending.erase (x, call) } :=
        ⟨⟨hsearches.ret, hsearches.dirs, hsearches.result⟩, hsearches.unknown,
          fun q hq => hsearches.calls q (mem_of_mem_erase hq)⟩
      refine .inl ?_
      cases call with
      | lookup =>
        obtain rfl := Except.ok.inj hcbk
        exact ht.lookupCbk hshown
      | linkfile =>
        obtain rfl := Except.ok.inj hcbk
        exact ht.linkfileCbk hshown
      | everywhere =>
        obtain rfl := Except.ok.inj hcbk
        exact ht.everywhereCbk hshown x
      | directory => exact ht.dirCbk hshown hcbk
      | revalidate => exact absurd rfl (hsearches.calls _ hmem).2
      | _ => cases hlooks
    obtain rfl : call = .revalidate := hcalls _ hmem
    obtain rfl := Except.ok.inj hcbk
    have ht : Blank { s.frame with pending := s.frame.pending.erase (x, .revalidate) } :=
      ⟨hblank.ret, hblank.dirs, hblank.result⟩
    refine .inr ⟨ht.revalidateCbk hshown x, ?_⟩
    rw [dhtRevalidateCbk_pending]
    exact fun q hq => hcalls q (mem_of_mem_erase hq)

omit [DecidableEq ξ] in
theorem LooksAgain.vain {store : NameStore ξ} {frame : DirLocal ξ} (h : LooksAgain env frame) (hcleared : Cleared store) :
    Vain (.start frame store) := by
  refine ⟨hcleared, ?_⟩
  cases h with
  | fresh hashed =>
    have hinit : Searches (DirLocal.init hashed none) := ⟨⟨rfl, rfl, nofun⟩, rfl, nofun⟩
    refine .inl ?_
    cases hashed with
    | none => exact hinit.directory
    | some x =>
      exact hinit.wind ⟨rfl, rfl, nofun⟩ rfl [x] .lookup (by decide) rfl
  | revalidate hashed cached layout inodeMode =>
    refine .inr ⟨⟨rfl, rfl, nofun⟩, ?_⟩
    intro q hq
    have hq : q ∈ [] ++ (layout.list.filterMap Entry.xlator).map fun x => (x, DirCall.revalidate) := hq
    obtain ⟨x, -, rfl⟩ := mem_map.mp hq
    rfl

/-- **What the answer of `dht_unlink` says.** The file is on the cached subvolume `d`, and the others have no more than
    link files under the name. If -1 is returned, the file is still there. If 0 is returned, and an `unlink` has failed
    only where nothing was, then the name is on neither subvolume, and no lookup finds it, whatever the subvolumes
    answer. -/
theorem unlink_answer_is_right {store : NameStore ξ} {d : ξ} {file : Stat} {hashed : Option ξ}
    {as : List (UnlinkAnswer ξ)} {s : UnlinkLocal ξ} (hdata : store d = some (.data file))
    (honce : ∀ x file', store x = some (.data file') → x = d)
    (hrun : run unlinkStep (dhtUnlink hashed (some d) store) as = .ok s) :
    (∀ errno, s.result = some (-1, errno) → s.store d = some (.data file)) ∧
      (∀ errno, s.result = some (0, errno) → (∀ a ∈ as, a.err ≠ 0 → store a.subvol = none) →
        s.store d = none ∧ (∀ x, hashed = some x → s.store x = none) ∧
        ∀ (env : DirEnv ξ) (frame : DirLocal ξ) (es : List (NameEvent ξ)) (l : NameLookup ξ), LooksAgain env frame →
          run (nameStep env) (.start frame s.store) es = .ok l → l.frame.result ≠ some 0) := by
  cases hashed with
  | none =>
    -- nothing was sent
    obtain rfl : as = [] := by
      cases as with
      | nil => rfl
      | cons a as =>
        obtain ⟨_, hstep, -⟩ := run_cons_ok.mp hrun
        exact nomatch (unlinkStep_ok hstep).1
    obtain rfl := Except.ok.inj hrun
    exact ⟨fun _ _ => hdata, nofun⟩
  | some x =>
    have hunlinking : Unlinking store s :=
      run_invariant_all (fun _ _ _ hi hstep => hi.step hstep) (unlinking_start store x d) hrun
    constructor
    · intro errno hresult
      have hret : -1 = s.opRet := (hunlinking.result _ hresult).1
      rcases hunlinking.ret with hzero | ⟨-, hsame⟩
      · omega
      rw [hsame]
      exact hdata
    intro errno hresult hfails
    have hstart : Gone [d, x] (dhtUnlink (some x) (some d) store) := by
      intro y hy
      refine .inl ?_
      by_cases hx : x = d
      · have hpending : (dhtUnlink (some x) (some d) store).pending = [d] := by simp [dhtUnlink, hx]
        rw [hpending]
        simpa [hx] using hy
      have hpending : (dhtUnlink (some x) (some d) store).pending = [d, x] := by simp [dhtUnlink, hx]
      rw [hpending]
      exact hy
    have hgone : Unlinking store s ∧ Gone [d, x] s :=
      run_invariant (C := fun _ a => a.err ≠ 0 → store a.subvol = none)
        (I := fun s => Unlinking store s ∧ Gone [d, x] s)
        (fun _ _ _ hi hfails hstep => ⟨hi.1.step hstep, hi.2.step hi.1 hfails hstep⟩)
        ⟨unlinking_start store x d, hstart⟩ (along_of_forall fun a ha _ => hfails a ha) hrun
    have hempty : ∀ y ∈ [d, x], s.store y = none := by
      intro y hy
      have hnil := (hunlinking.result _ hresult).2
      rcases hgone.2 y hy with hmem | hnone
      · rw [hnil] at hmem
        exact nomatch hmem
      · exact hnone
    have hd : s.store d = none := hempty d (by simp)
    refine ⟨hd, ?_, ?_⟩
    · intro y hy
      obtain rfl := Option.some.inj hy
      exact hempty _ (by simp)
    have hcleared : Cleared s.store := by
      intro y file' hy
      rcases hunlinking.less y with hsame | hnone
      · rw [hsame] at hy
        obtain rfl := honce y file' hy
        rw [← hsame, hd] at hy
        cases hy
      rw [hnone] at hy
      cases hy
    intro env frame es l hlooks hlookup
    have hvain : Vain l :=
      run_invariant_all (fun _ _ _ hi hstep => hi.step hstep) (hlooks.vain hcleared) hlookup
    rcases hvain.2 with hsearches | ⟨hblank, -⟩
    · exact hsearches.result
    · exact hblank.result

/-- Both the file and the link file are removed. -/
theorem unlink_of_linked_file :
    ∃ s, run unlinkStep (dhtUnlink (some 0) (some 1) (linkedStore (trioEnv.volname 1))) [⟨0, 0⟩, ⟨1, 0⟩] = .ok s ∧
      s.result = some (0, euclean) ∧ s.store 1 = none ∧ s.store 0 = none := by
  have hrun : (run unlinkStep (dhtUnlink (some 0) (some 1) (linkedStore (trioEnv.volname 1)))
      [⟨0, 0⟩, ⟨1, 0⟩]).map (fun s => s.result) = .ok (some (0, euclean)) := by
    decide +kernel
  obtain ⟨s, hrun, hresult⟩ := map_eq_ok hrun
  have hsucceed : ∀ a ∈ ([⟨0, 0⟩, ⟨1, 0⟩] : List (UnlinkAnswer (Fin 3))), a.err ≠ 0 →
      linkedStore (trioEnv.volname 1) a.subvol = none := by decide
  have hright := unlink_answer_is_right (linkedStore_placed _).data (linkedStore_placed _).once hrun
  obtain ⟨hd, hx, -⟩ := hright.2 _ hresult.symm hsucceed
  exact ⟨s, hrun, hresult.symm, hd, hx 0 rfl⟩

/-! ## A file that comes back -/

/-- The hashed subvolume removes the link file, the one with the file cannot be reached. -/
def fileUnreachable : List (UnlinkAnswer (Fin 3)) := [⟨0, 0⟩, ⟨1, 107⟩]

/-- The next lookup: the hashed subvolume has nothing, and the search meets the file. -/
def foundAgain : List (NameEvent (Fin 3)) :=
  [.answer 0 .lookup 0, .answer 0 .everywhere 0, .answer 1 .everywhere 0, .answer 2 .everywhere 0,
    .answer 0 .linkfileMknod 0, .answer 0 .linkfileSetxattr 0]

/-- **`dht_unlink` returns 0, the file is where it was, and the next lookup finds it.** -/
theorem unlinked_file_comes_back :
    (run unlinkStep (dhtUnlink (some 0) (some 1) (linkedStore (trioEnv.volname 1))) fileUnreachable).map
      (fun s => (s.result, s.store 1)) = .ok (some (0, 107), some (.data plainStat)) ∧
    ((run unlinkStep (dhtUnlink (some 0) (some 1) (linkedStore (trioEnv.volname 1))) fileUnreachable).bind fun s =>
      (run (nameStep trioEnv) (.start (dhtLookup trioEnv (some 0) none) s.store) foundAgain).map
        fun l => l.frame.result) = .ok (some 0) := by
  decide +kernel

end GlusterFS.Dht.NameLookup
