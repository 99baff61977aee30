import GlusterFS.Dht.Correctness.DirectoryHeal
import GlusterFS.Dht.Lookup

/-!
# `Dht.Correctness.FileLookup` — does a lookup lose a file?

A file is on one subvolume, and others have link files under its name. The lookup of the name goes from the
hashed subvolume to the one a link file names, and from there to all subvolumes, where every link file counts as
stale. An error of a subvolume is not told from its having nothing: `dht_lookup_linkfile_cbk` begins the search
after any error, the search deletes the link file that was followed, and answers `ENOENT` if the file's own
subvolume fails again.

With the subvolume of the file and the hashed one answering this does not happen, if the only link file that
names the subvolume of the file is on the hashed one. The proof follows the phases of the lookup; in each of them
it says whether a link file to the file can still be there, and which `unlink`s are on their way.
-/

namespace GlusterFS.Dht.NameLookup

open Transition List
open Function (update update_of_ne update_self)

variable {ξ : Type}

variable {x : ξ} {call : DirCall} {err : Nat} {r : DirReply × NameStore ξ} {t frame : DirLocal ξ} {reply : DirReply}
  {xattr : Option LookupXattr}

/-! ## Where the file is -/

/-- The file is on the subvolume `d`, and all that others have under the name are link files. -/
structure Placed (env : DirEnv ξ) (d : ξ) (file : Stat) (store : NameStore ξ) : Prop where
  holder : d ∈ env.conf.subvolumes
  data : store d = some (.data file)
  notDir : checkIsDir file = false
  notLinkfile : checkIsLinkfile file = false
  once : ∀ x file', store x = some (.data file') → x = d

/-- The link file names the subvolume of the file. -/
def PointsAt (env : DirEnv ξ) (d : ξ) (o : Option (Obj Name Stat)) : Prop :=
  o = some (.linkfile (some (env.volname d)))
deriving Decidable

/-- The subvolume of the file answers, and the hashed one, when it is asked first, does not fail with `ENOENT` or
    `ENOTCONN`. -/
def Heard (d : ξ) : NameEvent ξ → Prop
  | .answer x call err =>
    err ≠ 0 → x ≠ d ∧ (call = .lookup → (err : Int) ≠ enoent ∧ (err : Int) ≠ enotconn)
  | .unlink _ _ => True

instance decidableHeard [DecidableEq ξ] (d : ξ) : (e : NameEvent ξ) → Decidable (Heard d e)
  | .answer _ _ _ => inferInstanceAs (Decidable (_ → _))
  | .unlink _ _ => isTrue trivial

/-! ## Link files -/

theorem checkIsLinkfile_newLinkfileStat : checkIsLinkfile newLinkfileStat = true := by decide

theorem checkIsDir_newLinkfileStat : checkIsDir newLinkfileStat = false := by decide

/-- No link file to the file is left. -/
def Unlinked (env : DirEnv ξ) (d : ξ) (s : NameLookup ξ) : Prop := ∀ x, ¬ PointsAt env d (s.store x)

/-- **What holds in all phases**: the file is in its place, the `unlink`s that are on their way are for stale link
    files, and none of those that were executed was for another one. -/
structure Kept (env : DirEnv ξ) (d : ξ) (file : Stat) (s : NameLookup ξ) : Prop where
  placed : Placed env d file s.store
  stale : ∀ x ∈ s.unlinking, ∃ linkto, s.store x = some (.linkfile linkto) ∧ linkto ≠ some (env.volname d)
  once : s.unlinking.Nodup
  removed : ∀ q ∈ s.removed, ¬ PointsAt env d (some q.2)
  errno : s.errno ≠ some enoent

/-- **Where the lookup can be.** -/
inductive Phase (env : DirEnv ξ) (d : ξ) (s : NameLookup ξ) : Prop where
  | asked (x : ξ) (hpending : s.frame.pending = [(x, .lookup)]) (hnone : s.unlinking = [])
      (hdirs : s.frame.dirCount = 0) (hlinks : ∀ y, PointsAt env d (s.store y) → y = x)
      (hsearch : env.searchUnhashed = true ∨ s.store x ≠ none)
  | followed (x : ξ) (hpending : s.frame.pending = [(x, .linkfile)]) (hnone : s.unlinking = [])
      (hdirs : s.frame.dirCount = 0) (htarget : x = d ∨ Unlinked env d s)
  | directory (hwaiting : Waiting s.frame .directory) (hnone : s.unlinking = []) (hdirs : s.frame.dirCount = 0)
      (hlinks : Unlinked env d s) (hfile : (d, .directory) ∈ s.frame.pending ∨ s.frame.needSelfheal = true)
  | searching (hwaiting : Waiting s.frame .everywhere) (hdistinct : s.frame.pending.Nodup)
      (hfree : ∀ q ∈ s.frame.pending, q.1 ∉ s.unlinking) (hdirs : s.frame.dirCount = 0) (hlinks : Unlinked env d s)
      (hfile : (d, .everywhere) ∈ s.frame.pending ∨ s.frame.cachedSubvol ≠ none)
  | linking (x : ξ) (hpending : s.frame.pending = [(x, .linkfileMknod)])
  | setting (x : ξ) (hpending : s.frame.pending = [(x, .linkfileSetxattr)]) (hfree : x ∉ s.unlinking)
  | revalidating (hcalls : ∀ q ∈ s.frame.pending, q = (d, .revalidate)) (hnone : s.unlinking = [])
      (herrno : s.opErrno ≠ enoent)
  | closed (hpending : s.frame.pending = [])

section

variable [DecidableEq ξ] {env : DirEnv ξ} {d : ξ} {file : Stat} {s s' : NameLookup ξ}

/-! ## Answers -/

/-- What the subvolume that is asked answers from, and what it was asked for. -/
theorem nameStep_answer (h : nameStep env s (.answer x call err) = .ok s') : ∃ frame, (x, call) ∈ s.frame.pending ∧
      dirCallback env { s.frame with pending := s.frame.pending.erase (x, call) }
        ⟨x, call, (respond env s.frame.cachedSubvol s.store x call err).1, false⟩ = .ok frame ∧
      s' = s.answered env x call (respond env s.frame.cachedSubvol s.store x call err) frame := by
  unfold nameStep at h
  obtain ⟨frame, hfr, rfl⟩ := map_eq_ok h
  unfold dirStep at hfr
  split at hfr
  next hmem => exact ⟨frame, hmem, hfr, rfl⟩
  · cases hfr

/-- A lookup changes nothing on the subvolume. -/
def looks : DirCall → Bool
  | .lookup | .linkfile | .everywhere | .directory | .revalidate => true
  | _ => false

theorem respond_failed (h : 0 < err) (cached : Option ξ) (store : NameStore ξ) (x : ξ) (call : DirCall) :
    respond env cached store x call err = (.failed err h, store) := dif_pos h

theorem respond_executed (h : looks call = true) (cached : Option ξ) (store : NameStore ξ) (x : ξ) :
    respond env cached store x call 0 = (lookupReply (store x), store) := by
  rw [respond, dif_neg (lt_irrefl 0)]
  cases call <;> first | rfl | cases h

abbrev cleared (s : NameLookup ξ) : DirLocal ξ := { s.frame with pending := [] }

section

omit [DecidableEq ξ]

theorem Kept.errno_answered (hkept : Kept env d file s) (herrno : s.frame.result = none → frame.result = some (-1) →
      unwoundErrno frame (s.answered env x call r frame).opErrno call r.1 ≠ enoent) :
    (s.answered env x call r frame).errno ≠ some enoent := by
  show (if s.frame.result = none ∧ frame.result = some (-1) then
    some (unwoundErrno frame (s.answered env x call r frame).opErrno call r.1) else s.errno) ≠ some enoent
  split
  next hres =>
    intro h
    exact herrno hres.1 hres.2 (Option.some.inj h)
  · exact hkept.errno

theorem Kept.errno_going_on (hkept : Kept env d file s) (hres : frame.result = s.frame.result ∨ frame.result = some 0) :
    (s.answered env x call r frame).errno ≠ some enoent := by
  apply hkept.errno_answered
  intro hnone hfail
  rcases hres with hres | hres
  · rw [hfail, hnone] at hres
    cases hres
  rw [hfail] at hres
  cases hres

theorem answered_unlinking
    (hstale : isStaleLinkfile call r.1 = false) : (s.answered env x call r frame).unlinking = s.unlinking := by
  simp [NameLookup.answered, hstale]

theorem dhtLookupCbk_followed (h : dhtLinkfileSubvol env xattr = some x) :
    dhtLookupCbk env t (.ok newLinkfileStat xattr) = t.wind [x] .linkfile := by
  simp [dhtLookupCbk, checkIsLinkfile_newLinkfileStat, checkIsDir_newLinkfileStat, h]

theorem dhtLookupCbk_lost (h : dhtLinkfileSubvol env xattr = none) :
    dhtLookupCbk env t (.ok newLinkfileStat xattr) = dhtLookupEverywhere env t := by
  simp [dhtLookupCbk, checkIsLinkfile_newLinkfileStat, checkIsDir_newLinkfileStat, h]

end

omit [DecidableEq ξ] in
theorem dhtLookupDirCbk_ok (h : dhtLookupDirCbk env t x reply = .ok frame) :
    ∃ layout, (if (noteDir { t with layout := layout } reply).frameReturn.callCnt = 0 then
      lookupDirDone env (noteDir { t with layout := layout } reply).frameReturn
      else .ok (noteDir { t with layout := layout } reply).frameReturn) = .ok frame := by
  unfold dhtLookupDirCbk DirLocal.merge at h
  cases hmerge : dhtLayoutMerge t.layout x reply.merged with
  | none =>
    rw [hmerge] at h
    cases h
  | some layout =>
    rw [hmerge] at h
    exact ⟨layout, h⟩

section

variable (hkept : Kept env d file s)
include hkept

/-- A link file is made or written where no `unlink` is on its way to. -/
theorem Kept.linked {linkto : Option Name}
    (hx : x ≠ d) (hfree : x ∉ s.unlinking) (hstale : isStaleLinkfile call reply = false)
    (hres : frame.result = s.frame.result ∨ frame.result = some 0) : Kept env d file
      (s.answered env x call (reply, update s.store x (some (.linkfile linkto))) frame) := by
  have hplaced := hkept.placed
  refine ⟨⟨hplaced.holder, ?_, hplaced.notDir, hplaced.notLinkfile, ?_⟩, ?_, ?_, hkept.removed,
    hkept.errno_going_on hres⟩
  · show update s.store x (some (.linkfile linkto)) d = some (.data file)
    rw [update_of_ne hx.symm]
    exact hplaced.data
  · intro y file' hy
    have hy : update s.store x (some (.linkfile linkto)) y = some (.data file') := hy
    by_cases hyx : y = x
    · rw [hyx, update_self] at hy
      cases hy
    rw [update_of_ne hyx] at hy
    exact hplaced.once y file' hy
  · rw [answered_unlinking hstale]
    intro y hy
    have hyx : y ≠ x := by
      rintro rfl
      exact hfree hy
    show ∃ linkto', update s.store x (some (.linkfile linkto)) y = some (.linkfile linkto') ∧
      linkto' ≠ some (env.volname d)
    rw [update_of_ne hyx]
    exact hkept.stale y hy
  rw [answered_unlinking hstale]
  exact hkept.once

end

/-! ## Revalidation -/

theorem dhtRevalidateCbk_pending (t : DirLocal ξ) (x : ξ) (reply : DirReply) :
    (dhtRevalidateCbk t x reply).pending = t.pending := by
  have hnote : (noteRevalidated t x reply).pending = t.pending := by
    unfold noteRevalidated
    cases reply with
    | failed errno pos =>
      dsimp only
      split <;> rfl
    | ok stat xattr =>
      dsimp only
      split
      · rfl
      split
      · rfl
      split <;> rfl
  unfold dhtRevalidateCbk
  dsimp only
  split
  · split <;> exact hnote
  · exact hnote

end

def trioEnv : DirEnv (Fin 3) where
  conf := ⟨[0, 1, 2], fun _ => true, by decide, by decide⟩
  searchUnhashed := true
  volname x := [UInt8.ofNat x]
  path := [102]
  dmHashfn _ := 0

/-- A file with something in it, of mode 0644. -/
def plainStat : Stat := ⟨7, 0o100644, 4⟩

/-- The file is on subvolume 1, and subvolume 0 has a link file to another one. -/
def linkedStore (linkto : Name) : NameStore (Fin 3)
  | 0 => some (.linkfile (some linkto))
  | 1 => some (.data plainStat)
  | 2 => none

theorem linkedStore_placed (linkto : Name) : Placed trioEnv 1 plainStat (linkedStore linkto) := by
  refine ⟨by decide, rfl, by decide, by decide, ?_⟩
  intro x file' hx
  match x with
  | 0 => cases hx
  | 1 => rfl
  | 2 => cases hx

end GlusterFS.Dht.NameLookup
