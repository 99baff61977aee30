import GlusterFS.Locks.FcntlPass

/-!
# `Locks.Owned` — the locks of one owner while others come and go

What an owner has on `ext_list` changes only through calls of its own. This module follows the locks of the owner
of `w` through the calls of others, through an insert of a lock with the range and type of `w`, and through an
unlock of that range, provided that the owner had nothing on the range before.
-/

namespace GlusterFS.Locks

open Transition
open List

variable {s s' : FcntlState} {n : Nat}

/-- A lock with the holder, the type and the range of `w`. -/
def PosixLock.Copies (l w : PosixLock) : Prop :=
  sameOwner l w = true ∧ l.flType = w.flType ∧ l.flStart = w.flStart ∧ l.flEnd = w.flEnd

/-- Of the owner of `w` there are the locks of `xs₀` on `xs`, and beyond these only locks with `P`. -/
structure OwnedAs (w : PosixLock) (P : PosixLock → Prop) (xs₀ xs : List PosixLock) : Prop where
  kept : ∀ l ∈ xs₀, sameOwner l w = true → l ∈ xs
  only : ∀ l ∈ xs, sameOwner l w = true → l ∈ xs₀ ∨ P l

/-- The owner of `w` waits for nothing, and none of its locks is in the range of `w`. -/
structure ClearOf (w : PosixLock) (xs₀ : List PosixLock) : Prop where
  granted : ∀ l ∈ xs₀, sameOwner l w = true → l.blocked = false
  apart : ∀ l ∈ xs₀, sameOwner l w = true → locksOverlap l w = false

theorem OwnedAs.refl (w : PosixLock) (P : PosixLock → Prop) (xs : List PosixLock) : OwnedAs w P xs xs :=
  ⟨fun _ hl _ => hl, fun _ hl _ => .inl hl⟩

variable {w : PosixLock}

theorem OwnedAs.mono {P Q : PosixLock → Prop} {xs₀ xs : List PosixLock} (h : OwnedAs w P xs₀ xs)
    (hPQ : ∀ l, P l → Q l) : OwnedAs w Q xs₀ xs := ⟨h.kept, fun l hl hown => (h.only l hl hown).imp_right (hPQ l)⟩

section

variable {w : PosixLock} {P : PosixLock → Prop} {xs₀ xs xs' : List PosixLock} {lock : PosixLock}

theorem locksOverlap_of_copies {l c : PosixLock} (h : l.Copies w) : locksOverlap c l = locksOverlap c w := by
  obtain ⟨-, -, hstart, hend⟩ := h
  unfold locksOverlap
  rw [hstart, hend]

/-! ## Inserts -/

theorem insertLock_mem_other (hwf : WF xs) (hlock : lock.Valid) (hins : insertLock xs lock = .ok xs')
    {l : PosixLock} (hother : sameOwner l lock = false) : l ∈ xs' ↔ l ∈ xs := by
  have hmem := congrArg (fun ys => l ∈ ys) (insertAndMerge_others hwf hlock hins)
  simpa [hother] using hmem

theorem OwnedAs.insert_other (h : OwnedAs w P xs₀ xs) (hwf : WF xs) (hlock : lock.Valid)
    (hother : sameOwner lock w = false) (hins : insertLock xs lock = .ok xs') : OwnedAs w P xs₀ xs' := by
  have hsame : ∀ l, sameOwner l w = true → (l ∈ xs' ↔ l ∈ xs) := by
    intro l hown
    refine insertLock_mem_other hwf hlock hins ?_
    rw [sameOwner_congr hown lock, sameOwner_comm]
    exact hother
  exact ⟨fun l hl hown => (hsame l hown).mpr (h.kept l hl hown), fun l hl hown => h.only l ((hsame l hown).mp hl) hown⟩

/-- A copy of `w` can only be merged with copies of `w`. -/
theorem OwnedAs.insert_copy (hclear : ClearOf w xs₀) (h : OwnedAs w (·.Copies w) xs₀ xs) (hwf : WF xs)
    (hlock : lock.Valid) (hcopy : lock.Copies w) (hins : insertLock xs lock = .ok xs') :
    OwnedAs w (·.Copies w) xs₀ xs' := by
  have key := insertAndMerge_rule_wf (I := fun e ps => OwnedAs w (·.Copies w) xs₀ e ∧ ∀ p ∈ ps, p.Copies w)
    ?append ?discard ?merge ?split hwf hlock ⟨h, fun p hp => mem_singleton.mp hp ▸ hcopy⟩ hins
  · exact key.2.1
  case append =>
    rintro e l ps ⟨he, hps⟩
    refine ⟨⟨fun x hx hown => mem_append_left _ (he.kept x hx hown), ?_⟩, fun p hp => hps p (mem_cons_of_mem l hp)⟩
    intro x hx hown
    rcases mem_append.mp hx with hold | hnew
    · exact he.only x hold hown
    rw [mem_singleton.mp hnew]
    exact .inr (hps l mem_cons_self)
  case discard =>
    rintro e l ps ⟨he, hps⟩
    exact ⟨he, fun p hp => hps p (mem_cons_of_mem l hp)⟩
  -- what is merged overlaps `w`, so it is not one of the old locks
  case merge =>
    rintro pre conf post l ps - - hov hown - ⟨he, hps⟩
    have hl := hps l mem_cons_self
    have hcown : sameOwner conf w = true := sameOwner_trans hown hl.1
    rw [locksOverlap_of_copies hl] at hov
    have hnotold : conf ∉ xs₀ := fun hold => Bool.false_ne_true ((hclear.apart conf hold hcown).symm.trans hov)
    have hconf := (he.only conf (by simp) hcown).resolve_left hnotold
    refine ⟨⟨?_, fun x hx => he.only x (by simp at hx ⊢; tauto)⟩, ?_⟩
    · intro x hx hxown
      have hmem := he.kept x hx hxown
      have hne : x ≠ conf := fun heq => hnotold (heq ▸ hx)
      simp only [mem_append, mem_cons] at hmem ⊢
      tauto
    intro p hp
    rcases mem_cons.mp hp with rfl | hp
    · refine ⟨sameOwner_trans (sameOwner_hull _ _ _) hl.1, hl.2.1, ?_, ?_⟩
      · rw [hull_flStart, hl.2.2.1, hconf.2.2.1, min_self]
      · rw [hull_flEnd, hl.2.2.2, hconf.2.2.2, max_self]
    · exact hps p (mem_cons_of_mem l hp)
  case split =>
    rintro pre conf post l ps - - hov hown htype ⟨he, hps⟩
    have hl := hps l mem_cons_self
    have hcown : sameOwner conf w = true := sameOwner_trans hown hl.1
    rw [locksOverlap_of_copies hl] at hov
    rcases he.only conf (by simp) hcown with hold | hconf
    · exact absurd ((hclear.apart conf hold hcown).symm.trans hov) Bool.false_ne_true
    · exact absurd (hconf.2.1.trans hl.2.1.symm) htype

/-- An unlock with the range and holder of `w`. -/
structure PosixLock.Unlocks (u w : PosixLock) : Prop where
  owner : sameOwner u w = true
  type : u.flType = .unlck
  start : u.flStart = w.flStart
  stop : u.flEnd = w.flEnd

theorem stopsScan_unlck {u c : PosixLock} (h : u.flType = .unlck) :
    stopsScan u c = (locksOverlap c u && sameOwner c u) := by
  unfold stopsScan
  rw [h]
  simp

/-- **The unlock takes all copies off**, and nothing else. -/
theorem unlock_copies (hclear : ClearOf w xs₀) : ∀ {fuel : Nat} {xs xs' : List PosixLock} {u : PosixLock},
    WF xs → w.Valid → u.Unlocks w → OwnedAs w (·.Copies w) xs₀ xs →
    insertAndMerge fuel xs u true = .ok xs' → OwnedAs w (fun _ => False) xs₀ xs' := by
  intro fuel
  induction fuel with
  | zero =>
    intro xs xs' u _ _ _ _ hins
    cases hins
  | succ fuel ih =>
    intro xs xs' u hwf hw hu h hins
    have hoverlap : ∀ c, locksOverlap c u = locksOverlap c w := by
      intro c
      unfold locksOverlap
      rw [hu.start, hu.stop]
    rw [insertAndMerge] at hins
    cases hfind : xs.find? (stopsScan u) with
    | none =>
      -- no lock of the owner is left in the range, so no copy
      rw [hfind] at hins
      simp only [hu.type, ne_eq, not_true_eq_false, if_false] at hins
      cases hins
      refine ⟨h.kept, ?_⟩
      intro l hl hown
      rcases h.only l hl hown with hold | hcopy
      · exact .inl hold
      have hstop := find?_eq_none.mp hfind l hl
      rw [stopsScan_unlck hu.type, hoverlap, sameOwner_comm, sameOwner_congr hu.owner, sameOwner_comm, hown,
        Bool.and_true] at hstop
      refine absurd ?_ hstop
      rw [locksOverlap_iff, hcopy.2.2.1, hcopy.2.2.2]
      exact ⟨hw, hw⟩
    | some conf =>
      rw [hfind] at hins
      obtain ⟨hstop, pre, post, hxs, herase⟩ := find?_split hfind
      rw [stopsScan_unlck hu.type, Bool.and_eq_true, hoverlap] at hstop
      have hcown : sameOwner conf w = true := sameOwner_trans hstop.2 hu.owner
      have hmem : conf ∈ xs := by
        rw [hxs]
        exact mem_append_right _ mem_cons_self
      have hnotold : conf ∉ xs₀ := fun hold => Bool.false_ne_true ((hclear.apart conf hold hcown).symm.trans hstop.1)
      have hconf := (h.only conf hmem hcown).resolve_left hnotold
      have htype : conf.flType ≠ u.flType := by
        rw [hu.type]
        exact (hwf conf hmem).2
      -- the ranges coincide, and the only piece is another unlock of the range
      have hpieces : subtractLocks (takeHolder (addLocks u conf) conf) u =
          [{ takeHolder (addLocks u conf) conf with flType := u.flType }] := by
        have hstart : (takeHolder (addLocks u conf) conf).flStart = u.flStart := by
          show min u.flStart conf.flStart = u.flStart
          rw [hu.start, hconf.2.2.1, min_self]
        have hend : (takeHolder (addLocks u conf) conf).flEnd = u.flEnd := by
          show max u.flEnd conf.flEnd = u.flEnd
          rw [hu.stop, hconf.2.2.2, max_self]
        unfold subtractLocks
        rw [if_pos ⟨hstart, hend⟩]
      simp only [hstop.2, if_true, herase, if_neg htype, hpieces, foldlM_cons, foldlM_nil,
        Bool.true_eq_false, if_false] at hins
      have hpiece : ({ takeHolder (addLocks u conf) conf with flType := u.flType } : PosixLock).Unlocks w := by
        refine ⟨hcown, hu.type, ?_, ?_⟩
        · show min u.flStart conf.flStart = w.flStart
          rw [hu.start, hconf.2.2.1, min_self]
        show max u.flEnd conf.flEnd = w.flEnd
        rw [hu.stop, hconf.2.2.2, max_self]
      have hrest : OwnedAs w (·.Copies w) xs₀ (pre ++ post) := by
        refine ⟨?_, fun l hl => h.only l (by rw [hxs]; simp at hl ⊢; tauto)⟩
        intro l hl hown
        have hin := h.kept l hl hown
        have hne : l ≠ conf := fun heq => hnotold (heq ▸ hl)
        rw [hxs] at hin
        simp only [mem_append, mem_cons] at hin ⊢
        tauto
      have hwfrest : WF (pre ++ post) := hwf.subset (by rw [hxs]; simp)
      cases hrec : insertAndMerge fuel (pre ++ post) { takeHolder (addLocks u conf) conf with flType := u.flType } true with
      | error e =>
        rw [hrec] at hins
        cases hins
      | ok ys =>
        rw [hrec] at hins
        cases hins
        have hys := ih hwfrest hw hpiece hrest hrec
        have hval : ({ takeHolder (addLocks u conf) conf with flType := u.flType } : PosixLock).Valid := by
          show min u.flStart conf.flStart ≤ max u.flEnd conf.flEnd
          rw [hu.start, hconf.2.2.1, min_self, hu.stop, hconf.2.2.2, max_self]
          exact hw
        have hwfys : WF ys := insertAndMerge_wf hwfrest hval hrec
        rw [hwfys.deleteUnlckLocks_eq]
        exact hys

/-! ## Frames -/

/-- A lock on the list after an insert was there before, has no frame, or has the frame of the inserted lock. -/
theorem insertLock_frames (hwf : WF xs) (hlock : lock.Valid) (hins : insertLock xs lock = .ok xs') :
    ∀ l ∈ xs', l ∈ xs ∨ l.frame = none ∨ l.frame = lock.frame := by
  have key := insertAndMerge_rule_wf
    (I := fun e ps => (∀ l ∈ e, l ∈ xs ∨ l.frame = none ∨ l.frame = lock.frame) ∧
      ∀ p ∈ ps, p.frame = none ∨ p.frame = lock.frame)
    ?append ?discard ?merge ?split hwf hlock
    ⟨fun l hl => .inl hl, fun p hp => .inr (by rw [mem_singleton.mp hp])⟩ hins
  · exact key.2.1
  case append =>
    rintro e l ps ⟨he, hps⟩
    refine ⟨?_, fun p hp => hps p (mem_cons_of_mem l hp)⟩
    exact forall_mem_append.mpr ⟨he, forall_mem_singleton.mpr (.inr (hps l mem_cons_self))⟩
  case discard =>
    rintro e l ps ⟨he, hps⟩
    exact ⟨he, fun p hp => hps p (mem_cons_of_mem l hp)⟩
  case merge =>
    rintro pre conf post l ps - - - - - ⟨he, hps⟩
    refine ⟨fun x hx => he x (by simp at hx ⊢; tauto), ?_⟩
    intro p hp
    rcases mem_cons.mp hp with rfl | hp
    · exact .inl rfl
    · exact hps p (mem_cons_of_mem l hp)
  case split =>
    rintro pre conf post l ps hl - hov - - ⟨he, hps⟩
    refine ⟨fun x hx => he x (by simp at hx ⊢; tauto), ?_⟩
    intro p hp
    rcases mem_append.mp hp with hp | hp
    · cases piece_of_mem_subtractLocks hov hl hp with
      | self => exact hps l mem_cons_self
      | whole _ _ _ _ _ hfr | part _ _ _ _ _ _ hfr => exact .inl hfr
    · exact hps p (mem_cons_of_mem l hp)

end

variable {g : List LkReply}

theorem grantBlockedLocks_frames {xs xs' : List PosixLock} (hwf : WF xs) (h : grantBlockedLocks xs = .ok (xs', g)) :
    ∀ l ∈ xs', l.frame = none ∨ ∃ l0 ∈ xs, l0.frame = l.frame ∧ sameOwner l0 l = true := by
  have key := grantLoop_rule
    (J := fun e tmp _ => (WF e ∧ WF tmp) ∧ tmp ⊆ xs ∧
      ∀ l ∈ e, l.frame = none ∨ ∃ l0 ∈ xs, l0.frame = l.frame ∧ sameOwner l0 l = true)
    ?grant ?requeue ⟨⟨hwf.subset filter_sublist.subset, hwf.subset filter_sublist.subset⟩,
      filter_sublist.subset, ?start⟩ h
  · exact key.2.2
  case start =>
    intro l hl
    exact .inr ⟨l, (mem_filter.mp hl).1, rfl, by simp [sameOwner]⟩
  case grant =>
    rintro e l tmp g e' ⟨⟨he, htmp⟩, hsub, hframes⟩ - hi
    have hl : l.admitted.Valid := (htmp l mem_cons_self).1
    refine ⟨⟨insertLock_wf he hl hi, htmp.subset (subset_cons_self _ _)⟩, fun x hx => hsub (mem_cons_of_mem l hx), ?_⟩
    intro x hx
    rcases insertLock_frames he hl hi x hx with hold | hnone | hnone
    · exact hframes x hold
    all_goals exact .inl hnone
  case requeue =>
    rintro e l tmp g ⟨⟨he, htmp⟩, hsub, hframes⟩ -
    have hl := htmp l mem_cons_self
    refine ⟨⟨he.append (l := l.requeued) hl.1 hl.2, htmp.subset (subset_cons_self _ _)⟩,
      fun x hx => hsub (mem_cons_of_mem l hx), ?_⟩
    intro x hx
    rcases mem_append.mp hx with hx | hx
    · exact hframes x hx
    rw [mem_singleton.mp hx]
    exact .inr ⟨l, hsub mem_cons_self, rfl, by simp [sameOwner, PosixLock.requeued]⟩

theorem grantBlockedLocks_replies {xs xs' : List PosixLock}
    (h : grantBlockedLocks xs = .ok (xs', g)) : ∀ r ∈ g, r.opRet = 0 ∧ ∃ l ∈ xs, l.frame = r.frame := by
  have key := grantLoop_rule
    (J := fun _ tmp g => tmp ⊆ xs ∧ ∀ r ∈ g, r.opRet = 0 ∧ ∃ l ∈ xs, l.frame = r.frame) ?grant ?requeue
    ⟨filter_sublist.subset, fun r hr => absurd hr not_mem_nil⟩ h
  · exact key.2
  case grant =>
    rintro e l tmp g e' ⟨hsub, hg⟩ - -
    refine ⟨fun x hx => hsub (mem_cons_of_mem l hx), ?_⟩
    exact forall_mem_cons.mpr ⟨⟨rfl, l, hsub mem_cons_self, rfl⟩, hg⟩
  case requeue =>
    rintro e l tmp g ⟨hsub, hg⟩ -
    exact ⟨fun x hx => hsub (mem_cons_of_mem l hx), hg⟩

/-- A lock that is refused is refused with `EAGAIN`. -/
def LkReply.Plain (r : LkReply) : Prop := r.opRet = 0 ∨ r.opRet = -1 ∧ r.opErrno = .eagain

variable {a : FcntlSection}

theorem section_plain (h : ∀ r ∈ s.replies, r.Plain) (hstep : a.step s = .ok s') : ∀ r ∈ s'.replies, r.Plain := by
  have happend : ∀ {rs : List LkReply}, (∀ r ∈ rs, r.Plain) → ∀ r ∈ s.replies ++ rs, r.Plain := by
    intro rs hrs r hr
    exact (mem_append.mp hr).elim (h r) (hrs r)
  have hone : ∀ {r1 : LkReply}, r1.Plain → ∀ r ∈ s.replies ++ [r1], r.Plain :=
    fun h1 => happend fun r hr => mem_singleton.mp hr ▸ h1
  have hdrop : ∀ fd, ∀ r ∈ s.replies ++ dropFdReplies s.extList fd, r.Plain := by
    intro fd
    refine happend fun r hr => ?_
    obtain ⟨l, -, rfl⟩ := mem_map.mp hr
    exact .inr ⟨rfl, rfl⟩
  have hsetlk : ∀ {req : LkRequest} (cb : Bool), lkEnter s req (setlkCmd cb) = .ok s' → ∀ r ∈ s'.replies, r.Plain := by
    intro req cb hlk
    rcases lkEnter_setlk cb hlk with ⟨-, xs, -, rfl⟩ | ⟨-, ⟨-, rfl⟩ | ⟨-, rfl⟩⟩
    · exact hone (.inl rfl)
    · exact h
    · exact hone (.inr ⟨rfl, rfl⟩)
  cases a with
  | grant =>
    obtain ⟨xs, granted, hg, rfl⟩ := grant_ok hstep
    exact happend fun r hr => .inl (grantBlockedLocks_replies hg r hr).1
  | enter c =>
    cases c with
    | lk req cmd =>
      cases cmd with
      | getlk | other =>
        cases hstep
        exact hone (.inl rfl)
      | setlk => exact hsetlk false hstep
      | setlkw => exact hsetlk true hstep
    | flush transport owner fd =>
      simp only [FcntlSection.step, FcntlCall.enter] at hstep
      split at hstep
      · cases hstep
        exact hdrop fd
      cases hstep
      exact h
    | release fd =>
      cases hstep
      exact hdrop fd

theorem fcntlRun_plain {as : List FcntlSection} (h : fcntlRun as = .ok s) : ∀ r ∈ s.replies, r.Plain :=
  run_invariant_all (I := fun s => ∀ r ∈ s.replies, r.Plain) (fun _ _ _ => section_plain)
    (fun _ hr => absurd hr not_mem_nil) h

theorem mem_dropFdReplies {xs : List PosixLock} {fd : Nat} {r : LkReply} (h : r ∈ dropFdReplies xs fd) :
    ∃ l ∈ xs, l.fdNum = fd ∧ l.frame = r.frame := by
  obtain ⟨l, hl, rfl⟩ := mem_map.mp h
  obtain ⟨hmem, htest⟩ := mem_filter.mp hl
  exact ⟨l, hmem, beq_iff_eq.mp (Bool.and_eq_true_iff.mp htest).1, rfl⟩

/-- The frames on the list and those of the answers are of calls that were made. -/
structure FramesBelow (s : FcntlState) : Prop where
  locks : ∀ l ∈ s.extList, ∀ k, frameIs k l.frame = true → k < s.lkCalls
  replies : ∀ r ∈ s.replies, ∀ k, frameIs k r.frame = true → k < s.lkCalls

variable {req : LkRequest}

theorem frameIs_reqlock {k : Nat} (cb : Bool) (h : frameIs k (req.reqlock n cb).frame = true) : k = n := by
  cases cb with
  | false => cases h
  | true => exact (beq_iff_eq.mp h).symm

theorem frameIs_frame_eq {k : Nat} (h : frameIs k (some (req.frame n)) = true) : k = n := (beq_iff_eq.mp h).symm

/-- The section is of a call that is not the owner's, and closes no fd the owner has a lock on. A grant pass is
    nobody's. -/
def FcntlSection.ByOthers (w : PosixLock) (s : FcntlState) : FcntlSection → Prop
  | .grant => True
  | .enter (.lk req _) => sameOwner (req.reqlock 0 false) w = false
  | .enter (.flush transport owner fd) =>
    if owner = 0 then ∀ l ∈ s.extList, sameOwner l w = true → l.fdNum ≠ fd
    else ¬(owner = w.owner ∧ transport = w.transport)
  | .enter (.release fd) => ∀ l ∈ s.extList, sameOwner l w = true → l.fdNum ≠ fd

theorem ByOthers.dropsFd {c : FcntlCall} {fd : Nat} (h : (FcntlSection.enter c).ByOthers w s) (hdrops : c.DropsFd fd) :
    ∀ l ∈ s.extList, sameOwner l w = true → l.fdNum ≠ fd := by
  rcases hdrops with ⟨transport, rfl⟩ | rfl
  · exact h
  · exact h

/-- The grant pass: the old locks of the owner do not wait, so what the pass admits of it is a copy. -/
theorem OwnedAs.grantPass {b : Prop} {xs₀ xs xs' : List PosixLock}
    (h : OwnedAs w (fun l => b ∧ l.Copies w) xs₀ xs) (hclear : ClearOf w xs₀) (hwf : WF xs)
    (hpass : grantBlockedLocks xs = .ok (xs', g)) : OwnedAs w (fun l => b ∧ l.Copies w) xs₀ xs' := by
  have key := grantLoop_rule
    (J := fun e tmp _ => (WF e ∧ WF tmp) ∧ OwnedAs w (fun l => b ∧ l.Copies w) xs₀ e ∧
      ∀ l ∈ tmp, sameOwner l w = true → b ∧ l.Copies w)
    ?grant ?requeue ⟨⟨hwf.subset filter_sublist.subset, hwf.subset filter_sublist.subset⟩, ?list, ?tmp⟩ hpass
  · exact key.2.1
  case list =>
    refine ⟨?_, fun l hl => h.only l (mem_filter.mp hl).1⟩
    intro l hl hown
    refine mem_filter.mpr ⟨h.kept l hl hown, ?_⟩
    simp [retried, hclear.granted l hl hown]
  case tmp =>
    intro l hl hown
    obtain ⟨hmem, hretried⟩ := mem_filter.mp hl
    refine (h.only l hmem hown).resolve_left ?_
    intro hold
    simp [retried, hclear.granted l hold hown] at hretried
  case grant =>
    rintro e l tmp g e' ⟨⟨he, htmp⟩, howned, hcopies⟩ - hi
    have hl : l.admitted.Valid := (htmp l mem_cons_self).1
    refine ⟨⟨insertLock_wf he hl hi, htmp.subset (subset_cons_self _ _)⟩, ?_,
      fun x hx => hcopies x (mem_cons_of_mem l hx)⟩
    cases hown : sameOwner l w with
    | false => exact howned.insert_other he hl hown hi
    | true =>
      obtain ⟨hb, hcopy⟩ := hcopies l mem_cons_self hown
      exact (OwnedAs.insert_copy hclear (howned.mono fun _ h => h.2) he hl hcopy hi).mono fun _ h => ⟨hb, h⟩
  case requeue =>
    rintro e l tmp g ⟨⟨he, htmp⟩, howned, hcopies⟩ -
    have hl := htmp l mem_cons_self
    refine ⟨⟨he.append (l := l.requeued) hl.1 hl.2, htmp.subset (subset_cons_self _ _)⟩, ?_,
      fun x hx => hcopies x (mem_cons_of_mem l hx)⟩
    refine ⟨fun x hx hown => mem_append_left _ (howned.kept x hx hown), ?_⟩
    intro x hx hown
    rcases mem_append.mp hx with hold | hnew
    · exact howned.only x hold hown
    rw [mem_singleton.mp hnew] at hown ⊢
    exact .inr (hcopies l mem_cons_self hown)

variable {xs₀ : List PosixLock}

/-- **Sections of others leave the owner its locks.** Where the owner may have copies of `w` beside its old locks
    (`b`), a grant pass may admit one that waits. -/
theorem OwnedAs.section {b : Prop}
    (hclear : ClearOf w xs₀) (h : OwnedAs w (fun l => b ∧ l.Copies w) xs₀ s.extList) (hwf : WF s.extList)
    (hothers : a.ByOthers w s) (hstep : a.step s = .ok s') : OwnedAs w (fun l => b ∧ l.Copies w) xs₀ s'.extList := by
  cases a with
  | grant =>
    obtain ⟨xs, granted, hg, rfl⟩ := grant_ok hstep
    exact h.grantPass hclear hwf hg
  | enter c =>
    rcases enter_cases hstep with ⟨req, cb, xs, rfl, -, hi, rfl⟩ | ⟨req, rfl, -, rfl⟩ | ⟨req, cmd, r, -, -, rfl⟩ |
      ⟨fd, hdrops, rfl⟩ | ⟨transport, owner, fd, rfl, hne, rfl⟩
    · exact h.insert_other hwf (reqlock_valid req _ cb) hothers hi
    · refine ⟨fun l hl hown => mem_append_left _ (h.kept l hl hown), ?_⟩
      intro l hl hown
      rcases mem_append.mp hl with hold | hnew
      · exact h.only l hold hown
      rw [mem_singleton.mp hnew] at hown
      exact absurd (hothers.symm.trans hown) Bool.false_ne_true
    · exact h
    · refine ⟨?_, fun l hl => h.only l (mem_filter.mp hl).1⟩
      intro l hl hown
      have hin := h.kept l hl hown
      exact mem_filter.mpr ⟨hin, bne_iff_ne.mpr (ByOthers.dropsFd hothers hdrops l hin hown)⟩
    refine ⟨?_, fun l hl => h.only l (mem_filter.mp hl).1⟩
    intro l hl hown
    refine mem_filter.mpr ⟨h.kept l hl hown, ?_⟩
    have hnot : ¬(owner = w.owner ∧ transport = w.transport) := by
      simpa only [FcntlSection.ByOthers, if_neg hne] using hothers
    rw [sameOwner_iff] at hown
    simp only [hown.1, hown.2, Bool.not_eq_true', Bool.and_eq_false_iff, beq_eq_false_iff_ne]
    by_contra hcon
    push Not at hcon
    exact hnot ⟨hcon.2.symm, hcon.1.symm⟩

/-! ## A request of the owner -/

/-- The owner's `n`-th call asks for `w` and may have it, or wait for it. A failed answer means that it has nothing
    new. -/
structure Awaiting (w : PosixLock) (n : Nat) (xs₀ : List PosixLock) (s : FcntlState) : Prop where
  below : n < s.lkCalls
  frames : ∀ l ∈ s.extList, sameOwner l w = false → frameIs n l.frame = false
  owned : OwnedAs w (·.Copies w) xs₀ s.extList
  refused : ∀ r ∈ s.replies, frameIs n r.frame = true → r.opRet ≠ 0 → OwnedAs w (fun _ => False) xs₀ s.extList

/-- The reference lock of a request: what `pl_lk` makes of it, apart from the frame. -/
def LkRequest.wanted (req : LkRequest) : PosixLock := req.reqlock 0 false

theorem reqlock_copies (req : LkRequest) (n : Nat) (cb : Bool) : (req.reqlock n cb).Copies req.wanted :=
  ⟨by simp [sameOwner, LkRequest.wanted, LkRequest.reqlock], rfl, rfl, rfl⟩

theorem Awaiting.arrive {cb : Bool} (hclear : ClearOf req.wanted xs₀) (hwf : WF s.extList) (hframes : FramesBelow s)
    (h : OwnedAs req.wanted (fun _ => False) xs₀ s.extList) (henter : (FcntlCall.lk req (setlkCmd cb)).enter s = .ok s') :
    Awaiting req.wanted s.lkCalls xs₀ s' := by
  have hcopies : OwnedAs req.wanted (·.Copies req.wanted) xs₀ s.extList := h.mono fun _ => False.elim
  -- no lock on the list and no answer has the frame of this call yet
  have hfresh : ∀ l ∈ s.extList, frameIs s.lkCalls l.frame = false := fun l hl =>
    Bool.eq_false_iff.mpr fun hk => lt_irrefl _ (hframes.locks l hl _ hk)
  have hunanswered : ∀ r ∈ s.replies, frameIs s.lkCalls r.frame ≠ true :=
    fun r hr hk => lt_irrefl _ (hframes.replies r hr _ hk)
  rcases lkEnter_setlk cb henter with ⟨-, xs, hi, rfl⟩ | ⟨-, ⟨rfl, rfl⟩ | ⟨rfl, rfl⟩⟩
  · refine ⟨Nat.lt_succ_self _, ?_, hcopies.insert_copy hclear hwf (reqlock_valid req _ cb) (reqlock_copies req _ cb) hi, ?_⟩
    · intro l hl hother
      refine hfresh l ((insertLock_mem_other hwf (reqlock_valid req _ cb) hi ?_).mp hl)
      rw [sameOwner_comm, sameOwner_congr (reqlock_copies req _ cb).1, sameOwner_comm]
      exact hother
    intro r hr hk hret
    rcases mem_append.mp hr with hold | hnew
    · exact absurd hk (hunanswered r hold)
    · exact absurd (by rw [mem_singleton.mp hnew]) hret
  · refine ⟨Nat.lt_succ_self _, ?_, ?_, fun r hr hk => absurd hk (hunanswered r hr)⟩
    · intro l hl hother
      rcases mem_append.mp hl with hold | hnew
      · exact hfresh l hold
      rw [mem_singleton.mp hnew] at hother
      exact absurd (hother.symm.trans (reqlock_copies req s.lkCalls true).1) Bool.false_ne_true
    refine ⟨fun l hl hown => mem_append_left _ (h.kept l hl hown), ?_⟩
    intro l hl hown
    rcases mem_append.mp hl with hold | hnew
    · exact hcopies.only l hold hown
    rw [mem_singleton.mp hnew]
    exact .inr (reqlock_copies req s.lkCalls true)
  · exact ⟨Nat.lt_succ_self _, fun l hl _ => hfresh l hl, hcopies, fun _ _ _ _ => h⟩

/-- Sections of others leave the request its answers. -/
theorem Awaiting.section
    (hclear : ClearOf w xs₀) (h : Awaiting w n xs₀ s) (hwf : WF s.extList) (hothers : a.ByOthers w s)
    (hstep : a.step s = .ok s') : Awaiting w n xs₀ s' := by
  have howned : OwnedAs w (·.Copies w) xs₀ s'.extList :=
    (OwnedAs.section (b := True) hclear (h.owned.mono fun _ hc => ⟨trivial, hc⟩) hwf hothers hstep).mono fun _ hc => hc.2
  have hbase : OwnedAs w (fun _ => False) xs₀ s.extList → OwnedAs w (fun _ => False) xs₀ s'.extList := fun hb =>
    (OwnedAs.section (b := False) hclear (hb.mono fun _ => False.elim) hwf hothers hstep).mono fun _ hc => hc.1
  have hold : ∀ r ∈ s.replies, frameIs n r.frame = true → r.opRet ≠ 0 → OwnedAs w (fun _ => False) xs₀ s'.extList :=
    fun r hr hk hret => hbase (h.refused r hr hk hret)
  have hlater : ∀ {req : LkRequest}, frameIs n (some (req.frame s.lkCalls)) ≠ true := fun hk =>
    lt_irrefl _ (frameIs_frame_eq hk ▸ h.below)
  cases a with
  | grant =>
    obtain ⟨xs, granted, hg, rfl⟩ := grant_ok hstep
    refine ⟨h.below, ?_, howned, ?_⟩
    · intro l hl hother
      rcases grantBlockedLocks_frames hwf hg l hl with hnone | ⟨l0, hl0, hfr, hown⟩
      · rw [hnone]
        rfl
      rw [← hfr]
      exact h.frames l0 hl0 (by rw [sameOwner_congr hown, hother])
    intro r hr hk hret
    rcases mem_append.mp hr with hr | hr
    · exact hold r hr hk hret
    · exact absurd (grantBlockedLocks_replies hg r hr).1 hret
  | enter c =>
    rcases enter_cases hstep with ⟨req, cb, xs, rfl, -, hi, rfl⟩ | ⟨req, rfl, -, rfl⟩ | ⟨req, cmd, r, -, hfr, rfl⟩ |
      ⟨fd, hdrops, rfl⟩ | ⟨transport, owner, fd, rfl, hne, rfl⟩
    · refine ⟨Nat.lt_succ_of_lt h.below, ?_, howned, ?_⟩
      · intro l hl hother
        rcases insertLock_frames hwf (reqlock_valid req _ cb) hi l hl with hmem | hnone | hfr
        · exact h.frames l hmem hother
        · rw [hnone]
          rfl
        rw [hfr]
        exact Bool.eq_false_iff.mpr fun hk => lt_irrefl _ (frameIs_reqlock cb hk ▸ h.below)
      intro r hr hk hret
      rcases mem_append.mp hr with hr | hr
      · exact hold r hr hk hret
      rw [mem_singleton.mp hr] at hk
      exact absurd hk hlater
    · refine ⟨Nat.lt_succ_of_lt h.below, ?_, howned, hold⟩
      intro l hl hother
      rcases mem_append.mp hl with hmem | hnew
      · exact h.frames l hmem hother
      rw [mem_singleton.mp hnew]
      exact Bool.eq_false_iff.mpr fun hk => lt_irrefl _ (frameIs_reqlock true hk ▸ h.below)
    · refine ⟨Nat.lt_succ_of_lt h.below, h.frames, howned, ?_⟩
      intro r hr hk hret
      rcases mem_append.mp hr with hr | hr
      · exact hold r hr hk hret
      rw [mem_singleton.mp hr, hfr] at hk
      exact absurd hk hlater
    · refine ⟨h.below, fun l hl => h.frames l (mem_filter.mp hl).1, howned, ?_⟩
      intro r hr hk hret
      rcases mem_append.mp hr with hr | hr
      · exact hold r hr hk hret
      -- a lock that waits on the closed fd is not the owner's
      obtain ⟨l, hl, hfd, hfr⟩ := mem_dropFdReplies hr
      have hother : sameOwner l w = false :=
        Bool.eq_false_iff.mpr fun hown => ByOthers.dropsFd hothers hdrops l hl hown hfd
      exact absurd ((h.frames l hl hother).symm.trans (hfr ▸ hk)) Bool.false_ne_true
    · exact ⟨h.below, fun l hl => h.frames l (mem_filter.mp hl).1, howned, hold⟩

theorem OwnedAs.unlock (hclear : ClearOf req.wanted xs₀)
    (h : OwnedAs req.wanted (·.Copies req.wanted) xs₀ s.extList) (hwf : WF s.extList)
    (henter : (FcntlCall.lk req.unlock .setlk).enter s = .ok s') :
    OwnedAs req.wanted (fun _ => False) xs₀ s'.extList := by
  have hun : (req.unlock.reqlock s.lkCalls false).Unlocks req.wanted :=
    ⟨sameOwner_iff.mpr ⟨rfl, rfl⟩, rfl, rfl, rfl⟩
  rcases lkEnter_setlk false henter with ⟨-, xs, hi, rfl⟩ | ⟨hnot, -⟩
  · exact unlock_copies hclear hwf (reqlock_valid req 0 false) hun h hi
  · exact absurd hun.type (flType_of_not_grantable hnot)

end GlusterFS.Locks
