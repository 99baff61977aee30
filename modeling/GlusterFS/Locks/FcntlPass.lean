import GlusterFS.Locks.Posix
import GlusterFS.Locks.Merge

/-!
# `Locks.FcntlPass` — one call and its grant pass, inverted

`enter_cases` says everything a call's own change can do to the inode, and `grantLoop_rule` everything
the grant pass can do. The second half of the file is about passes that merge nothing: when no waiting
lock that is about to be retried overlaps another waiting lock of its owner (`PassApart`), every retried
lock that is granted is simply appended, because a retried lock overlaps no granted lock either.
-/

namespace GlusterFS.Locks

open Transition List

/-! ## A call's own change -/

/-- Calls that delete by fd. -/
def FcntlCall.DropsFd (c : FcntlCall) (fd : Nat) : Prop := (∃ transport, c = .flush transport 0 fd) ∨ c = .release fd

/-- The command of a request that goes to `pl_setlk`. -/
def setlkCmd (canBlock : Bool) : LkCmd := if canBlock then .setlkw else .setlk

/-- The state once the next `lk` call has left `xs` as the list and was answered with `r`. -/
def FcntlState.answered (s : FcntlState) (xs : List PosixLock) (r : LkReply) : FcntlState :=
  { extList := xs, lkCalls := s.lkCalls + 1, replies := s.replies ++ [r] }

/-- The state once the next `lk` call waits with `lock`. -/
def FcntlState.queued (s : FcntlState) (lock : PosixLock) : FcntlState :=
  { s with extList := s.extList ++ [{ lock with blocked := true }], lkCalls := s.lkCalls + 1 }

theorem lkEnter_setlk_eq (s : FcntlState) (req : LkRequest) (cb : Bool) : lkEnter s req (setlkCmd cb) =
      match setlkSection s.extList (req.reqlock s.lkCalls cb) cb with
      | .error e => .error e
      | .ok (ret, xs) =>
        if ret = -1 then
          if cb then .ok { s with extList := xs, lkCalls := s.lkCalls + 1 }
          else .ok (s.answered xs ⟨some (req.frame s.lkCalls), -1, .eagain, req.flock⟩)
        else .ok (s.answered xs ⟨some (req.frame s.lkCalls), 0, .ok, req.flock⟩) := by
  cases cb <;> rfl

variable {s s' : FcntlState}

theorem lkEnter_setlk {req : LkRequest} (cb : Bool) (h : lkEnter s req (setlkCmd cb) = .ok s') :
    (isLockGrantable s.extList (req.reqlock s.lkCalls cb) = true ∧ ∃ xs,
        insertLock s.extList (req.reqlock s.lkCalls cb) = .ok xs ∧
        s' = s.answered xs ⟨some (req.frame s.lkCalls), 0, .ok, req.flock⟩) ∨
    (isLockGrantable s.extList (req.reqlock s.lkCalls cb) = false ∧
      ((cb = true ∧ s' = s.queued (req.reqlock s.lkCalls true)) ∨ (cb = false ∧
          s' = s.answered s.extList ⟨some (req.frame s.lkCalls), -1, .eagain, req.flock⟩))) := by
  rw [lkEnter_setlk_eq] at h
  unfold setlkSection at h
  cases hg : isLockGrantable s.extList (req.reqlock s.lkCalls cb) with
  | true =>
    rw [hg] at h
    cases hi : insertLock s.extList (req.reqlock s.lkCalls cb) with
    | error e => simp [hi] at h
    | ok xs =>
      rw [hi] at h
      exact .inl ⟨rfl, xs, rfl, (Except.ok.inj h).symm⟩
  | false =>
    rw [hg] at h
    refine .inr ⟨rfl, ?_⟩
    cases cb with
    | true => exact .inl ⟨rfl, (Except.ok.inj h).symm⟩
    | false => exact .inr ⟨rfl, (Except.ok.inj h).symm⟩

/-- **Everything a call's own change can do**: insert a granted lock, queue a waiting one, answer without
    touching the list, or delete by fd or by owner. -/
theorem enter_cases {c : FcntlCall} (h : c.enter s = .ok s') : (∃ req cb xs, c = .lk req (setlkCmd cb) ∧
        isLockGrantable s.extList (req.reqlock s.lkCalls cb) = true ∧
        insertLock s.extList (req.reqlock s.lkCalls cb) = .ok xs ∧
        s' = s.answered xs ⟨some (req.frame s.lkCalls), 0, .ok, req.flock⟩) ∨
    (∃ req, c = .lk req .setlkw ∧ isLockGrantable s.extList (req.reqlock s.lkCalls true) = false ∧
        s' = s.queued (req.reqlock s.lkCalls true)) ∨
    (∃ req cmd r, c = .lk req cmd ∧ r.frame = some (req.frame s.lkCalls) ∧ s' = s.answered s.extList r) ∨
    (∃ fd, c.DropsFd fd ∧
        s' = { s with extList := dropFd s.extList fd,
                      replies := s.replies ++ dropFdReplies s.extList fd }) ∨
    (∃ transport owner fd, c = .flush transport owner fd ∧ owner ≠ 0 ∧
        s' = { s with extList := deleteLocksOfOwner s.extList transport owner }) := by
  cases c with
  | lk req cmd =>
    cases cmd with
    | getlk => exact .inr (.inr (.inl ⟨req, .getlk, _, rfl, rfl, (Except.ok.inj h).symm⟩))
    | other => exact .inr (.inr (.inl ⟨req, .other, _, rfl, rfl, (Except.ok.inj h).symm⟩))
    | setlk =>
      rcases lkEnter_setlk false h with ⟨hg, xs, hi, hs⟩ | ⟨hg, ⟨hcb, _⟩ | ⟨_, hs⟩⟩
      · exact .inl ⟨req, false, xs, rfl, hg, hi, hs⟩
      · cases hcb
      · exact .inr (.inr (.inl ⟨req, .setlk, _, rfl, rfl, hs⟩))
    | setlkw =>
      rcases lkEnter_setlk true h with ⟨hg, xs, hi, hs⟩ | ⟨hg, ⟨_, hs⟩ | ⟨hcb, _⟩⟩
      · exact .inl ⟨req, true, xs, rfl, hg, hi, hs⟩
      · exact .inr (.inl ⟨req, rfl, hg, hs⟩)
      · cases hcb
  | flush transport owner fd =>
    simp only [FcntlCall.enter] at h
    split at h
    next h0 =>
      subst h0
      exact .inr (.inr (.inr (.inl ⟨fd, .inl ⟨transport, rfl⟩, (Except.ok.inj h).symm⟩)))
    next h0 =>
      exact .inr (.inr (.inr (.inr ⟨transport, owner, fd, rfl, h0, (Except.ok.inj h).symm⟩)))
  | release fd => exact .inr (.inr (.inr (.inl ⟨fd, .inr rfl, (Except.ok.inj h).symm⟩)))

theorem grant_ok (h : s.grant = .ok s') : ∃ xs granted, grantBlockedLocks s.extList = .ok (xs, granted) ∧
      s' = { s with extList := xs, replies := s.replies ++ granted } := by
  unfold FcntlState.grant at h
  cases hp : grantBlockedLocks s.extList with
  | error e => simp [hp] at h
  | ok p =>
    rw [hp] at h
    exact ⟨p.1, p.2, rfl, (Except.ok.inj h).symm⟩

/-! ## The grant pass -/

/-- A retried lock once it is granted: no longer waiting, its frame handed to the answer. -/
def PosixLock.admitted (l : PosixLock) : PosixLock := { l with blocked := false, frame := none }

/-- A retried lock put back at the tail of the list. -/
def PosixLock.requeued (l : PosixLock) : PosixLock := { l with blocked := true }

/-- The answer to a retried lock that is granted. -/
def PosixLock.grantReply (l : PosixLock) : LkReply :=
  { frame := l.frame, opRet := 0, opErrno := .ok, flock := posixLockToFlock l Flock.zero }

variable {J : List PosixLock → List PosixLock → List LkReply → Prop}

/-- **The pass rule.** A property of *(list, locks still to retry, answers)* that survives a grant and a
    requeue holds at the end of the pass. -/
theorem grantLoop_rule (grant : ∀ {xs l tmp g xs'}, J xs (l :: tmp) g → isLockGrantable xs l = true →
      insertLock xs l.admitted = .ok xs' → J xs' tmp (l.grantReply :: g))
    (requeue : ∀ {xs l tmp g}, J xs (l :: tmp) g → isLockGrantable xs l = false → J (xs ++ [l.requeued]) tmp g) :
    ∀ {tmp xs g xs' g'}, J xs tmp g → grantLoop tmp xs g = .ok (xs', g') → J xs' [] g' := by
  intro tmp
  induction tmp with
  | nil =>
    intro xs g xs' g' hJ h
    cases h
    exact hJ
  | cons l tmp ih =>
    intro xs g xs' g' hJ h
    unfold grantLoop at h
    have hadm : isLockGrantable xs { l with blocked := false } = isLockGrantable xs l := rfl
    rw [hadm] at h
    cases hg : isLockGrantable xs l with
    | false =>
      rw [hg] at h
      exact ih (requeue hJ hg) h
    | true =>
      rw [hg] at h
      cases hi : insertLock xs l.admitted with
      | error e =>
        have hi' : insertLock xs { l with blocked := false, frame := none } = .error e := hi
        simp [hi'] at h
      | ok xs1 =>
        have hi' : insertLock xs { l with blocked := false, frame := none } = .ok xs1 := hi
        simp only [hi', if_true] at h
        exact ih (grant hJ hg hi) h

/-! ## Well-formed lists, and fuel -/

theorem reqlock_valid (req : LkRequest) (n : Nat) (cb : Bool) : (req.reqlock n cb).Valid := req.range_le

variable {xs xs' : List PosixLock} {lock : PosixLock}

theorem insertLock_wf (hxs : WF xs) (hlock : lock.Valid)
    (h : insertLock xs lock = .ok xs') : WF xs' := insertAndMerge_wf hxs hlock h

theorem flType_of_not_grantable (h : isLockGrantable xs lock = false) : lock.flType ≠ .unlck := by
  intro ht
  have hall : xs.any (standsInWay lock) = false := by simp [standsInWay, ht]
  rw [isLockGrantable, hall] at h
  cases h

theorem enter_wf {c : FcntlCall} (hwf : WF s.extList) (h : c.enter s = .ok s') : WF s'.extList := by
  rcases enter_cases h with ⟨req, cb, xs, -, -, hi, rfl⟩ | ⟨req, -, hg, rfl⟩ | ⟨req, cmd, r, -, -, rfl⟩ |
    ⟨fd, -, rfl⟩ | ⟨transport, owner, fd, -, -, rfl⟩
  · exact insertLock_wf hwf (reqlock_valid req _ cb) hi
  · have ht : (req.reqlock s.lkCalls true).flType ≠ .unlck := flType_of_not_grantable hg
    exact hwf.append (l := { req.reqlock s.lkCalls true with blocked := true })
      (reqlock_valid req s.lkCalls true) ht
  · exact hwf
  all_goals exact hwf.subset filter_sublist.subset

theorem grantBlockedLocks_wf {g : List LkReply} (hwf : WF xs) (h : grantBlockedLocks xs = .ok (xs', g)) : WF xs' := by
  have key := grantLoop_rule (J := fun e tmp _ => WF e ∧ WF tmp) ?grant ?requeue
    ⟨hwf.subset filter_sublist.subset, hwf.subset filter_sublist.subset⟩ h
  · exact key.1
  case grant =>
    rintro e l tmp g e' ⟨he, htmp⟩ - hi
    have hl : l.admitted.Valid := (htmp l (by simp)).1
    exact ⟨insertLock_wf he hl hi, htmp.subset (by simp)⟩
  case requeue =>
    rintro e l tmp g ⟨he, htmp⟩ -
    have hl := htmp l (by simp)
    exact ⟨he.append (l := l.requeued) hl.1 hl.2, htmp.subset (by simp)⟩

theorem section_wf {a : FcntlSection} (hwf : WF s.extList) (h : a.step s = .ok s') : WF s'.extList := by
  cases a with
  | enter c => exact enter_wf hwf h
  | grant =>
    obtain ⟨xs, granted, hg, rfl⟩ := grant_ok h
    exact grantBlockedLocks_wf hwf hg

/-- **Every reachable list is well formed.** -/
theorem fcntlRun_wf {as : List FcntlSection} (h : fcntlRun as = .ok s) : WF s.extList :=
  run_invariant_all (I := fun s => WF s.extList) (fun _ _ _ => section_wf) (by intro l hl; cases hl) h

theorem lkEnter_fuel (hwf : WF s.extList) (req : LkRequest) (cb : Bool) :
    lkEnter s req (setlkCmd cb) ≠ .error .outOfFuel := by
  have hins := insertLock_fuel hwf (reqlock_valid req s.lkCalls cb)
  rw [lkEnter_setlk_eq, setlkSection]
  by_cases hg : isLockGrantable s.extList (req.reqlock s.lkCalls cb) = true
  · rw [if_pos hg]
    cases hi : insertLock s.extList (req.reqlock s.lkCalls cb) with
    | error e =>
      rw [hi] at hins
      simpa using hins
    | ok xs => simp
  rw [if_neg hg]
  cases cb <;> simp

theorem grantLoop_fuel : ∀ {tmp xs : List PosixLock} {g : List LkReply}, WF tmp → WF xs →
    grantLoop tmp xs g ≠ .error .outOfFuel := by
  intro tmp
  induction tmp with
  | nil =>
    intro xs g _ _ hcon
    cases hcon
  | cons l tmp ih =>
    intro xs g htmp hxs hcon
    have hl := htmp l (by simp)
    have hrest : WF tmp := htmp.subset (by simp)
    unfold grantLoop at hcon
    split at hcon
    · split at hcon
      next x hx =>
        cases hcon
        exact insertLock_fuel hxs (show l.admitted.Valid from hl.1) hx
      next e' hi =>
        exact ih hrest (insertLock_wf hxs (show l.admitted.Valid from hl.1) hi) hcon
    · exact ih hrest (hxs.append (l := l.requeued) hl.1 hl.2) hcon

theorem section_fuel {a : FcntlSection} (hwf : WF s.extList) : a.step s ≠ .error .outOfFuel := by
  cases a with
  | enter c =>
    cases c with
    | lk req cmd =>
      cases cmd with
      | getlk | other => simp [FcntlSection.step, FcntlCall.enter, lkEnter]
      | setlk => exact lkEnter_fuel hwf req false
      | setlkw => exact lkEnter_fuel hwf req true
    | flush transport owner fd =>
      simp only [FcntlSection.step, FcntlCall.enter]
      split <;> simp
    | release fd => simp [FcntlSection.step, FcntlCall.enter]
  | grant =>
    have hpass : grantBlockedLocks s.extList ≠ .error .outOfFuel :=
      grantLoop_fuel (hwf.subset filter_sublist.subset) (hwf.subset filter_sublist.subset)
    simp only [FcntlSection.step, FcntlState.grant]
    split
    next e he =>
      intro hcon
      cases hcon
      exact hpass he
    · simp

/-- **The model never runs out of fuel**: a run ends in a state, or the code crashes. -/
theorem fcntlRun_fuel (as : List FcntlSection) : fcntlRun as ≠ .error .outOfFuel := by
  have hrun : ∀ {s : FcntlState}, WF s.extList → run FcntlSection.step s as ≠ .error .outOfFuel := by
    induction as with
    | nil => intro s _ hcon; cases hcon
    | cons a as ih =>
      intro s hwf hcon
      cases hs : a.step s with
      | error e =>
        simp only [run, hs, Except.error.injEq] at hcon
        exact section_fuel hwf (hcon ▸ hs)
      | ok s1 =>
        simp only [run, hs] at hcon
        exact ih (section_wf hwf hs) hcon
  exact hrun (by intro l hl; cases hl)

/-! ## What a retried lock overlaps -/

theorem firstOverlap_none {l : PosixLock} (h : firstOverlap xs l = none)
    {g : PosixLock} (hg : g ∈ xs) (hb : g.blocked = false) : locksOverlap g l = false := by
  have hn := find?_eq_none.mp h g hg
  simpa [hb] using hn

theorem retried_iff {l : PosixLock} : retried xs l = true ↔ l.blocked = true ∧ firstOverlap xs l = none := by
  simp [retried]

/-- Two waiting locks of one owner that overlap are both left alone by the pass. -/
def ApartIn (xs : List PosixLock) (a b : PosixLock) : Prop :=
  sameOwner a b = true → locksOverlap a b = true → retried xs a = false ∧ retried xs b = false
deriving Decidable

/-- **No retried lock overlaps another waiting lock of its owner.** -/
def PassApart (xs : List PosixLock) : Prop := (xs.filter fun l => l.blocked).Pairwise (ApartIn xs)
deriving Decidable

instance (xs : List PosixLock) : Std.Symm (ApartIn xs) where
  symm a b h := by
    intro hown hov
    rw [sameOwner_comm] at hown
    rw [locksOverlap_comm] at hov
    exact (h hown hov).symm

/-- The locks still to retry are apart from the list and from each other, and come from a well-formed
    list. -/
structure RetryApart (xs tmp : List PosixLock) : Prop where
  list : ∀ c ∈ tmp, ∀ l ∈ xs, sameOwner l c = true → locksOverlap l c = false
  pairs : tmp.Pairwise fun a b => sameOwner a b = true → locksOverlap a b = false
  wf : WF tmp

theorem RetryApart.of_passApart (hwf : WF xs) (h : PassApart xs) :
    RetryApart (xs.filter fun l => !retried xs l) (xs.filter (retried xs)) := by
  refine ⟨?_, ?_, hwf.subset (filter_sublist.subset)⟩
  · intro c hc l hl hown
    obtain ⟨hcm, hcr⟩ := mem_filter.mp hc
    obtain ⟨hlm, hlr⟩ := mem_filter.mp hl
    obtain ⟨hcb, hcf⟩ := retried_iff.mp hcr
    cases hlb : l.blocked with
    | false => exact firstOverlap_none hcf hlm hlb
    | true =>
      -- two different waiting locks, one of them retried
      have hne : l ≠ c := by
        rintro rfl
        simp [hcr] at hlr
      have hap : ApartIn xs l c := h.forall
        (mem_filter.mpr ⟨hlm, hlb⟩) (mem_filter.mpr ⟨hcm, hcb⟩) hne
      by_contra hov
      have hfalse := (hap hown (by simpa using hov)).2
      rw [hcr] at hfalse
      cases hfalse
  have hsub : (xs.filter (retried xs)).Sublist (xs.filter fun l => l.blocked) := by
    have heq : xs.filter (retried xs) = (xs.filter fun l => l.blocked).filter (retried xs) := by
      rw [filter_filter]
      apply filter_congr
      intro l _
      cases hb : l.blocked <;> simp [retried, hb]
    rw [heq]
    exact filter_sublist
  refine (h.sublist hsub).imp_of_mem ?_
  intro a b ha _ hap hown
  by_contra hov
  have hfalse := (hap hown (by simpa using hov)).1
  rw [(mem_filter.mp ha).2] at hfalse
  cases hfalse

theorem insertLock_append (h : ∀ l ∈ xs, sameOwner l lock = true → locksOverlap l lock = false)
    (ht : lock.flType ≠ .unlck) : insertLock xs lock = .ok (xs ++ [lock]) := by
  unfold insertLock
  rw [insertAndMerge]
  split
  · rw [if_pos ht]
  next conf hf =>
    have hstop := (find?_split hf).1
    have hno : sameOwner conf lock = false := by
      by_contra hown
      have hov := overlap_of_stopsScan hstop
      rw [h conf (mem_of_find?_eq_some hf) (by simpa using hown)] at hov
      cases hov
    simp [hno]

/-- **The pass rule when the retried locks are apart**: a grant appends, and the rest stays apart. -/
theorem grantLoop_rule_apart (grant : ∀ {xs l tmp g}, RetryApart xs (l :: tmp) → J xs (l :: tmp) g →
      isLockGrantable xs l = true → J (xs ++ [l.admitted]) tmp (l.grantReply :: g))
    (requeue : ∀ {xs l tmp g}, RetryApart xs (l :: tmp) → J xs (l :: tmp) g →
      isLockGrantable xs l = false → J (xs ++ [l.requeued]) tmp g)
    {tmp : List PosixLock} {g g' : List LkReply} (hap : RetryApart xs tmp) (hJ : J xs tmp g)
    (h : grantLoop tmp xs g = .ok (xs', g')) : J xs' [] g' := by
  -- appending a lock with the range and holder of the one just taken keeps the others apart
  have happ : ∀ {xs : List PosixLock} {l l' : PosixLock} {tmp : List PosixLock},
      RetryApart xs (l :: tmp) → (∀ c, sameOwner l' c = sameOwner l c) →
      (∀ c, locksOverlap l' c = locksOverlap l c) → RetryApart (xs ++ [l']) tmp := by
    intro xs l l' tmp hap hown hov
    have hpairs := pairwise_cons.mp hap.pairs
    refine ⟨?_, hpairs.2, hap.wf.subset (by simp)⟩
    intro c hc x hx hsame
    rcases mem_append.mp hx with hx | hx
    · exact hap.list c (by simp [hc]) x hx hsame
    rw [mem_singleton.mp hx] at hsame ⊢
    rw [hown] at hsame
    rw [hov]
    exact hpairs.1 c hc hsame
  refine (grantLoop_rule (J := fun xs tmp g => RetryApart xs tmp ∧ J xs tmp g) ?_ ?_ ⟨hap, hJ⟩ h).2
  · rintro xs l tmp g xs' ⟨hap, hJ⟩ hg hi
    have ht : l.admitted.flType ≠ .unlck := (hap.wf l (by simp)).2
    have happend : insertLock xs l.admitted = .ok (xs ++ [l.admitted]) :=
      insertLock_append (hap.list l (by simp)) ht
    rw [happend] at hi
    cases hi
    exact ⟨happ hap (fun _ => rfl) (fun _ => rfl), grant hap hJ hg⟩
  rintro xs l tmp g ⟨hap, hJ⟩ hg
  exact ⟨happ hap (fun _ => rfl) (fun _ => rfl), requeue hap hJ hg⟩

end GlusterFS.Locks
