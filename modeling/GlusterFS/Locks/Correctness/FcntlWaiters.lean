import GlusterFS.Locks.Correctness.FcntlExclusion

/-!
# `Locks.Correctness.FcntlWaiters` — what becomes of a waiting `fcntl` lock

Two questions about a blocked `F_SETLKW` request.

**Is it ever lost?** `Accounted` counts, for each `lk` call, its answers and the waiting locks that carry
its frame; the sum should be one. Two places break it: a merge swallows a waiting lock of the caller
(the same defect that breaks exclusion), and `__delete_locks_of_owner`, which every `flush` runs, frees
waiting locks without unwinding them (`flush_loses_waiter`). In runs that do neither, the count is exact.

**Is it woken?** After a grant pass no waiting lock should be grantable (`NoneGrantable`). The pass only
retries waiters that overlap *no* granted lock at all, though a waiting read lock that overlaps a granted
read lock may be grantable (`reader_not_woken`). When every waiter the pass skips really conflicts, and no
retried waiter overlaps a waiter of its owner of another type, the pass leaves no grantable waiter.
-/

namespace GlusterFS.Locks

open Transition List

variable {xs : List PosixLock} {s : FcntlState} {l : PosixLock}

/-! ## Counting answers and waiters -/

variable (k : Nat)

/-- The waiting locks that carry the frame of the `k`-th call. -/
def waitCount (xs : List PosixLock) : Nat := xs.countP fun l => l.blocked && frameIs k l.frame

/-- The answers given to the `k`-th call. -/
def replyCount (rs : List LkReply) : Nat := rs.countP fun r => frameIs k r.frame

/-- Every call made so far was answered once, or one lock waits for it. -/
def Accounted (s : FcntlState) : Prop :=
  ∀ k, replyCount k s.replies + waitCount k s.extList = if k < s.lkCalls then 1 else 0

theorem replyCount_append (rs rs' : List LkReply) :
    replyCount k (rs ++ rs') = replyCount k rs + replyCount k rs' := countP_append

theorem waitCount_append (xs xs' : List PosixLock) :
    waitCount k (xs ++ xs') = waitCount k xs + waitCount k xs' := countP_append

theorem replyCount_cons (r : LkReply) (rs : List LkReply) :
    replyCount k (r :: rs) = (frameIs k r.frame).toNat + replyCount k rs := by
  rw [replyCount, countP_cons, Nat.add_comm]
  cases hf : frameIs k r.frame <;> simp [replyCount]

theorem waitCount_cons (l : PosixLock) (xs : List PosixLock) :
    waitCount k (l :: xs) = (l.blocked && frameIs k l.frame).toNat + waitCount k xs := by
  rw [waitCount, countP_cons, Nat.add_comm]
  cases hb : l.blocked && frameIs k l.frame <;> simp [waitCount]

@[simp] theorem waitCount_nil : waitCount k [] = 0 := rfl
@[simp] theorem replyCount_nil : replyCount k [] = 0 := rfl

theorem waitCount_filter_blocked (xs : List PosixLock) :
    waitCount k (xs.filter fun l => l.blocked) = waitCount k xs := by
  rw [waitCount, countP_filter]
  apply countP_congr
  intro l _
  cases hb : l.blocked <;> simp

theorem waitCount_filter {p : PosixLock → Bool}
    (h : ∀ l ∈ xs, l.blocked = true → p l = true) : waitCount k (xs.filter p) = waitCount k xs := by
  rw [waitCount, countP_filter]
  apply countP_congr
  intro l hl
  cases hb : l.blocked with
  | false => simp
  | true => simp [h l hl hb]

theorem waitCount_split (p : PosixLock → Bool) (xs : List PosixLock) :
    waitCount k (xs.filter fun l => !p l) + waitCount k (xs.filter p) = waitCount k xs := by
  induction xs with
  | nil => rfl
  | cons l xs ih =>
    cases hp : p l with
    | false =>
      rw [filter_cons_of_pos (by simp [hp]), filter_cons_of_neg (by simp [hp]), waitCount_cons, waitCount_cons]
      omega
    | true =>
      rw [filter_cons_of_neg (by simp [hp]), filter_cons_of_pos (by simp [hp]), waitCount_cons, waitCount_cons]
      omega

theorem frameIs_frame (k n : Nat) (req : LkRequest) : frameIs k (some (req.frame n)) = (n == k) := rfl

/-! ## The count through one section -/

/-- `delete_locks_of_fd` answers exactly the waiting locks it removes. -/
theorem dropFd_count (k fd : Nat) (xs : List PosixLock) :
    replyCount k (dropFdReplies xs fd) + waitCount k (dropFd xs fd) = waitCount k xs := by
  have hdropped : replyCount k (dropFdReplies xs fd) = waitCount k (xs.filter fun l => l.fdNum == fd) := by
    rw [replyCount, dropFdReplies, countP_map, waitCount, countP_filter, countP_filter]
    apply countP_congr
    intro l _
    simp only [Function.comp, Bool.and_eq_true]
    tauto
  have hsplit := waitCount_split k (fun l => l.fdNum == fd) xs
  rw [hdropped]
  have hkept : dropFd xs fd = xs.filter fun l => !(l.fdNum == fd) := rfl
  rw [hkept]
  omega

/-- A pass whose retried locks are apart answers exactly the waiters it takes off the list. -/
theorem grantBlockedLocks_count {xs' : List PosixLock} {g : List LkReply} (hwf : WF xs)
    (hap : PassApart xs) (h : grantBlockedLocks xs = .ok (xs', g)) :
    replyCount k g + waitCount k xs' = waitCount k xs := by
  have key := grantLoop_rule_apart
    (J := fun e tmp g => (∀ l ∈ tmp, l.blocked = true) ∧
      replyCount k g + waitCount k e + waitCount k tmp = waitCount k xs)
    ?grant ?requeue (RetryApart.of_passApart hwf hap) ⟨?blocked, ?split⟩ h
  · simpa using key.2
  case grant =>
    rintro e l tmp g - ⟨hb, hcnt⟩ -
    refine ⟨fun x hx => hb x (by simp [hx]), ?_⟩
    have hl : l.blocked = true := hb l (by simp)
    have hadm : l.admitted.blocked = false := rfl
    have hfr : l.grantReply.frame = l.frame := rfl
    rw [waitCount_cons, hl, Bool.true_and] at hcnt
    rw [replyCount_cons, waitCount_append, waitCount_cons, hadm, hfr, Bool.false_and, waitCount_nil]
    simp only [Bool.toNat_false]
    omega
  case requeue =>
    rintro e l tmp g - ⟨hb, hcnt⟩ -
    refine ⟨fun x hx => hb x (by simp [hx]), ?_⟩
    have hl : l.requeued = l := by
      cases l
      simp_all [PosixLock.requeued]
    rw [hl, waitCount_append]
    rw [waitCount_cons] at hcnt
    rw [waitCount_cons, waitCount_nil]
    omega
  case blocked =>
    intro l hl
    exact (retried_iff.mp (mem_filter.mp hl).2).1
  case split =>
    have hsplit := waitCount_split k (retried xs) xs
    simp only [replyCount_nil]
    omega

/-- **No section loses a waiting lock.** It touches no waiting lock of the owner it inserts for, and a
    `flush` finds none of its owner. -/
def FcntlSection.KeepsWaiters (s : FcntlState) : FcntlSection → Prop
  | .enter (.flush transport owner _) => owner ≠ 0 →
      ∀ l ∈ s.extList, l.transport = transport → l.owner = owner → l.blocked = false
  | a => a.TouchesGranted s

variable {a : FcntlSection}

theorem FcntlSection.KeepsWaiters.touchesGranted (h : a.KeepsWaiters s) : a.TouchesGranted s := by
  match a with
  | .enter (.flush _ _ _) => trivial
  | .enter (.lk _ _) | .enter (.release _) | .grant => exact h

/-- When owners that wait neither ask nor flush, no waiter is lost. -/
theorem FcntlSection.OwnerIdle.keepsWaiters (h : a.OwnerIdle s) : a.KeepsWaiters s := by
  match a with
  | .enter (.flush _ _ _) => exact h
  | .enter (.lk _ _) | .enter (.release _) | .grant => exact h.touchesGranted

theorem enter_accounted {s' : FcntlState} {c : FcntlCall} (hwf : WF s.extList)
    (hex : Exclusive s.extList) (hcond : (FcntlSection.enter c).KeepsWaiters s) (hacc : Accounted s)
    (h : c.enter s = .ok s') : Accounted s' := by
  intro k
  have hk := hacc k
  rcases enter_cases h with ⟨req, cb, xs, rfl, hg, hi, rfl⟩ | ⟨req, -, hg, rfl⟩ |
    ⟨req, cmd, r, -, hr, rfl⟩ | ⟨fd, -, rfl⟩ | ⟨transport, owner, fd, rfl, h0, rfl⟩
  · have hins := insertLock_inserting hwf (reqlock_valid req _ cb) rfl
      (TouchesGranted.of_setlk hcond.touchesGranted hg) hex hg hi
    have hwait : waitCount k xs = waitCount k s.extList := by
      rw [← waitCount_filter_blocked, hins.waiters, waitCount_filter_blocked]
    show replyCount k (s.replies ++ [_]) + waitCount k xs = if k < s.lkCalls + 1 then 1 else 0
    rw [replyCount_append, replyCount_cons, frameIs_frame, replyCount_nil, hwait, count_next hk]
    omega
  · show replyCount k s.replies + waitCount k (s.extList ++ [_]) = if k < s.lkCalls + 1 then 1 else 0
    have hfr : frameIs k (req.reqlock s.lkCalls true).frame = (s.lkCalls == k) := rfl
    rw [waitCount_append, waitCount_cons, hfr, Bool.true_and, waitCount_nil, count_next hk]
    omega
  · show replyCount k (s.replies ++ [r]) + waitCount k s.extList = if k < s.lkCalls + 1 then 1 else 0
    rw [replyCount_append, replyCount_cons, hr, frameIs_frame, replyCount_nil, count_next hk]
    omega
  · have hdrop := dropFd_count k fd s.extList
    simp only [replyCount_append]
    omega
  have hwait : waitCount k (deleteLocksOfOwner s.extList transport owner) = waitCount k s.extList := by
    apply waitCount_filter
    intro l hl hb
    by_contra hdel
    have hown : l.transport = transport ∧ l.owner = owner := by simpa using hdel
    have hcon := hcond h0 l hl hown.1 hown.2
    rw [hb] at hcon
    cases hcon
  show replyCount k s.replies + waitCount k (deleteLocksOfOwner s.extList transport owner) = _
  rw [hwait]
  exact hk

theorem section_accounted {s' : FcntlState} (hwf : WF s.extList)
    (hex : Exclusive s.extList) (hcond : a.KeepsWaiters s) (hacc : Accounted s)
    (h : a.step s = .ok s') : Accounted s' := by
  cases a with
  | enter c => exact enter_accounted hwf hex hcond hacc h
  | grant =>
    obtain ⟨xs, granted, hg, rfl⟩ := grant_ok h
    intro k
    have hcnt := grantBlockedLocks_count k hwf hcond hg
    have hk := hacc k
    show replyCount k (s.replies ++ granted) + waitCount k xs = if k < s.lkCalls then 1 else 0
    rw [replyCount_append, ← hk]
    omega

/-! ## No waiter is lost -/

/-- **No lost waiter.** In every run whose sections keep the waiters, each `lk` call was answered exactly
    once and nothing waits for it, or it was not answered and exactly one waiting lock carries its
    frame. -/
theorem fcntl_no_lost_waiter (as : List FcntlSection) (s : FcntlState)
    (hcond : Along FcntlSection.step (fun s a => a.KeepsWaiters s) FcntlState.init as) (hrun : fcntlRun as = .ok s) :
    ∀ k < s.lkCalls, (replyCount k s.replies = 1 ∧ waitCount k s.extList = 0) ∨
      (replyCount k s.replies = 0 ∧ waitCount k s.extList = 1) := by
  have hinit : WF FcntlState.init.extList ∧ Exclusive FcntlState.init.extList ∧ Accounted FcntlState.init := by
    refine ⟨?_, ?_, ?_⟩
    · intro l hl
      cases hl
    · intro a ha
      cases ha
    intro k
    rfl
  have key := run_invariant (I := fun s => WF s.extList ∧ Exclusive s.extList ∧ Accounted s)
    (fun _ _ _ hinv hc hs => ⟨section_wf hinv.1 hs, section_exclusive hinv.1 hinv.2.1 hc.touchesGranted hs,
      section_accounted hinv.1 hinv.2.1 hc hinv.2.2 hs⟩) hinit hcond hrun
  intro k hk
  have hcount := key.2.2 k
  rw [if_pos hk] at hcount
  omega

/-- In the handover the waiting call (number 1) is answered once, when the lock is passed on. -/
theorem fcntl_no_lost_waiter_handover : ∃ s, fcntlCalls handover = .ok s ∧ 1 < s.lkCalls ∧
    ((replyCount 1 s.replies = 1 ∧ waitCount 1 s.extList = 0) ∨
      (replyCount 1 s.replies = 0 ∧ waitCount 1 s.extList = 1)) := by
  have hidle : Along FcntlSection.step (fun s a => a.OwnerIdle s) FcntlState.init
      (handover.flatMap FcntlCall.sections) := by decide +kernel
  have hcond := hidle.mono fun _ _ h => h.keepsWaiters
  exact ⟨_, rfl, by decide, fcntl_no_lost_waiter _ _ hcond rfl 1 (by decide)⟩

/-- Owner 20 waits behind owner 10 and closes its file. -/
def flushWaiting : List FcntlCall := waiterBehindLock ++ [.flush 2 20 2]

/-- **A waiter is lost.** The `flush` frees the waiting lock; its call is never answered. -/
theorem flush_loses_waiter : ∃ s, fcntlCalls flushWaiting = .ok s ∧ s.lkCalls = 2 ∧
    replyCount 1 s.replies = 0 ∧ waitCount 1 s.extList = 0 :=
  ⟨_, rfl, by decide, by decide, by decide⟩

/-! ## No wake-up is lost: inserts that only merge -/

theorem not_grantable_iff : isLockGrantable xs l = false ↔ ∃ o ∈ xs, standsInWay l o = true := by
  simp [isLockGrantable]

/-- No waiting lock could be granted. -/
def NoneGrantable (xs : List PosixLock) : Prop :=
  ∀ w ∈ xs, w.blocked = true → isLockGrantable xs w = false
deriving Decidable

/-- `xs'` is `xs` with some locks of `lock`'s owner and type, and `lock` itself, merged into one granted
    lock `h` that covers them and nothing more. -/
structure MergedInto (xs : List PosixLock) (lock h : PosixLock) (rest : List PosixLock) : Prop where
  type : h.flType = lock.flType
  owner : sameOwner h lock = true
  granted : h.blocked = false
  kept : rest ⊆ xs
  merged : ∀ c ∈ xs, c ∈ rest ∨ (c.flType = h.flType ∧ sameOwner c h = true ∧ c.span ⊆ h.span)
  made : ∀ x ∈ h.span, x ∈ lock.span ∨ ∃ c ∈ xs, sameOwner c lock = true ∧ c.flType = lock.flType ∧ x ∈ c.span

/-- An insert that returns, and that first meets only locks of its own type, merges and nothing else: on
    the lock a merge builds, a split would go through the `NULL` links of `add_locks`. -/
theorem insertAndMerge_merged : ∀ {fuel : Nat} {xs xs' : List PosixLock} {lock : PosixLock} {li : Bool},
    lock.blocked = false → lock.flType ≠ .unlck →
    (li = true → ∀ c ∈ xs, sameOwner c lock = true → locksOverlap c lock = true → c.flType = lock.flType) →
    insertAndMerge fuel xs lock li = .ok xs' →
    ∃ h rest, xs' = rest ++ [h] ∧ lock.span ⊆ h.span ∧ MergedInto xs lock h rest := by
  intro fuel
  induction fuel with
  | zero =>
    intro xs xs' lock li _ _ _ h
    cases h
  | succ fuel ih =>
    intro xs xs' lock li hb ht htype h
    rcases insertAndMerge_cases h with ⟨_, rfl⟩ | ⟨hun, _⟩ |
      ⟨pre, conf, post, rfl, hov, hown, ⟨hct, hrec⟩ | ⟨hct, hli, _⟩⟩
    · refine ⟨lock, xs, rfl, subset_rfl, rfl, by simp [sameOwner], hb, fun _ hc => hc, ?_, ?_⟩
      · exact fun c hc => .inl hc
      · exact fun x hx => .inl hx
    · exact absurd hun ht
    · -- merge with `conf`, then go on with the hull
      obtain ⟨g, rest, heq, hcover, hm⟩ := ih (hull_blocked lock conf lock) ht (by simp) hrec
      have hgown : sameOwner g lock = true := sameOwner_trans hm.owner (sameOwner_hull _ _ _)
      have hlo : lock.span ⊆ (hull lock conf lock).span :=
        Set.Icc_subset_Icc (min_le_left _ _) (le_max_left _ _)
      have hco : conf.span ⊆ (hull lock conf lock).span :=
        Set.Icc_subset_Icc (min_le_right _ _) (le_max_right _ _)
      refine ⟨g, rest, heq, hlo.trans hcover, hm.type, hgown, hm.granted, ?_, ?_, ?_⟩
      · exact fun c hc => by
          have := hm.kept hc
          simp only [mem_append, mem_cons] at this ⊢
          tauto
      · intro c hc
        by_cases hcc : c = conf
        · right
          subst hcc
          rw [sameOwner_comm] at hgown
          exact ⟨hct.trans hm.type.symm, sameOwner_trans hown hgown, hco.trans hcover⟩
        apply hm.merged
        simp only [mem_append, mem_cons] at hc ⊢
        tauto
      intro x hx
      rcases hm.made x hx with hx | ⟨c, hc, hcown, hctype, hx⟩
      · rcases mem_span_hull hov hx with hx | hx
        · exact .inl hx
        · exact .inr ⟨conf, by simp, hown, hct, hx⟩
      have hcmem : c ∈ pre ++ conf :: post := by
        simp only [mem_append, mem_cons] at hc ⊢
        tauto
      exact .inr ⟨c, hcmem, sameOwner_trans hcown (sameOwner_hull _ _ _), hctype, hx⟩
    · exact absurd (htype hli conf (by simp) hown hov) hct

/-- A lock that was in the way of `w` still is when it is part of a merged lock. -/
theorem MergedInto.standsInWay {rest : List PosixLock} {lock h : PosixLock} (hwf : WF xs)
    (hm : MergedInto xs lock h rest) {w : PosixLock} (hw : w.Valid)
    (hstuck : isLockGrantable xs w = false) : isLockGrantable (rest ++ [h]) w = false := by
  obtain ⟨o, ho, hway⟩ := not_grantable_iff.mp hstuck
  apply not_grantable_iff.mpr
  rcases hm.merged o ho with hkept | ⟨htype, hown, hspan⟩
  · exact ⟨o, by simp [hkept], hway⟩
  refine ⟨h, by simp, ?_⟩
  simp only [GlusterFS.Locks.standsInWay, Bool.and_eq_true] at hway ⊢
  obtain ⟨⟨-, hov⟩, hconf, hdiff⟩ := hway
  obtain ⟨x, hxw, hxo⟩ := exists_mem_span hw (hwf o ho).1 hov
  refine ⟨⟨by simp [hm.granted], overlap_of_mem_span hxw (hspan hxo)⟩, ?_, ?_⟩
  · rw [← htype]
    exact hconf
  rw [← sameOwner_congr hown]
  exact hdiff

/-! ## No wake-up is lost: the pass -/

/-- **The pass can wake every waiter.** The waiters it skips really conflict with a granted lock, and a
    waiter it retries overlaps no waiter of its owner of another type. -/
@[mk_iff] structure PassWakes (xs : List PosixLock) : Prop where
  skipped : ∀ w ∈ xs, w.blocked = true → retried xs w = false → isLockGrantable xs w = false
  retry : ∀ t ∈ xs, retried xs t = true → ∀ w ∈ xs, w.blocked = true → sameOwner w t = true →
    locksOverlap w t = true → w.flType = t.flType

/-- What holds of the list `e` and the locks `tmp` still to retry. -/
structure Waking (e tmp : List PosixLock) : Prop where
  wf : WF (e ++ tmp)
  stuck : NoneGrantable e
  types : ∀ t ∈ tmp, ∀ l ∈ e ++ tmp, sameOwner l t = true → locksOverlap l t = true → l.flType = t.flType

theorem Waking.of_passWakes (hwf : WF xs) (h : PassWakes xs) :
    Waking (xs.filter fun l => !retried xs l) (xs.filter (retried xs)) := by
  have hmem : ∀ {l : PosixLock}, l ∈ (xs.filter fun l => !retried xs l) ++ xs.filter (retried xs) → l ∈ xs := by
    intro l hl
    rcases mem_append.mp hl with hl | hl
    all_goals exact (mem_filter.mp hl).1
  refine ⟨fun l hl => hwf l (hmem hl), ?_, ?_⟩
  · intro w hw hb
    obtain ⟨hw, hnr⟩ := mem_filter.mp hw
    obtain ⟨o, ho, hway⟩ := not_grantable_iff.mp (h.skipped w hw hb (by simpa using hnr))
    -- what stands in the way is granted, so the pass leaves it on the list
    have hob : o.blocked = false := by
      simp only [standsInWay, Bool.and_eq_true] at hway
      simpa using hway.1.1
    exact not_grantable_iff.mpr ⟨o, mem_filter.mpr ⟨ho, by simp [retried, hob]⟩, hway⟩
  intro t ht l hl hown hov
  obtain ⟨ht, hr⟩ := mem_filter.mp ht
  cases hb : l.blocked with
  | true => exact h.retry t ht hr l (hmem hl) hb hown hov
  | false =>
    rw [firstOverlap_none (retried_iff.mp hr).2 (hmem hl) hb] at hov
    cases hov

theorem Waking.requeue {e tmp : List PosixLock} (h : Waking e (l :: tmp))
    (hg : isLockGrantable e l = false) : Waking (e ++ [l.requeued]) tmp := by
  have hgrow : ∀ {w : PosixLock}, isLockGrantable e w = false → isLockGrantable (e ++ [l.requeued]) w = false := by
    intro w hw
    obtain ⟨o, ho, hway⟩ := not_grantable_iff.mp hw
    exact not_grantable_iff.mpr ⟨o, by simp [ho], hway⟩
  -- the requeued lock has the range, the type and the owner of the lock taken off
  have hmem : ∀ {x : PosixLock}, x ∈ (e ++ [l.requeued]) ++ tmp → x ∈ e ++ l :: tmp ∨ x = l.requeued := by
    intro x hx
    simp only [mem_append, mem_cons, not_mem_nil, or_false] at hx ⊢
    tauto
  refine ⟨?_, ?_, ?_⟩
  · intro x hx
    rcases hmem hx with hx | rfl
    · exact h.wf x hx
    · exact h.wf l (by simp)
  · intro w hw hb
    rcases mem_append.mp hw with hw | hw
    · exact hgrow (h.stuck w hw hb)
    rw [mem_singleton.mp hw]
    exact hgrow (w := l.requeued) hg
  intro t ht x hx hown hov
  rcases hmem hx with hx | rfl
  · exact h.types t (by simp [ht]) x hx hown hov
  · exact h.types t (by simp [ht]) l (by simp) hown hov

theorem Waking.grant {e e' tmp : List PosixLock} (h : Waking e (l :: tmp))
    (hi : insertLock e l.admitted = .ok e') : Waking e' tmp := by
  have hwfe : WF e := h.wf.subset (by simp)
  have hl := h.wf l (by simp)
  have hb : l.admitted.blocked = false := rfl
  obtain ⟨g, rest, rfl, -, hm⟩ := insertAndMerge_merged hb hl.2
    (fun _ c hc hown hov => h.types l (by simp) c (by simp [hc]) hown hov) hi
  have hwf' : WF (rest ++ [g]) := insertLock_wf hwfe (show l.admitted.Valid from hl.1) hi
  refine ⟨?_, ?_, ?_⟩
  · intro x hx
    rcases mem_append.mp hx with hx | hx
    · exact hwf' x hx
    · exact h.wf x (by simp [hx])
  · intro w hw hb
    have hwr : w ∈ rest := by
      rcases mem_append.mp hw with hw | hw
      · exact hw
      rw [mem_singleton.mp hw, hm.granted] at hb
      cases hb
    exact hm.standsInWay hwfe (hwf' w hw).1 (h.stuck w (hm.kept hwr) hb)
  intro t ht x hx hown hov
  have htypes := h.types t (by simp [ht])
  simp only [append_assoc, mem_append, mem_cons, not_mem_nil, or_false] at hx
  rcases hx with hx | rfl | hx
  · exact htypes x (by simp [hm.kept hx]) hown hov
  · -- `t` overlaps the merged lock, hence one of the locks it was made of
    have htv : t.Valid := (h.wf t (by simp [ht])).1
    obtain ⟨y, hyx, hyt⟩ := exists_mem_span (hwf' x (by simp)).1 htv hov
    have hlt : ∀ {c : PosixLock}, sameOwner c l.admitted = true → sameOwner c t = true := by
      intro c hc
      have hxl := hm.owner
      rw [sameOwner_comm] at hxl
      exact sameOwner_trans (sameOwner_trans hc hxl) hown
    rcases hm.made y hyx with hy | ⟨c, hc, hcown, hctype, hy⟩
    · rw [hm.type]
      exact htypes l (by simp) (hlt (by simp [sameOwner, PosixLock.admitted]))
        (overlap_of_mem_span hy hyt)
    rw [hm.type, ← hctype]
    exact htypes c (by simp [hc]) (hlt hcown) (overlap_of_mem_span hy hyt)
  · exact htypes x (by simp [hx]) hown hov

/-- **No lost wake-up.** In every reachable state, a grant pass that can wake every waiter leaves no
    waiting lock that `__is_lock_grantable` would let through. -/
theorem fcntl_no_lost_wakeup (as : List FcntlSection) (s s' : FcntlState) (hrun : fcntlRun as = .ok s)
    (hcond : PassWakes s.extList) (hpass : FcntlSection.step s .grant = .ok s') : NoneGrantable s'.extList := by
  obtain ⟨xs, granted, hg, rfl⟩ := grant_ok hpass
  have hwf : WF s.extList := fcntlRun_wf hrun
  have key := grantLoop_rule (J := fun e tmp _ => Waking e tmp)
    (fun hJ _ hi => hJ.grant hi) (fun hJ hgr => hJ.requeue hgr) (Waking.of_passWakes hwf hcond) hg
  exact key.stuck

instance (xs : List PosixLock) : Decidable (PassWakes xs) := decidable_of_iff' _ (passWakes_iff xs)

/-- The pass after owner 10's unlock, in the handover. -/
theorem fcntl_no_lost_wakeup_handover : ∃ s s', fcntlRun ((handover.flatMap FcntlCall.sections).take 5) = .ok s ∧
    (s.extList.map fun l => (l.owner, l.blocked)) = [(20, true)] ∧
    FcntlSection.step s .grant = .ok s' ∧ NoneGrantable s'.extList := by
  obtain ⟨s, hs⟩ : ∃ s, fcntlRun ((handover.flatMap FcntlCall.sections).take 5) = .ok s := ⟨_, rfl⟩
  have hwaits : (s.extList.map fun l => (l.owner, l.blocked)) = [(20, true)] ∧ PassWakes s.extList := by
    cases hs
    decide
  obtain ⟨s', hs'⟩ : ∃ s', FcntlSection.step s .grant = .ok s' := by
    cases hs
    exact ⟨_, rfl⟩
  exact ⟨s, s', hs, hwaits.1, hs', fcntl_no_lost_wakeup _ s s' hs hwaits.2 hs'⟩

/-- Owner 10 writes bytes 0 to 5 and owner 40 reads bytes 6 to 10 when owner 20 asks to read bytes 0 to
    10; then owner 10 unlocks. -/
def readerBehindReader : List FcntlCall :=
  [.lk (lkRequest 1 10 .wrlck 0 6 (by decide)) .setlk, .lk (lkRequest 4 40 .rdlck 6 5 (by decide)) .setlk,
   .lk (lkRequest 2 20 .rdlck 0 11 (by decide)) .setlkw, .lk (lkRequest 1 10 .unlck 0 6 (by decide)) .setlk]

/-- **A wake-up is lost.** Only readers are left, but the waiting read lock overlaps the granted one, so
    the pass does not retry it. -/
theorem reader_not_woken : ∃ s, fcntlCalls readerBehindReader = .ok s ∧
    (s.extList.map fun l => (l.owner, l.flType, l.blocked)) =
      [(40, .rdlck, false), (20, .rdlck, true)] ∧ ¬ NoneGrantable s.extList :=
  ⟨_, rfl, by decide, by decide⟩

/-! ## `F_GETLK` -/

end GlusterFS.Locks
