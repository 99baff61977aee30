import GlusterFS.Locks.Correctness.InodelkExclusion

/-!
# `Locks.Correctness.InodelkReplies` — every `inodelk` call is answered once, or waits

For each call, count its answers and the queued requests that carry its frame, over all domains: the sum
should be one, in every reachable state. Two exits of the code break it.

* `pl_common_inodelk` takes every failure of a blocking request for "it waits" (`unanswered_unlock`): an
  `F_SETLKW` unlock that matches no held lock returns `-EINVAL`, is not queued, and is never answered.
* `release_inode_locks_of_transport` gives up when `inode_path` fails: the request it has just taken off
  the queue is not answered, and the locks it has not reached stay.

Without these two the count is exact (`inodelk_answered_once`), and a release leaves no lock of the
transport.
-/

namespace GlusterFS.Locks

open Transition WaitQueue List

variable {trans : Nat} {path : Nat → Bool} {d : Dom}

/-! ## Counts -/

variable (k : Nat)

/-- The answers given to the `k`-th `inodelk` call. -/
def answerCount (rs : List LockReply) : Nat := rs.countP fun r => r.frame.id == k

/-- The queued requests that carry the frame of the `k`-th `inodelk` call. -/
def queueCount (ws : List BlockedInodeLock) : Nat := ws.countP fun w => w.stamp == k

theorem answerCount_append (rs rs' : List LockReply) :
    answerCount k (rs ++ rs') = answerCount k rs + answerCount k rs' := countP_append

theorem queueCount_append (ws ws' : List BlockedInodeLock) :
    queueCount k (ws ++ ws') = queueCount k ws + queueCount k ws' := countP_append

theorem answerCount_singleton (r : LockReply) : answerCount k [r] = (r.frame.id == k).toNat := by
  rw [answerCount, countP_singleton]
  cases hk : r.frame.id == k <;> rfl

theorem queueCount_singleton (w : BlockedInodeLock) : queueCount k [w] = (w.stamp == k).toNat := by
  rw [queueCount, countP_singleton]
  cases hk : w.stamp == k <;> rfl

theorem queueCount_split (p : BlockedInodeLock → Bool) (ws : List BlockedInodeLock) :
    queueCount k (ws.filter p).reverse + queueCount k (ws.filter fun w => !p w) = queueCount k ws := by
  have hperm := (filter_append_perm p ws).countP_eq fun w => w.stamp == k
  rw [countP_append] at hperm
  have hrev : queueCount k (ws.filter p).reverse = queueCount k (ws.filter p) := countP_reverse
  rw [hrev]
  exact hperm

theorem answerCount_map (ws : List BlockedInodeLock) (opRet : Int) (opErrno : Errno) :
    answerCount k (ws.map fun w => ⟨w.frame, opRet, opErrno⟩) = queueCount k ws := by
  rw [answerCount, countP_map]
  rfl

theorem grantBlockedInodeLocks_count (raw : RawFields) (d : Dom) (k : Nat) :
    answerCount k (inodelkGrantReplies (grantBlockedInodeLocks raw d).2) +
      queueCount k (grantBlockedInodeLocks raw d).1.blockedInodelks = queueCount k d.blockedInodelks := by
  rw [inodelkGrantReplies, answerCount_map, grantBlockedInodeLocks_eq]
  have hperm : ((pass (inodelkJudge raw d) BlockedInodeLock.toInodeLock d.inodeQueue).2 ++
      (pass (inodelkJudge raw d) BlockedInodeLock.toInodeLock d.inodeQueue).1.waiting).Perm
      d.blockedInodelks := pass_perm (inodelkJudge_ne_drop raw d)
  have hcnt := hperm.countP_eq fun w => w.stamp == k
  rw [countP_append] at hcnt
  exact hcnt

/-! ## Releasing a transport -/

/-- When `inode_path` succeeds for each of them, the first loop takes the transport's requests off. -/
theorem releaseBlocked_eq : ∀ {ls : List BlockedInodeLock} (k : Nat) (released : List BlockedInodeLock),
      (∀ j, k ≤ j → j < k + ls.countP (fun l => l.transport == trans) → path j = true) →
      releaseBlocked trans path k ls released = (ls.filter fun l => l.transport != trans,
          (ls.filter fun l => l.transport == trans).reverse ++ released,
          some (k + ls.countP fun l => l.transport == trans)) := by
  intro ls
  induction ls with
  | nil =>
    intro k released _
    rfl
  | cons l ls ih =>
    intro k released hpath
    unfold releaseBlocked
    by_cases hl : l.transport = trans
    · rw [countP_cons_of_pos (by simpa using hl)] at hpath ⊢
      have hk : path k = true := hpath k (Nat.le_refl k) (by omega)
      have hrest := ih (k + 1) (l :: released) fun j hj hlt => hpath j (by omega) (by omega)
      rw [if_pos hl, if_pos hk, hrest, filter_cons_of_neg (by simpa using hl), filter_cons_of_pos (by simpa using hl)]
      simp only [reverse_cons, append_assoc, singleton_append]
      congr 3
      omega
    rw [countP_cons_of_neg (by simpa using hl)] at hpath ⊢
    rw [if_neg hl, ih k released hpath, filter_cons_of_pos (by simpa using hl),
      filter_cons_of_neg (by simpa using hl)]

/-- The last `inode_path` of the second loop may fail: its lock is gone by then. -/
theorem releaseHeld_eq : ∀ {ls : List InodeLock} {k : Nat},
      (∀ j, k ≤ j → j + 1 < k + ls.countP (fun l => l.transport == trans) → path j = true) →
      releaseHeld trans path k ls = ls.filter fun l => l.transport != trans := by
  intro ls
  induction ls with
  | nil =>
    intro k _
    rfl
  | cons l ls ih =>
    intro k hpath
    unfold releaseHeld
    by_cases hl : l.transport = trans
    · rw [countP_cons_of_pos (by simpa using hl)] at hpath
      rw [if_pos hl, filter_cons_of_neg (by simpa using hl)]
      by_cases hlast : ls.countP (fun l => l.transport == trans) = 0
      · -- none of the transport's locks are left
        have hnone : (ls.filter fun l => l.transport != trans) = ls := by
          rw [filter_eq_self]
          intro x hx
          have hx' := countP_eq_zero.mp hlast x hx
          simpa using hx'
        have hrest := ih (k := k + 1) (fun j _ hlt => by omega)
        rw [hrest, hnone]
        split <;> rfl
      have hk : path k = true := hpath k (Nat.le_refl k) (by omega)
      rw [if_pos hk]
      exact ih fun j hj hlt => hpath j (by omega) (by omega)
    rw [countP_cons_of_neg (by simpa using hl)] at hpath
    rw [if_neg hl, filter_cons_of_pos (by simpa using hl), ih hpath]

/-- The number of a transport's requests in the queue. -/
def transWaiting (d : Dom) (trans : Nat) : Nat := d.blockedInodelks.countP fun l => l.transport == trans

/-- The number of locks a transport holds. -/
def transHeld (d : Dom) (trans : Nat) : Nat := d.inodelkList.countP fun l => l.transport == trans

/-- `inode_path` succeeds wherever the release needs it. -/
def PathsFound (d : Dom) (trans : Nat) (path : Nat → Bool) : Prop :=
  ∀ j, j < transWaiting d trans ∨ j + 1 < transWaiting d trans + transHeld d trans → path j = true

theorem releaseInodeLocksOfTransport_eq (h : PathsFound d trans path) : releaseInodeLocksOfTransport d trans path =
      (d.withInodeQueue ⟨d.inodelkList.filter fun l => l.transport != trans,
        d.blockedInodelks.filter fun l => l.transport != trans⟩,
        (d.blockedInodelks.filter fun l => l.transport == trans).reverse) := by
  unfold releaseInodeLocksOfTransport
  rw [releaseBlocked_eq 0 [] fun j _ hlt => h j (.inl (by simpa [transWaiting] using hlt))]
  have hheld : releaseHeld trans path (0 + transWaiting d trans) d.inodelkList =
      d.inodelkList.filter fun l => l.transport != trans :=
    releaseHeld_eq fun j _ hlt => h j (.inr (by rw [zero_add] at hlt; exact hlt))
  simp only [append_nil]
  unfold transWaiting at hheld
  rw [hheld]
  rfl

/-! ## One call -/

/-- **Every exit of the call answers.** A release finds every path it needs, and a blocking unlock
    matches a held lock. -/
def InodelkCall.Answers (c : InodelkCall) (d : Dom) : Prop :=
  match c.kind with
  | .release => PathsFound d c.trans c.path
  | .setlk => c.cmd = .setlkw → c.flock.lType = .unlck → (findMatchingInodelk d c.reqlock).isSome = true
  | .noMemory => True
  | .notSupported => True

variable {c : InodelkCall}

/-- What the section of `pl_inode_setlk` leaves to be answered: the request is queued exactly when it
    failed and may block. -/
theorem inodeSetlkSection_count (n k : Nat) (hcond : c.cmd = .setlkw → c.flock.lType = .unlck →
      (findMatchingInodelk d c.reqlock).isSome = true) :
    queueCount k (inodeSetlkSection c.raw d c.reqlock (c.blockAs n)).2.blockedInodelks =
      queueCount k d.blockedInodelks +
        if (inodeSetlkSection c.raw d c.reqlock (c.blockAs n)).1 ≠ .ok ∧ (c.blockAs n).isSome then (n == k).toNat
        else 0 := by
  unfold inodeSetlkSection
  by_cases ht : c.reqlock.flType = .unlck
  · rw [if_neg (by simpa using ht)]
    unfold inodeUnlockLock
    cases hf : findMatchingInodelk d c.reqlock with
    | some conf => simp
    | none =>
      -- the unlock fails; it must not be a blocking one
      have hcmd : c.cmd ≠ .setlkw := by
        intro hcmd
        have hsome := hcond hcmd ht
        rw [hf] at hsome
        cases hsome
      simp [InodelkCall.blockAs, hcmd]
  rw [if_pos ht]
  unfold lockInodelk
  cases hadm : inodelkAdmits c.raw d c.reqlock with
  | true => simp
  | false =>
    cases hb : c.blockAs n with
    | none => simp
    | some frame =>
      have hfr : frame = c.frame n := by
        unfold InodelkCall.blockAs at hb
        split at hb
        · exact (Option.some.inj hb).symm
        · cases hb
      rw [hfr]
      simp only [Bool.false_eq_true, if_false, queueCount_append, queueCount_singleton]
      simp [BlockedInodeLock.stamp, InodelkCall.frame]

/-- **One call keeps the count**: it adds its own answer, or its own request to the queue. -/
theorem inodelk_onDom_count (n k : Nat) (hcond : c.Answers d) :
    answerCount k (c.onDom n d).2 + queueCount k (c.onDom n d).1.blockedInodelks =
      queueCount k d.blockedInodelks + (n == k).toNat := by
  have hfr : (c.frame n).id = n := rfl
  unfold InodelkCall.Answers at hcond
  unfold InodelkCall.onDom
  cases hk : c.kind with
  | noMemory | notSupported =>
    dsimp only
    rw [answerCount_singleton, hfr]
    omega
  | release =>
    rw [hk] at hcond
    dsimp only
    rw [releaseInodeLocksOfTransport_eq hcond]
    have hpass := grantBlockedInodeLocks_count c.raw
      (d.withInodeQueue ⟨d.inodelkList.filter fun l => l.transport != c.trans,
        d.blockedInodelks.filter fun l => l.transport != c.trans⟩) k
    have hsplit : queueCount k (d.blockedInodelks.filter fun l => l.transport == c.trans).reverse +
        queueCount k (d.blockedInodelks.filter fun l => l.transport != c.trans) =
        queueCount k d.blockedInodelks := queueCount_split k _ _
    rw [answerCount_append, answerCount_append, answerCount_map, answerCount_singleton, hfr]
    simp only [Dom.withInodeQueue] at hpass ⊢
    omega
  | setlk =>
    rw [hk] at hcond
    have hsec := inodeSetlkSection_count n k hcond
    have hpass := grantBlockedInodeLocks_count c.raw
      (inodeSetlkSection c.raw d c.reqlock (c.blockAs n)).2 k
    dsimp only
    rw [answerCount_append]
    by_cases hret : (inodeSetlkSection c.raw d c.reqlock (c.blockAs n)).1 = .ok
    · rw [if_pos hret, answerCount_singleton, hfr]
      rw [if_neg (by simp [hret])] at hsec
      omega
    rw [if_neg hret]
    by_cases hb : (c.blockAs n).isSome = true
    · rw [if_pos hb]
      rw [if_pos ⟨hret, hb⟩] at hsec
      have hnil : answerCount k [] = 0 := rfl
      omega
    rw [if_neg hb, answerCount_singleton, hfr]
    rw [if_neg (by simp [hb])] at hsec
    omega

/-! ## Runs -/

/-- The queued requests of call `k`, over all domains. -/
def waitingCount (s : LockState) : Nat :=
  domSum (fun d => queueCount k d.blockedInodelks) s.domList

/-- Every `inodelk` call made so far was answered once, or one request waits for it. -/
def InodelkAccounted (s : LockState) : Prop :=
  ∀ k, answerCount k s.inodelkReplies + waitingCount k s = if k < s.inodelkCalls then 1 else 0

/-- **Every exit of the call answers**: the condition on `inodelk` calls that get as far as their domain;
    `entrylk` calls are free. -/
def LockCall.Answers (s : LockState) : LockCall → Prop
  | .inodelk c => 0 ≤ c.flock.lStart → 0 ≤ c.flock.lLen → c.pinodeMem = true → c.Answers (s.dom c.volume)
  | .entrylk _ => True

/-- A call on one domain changes the sum over the domains by what it changes there. -/
theorem waitingCount_putDomain (domList : List Dom) {volume : String} (hd : d.domain = volume) :
    domSum (fun d => queueCount k d.blockedInodelks) (putDomain domList d) +
        queueCount k (domOf domList volume).blockedInodelks =
      domSum (fun d => queueCount k d.blockedInodelks) domList + queueCount k d.blockedInodelks := by
  subst hd
  exact domSum_putDomain rfl

theorem step_accounted {s s' : LockState} {a : LockCall} (hcond : a.Answers s)
    (hacc : InodelkAccounted s) (h : a.step s = .ok s') : InodelkAccounted s' := by
  intro k
  have hk := hacc k
  unfold waitingCount at hk
  rcases step_cases h with ⟨c, rfl, hstart, hlen, hmem, rfl⟩ | ⟨c, rfl, rfl⟩ |
    ⟨c, r, rfl, hr, -, rfl⟩ | ⟨c, r, rfl, -, rfl⟩
  · show answerCount k (s.inodelkReplies ++ _) + domSum _ (putDomain s.domList _) =
      if k < s.inodelkCalls + 1 then 1 else 0
    have hcnt := inodelk_onDom_count s.inodelkCalls k (hcond hstart hlen hmem)
    have hdomain := inodelk_onDom_domain c s.inodelkCalls (s.dom c.volume)
    have hsum := waitingCount_putDomain k s.domList (hdomain.trans (domOf_domain _ _))
    rw [answerCount_append, count_next hk]
    unfold LockState.dom at hcnt hsum ⊢
    omega
  · show answerCount k s.inodelkReplies + domSum _ (putDomain s.domList _) = if k < s.inodelkCalls then 1 else 0
    have hdomain := entrylk_onDom_domain c s.entrylkCalls (s.dom c.volume)
    have hsum := waitingCount_putDomain k s.domList (hdomain.trans (domOf_domain _ _))
    obtain ⟨q, hq⟩ := entrylk_onDom_frame c s.entrylkCalls (s.dom c.volume)
    have hsame : (c.onDom s.entrylkCalls (s.dom c.volume)).1.blockedInodelks = (s.dom c.volume).blockedInodelks := by
      rw [hq]
      rfl
    rw [hsame] at hsum
    rw [← hk]
    unfold LockState.dom at hsum ⊢
    omega
  · show answerCount k (s.inodelkReplies ++ [r]) + domSum _ s.domList = if k < s.inodelkCalls + 1 then 1 else 0
    have hid : r.frame.id = s.inodelkCalls := by
      rw [hr]
      rfl
    rw [answerCount_append, answerCount_singleton, hid, count_next hk]
    omega
  · exact hk

/-! ## A release leaves nothing -/

/-- No lock and no request of the transport is left in the domain. -/
def NoneOfTransport (d : Dom) (trans : Nat) : Prop :=
  (∀ l ∈ d.inodelkList, l.transport ≠ trans) ∧ ∀ w ∈ d.blockedInodelks, w.transport ≠ trans

theorem release_leaves_none {n m : Nat} (hst : d.Stamped n m)
    (hk : c.kind = .release) (hpath : PathsFound d c.trans c.path) : NoneOfTransport (c.onDom n d).1 c.trans := by
  have henter : c.enter n d = d.withInodeQueue ⟨d.inodelkList.filter fun l => l.transport != c.trans,
      d.blockedInodelks.filter fun l => l.transport != c.trans⟩ := by
    unfold InodelkCall.enter
    rw [hk]
    rw [releaseInodeLocksOfTransport_eq hpath]
  have hspec := inodelk_pass_spec c.raw (inodelk_enter_stamped c hst)
  -- the queue the pass starts from has no request of the transport, so neither grants nor keeps one
  have hqueue : ∀ w ∈ (c.enter n d).blockedInodelks, w.transport ≠ c.trans := by
    intro w hw
    rw [henter] at hw
    simpa using (mem_filter.mp hw).2
  rw [onDom_of_passes (.inr hk)]
  refine ⟨?_, fun w hw => hqueue w (hspec.kept.subset hw)⟩
  intro l hl
  have hheld : l ∈ ((grantBlockedInodeLocks c.raw (c.enter n d)).2.map BlockedInodeLock.toInodeLock) ++
      (c.enter n d).inodelkList := hspec.held ▸ hl
  rcases mem_append.mp hheld with hg | hkept
  · obtain ⟨w, hw, rfl⟩ := mem_map.mp hg
    exact hqueue w (hspec.taken.subset (mem_reverse.mpr hw))
  rw [henter] at hkept
  simpa using (mem_filter.mp hkept).2

/-- **Answered once, or waiting.** In every run whose `inodelk` calls all leave through an exit that
    answers, each call was answered exactly once and nothing waits for it, or it was not answered and
    exactly one request in the queues carries its frame; and a release that finds the paths it needs
    leaves no lock of its transport in the domain. -/
theorem inodelk_answered_once (calls : List LockCall) (s : LockState)
    (hcond : Along LockCall.step (fun s a => a.Answers s) LockState.init calls) (hrun : lockRun calls = .ok s) :
    (∀ k < s.inodelkCalls, (answerCount k s.inodelkReplies = 1 ∧ waitingCount k s = 0) ∨
      (answerCount k s.inodelkReplies = 0 ∧ waitingCount k s = 1)) ∧
    ∀ (c : InodelkCall) (s' : LockState), c.pid = 0 → 0 ≤ c.flock.lStart → 0 ≤ c.flock.lLen →
      c.pinodeMem = true → PathsFound (s.dom c.volume) c.trans c.path →
      plCommonInodelk s c = .ok s' → NoneOfTransport (s'.dom c.volume) c.trans := by
  constructor
  · have hacc : InodelkAccounted s :=
      run_invariant (fun _ _ _ hinv hc hs => step_accounted hc hinv hs) (fun _ => rfl) hcond hrun
    intro k hk
    have hcount := hacc k
    rw [if_pos hk] at hcount
    omega
  intro c s' hpid hstart hlen hmem hpath hstep
  have hkind : c.kind = .release := by
    unfold InodelkCall.kind
    exact if_pos hpid
  rcases step_cases (a := .inodelk c) hstep with ⟨c', hc, -, -, -, rfl⟩ | ⟨c', hc, -⟩ |
    ⟨c', r, hc, -, hearly, -⟩ | ⟨c', r, hc, -⟩
  · cases hc
    have hdomain : (c.onDom s.inodelkCalls (s.dom c.volume)).1.domain = c.volume :=
      (inodelk_onDom_domain c _ _).trans (domOf_domain _ _)
    have hback : (s.inodelkDone (putDomain s.domList (c.onDom s.inodelkCalls (s.dom c.volume)).1)
        (c.onDom s.inodelkCalls (s.dom c.volume)).2).dom c.volume = (c.onDom s.inodelkCalls (s.dom c.volume)).1 := by
      have hself := domOf_putDomain_self s.domList (c.onDom s.inodelkCalls (s.dom c.volume)).1
      rw [hdomain] at hself
      exact hself
    rw [hback]
    exact release_leaves_none (lockRun_dom_stamped hrun c.volume) hkind hpath
  · cases hc
  · cases hc
    exact absurd hkind (hearly hstart hlen hmem)
  · cases hc

/-- The writer's client goes away: a call with `pid` zero. -/
def releaseWriter : InodelkCall := { inodelkCall .setlk .unlck 0 0 1 100 with pid := 0 }

/-- The state it leaves: the waiter holds its lock, and call 1 has been answered. -/
def releasedState : LockState :=
  { domList := [{ waiterDom with inodelkList := [⟨.wrlck, 5, 15, 2, 200⟩], blockedInodelks := [] }], inodelkCalls := 3,
    inodelkReplies := [⟨⟨0, 1, 1, 0, 100⟩, 0, .ok⟩, ⟨⟨1, 2, 1, 0, 200⟩, 0, .ok⟩, ⟨⟨2, 1, 0, 0, 100⟩, -1, .ok⟩],
    entrylkCalls := 0, entrylkReplies := [] }

theorem inodelk_answered_once_waiter : lockRun waiterBehindWriter = .ok waiterState ∧
    plCommonInodelk waiterState releaseWriter = .ok releasedState ∧
    ((answerCount 1 waiterState.inodelkReplies = 1 ∧ waitingCount 1 waiterState = 0) ∨
      (answerCount 1 waiterState.inodelkReplies = 0 ∧ waitingCount 1 waiterState = 1)) ∧
    NoneOfTransport (releasedState.dom "replicate") 1 := by
  have hcond : Along LockCall.step (fun s a => a.Answers s) LockState.init waiterBehindWriter := by
    refine (along_cons_ok rfl).mpr ⟨?_, (along_cons_ok rfl).mpr ⟨?_, trivial⟩⟩
    · intro _ _ _ hcmd
      cases hcmd
    intro _ _ _ _ htype
    cases htype
  obtain ⟨honce, hnone⟩ := inodelk_answered_once waiterBehindWriter waiterState hcond rfl
  exact ⟨rfl, rfl, honce 1 (by decide),
    hnone releaseWriter releasedState rfl (by decide) (by decide) rfl (fun _ _ => rfl) rfl⟩

/-- A blocking unlock of bytes nobody holds. -/
def strayUnlock : InodelkCall := inodelkCall .setlkw .unlck 0 11 1 100

/-- The state it leaves: a new, empty domain, and no answer. -/
def strayState : LockState :=
  { domList := [allocateDomain "replicate"], inodelkCalls := 1, inodelkReplies := [],
    entrylkCalls := 0, entrylkReplies := [] }

/-- **A call is never answered.** The unlock fails, is not queued, and its frame is dropped. -/
theorem unanswered_unlock : lockRun [.inodelk strayUnlock] = .ok strayState ∧
    0 < strayState.inodelkCalls ∧ answerCount 0 strayState.inodelkReplies = 0 ∧ waitingCount 0 strayState = 0 :=
  ⟨rfl, by decide, rfl, rfl⟩

end GlusterFS.Locks
