import GlusterFS.Locks.Internal
import GlusterFS.Lib.WaitQueue

/-!
# `Locks.Queues` — the two grant passes are passes over a wait queue

The inode locks and the entry locks of a domain are two wait queues: `inodelkJudge` and `entrylkJudge` are
the decisions of `__lock_inodelk` and `__lock_name`, and the loops of the source are `WaitQueue.pass`. The
frame of a waiting request carries the number of its call, which is its stamp: every request is queued with
a number larger than those before it, and a pass only thins the queue out, so the stamps increase along the
queue in every reachable state (`Stamped`).
-/

namespace GlusterFS.Locks

open WaitQueue BlockedInodeLock BlockedEntryLock

variable {s : LockState} {m n : Nat}

/-! ## Inode locks -/

variable (raw : RawFields)

/-- What `__lock_inodelk` decides about a request that may block. -/
def inodelkJudge (d : Dom) (held : List InodeLock) (waiting : List BlockedInodeLock) (w : BlockedInodeLock) : Verdict :=
  if inodelkAdmits raw { d with inodelkList := held, blockedInodelks := waiting } w.toInodeLock then
    .grant
  else .wait

def Dom.inodeQueue (d : Dom) : State InodeLock BlockedInodeLock := ⟨d.inodelkList, d.blockedInodelks⟩

def Dom.withInodeQueue (d : Dom) (q : State InodeLock BlockedInodeLock) : Dom :=
  { d with inodelkList := q.held, blockedInodelks := q.waiting }

/-- The number of the call a request waits for. -/
def BlockedInodeLock.stamp (w : BlockedInodeLock) : Nat := w.frame.id

theorem inodelkJudge_ne_drop (d : Dom) (held : List InodeLock)
    (waiting : List BlockedInodeLock) (w : BlockedInodeLock) : inodelkJudge raw d held waiting w ≠ .drop := by
  unfold inodelkJudge
  split <;> simp

variable {d : Dom}

theorem inodelkJudge_grant_iff {raw : RawFields} {held : List InodeLock}
    {waiting : List BlockedInodeLock} {w : BlockedInodeLock} : inodelkJudge raw d held waiting w = .grant ↔
      inodelkAdmits raw (d.withInodeQueue ⟨held, waiting⟩) w.toInodeLock = true := by
  unfold inodelkJudge Dom.withInodeQueue
  split <;> simp_all

theorem grantInodelkLoop_eq (d0 : Dom) :
    ∀ (ws : List BlockedInodeLock) (q : State InodeLock BlockedInodeLock) (g : List BlockedInodeLock),
      grantInodelkLoop raw ws (d0.withInodeQueue q) g =
        (d0.withInodeQueue (retry (inodelkJudge raw d0) toInodeLock ws q g).1,
          (retry (inodelkJudge raw d0) toInodeLock ws q g).2) := by
  intro ws
  induction ws with
  | nil =>
    intro q g
    rfl
  | cons w ws ih =>
    intro q g
    rw [grantInodelkLoop, retry, lockInodelk]
    by_cases hadm : inodelkAdmits raw (d0.withInodeQueue q) w.toInodeLock = true
    · have hj : inodelkJudge raw d0 q.held q.waiting w = .grant := inodelkJudge_grant_iff.mpr hadm
      rw [if_pos hadm, hj]
      exact ih ⟨w.toInodeLock :: q.held, q.waiting⟩ (w :: g)
    have hj : inodelkJudge raw d0 q.held q.waiting w = .wait := by
      unfold inodelkJudge
      exact if_neg hadm
    rw [if_neg hadm, hj]
    exact ih ⟨q.held, q.waiting ++ [w]⟩ g

/-- **`__grant_blocked_inode_locks` is a pass.** -/
theorem grantBlockedInodeLocks_eq (d : Dom) : grantBlockedInodeLocks raw d =
      (d.withInodeQueue (pass (inodelkJudge raw d) toInodeLock d.inodeQueue).1,
        (pass (inodelkJudge raw d) toInodeLock d.inodeQueue).2) :=
  grantInodelkLoop_eq raw d d.blockedInodelks ⟨d.inodelkList, []⟩ []

/-- A call is its own change followed by a pass, or leaves the domain alone. -/
theorem inodelk_onDom_cases (c : InodelkCall) (n : Nat) (d : Dom) :
    (c.onDom n d).1 = (grantBlockedInodeLocks c.raw (c.enter n d)).1 ∨ (c.onDom n d).1 = d := by
  unfold InodelkCall.onDom InodelkCall.enter
  cases hk : c.kind with
  | release | setlk => exact .inl rfl
  | noMemory | notSupported => exact .inr rfl

theorem releaseBlocked_sublist (trans : Nat) (path : Nat → Bool) :
    ∀ (ls : List BlockedInodeLock) (k : Nat) (released : List BlockedInodeLock),
      (releaseBlocked trans path k ls released).1.Sublist ls := by
  intro ls
  induction ls with
  | nil =>
    intro k released
    exact List.Sublist.refl _
  | cons l ls ih =>
    intro k released
    unfold releaseBlocked
    split
    · split
      · exact (ih _ _).cons l
      · exact List.sublist_cons_self l ls
    · exact (ih k released).cons_cons l

theorem releaseHeld_sublist (trans : Nat) (path : Nat → Bool) :
    ∀ (ls : List InodeLock) (k : Nat), (releaseHeld trans path k ls).Sublist ls := by
  intro ls
  induction ls with
  | nil =>
    intro k
    exact List.Sublist.refl _
  | cons l ls ih =>
    intro k
    unfold releaseHeld
    split
    · split
      · exact (ih _).cons l
      · exact List.sublist_cons_self l ls
    · exact (ih k).cons_cons l

/-- What a call's own change can do to the two lists: push a lock, queue a request, or take locks and
    requests off. -/
theorem inodelk_enter_cases (c : InodelkCall) (n : Nat) (d : Dom) :
    (c.kind = .setlk ∧ c.reqlock.flType ≠ .unlck ∧ inodelkAdmits c.raw d c.reqlock = true ∧
      c.enter n d = d.withInodeQueue ⟨c.reqlock :: d.inodelkList, d.blockedInodelks⟩) ∨
    (c.kind = .setlk ∧ c.reqlock.flType ≠ .unlck ∧ inodelkAdmits c.raw d c.reqlock = false ∧
      c.cmd = .setlkw ∧ c.enter n d = d.withInodeQueue
        ⟨d.inodelkList, d.blockedInodelks ++ [{ c.reqlock with frame := c.frame n }]⟩) ∨
    (∃ held waiting, held.Sublist d.inodelkList ∧ waiting.Sublist d.blockedInodelks ∧
      c.enter n d = d.withInodeQueue ⟨held, waiting⟩) := by
  have hsame : d = d.withInodeQueue ⟨d.inodelkList, d.blockedInodelks⟩ := rfl
  unfold InodelkCall.enter
  cases hk : c.kind with
  | noMemory | notSupported => exact .inr (.inr ⟨_, _, List.Sublist.refl _, List.Sublist.refl _, hsame⟩)
  | release =>
    refine .inr (.inr ?_)
    have hsub := releaseBlocked_sublist c.trans c.path d.blockedInodelks 0 []
    dsimp only
    unfold releaseInodeLocksOfTransport
    split
    next blocked released heq =>
      rw [heq] at hsub
      exact ⟨_, _, List.Sublist.refl _, hsub, rfl⟩
    next blocked released k heq =>
      rw [heq] at hsub
      exact ⟨_, _, releaseHeld_sublist c.trans c.path d.inodelkList k, hsub, rfl⟩
  | setlk =>
    dsimp only
    unfold inodeSetlkSection
    by_cases ht : c.reqlock.flType = .unlck
    · rw [if_neg (by simpa using ht)]
      refine .inr (.inr ?_)
      unfold inodeUnlockLock
      cases hf : findMatchingInodelk d c.reqlock with
      | none => exact ⟨_, _, List.Sublist.refl _, List.Sublist.refl _, hsame⟩
      | some conf => exact ⟨_, _, List.eraseP_sublist, List.Sublist.refl _, rfl⟩
    rw [if_pos ht]
    unfold lockInodelk
    cases hadm : inodelkAdmits c.raw d c.reqlock with
    | true => exact .inl ⟨rfl, ht, rfl, rfl⟩
    | false =>
      unfold InodelkCall.blockAs
      by_cases hcmd : c.cmd = .setlkw
      · rw [if_pos hcmd]
        exact .inr (.inl ⟨rfl, ht, rfl, hcmd, rfl⟩)
      rw [if_neg hcmd]
      exact .inr (.inr ⟨_, _, List.Sublist.refl _, List.Sublist.refl _, hsame⟩)

/-! ## Entry locks -/

variable (mem : EntryMem)

/-- What `__lock_name` decides about a request that may block. -/
def entrylkJudge (d : Dom) (held : List EntryLock) (waiting : List BlockedEntryLock) (w : BlockedEntryLock) : Verdict :=
  match lockNameRet mem { d with entrylkList := held, blockedEntrylks := waiting } w.basename w.type
      w.frame with
  | .ok => .grant
  | .eagain => .wait
  | _ => .drop

def Dom.entryQueue (d : Dom) : State EntryLock BlockedEntryLock := ⟨d.entrylkList, d.blockedEntrylks⟩

def Dom.withEntryQueue (d : Dom) (q : State EntryLock BlockedEntryLock) : Dom :=
  { d with entrylkList := q.held, blockedEntrylks := q.waiting }

variable (w : BlockedEntryLock)

/-- The number of the call a request waits for. -/
def BlockedEntryLock.stamp : Nat := w.frame.id

/-- The lock `__lock_name` builds again for a waiting request is the lock that waited. -/
theorem newEntrylkLock_blocked : newEntrylkLock w.basename w.type w.frame = w.toEntryLock := by
  unfold newEntrylkLock
  rw [← w.trans_eq, ← w.owner_eq]

theorem blockedEntrylkLock_blocked : blockedEntrylkLock w.basename w.type w.frame = w := by
  obtain ⟨⟨basename, type, trans, owner⟩, frame, htrans, howner⟩ := w
  dsimp only at htrans howner
  subst htrans howner
  rfl

theorem grantEntrylkLoop_eq (d0 : Dom) :
    ∀ (ws : List BlockedEntryLock) (q : State EntryLock BlockedEntryLock) (g : List BlockedEntryLock),
      grantEntrylkLoop mem ws (d0.withEntryQueue q) g =
        (d0.withEntryQueue (retry (entrylkJudge mem d0) toEntryLock ws q g).1,
          (retry (entrylkJudge mem d0) toEntryLock ws q g).2) := by
  intro ws
  induction ws with
  | nil =>
    intro q g
    rfl
  | cons w ws ih =>
    intro q g
    have hjudge : entrylkJudge mem d0 q.held q.waiting w =
        match lockNameRet mem (d0.withEntryQueue q) w.basename w.type w.frame with
        | .ok => .grant
        | .eagain => .wait
        | _ => .drop := rfl
    rw [grantEntrylkLoop, retry, lockName, hjudge]
    cases hret : lockNameRet mem (d0.withEntryQueue q) w.basename w.type w.frame with
    | ok =>
      rw [newEntrylkLock_blocked]
      exact ih ⟨w.toEntryLock :: q.held, q.waiting⟩ (w :: g)
    | eagain =>
      rw [blockedEntrylkLock_blocked]
      exact ih ⟨q.held, q.waiting ++ [w]⟩ g
    | einval | enomem | enotsup => exact ih q g

/-- **`__grant_blocked_entry_locks` is a pass.** -/
theorem grantBlockedEntryLocks_eq (d : Dom) : grantBlockedEntryLocks mem d =
      (d.withEntryQueue (pass (entrylkJudge mem d) toEntryLock d.entryQueue).1,
        (pass (entrylkJudge mem d) toEntryLock d.entryQueue).2) :=
  grantEntrylkLoop_eq mem d d.blockedEntrylks ⟨d.entrylkList, []⟩ []

variable (c : EntrylkCall)

/-- The lock of a call that asks for one. -/
def EntrylkCall.newlock (n : Nat) : EntryLock := newEntrylkLock c.basename c.type (c.frame n)

/-- The held locks without the last one on `basename`. -/
def dropName (held : List EntryLock) (basename : Option String) : List EntryLock :=
  (held.reverse.eraseP fun l => namesEqual l.basename basename).reverse

theorem dropName_sublist (held : List EntryLock) (basename : Option String) :
    (dropName held basename).Sublist held := by
  have hsub := (List.eraseP_sublist (p := fun l : EntryLock => namesEqual l.basename basename)
    (l := held.reverse)).reverse
  rwa [List.reverse_reverse] at hsub

/-- `__unlock_name` does nothing, or takes a write lock with the name of the request off. -/
theorem unlockName_cases (d : Dom) (basename : Option String) (type : EntrylkType) :
    unlockName d basename type = (none, d) ∨ ∃ lock, findMostMatchingLock d.entrylkList basename = some lock ∧
      namesEqual lock.basename basename = true ∧ lock.type = .wrlck ∧ type = .wrlck ∧ unlockName d basename type =
        (some lock, d.withEntryQueue ⟨dropName d.entrylkList basename, d.blockedEntrylks⟩) := by
  unfold unlockName
  cases hf : findMostMatchingLock d.entrylkList basename with
  | none => exact .inl rfl
  | some lock =>
    dsimp only
    by_cases hm : (namesEqual lock.basename basename && lock.type == type) = true
    · rw [if_pos hm]
      obtain ⟨hname, htype⟩ : namesEqual lock.basename basename = true ∧ lock.type = type := by
        simpa using hm
      cases type with
      | wrlck => exact .inr ⟨lock, rfl, hname, htype, rfl, rfl⟩
      | rdlck => exact .inl rfl
    rw [if_neg hm]
    exact .inl rfl

def EntrylkCall.GrantedAtOnce (n : Nat) (d : Dom) : Prop :=
  c.pid ≠ 0 ∧ (c.cmd = .lock ∨ c.cmd = .lockNb) ∧ lockNameRet c.lockMem d c.basename c.type (c.frame n) = .ok

/-- The domain a call's grant pass starts from, if it runs one: a release always does, an unlock when it
    took a lock off. -/
def EntrylkCall.passStart (d : Dom) : Option Dom :=
  if c.pid = 0 then some (releaseEntryLocksForTransport d c.trans).1
  else if c.cmd = .unlock then
    match unlockName d c.basename c.type with
    | (some _, d₁) => some d₁
    | (none, _) => none
  else none

/-- **What an `entrylk` call does to its domain**: it is granted at once, it is queued, it takes locks off
    and runs a pass, or it leaves the domain alone. -/
theorem entrylk_onDom_cases (n : Nat) (d : Dom) : (c.GrantedAtOnce n d ∧ c.passStart d = none ∧
      (c.onDom n d).1 = d.withEntryQueue ⟨c.newlock n :: d.entrylkList, d.blockedEntrylks⟩) ∨
    (lockNameRet c.lockMem d c.basename c.type (c.frame n) = .eagain ∧ c.passStart d = none ∧
      (c.onDom n d).1 = d.withEntryQueue
        ⟨d.entrylkList, d.blockedEntrylks ++ [blockedEntrylkLock c.basename c.type (c.frame n)]⟩) ∨
    (∃ held waiting, held.Sublist d.entrylkList ∧ waiting.Sublist d.blockedEntrylks ∧
      c.passStart d = some (d.withEntryQueue ⟨held, waiting⟩) ∧
      (c.onDom n d).1 = (grantBlockedEntryLocks c.lockMem (d.withEntryQueue ⟨held, waiting⟩)).1) ∨
    (c.passStart d = none ∧ (c.onDom n d).1 = d) := by
  unfold EntrylkCall.onDom EntrylkCall.passStart EntrylkCall.GrantedAtOnce
  by_cases hp : c.pid = 0
  · rw [if_pos hp, if_pos hp]
    exact .inr (.inr (.inl ⟨_, _, List.filter_sublist, List.filter_sublist, rfl, rfl⟩))
  rw [if_neg hp, if_neg hp]
  cases hcmd : c.cmd with
  | other => exact .inr (.inr (.inr ⟨rfl, rfl⟩))
  | unlock =>
    refine .inr (.inr ?_)
    rw [if_pos rfl]
    rcases unlockName_cases d c.basename c.type with hu | ⟨lock, -, -, -, -, hu⟩
    · rw [hu]
      exact .inr ⟨rfl, rfl⟩
    rw [hu]
    exact .inl ⟨_, _, dropName_sublist d.entrylkList c.basename, List.Sublist.refl _, rfl, rfl⟩
  | lock =>
    unfold lockName
    cases hret : lockNameRet c.lockMem d c.basename c.type (c.frame n) with
    | ok => exact .inl ⟨⟨hp, .inl rfl, rfl⟩, rfl, rfl⟩
    | eagain => exact .inr (.inl ⟨rfl, rfl, rfl⟩)
    | einval | enomem | enotsup => exact .inr (.inr (.inr ⟨rfl, rfl⟩))
  | lockNb =>
    unfold lockName
    cases hret : lockNameRet c.lockMem d c.basename c.type (c.frame n) with
    | ok => exact .inl ⟨⟨hp, .inr rfl, rfl⟩, rfl, rfl⟩
    | eagain | einval | enomem | enotsup => exact .inr (.inr (.inr ⟨rfl, rfl⟩))

/-! ## Frame conditions -/

/-- An `inodelk` call leaves the entry locks of its domain alone. -/
theorem inodelk_onDom_frame (c : InodelkCall) (n : Nat) (d : Dom) : ∃ q, (c.onDom n d).1 = d.withInodeQueue q := by
  rcases inodelk_onDom_cases c n d with h | h
  · rw [h, grantBlockedInodeLocks_eq]
    rcases inodelk_enter_cases c n d with ⟨-, -, -, he⟩ | ⟨-, -, -, -, he⟩ | ⟨held, waiting, -, -, he⟩
    all_goals
      rw [he]
      exact ⟨_, rfl⟩
  rw [h]
  exact ⟨d.inodeQueue, rfl⟩

theorem entrylk_onDom_frame (n : Nat) (d : Dom) : ∃ q, (c.onDom n d).1 = d.withEntryQueue q := by
  rcases entrylk_onDom_cases c n d with ⟨-, -, h⟩ | ⟨-, -, h⟩ | ⟨held, waiting, -, -, -, h⟩ |
    ⟨-, h⟩
  · exact ⟨_, h⟩
  · exact ⟨_, h⟩
  · rw [h, grantBlockedEntryLocks_eq]
    exact ⟨_, rfl⟩
  rw [h]
  exact ⟨d.entryQueue, rfl⟩

theorem inodelk_onDom_domain (c : InodelkCall) (n : Nat) (d : Dom) : (c.onDom n d).1.domain = d.domain := by
  obtain ⟨q, hq⟩ := inodelk_onDom_frame c n d
  rw [hq]
  rfl

theorem entrylk_onDom_domain (n : Nat) (d : Dom) : (c.onDom n d).1.domain = d.domain := by
  obtain ⟨q, hq⟩ := entrylk_onDom_frame c n d
  rw [hq]
  rfl

/-- **The domains after a call**: only the one it names can differ. -/
theorem step_dom {s' : LockState} {a : LockCall} (h : a.step s = .ok s') (volume : String) :
    s'.dom volume = s.dom volume ∨ (∃ c, a = .inodelk c ∧ c.volume = volume ∧
      s'.dom volume = (c.onDom s.inodelkCalls (s.dom volume)).1) ∨ (∃ c, a = .entrylk c ∧ c.volume = volume ∧
      s'.dom volume = (c.onDom s.entrylkCalls (s.dom volume)).1) := by
  -- a domain written back is found under its own name, and no other name sees it
  have hput : ∀ d : Dom, domOf (putDomain s.domList d) volume = s.dom volume ∨
      (d.domain = volume ∧ domOf (putDomain s.domList d) volume = d) := by
    intro d
    by_cases hv : volume = d.domain
    · subst hv
      exact .inr ⟨rfl, domOf_putDomain_self _ _⟩
    · exact .inl (domOf_putDomain_other hv)
  rcases step_cases h with ⟨c, ha, -, -, -, rfl⟩ | ⟨c, ha, rfl⟩ | ⟨c, r, -, -, -, rfl⟩ |
    ⟨c, r, -, -, rfl⟩
  · have hdomain : (c.onDom s.inodelkCalls (s.dom c.volume)).1.domain = c.volume :=
      (inodelk_onDom_domain c _ _).trans (domOf_domain _ _)
    rcases hput (c.onDom s.inodelkCalls (s.dom c.volume)).1 with hsame | ⟨hv, hnew⟩
    · exact .inl hsame
    obtain rfl : c.volume = volume := hdomain.symm.trans hv
    exact .inr (.inl ⟨c, ha, rfl, hnew⟩)
  · have hdomain : (c.onDom s.entrylkCalls (s.dom c.volume)).1.domain = c.volume :=
      (entrylk_onDom_domain c _ _).trans (domOf_domain _ _)
    rcases hput (c.onDom s.entrylkCalls (s.dom c.volume)).1 with hsame | ⟨hv, hnew⟩
    · exact .inl hsame
    obtain rfl : c.volume = volume := hdomain.symm.trans hv
    exact .inr (.inr ⟨c, ha, rfl, hnew⟩)
  all_goals exact .inl rfl

/-! ## Stamps -/

/-- Both queues of a domain are stamped, after `n` `inodelk` and `m` `entrylk` calls. -/
structure Dom.Stamped (n m : Nat) (d : Dom) : Prop where
  inode : WaitQueue.Stamped BlockedInodeLock.stamp n d.blockedInodelks
  entry : WaitQueue.Stamped BlockedEntryLock.stamp m d.blockedEntrylks

/-- What the pass of an `inodelk` call has done, from the domain its own change left. -/
theorem inodelk_pass_spec (h : d.Stamped n m) :
    PassSpec (inodelkJudge raw d) toInodeLock BlockedInodeLock.stamp d.inodeQueue
      (grantBlockedInodeLocks raw d).1.inodeQueue (grantBlockedInodeLocks raw d).2 := by
  rw [grantBlockedInodeLocks_eq]
  exact pass_spec h.inode.increasing

theorem entrylk_pass_spec (h : d.Stamped n m) :
    PassSpec (entrylkJudge mem d) toEntryLock BlockedEntryLock.stamp d.entryQueue
      (grantBlockedEntryLocks mem d).1.entryQueue (grantBlockedEntryLocks mem d).2 := by
  rw [grantBlockedEntryLocks_eq]
  exact pass_spec h.entry.increasing

theorem inodelk_enter_stamped (c : InodelkCall) (h : d.Stamped n m) : (c.enter n d).Stamped (n + 1) m := by
  have hmono := h.inode.mono (Nat.le_succ n)
  rcases inodelk_enter_cases c n d with ⟨-, -, -, he⟩ | ⟨-, -, -, -, he⟩ |
    ⟨held, waiting, -, hw, he⟩
  · rw [he]
    exact ⟨hmono, h.entry⟩
  · rw [he]
    exact ⟨h.inode.queue rfl, h.entry⟩
  rw [he]
  exact ⟨hmono.sublist hw, h.entry⟩

theorem inodelk_onDom_stamped (c : InodelkCall) (h : d.Stamped n m) : (c.onDom n d).1.Stamped (n + 1) m := by
  have henter := inodelk_enter_stamped c h
  obtain ⟨q, hq⟩ := inodelk_onDom_frame c n d
  refine ⟨?_, by rw [hq]; exact h.entry⟩
  rcases inodelk_onDom_cases c n d with hd | hd
  · rw [hd]
    exact henter.inode.sublist (inodelk_pass_spec c.raw henter).kept
  rw [hd]
  exact h.inode.mono (Nat.le_succ n)

theorem entrylk_onDom_stamped (h : d.Stamped n m) : (c.onDom m d).1.Stamped n (m + 1) := by
  have hmono := h.entry.mono (Nat.le_succ m)
  rcases entrylk_onDom_cases c m d with ⟨-, -, hd⟩ | ⟨-, -, hd⟩ |
    ⟨held, waiting, -, hw, -, hd⟩ | ⟨-, hd⟩
  · rw [hd]
    exact ⟨h.inode, hmono⟩
  · rw [hd]
    exact ⟨h.inode, h.entry.queue rfl⟩
  · have hd1 : (d.withEntryQueue ⟨held, waiting⟩).Stamped n m := ⟨h.inode, h.entry.sublist hw⟩
    obtain ⟨q, hq⟩ := entrylk_onDom_frame c m d
    refine ⟨by rw [hq]; exact h.inode, ?_⟩
    rw [hd]
    exact (hd1.entry.sublist (entrylk_pass_spec c.lockMem hd1).kept).mono (Nat.le_succ m)
  rw [hd]
  exact ⟨h.inode, hmono⟩

/-- **In every reachable state both queues of every domain are in the order of the calls.** -/
theorem lockRun_stamped {calls : List LockCall} (h : lockRun calls = .ok s) :
    ∀ d ∈ s.domList, d.Stamped s.inodelkCalls s.entrylkCalls :=
  lockRun_domain (P := fun n m d => d.Stamped n m) (fun _ _ _ => ⟨Stamped.nil, Stamped.nil⟩)
    (fun hn hm hd => ⟨hd.inode.mono hn, hd.entry.mono hm⟩) (fun c _ _ _ => inodelk_onDom_stamped c)
    (fun c _ _ _ => entrylk_onDom_stamped c) h

theorem lockRun_dom_stamped {calls : List LockCall} (h : lockRun calls = .ok s)
    (volume : String) : (s.dom volume).Stamped s.inodelkCalls s.entrylkCalls := by
  rcases domOf_mem s.domList volume with hmem | hnew
  · exact lockRun_stamped h _ hmem
  rw [LockState.dom, hnew]
  exact ⟨Stamped.nil, Stamped.nil⟩

end GlusterFS.Locks
