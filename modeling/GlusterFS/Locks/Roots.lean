import GlusterFS.Locks.Queues

/-!
# `Locks.Roots` — which request a lock is from

The owner of an inode lock is the address of the call root of the request, `frame->root`. The root is freed when
the request has been answered, and the lock stays. So the lock does not say from which request it is, and this
module keeps the number of the call beside every held lock. A lock that waits has its frame, which has the
number already.

The notes are kept along with the calls and are never looked at by them (`map_lock_rootedOnDom`).
-/

namespace GlusterFS.Locks

open WaitQueue Transition List InodelkCall

/-- A lock and the number of the `inodelk` call it is from. -/
structure RootedLock where
  lock : InodeLock
  call : Nat
  deriving DecidableEq, Repr

def BlockedInodeLock.rooted (w : BlockedInodeLock) : RootedLock := ⟨w.toInodeLock, w.frame.id⟩

/-- `releaseHeld`, with the calls. -/
def releaseHeldRooted (trans : Nat) (path : Nat → Bool) : Nat → List RootedLock → List RootedLock
  | _, [] => []
  | k, l :: ls =>
    if l.lock.transport = trans then
      if path k then releaseHeldRooted trans path (k + 1) ls else ls
    else l :: releaseHeldRooted trans path k ls

variable (c : InodelkCall)

variable (n : Nat)

def InodelkCall.rootedEnter (d : Dom) (held : List RootedLock) : List RootedLock :=
  match c.kind with
  | .release =>
    match (releaseBlocked c.trans c.path 0 d.blockedInodelks []).2.2 with
    | none => held
    | some k => releaseHeldRooted c.trans c.path k held
  | .setlk =>
    if c.reqlock.flType ≠ .unlck then
      if inodelkAdmits c.raw d c.reqlock then ⟨c.reqlock, n⟩ :: held else held
    else held.eraseP fun l => inodelksEqual l.lock c.reqlock
  | .noMemory => held
  | .notSupported => held

/-- The call's grant pass over the locks with their calls. -/
def InodelkCall.rootedPass (d : Dom) (held : List RootedLock) :
    State RootedLock BlockedInodeLock × List BlockedInodeLock :=
  pass (fun held => inodelkJudge c.raw (c.enter n d) (held.map RootedLock.lock)) BlockedInodeLock.rooted
    ⟨c.rootedEnter n d held, (c.enter n d).blockedInodelks⟩

def InodelkCall.rootedOnDom (d : Dom) (held : List RootedLock) : List RootedLock :=
  match c.kind with
  | .release => (c.rootedPass n d held).1.held
  | .setlk => (c.rootedPass n d held).1.held
  | .noMemory => held
  | .notSupported => held

/-! ## The notes make no difference -/

theorem map_lock_releaseHeldRooted (trans : Nat) (path : Nat → Bool) (k : Nat) (held : List RootedLock) :
    (releaseHeldRooted trans path k held).map RootedLock.lock =
      releaseHeld trans path k (held.map RootedLock.lock) := by
  induction held generalizing k with
  | nil => rfl
  | cons l ls ih =>
    rw [releaseHeldRooted, map_cons, releaseHeld]
    split
    · split
      · exact ih (k + 1)
      · rfl
    · rw [map_cons, ih]

variable {held : List RootedLock}

theorem map_lock_rootedEnter {d : Dom} (h : held.map RootedLock.lock = d.inodelkList) :
    (c.rootedEnter n d held).map RootedLock.lock = (c.enter n d).inodelkList := by
  unfold InodelkCall.rootedEnter enter
  cases hkind : c.kind with
  | noMemory | notSupported => exact h
  | release =>
    dsimp only
    unfold releaseInodeLocksOfTransport
    split
    next hnone =>
      split
      · exact h
      next heq =>
        rw [heq] at hnone
        cases hnone
    next k hsome =>
      split
      next heq =>
        rw [heq] at hsome
        cases hsome
      next heq =>
        rw [heq] at hsome
        cases hsome
        rw [map_lock_releaseHeldRooted, h]
  | setlk =>
    dsimp only
    unfold inodeSetlkSection
    by_cases htype : c.reqlock.flType ≠ .unlck
    · rw [if_pos htype, if_pos htype]
      unfold lockInodelk
      cases hadm : inodelkAdmits c.raw d c.reqlock with
      | true =>
        simp only [if_true, map_cons, h]
      | false =>
        cases hblock : c.blockAs n <;> exact h
    rw [if_neg htype, if_neg htype]
    unfold inodeUnlockLock findMatchingInodelk
    have herase : (held.eraseP fun l => inodelksEqual l.lock c.reqlock).map RootedLock.lock =
        d.inodelkList.eraseP fun l => inodelksEqual l c.reqlock := by
      rw [← h, eraseP_map]
      rfl
    rw [herase]
    cases hfind : d.inodelkList.find? fun l => inodelksEqual l c.reqlock with
    | none => exact eraseP_of_forall_not (find?_eq_none.mp hfind)
    | some conf => rfl

/-- The pass with notes is the pass of the model, and grants the same requests. -/
theorem rootedPass_eq {d : Dom} (h : held.map RootedLock.lock = d.inodelkList) :
    (c.rootedPass n d held).1.held.map RootedLock.lock = (grantBlockedInodeLocks c.raw (c.enter n d)).1.inodelkList ∧
      (c.rootedPass n d held).2 = (grantBlockedInodeLocks c.raw (c.enter n d)).2 := by
  rw [grantBlockedInodeLocks_eq]
  have hlock : ∀ w : BlockedInodeLock, RootedLock.lock w.rooted = w.toInodeLock := fun _ => rfl
  have hmap := pass_map (inodelkJudge c.raw (c.enter n d)) RootedLock.lock hlock (c.rootedEnter n d held)
    (c.enter n d).blockedInodelks
  rw [map_lock_rootedEnter c n h] at hmap
  exact ⟨hmap.1.symm, hmap.2.symm⟩

/-- A call is its own change followed by a pass whose grants are answered, or leaves the domain alone. -/
theorem rootedOnDom_cases (d : Dom) (held : List RootedLock) :
    ((c.onDom n d).1 = (grantBlockedInodeLocks c.raw (c.enter n d)).1 ∧
      c.rootedOnDom n d held = (c.rootedPass n d held).1.held ∧
      inodelkGrantReplies (grantBlockedInodeLocks c.raw (c.enter n d)).2 ⊆ (c.onDom n d).2) ∨
    ((c.onDom n d).1 = d ∧ c.rootedOnDom n d held = held) := by
  unfold onDom InodelkCall.rootedOnDom
  cases hkind : c.kind with
  | noMemory | notSupported => exact .inr ⟨rfl, rfl⟩
  | release =>
    have henter : c.enter n d = (releaseInodeLocksOfTransport d c.trans c.path).1 := by
      simp only [enter, hkind]
    refine .inl ⟨by rw [henter], rfl, ?_⟩
    rw [henter]
    exact fun r hr => mem_append_left _ (mem_append_right _ hr)
  | setlk =>
    have henter : c.enter n d = (inodeSetlkSection c.raw d c.reqlock (c.blockAs n)).2 := by
      simp only [enter, hkind]
    refine .inl ⟨by rw [henter], rfl, ?_⟩
    rw [henter]
    exact fun r hr => mem_append_left _ hr

theorem map_lock_rootedOnDom {d : Dom} (h : held.map RootedLock.lock = d.inodelkList) :
    (c.rootedOnDom n d held).map RootedLock.lock = (c.onDom n d).1.inodelkList := by
  rcases rootedOnDom_cases c n d held with ⟨hdom, hroot, -⟩ | ⟨hdom, hroot⟩
  · rw [hdom, hroot]
    exact (rootedPass_eq c n h).1
  rw [hdom, hroot]
  exact h

/-! ## What a call adds -/

/-- The call is told that it was successful. -/
def Answered (rs : List LockReply) (call : Nat) : Prop := ∃ r ∈ rs, r.frame.id = call ∧ 0 ≤ r.opRet

/-- The lock an `inodelk` call asks for, if it asks for one. -/
def InodelkCall.Asks (l : RootedLock) : Prop := c.reqlock.flType ≠ .unlck ∧ l = ⟨c.reqlock, n⟩

variable {l : RootedLock}

section

variable {c : InodelkCall} {n : Nat} {d : Dom} {held : List RootedLock}

theorem releaseHeldRooted_sublist (trans : Nat) (path : Nat → Bool) (held : List RootedLock) (k : Nat) :
    (releaseHeldRooted trans path k held).Sublist held := by
  induction held generalizing k with
  | nil => exact List.Sublist.refl _
  | cons l ls ih =>
    rw [releaseHeldRooted]
    split
    · split
      · exact (ih _).cons l
      · exact sublist_cons_self l ls
    · exact (ih k).cons_cons l

theorem mem_rootedEnter (h : l ∈ c.rootedEnter n d held) : l ∈ held ∨ c.Asks n l ∧ Answered (c.onDom n d).2 n := by
  unfold InodelkCall.rootedEnter at h
  split at h
  · split at h
    · exact .inl h
    · exact .inl ((releaseHeldRooted_sublist _ _ _ _).subset h)
  next hkind =>
    split at h
    next htype =>
      split at h
      next hadm =>
        rcases mem_cons.mp h with rfl | hold
        · refine .inr ⟨⟨htype, rfl⟩, ⟨c.frame n, 0, .ok⟩, ?_, rfl, Int.le_refl 0⟩
          have hsection : (inodeSetlkSection c.raw d c.reqlock (c.blockAs n)).1 = .ok := by
            simp only [inodeSetlkSection, if_pos htype, lockInodelk, if_pos hadm]
          simp only [onDom, hkind, hsection, if_true]
          exact mem_append_right _ (mem_singleton_self _)
        · exact .inl hold
      · exact .inl h
    · exact .inl (mem_of_mem_eraseP h)
  · exact .inl h
  · exact .inl h

theorem mem_enter_blocked {w : BlockedInodeLock} (h : w ∈ (c.enter n d).blockedInodelks) :
    w ∈ d.blockedInodelks ∨ c.Asks n w.rooted := by
  rcases inodelk_enter_cases c n d with ⟨-, -, -, heq⟩ | ⟨-, htype, -, -, heq⟩ | ⟨kept, waiting, -, hsub, heq⟩
  · rw [heq] at h
    exact .inl h
  · rw [heq] at h
    rcases mem_append.mp h with h | h
    · exact .inl h
    rw [mem_singleton.mp h]
    exact .inr ⟨htype, rfl⟩
  rw [heq] at h
  exact .inl (hsub.subset h)

theorem mem_onDom_blocked {w : BlockedInodeLock} (h : w ∈ (c.onDom n d).1.blockedInodelks) :
    w ∈ d.blockedInodelks ∨ c.Asks n w.rooted := by
  rcases inodelk_onDom_cases c n d with heq | heq
  · rw [heq, grantBlockedInodeLocks_eq] at h
    exact mem_enter_blocked ((pass_mem _ _ (c.enter n d).inodeQueue).2.1 w h)
  rw [heq] at h
  exact .inl h

theorem mem_rootedOnDom (h : l ∈ c.rootedOnDom n d held) :
    l ∈ held ++ d.blockedInodelks.map BlockedInodeLock.rooted ∨ c.Asks n l := by
  rcases rootedOnDom_cases c n d held with ⟨-, hroot, -⟩ | ⟨-, hroot⟩
  · rw [hroot] at h
    obtain ⟨hheld, -, hgrant⟩ := pass_mem (fun held => inodelkJudge c.raw (c.enter n d) (held.map RootedLock.lock))
      BlockedInodeLock.rooted ⟨c.rootedEnter n d held, (c.enter n d).blockedInodelks⟩
    rcases hheld l h with hentered | ⟨w, hw, rfl⟩
    · rcases mem_rootedEnter hentered with hold | ⟨hasks, -⟩
      · exact .inl (mem_append_left _ hold)
      · exact .inr hasks
    exact (mem_enter_blocked (hgrant w hw)).imp_left fun hold =>
      mem_append_right _ (mem_map_of_mem hold)
  rw [hroot] at h
  exact .inl (mem_append_left _ h)

theorem answered_of_mem_rootedOnDom (hnoted : held.map RootedLock.lock = d.inodelkList)
    (h : l ∈ c.rootedOnDom n d held) : l ∈ held ∨ Answered (c.onDom n d).2 l.call := by
  rcases rootedOnDom_cases c n d held with ⟨-, hroot, hreplies⟩ | ⟨-, hroot⟩
  · rw [hroot] at h
    obtain ⟨hheld, -, -⟩ := pass_mem (fun held => inodelkJudge c.raw (c.enter n d) (held.map RootedLock.lock))
      BlockedInodeLock.rooted ⟨c.rootedEnter n d held, (c.enter n d).blockedInodelks⟩
    rcases hheld l h with hentered | ⟨w, hw, rfl⟩
    · rcases mem_rootedEnter hentered with hold | ⟨⟨-, rfl⟩, hans⟩
      · exact .inl hold
      · exact .inr hans
    have hgrant : w ∈ (grantBlockedInodeLocks c.raw (c.enter n d)).2 := by
      rw [← (rootedPass_eq c n hnoted).2]
      exact hw
    exact .inr ⟨_, hreplies (mem_map_of_mem hgrant), rfl, Int.le_refl 0⟩
  rw [hroot] at h
  exact .inl h

end

/-! ## Runs -/

/-- The state of the inode, and for each domain the calls its held locks are from. -/
structure RootState where
  locks : LockState
  rooted : String → List RootedLock

def RootState.init : RootState := ⟨LockState.init, fun _ => []⟩

variable (s : RootState)

def RootState.rootedAfter : LockCall → String → List RootedLock
  | .entrylk _ => s.rooted
  | .inodelk c =>
    if c.flock.lStart < 0 ∨ c.flock.lLen < 0 ∨ c.pinodeMem = false then s.rooted
    else
      match getDomain s.locks.domList c.volume c.domMem with
      | none => s.rooted
      | some d => fun volume =>
        if volume = c.volume then c.rootedOnDom s.locks.inodelkCalls d (s.rooted volume) else s.rooted volume

def RootState.step (a : LockCall) : Except Fault RootState :=
  match a.step s.locks with
  | .error e => .error e
  | .ok locks => .ok ⟨locks, s.rootedAfter a⟩

def RootState.waiting (volume : String) : List RootedLock :=
  (s.locks.dom volume).blockedInodelks.map BlockedInodeLock.rooted

/-- The locks of a domain, held and waiting, with their calls. -/
def RootState.listed (volume : String) : List RootedLock := s.rooted volume ++ s.waiting volume

/-- The notes are about the locks that are held. -/
def RootState.Noted : Prop := ∀ volume, (s.rooted volume).map RootedLock.lock = (s.locks.dom volume).inodelkList

/-! ## One call -/

section

variable {s s' : RootState} {a : LockCall}

theorem step_locks (h : s.step a = .ok s') : a.step s.locks = .ok s'.locks := by
  unfold RootState.step at h
  cases hstep : a.step s.locks with
  | error e =>
    rw [hstep] at h
    cases h
  | ok locks =>
    rw [hstep] at h
    cases h
    rfl

theorem run_locks {calls : List LockCall} (h : run RootState.step s calls = .ok s') :
    run LockCall.step s.locks calls = .ok s'.locks := by
  induction calls generalizing s with
  | nil =>
    cases h
    rfl
  | cons a as ih =>
    obtain ⟨s1, hstep, hrest⟩ := run_cons_ok.mp h
    exact run_cons_ok.mpr ⟨s1.locks, step_locks hstep, ih hrest⟩

/-- The call does not get as far as releasing a transport's locks. -/
def InodelkCall.NoRelease (c : InodelkCall) : Prop :=
  c.flock.lStart < 0 ∨ c.flock.lLen < 0 ∨ c.pinodeMem = false ∨ c.kind ≠ .release

/-- What an `inodelk` call does to the domains: nothing, or its work on one of them. -/
theorem step_inodelk {c : InodelkCall} (h : s.step (.inodelk c) = .ok s') :
    ∃ domList rs, s'.locks = s.locks.inodelkDone domList rs ∧
      ((s'.rooted = s.rooted ∧ domList = s.locks.domList ∧ c.NoRelease) ∨
        ((s'.rooted = fun volume => if volume = c.volume then
            c.rootedOnDom s.locks.inodelkCalls (s.locks.dom c.volume) (s.rooted volume) else s.rooted volume) ∧
          domList = putDomain s.locks.domList (c.onDom s.locks.inodelkCalls (s.locks.dom c.volume)).1 ∧
          rs = (c.onDom s.locks.inodelkCalls (s.locks.dom c.volume)).2)) := by
  unfold RootState.step RootState.rootedAfter at h
  simp only [LockCall.step, plCommonInodelk] at h
  by_cases hrange : c.flock.lStart < 0 ∨ c.flock.lLen < 0
  · have hany : c.flock.lStart < 0 ∨ c.flock.lLen < 0 ∨ c.pinodeMem = false :=
      hrange.imp_right .inl
    rw [if_pos hrange, if_pos hany] at h
    cases h
    exact ⟨_, _, rfl, .inl ⟨rfl, rfl, hrange.imp_right .inl⟩⟩
  rw [if_neg hrange] at h
  by_cases hmem : c.pinodeMem = false
  · rw [if_pos hmem, if_pos (.inr (.inr hmem))] at h
    cases h
    exact ⟨_, _, rfl, .inl ⟨rfl, rfl, .inr (.inr (.inl hmem))⟩⟩
  have hnone : ¬ (c.flock.lStart < 0 ∨ c.flock.lLen < 0 ∨ c.pinodeMem = false) := by
    rintro (h1 | h1 | h1)
    · exact hrange (.inl h1)
    · exact hrange (.inr h1)
    · exact hmem h1
  rw [if_neg hmem, if_neg hnone] at h
  cases hdom : getDomain s.locks.domList c.volume c.domMem with
  | some d =>
    simp only [hdom] at h
    cases h
    have heq : d = s.locks.dom c.volume := getDomain_eq hdom
    rw [heq]
    exact ⟨_, _, rfl, .inr ⟨rfl, rfl, rfl⟩⟩
  | none =>
    simp only [hdom] at h
    cases hkind : c.kind with
    | release | setlk =>
      simp only [hkind] at h
      cases h
    | noMemory | notSupported =>
      simp only [hkind] at h
      cases h
      exact ⟨_, _, rfl, .inl ⟨rfl, rfl, .inr (.inr (.inr (by rw [hkind]; decide)))⟩⟩

theorem step_inodelk_dom {c : InodelkCall} (h : s.step (.inodelk c) = .ok s') :
    ∃ domList rs, s'.locks = s.locks.inodelkDone domList rs ∧ ∀ volume,
      (s'.rooted volume = s.rooted volume ∧ s'.locks.dom volume = s.locks.dom volume ∧
        (c.volume = volume → c.NoRelease)) ∨ (c.volume = volume ∧
          s'.rooted volume = c.rootedOnDom s.locks.inodelkCalls (s.locks.dom volume) (s.rooted volume) ∧
          s'.locks.dom volume = (c.onDom s.locks.inodelkCalls (s.locks.dom volume)).1 ∧
          rs = (c.onDom s.locks.inodelkCalls (s.locks.dom volume)).2) := by
  obtain ⟨domList, rs, hlocks, hcases⟩ := step_inodelk h
  have hdoms : ∀ volume, s'.locks.dom volume = domOf domList volume := by
    intro volume
    unfold LockState.dom
    rw [hlocks]
    rfl
  refine ⟨domList, rs, hlocks, ?_⟩
  intro volume
  rw [hdoms volume]
  rcases hcases with ⟨hroot, rfl, hnot⟩ | ⟨hroot, rfl, rfl⟩
  · exact .inl ⟨congrFun hroot volume, rfl, fun _ => hnot⟩
  have hname : (c.onDom s.locks.inodelkCalls (s.locks.dom c.volume)).1.domain = c.volume :=
    (inodelk_onDom_domain c _ _).trans (domOf_domain _ _)
  by_cases hvol : volume = c.volume
  · subst hvol
    refine .inr ⟨rfl, (congrFun hroot _).trans (if_pos rfl), ?_, rfl⟩
    have hself := domOf_putDomain_self s.locks.domList (c.onDom s.locks.inodelkCalls (s.locks.dom c.volume)).1
    rw [hname] at hself
    exact hself
  refine .inl ⟨(congrFun hroot _).trans (if_neg hvol), ?_, fun heq => absurd heq.symm hvol⟩
  exact domOf_putDomain_other (by rw [hname]; exact hvol)

theorem step_entrylk {c : EntrylkCall} (h : s.step (.entrylk c) = .ok s') :
    s'.rooted = s.rooted ∧ ∀ volume, (s'.locks.dom volume).inodelkList = (s.locks.dom volume).inodelkList ∧
      (s'.locks.dom volume).blockedInodelks = (s.locks.dom volume).blockedInodelks := by
  have hlocks := step_locks h
  refine ⟨?_, ?_⟩
  · unfold RootState.step at h
    rw [hlocks] at h
    exact (congrArg RootState.rooted (Except.ok.inj h)).symm
  intro volume
  rcases step_dom hlocks volume with heq | ⟨c', ha, -, -⟩ | ⟨c', -, -, heq⟩
  · rw [heq]
    exact ⟨rfl, rfl⟩
  · cases ha
  obtain ⟨q, hq⟩ := entrylk_onDom_frame c' s.locks.entrylkCalls (s.locks.dom volume)
  rw [heq, hq]
  exact ⟨rfl, rfl⟩

theorem RootState.Noted.step (hnoted : s.Noted) (h : s.step a = .ok s') : s'.Noted := by
  intro volume
  cases a with
  | entrylk c =>
    obtain ⟨hroot, hsame⟩ := step_entrylk h
    rw [hroot, (hsame volume).1]
    exact hnoted volume
  | inodelk c =>
    obtain ⟨_, _, _, hdoms⟩ := step_inodelk_dom h
    rcases hdoms volume with ⟨hroot, hdom, -⟩ | ⟨-, hroot, hdom, -⟩
    · rw [hroot, hdom]
      exact hnoted volume
    rw [hroot, hdom]
    exact map_lock_rootedOnDom c _ (hnoted volume)

theorem mem_waiting_step {c : InodelkCall} {volume : String} (h : s.step (.inodelk c) = .ok s')
    (hl : l ∈ s'.waiting volume) : l ∈ s.waiting volume ∨ c.volume = volume ∧ c.Asks s.locks.inodelkCalls l := by
  obtain ⟨w, hw, rfl⟩ := mem_map.mp hl
  obtain ⟨_, _, _, hdoms⟩ := step_inodelk_dom h
  rcases hdoms volume with ⟨-, hdom, -⟩ | ⟨hvol, -, hdom, -⟩
  · rw [hdom] at hw
    exact .inl (mem_map_of_mem hw)
  rw [hdom] at hw
  rcases mem_onDom_blocked hw with hold | hasks
  · exact .inl (mem_map_of_mem hold)
  · exact .inr ⟨hvol, hasks⟩

/-- **What a call adds to a domain**: the lock it asks for, at most. -/
theorem mem_listed_step {c : InodelkCall} {volume : String} (h : s.step (.inodelk c) = .ok s')
    (hl : l ∈ s'.listed volume) : l ∈ s.listed volume ∨ c.volume = volume ∧ c.Asks s.locks.inodelkCalls l := by
  rcases mem_append.mp hl with hheld | hwait
  · obtain ⟨_, _, _, hdoms⟩ := step_inodelk_dom h
    rcases hdoms volume with ⟨hroot, -, -⟩ | ⟨hvol, hroot, -, -⟩
    · rw [hroot] at hheld
      exact .inl (mem_append_left _ hheld)
    rw [hroot] at hheld
    rcases mem_rootedOnDom hheld with hold | hasks
    · exact .inl hold
    · exact .inr ⟨hvol, hasks⟩
  · exact (mem_waiting_step h hwait).imp_left (mem_append_right _)

end

end GlusterFS.Locks
