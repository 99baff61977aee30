import GlusterFS.Locks.Correctness.InodelkExclusion

/-!
# `Locks.Correctness.Ownership` — an unlock and the locks of other clients

An unlock should only take off a lock that came through its own transport, and change nothing if there is
none (`UnlockOwned`). `find_matching_inodelk` compares the bounds only and `__find_most_matching_lock` the
name only, so this does not hold: of two read locks on one range the younger one is found first, whoever
asks (`unlock_takes_other_lock`).

It holds for an unlock that finds a lock of its own (`FindsOwn`). One more thing can change the held locks:
an `inodelk` unlock that finds nothing still runs a grant pass, so nothing in the queue may be waiting to be
admitted (`NoneAdmitted`).
-/

namespace GlusterFS.Locks

open WaitQueue List

/-! ## The property -/

/-- The call is an unlock; with a `pid` of zero it would be a release. -/
def LockCall.IsUnlock : LockCall → Prop
  | .inodelk c => c.pid ≠ 0 ∧ c.flock.lType = .unlck
  | .entrylk c => c.pid ≠ 0 ∧ c.cmd = .unlock

/-- A lock that came through the call's transport has the bounds or the name of the request. -/
def LockCall.MatchesOwn (s : LockState) : LockCall → Prop
  | .inodelk c => ∃ l ∈ (s.dom c.volume).inodelkList, l.transport = c.trans ∧ inodelksEqual l c.reqlock = true
  | .entrylk c => ∃ l ∈ (s.dom c.volume).entrylkList, l.trans = c.trans ∧ namesEqual l.basename c.basename = true

/-- **The unlock respects ownership.** Every held lock of another transport is still held afterwards, in
    every domain; and if no lock of the call's transport matches, the held locks are what they were. -/
structure UnlockOwned (a : LockCall) (s s' : LockState) : Prop where
  kept : ∀ volume, ((s.dom volume).inodelkList.filter fun l => l.transport != a.trans).Sublist
      (s'.dom volume).inodelkList ∧ ((s.dom volume).entrylkList.filter fun l => l.trans != a.trans).Sublist
      (s'.dom volume).entrylkList
  unchanged : ¬ a.MatchesOwn s → ∀ volume, (s'.dom volume).inodelkList = (s.dom volume).inodelkList ∧
    (s'.dom volume).entrylkList = (s.dom volume).entrylkList

/-! ## The condition -/

/-- No waiting lock would be admitted behind those in front of it. -/
def NoneAdmitted (raw : RawFields) (d : Dom) : Prop :=
  ∀ pre w post, d.blockedInodelks = pre ++ w :: post →
    inodelkAdmits raw (d.withInodeQueue ⟨d.inodelkList, pre⟩) w.toInodeLock = false

/-- **The unlock finds a lock of its own**, or none; and an `inodelk` unlock that finds none has nothing
    to wake. -/
def LockCall.FindsOwn (s : LockState) : LockCall → Prop
  | .inodelk c =>
    match findMatchingInodelk (s.dom c.volume) c.reqlock with
    | some conf => conf.transport = c.trans
    | none => NoneAdmitted c.raw (s.dom c.volume)
  | .entrylk c => c.type = .wrlck → ∀ l ∈ (s.dom c.volume).entrylkList,
      namesEqual l.basename c.basename = true → l.trans = c.trans

/-! ## Taking one lock off -/

/-- Taking off the first element that `p` finds is not seen by a filter that rejects it. -/
theorem filter_eraseP_of_find? {α : Type} {p q : α → Bool} :
    ∀ {l : List α}, (∀ x, l.find? p = some x → q x = false) → (l.eraseP p).filter q = l.filter q := by
  intro l
  induction l with
  | nil =>
    intro _
    rfl
  | cons x xs ih =>
    intro h
    by_cases hp : p x = true
    · have hq : q x = false := h x (find?_cons_of_pos hp)
      rw [eraseP_cons_of_pos hp, filter_cons_of_neg (by simp [hq])]
    rw [eraseP_cons_of_neg hp]
    rw [find?_cons_of_neg hp] at h
    by_cases hq : q x = true
    · rw [filter_cons_of_pos hq, filter_cons_of_pos hq, ih h]
    · rw [filter_cons_of_neg hq, filter_cons_of_neg hq, ih h]

/-- Taking a name off that only `trans` holds leaves the locks of the other transports. -/
theorem filter_dropName {held : List EntryLock} {basename : Option String} {trans : Nat}
    (h : ∀ l ∈ held, namesEqual l.basename basename = true → l.trans = trans) :
    (dropName held basename).filter (fun l => l.trans != trans) = held.filter fun l => l.trans != trans := by
  unfold dropName
  rw [filter_reverse, filter_eraseP_of_find?, filter_reverse, reverse_reverse]
  intro l hl
  have hmem := mem_reverse.mp (mem_of_find?_eq_some hl)
  have hname := find?_some hl
  simp [h l hmem hname]

theorem findMostMatchingLock_mem {held : List EntryLock} {basename : Option String} {lock : EntryLock}
    (h : findMostMatchingLock held basename = some lock) : lock ∈ held := by
  rcases Option.or_eq_some_iff.mp h with hexact | ⟨-, hall⟩
  · exact mem_reverse.mp (mem_of_find?_eq_some hexact)
  · exact mem_reverse.mp (mem_of_find?_eq_some hall)

/-! ## One call -/

/-- A pass over a queue in which nothing is admitted leaves the domain as it was. -/
theorem inodelk_pass_idle {raw : RawFields} {d : Dom} (h : NoneAdmitted raw d) :
    (grantBlockedInodeLocks raw d).1 = d := by
  rw [grantBlockedInodeLocks_eq, pass_idle]
  · rfl
  intro pre w post hsplit
  have hno := h pre w post hsplit
  unfold inodelkJudge
  rw [if_neg]
  simpa [Dom.inodeQueue, Dom.withInodeQueue] using hno

/-- An `inodelk` call that is no release and asks for an unlock: it takes off the lock it finds and runs
    a pass, or leaves the domain alone. -/
theorem inodelk_unlock_cases {c : InodelkCall} (hp : c.pid ≠ 0) (ht : c.flock.lType = .unlck) (n : Nat) (d : Dom) :
    (c.onDom n d).1 = d ∨
    (findMatchingInodelk d c.reqlock = none ∧ (c.onDom n d).1 = (grantBlockedInodeLocks c.raw d).1) ∨
    ∃ conf, findMatchingInodelk d c.reqlock = some conf ∧
      (c.onDom n d).1 = (grantBlockedInodeLocks c.raw (d.withInodeQueue
        ⟨d.inodelkList.eraseP fun l => inodelksEqual l c.reqlock, d.blockedInodelks⟩)).1 := by
  have hreq : ¬ c.reqlock.flType ≠ .unlck := not_not_intro ht
  unfold InodelkCall.onDom
  cases hk : c.kind with
  | release =>
    unfold InodelkCall.kind at hk
    rw [if_neg hp] at hk
    split at hk
    · cases hk
    · split at hk <;> cases hk
  | noMemory | notSupported => exact .inl rfl
  | setlk =>
    right
    unfold inodeSetlkSection
    rw [if_neg hreq]
    unfold inodeUnlockLock
    cases hf : findMatchingInodelk d c.reqlock with
    | none => exact .inl ⟨rfl, rfl⟩
    | some conf => exact .inr ⟨conf, rfl, rfl⟩

/-- What an owned unlock does to one of the held lists. -/
structure ListOwned {α : Type} (other : α → Bool) (matching : Prop) (held held' : List α) : Prop where
  kept : (held.filter other).Sublist held'
  unchanged : ¬ matching → held' = held

theorem ListOwned.refl {α : Type} {other : α → Bool} {matching : Prop} {held : List α} :
    ListOwned other matching held held := ⟨filter_sublist, fun _ => rfl⟩

theorem inodelk_unlock_owned {s : LockState} {c : InodelkCall} (hunlock : LockCall.IsUnlock (.inodelk c))
    (hown : LockCall.FindsOwn s (.inodelk c)) (n : Nat) :
    ListOwned (fun l => l.transport != c.trans) (LockCall.MatchesOwn s (.inodelk c))
      (s.dom c.volume).inodelkList (c.onDom n (s.dom c.volume)).1.inodelkList := by
  simp only [LockCall.FindsOwn] at hown
  rcases inodelk_unlock_cases hunlock.1 hunlock.2 n (s.dom c.volume) with h | ⟨hf, h⟩ | ⟨conf, hf, h⟩
  · rw [h]
    exact ListOwned.refl
  · rw [hf] at hown
    rw [h, inodelk_pass_idle hown]
    exact ListOwned.refl
  rw [hf] at hown
  have hconf : conf.transport = c.trans := hown
  have hfilter := filter_eraseP_of_find? (p := fun l => inodelksEqual l c.reqlock)
    (q := fun l : InodeLock => l.transport != c.trans) (l := (s.dom c.volume).inodelkList) (by
      intro x hx
      obtain rfl : conf = x := Option.some.inj (hf.symm.trans hx)
      simp [hconf])
  constructor
  · rw [h, ← hfilter, grantBlockedInodeLocks_eq]
    exact filter_sublist.trans (pass_grows ((s.dom c.volume).withInodeQueue ⟨List.eraseP _ _, _⟩).inodeQueue)
  intro hno
  have hequal : inodelksEqual conf c.reqlock = true :=
    find?_some (p := fun l => inodelksEqual l c.reqlock) hf
  exact absurd ⟨conf, mem_of_find?_eq_some hf, hconf, hequal⟩ hno

theorem entrylk_unlock_owned {s : LockState} {c : EntrylkCall} (hunlock : LockCall.IsUnlock (.entrylk c))
    (hown : LockCall.FindsOwn s (.entrylk c)) (n : Nat) :
    ListOwned (fun l => l.trans != c.trans) (LockCall.MatchesOwn s (.entrylk c))
      (s.dom c.volume).entrylkList (c.onDom n (s.dom c.volume)).1.entrylkList := by
  obtain ⟨hp, hcmd⟩ := hunlock
  unfold EntrylkCall.onDom
  rw [if_neg hp, hcmd]
  dsimp only
  rcases unlockName_cases (s.dom c.volume) c.basename c.type with
    hu | ⟨lock, hfind, hname, -, htype, hu⟩
  · rw [hu]
    exact ListOwned.refl
  rw [hu]
  dsimp only
  have howned := hown htype
  constructor
  · rw [← filter_dropName howned, grantBlockedEntryLocks_eq]
    exact filter_sublist.trans (pass_grows ((s.dom c.volume).withEntryQueue ⟨dropName _ _, _⟩).entryQueue)
  intro hno
  have hmem := findMostMatchingLock_mem hfind
  exact absurd ⟨lock, hmem, howned lock hmem hname, hname⟩ hno

/-! ## Every unlock -/

/-- **Ownership.** In every state, an unlock that finds a lock of its own leaves the locks of the other
    transports held, and changes nothing if it matches none of its own. -/
theorem unlock_respects_ownership (s s' : LockState) (a : LockCall) (hunlock : a.IsUnlock)
    (hown : a.FindsOwn s) (hstep : a.step s = .ok s') : UnlockOwned a s s' := by
  -- both lists of every domain, as one statement about each list
  have hlists : ∀ volume, ListOwned (fun l => l.transport != a.trans) (a.MatchesOwn s)
        (s.dom volume).inodelkList (s'.dom volume).inodelkList ∧
      ListOwned (fun l => l.trans != a.trans) (a.MatchesOwn s)
        (s.dom volume).entrylkList (s'.dom volume).entrylkList := by
    intro volume
    rcases step_dom hstep volume with h | ⟨c, rfl, rfl, h⟩ | ⟨c, rfl, rfl, h⟩
    · rw [h]
      exact ⟨ListOwned.refl, ListOwned.refl⟩
    · obtain ⟨q, hq⟩ := inodelk_onDom_frame c s.inodelkCalls (s.dom c.volume)
      rw [h]
      refine ⟨inodelk_unlock_owned hunlock hown _, ?_⟩
      rw [hq]
      exact ListOwned.refl
    obtain ⟨q, hq⟩ := entrylk_onDom_frame c s.entrylkCalls (s.dom c.volume)
    rw [h]
    refine ⟨?_, entrylk_unlock_owned hunlock hown _⟩
    rw [hq]
    exact ListOwned.refl
  constructor
  · intro volume
    exact ⟨(hlists volume).1.kept, (hlists volume).2.kept⟩
  intro hno volume
  exact ⟨(hlists volume).1.unchanged hno, (hlists volume).2.unchanged hno⟩

/-- Two clients read the same bytes. -/
def sharedReaders : List LockCall :=
  [.inodelk (inodelkCall .setlk .rdlck 0 11 1 100), .inodelk (inodelkCall .setlk .rdlck 0 11 2 200)]

/-- A state in which the inode locks `held` are held, after `sharedReaders` and `more` further answers. -/
def readersState (held : List InodeLock) (more : List LockReply) : LockState :=
  { domList := [{ allocateDomain "replicate" with inodelkList := held }]
    inodelkCalls := 2 + more.length
    inodelkReplies := [⟨⟨0, 1, 1, 0, 100⟩, 0, .ok⟩, ⟨⟨1, 2, 1, 0, 200⟩, 0, .ok⟩] ++ more
    entrylkCalls := 0, entrylkReplies := [] }

/-- The state after `sharedReaders`: the younger lock comes first. -/
def sharedState : LockState := readersState [⟨.rdlck, 0, 10, 2, 200⟩, ⟨.rdlck, 0, 10, 1, 100⟩] []

/-- The younger reader unlocks, and finds its own lock. -/
theorem unlock_respects_ownership_younger : lockRun sharedReaders = .ok sharedState ∧
    UnlockOwned (.inodelk (inodelkCall .setlk .unlck 0 11 2 200)) sharedState
      (readersState [⟨.rdlck, 0, 10, 1, 100⟩] [⟨⟨2, 2, 1, 0, 200⟩, 0, .ok⟩]) :=
  ⟨rfl, unlock_respects_ownership _ _ _ ⟨by decide, rfl⟩ rfl rfl⟩

/-- `twoQueuesState` once a client that holds no name has unlocked `f`: the holder has lost it to the
    client that waited. -/
def strangerState : LockState :=
  { twoQueuesState with
    domList := [{ waiterDom with entrylkList := [⟨some "f", .wrlck, 5, 500⟩] }]
    entrylkCalls := 3
    entrylkReplies := twoQueuesState.entrylkReplies ++ [⟨⟨1, 5, 1, 0, 500⟩, 0, .ok⟩, ⟨⟨2, 6, 1, 0, 600⟩, 0, .ok⟩] }

/-- **An unlock takes another client's lock.** The older reader unlocks, and the younger one has lost its
    lock; and a client that holds no name takes the name `f` from its holder. -/
theorem unlock_takes_other_lock : (lockRun sharedReaders = .ok sharedState ∧
      LockCall.step sharedState (.inodelk (inodelkCall .setlk .unlck 0 11 1 100)) =
        .ok (readersState [⟨.rdlck, 0, 10, 1, 100⟩] [⟨⟨2, 1, 1, 0, 100⟩, 0, .ok⟩]) ∧
      ¬ UnlockOwned (.inodelk (inodelkCall .setlk .unlck 0 11 1 100)) sharedState
        (readersState [⟨.rdlck, 0, 10, 1, 100⟩] [⟨⟨2, 1, 1, 0, 100⟩, 0, .ok⟩])) ∧
    (lockRun twoQueues = .ok twoQueuesState ∧
      LockCall.step twoQueuesState (.entrylk (entrylkCall .unlock (some "f") 6 600)) = .ok strangerState ∧
      ¬ UnlockOwned (.entrylk (entrylkCall .unlock (some "f") 6 600)) twoQueuesState strangerState) := by
  refine ⟨⟨rfl, rfl, ?_⟩, rfl, rfl, ?_⟩
  · intro h
    have hkept := (h.kept "replicate").1.subset
      (show (⟨.rdlck, 0, 10, 2, 200⟩ : InodeLock) ∈ _ by decide +kernel)
    exact absurd hkept (by decide +kernel)
  intro h
  have hkept := (h.kept "replicate").2.subset
    (show (⟨some "f", .wrlck, 4, 400⟩ : EntryLock) ∈ _ by decide +kernel)
  exact absurd hkept (by decide +kernel)

end GlusterFS.Locks
