import GlusterFS.Locks.Queues

/-!
# `Locks.Correctness.InodelkExclusion` — mutual exclusion and order of inode locks

**Exclusion** holds in every run: a lock reaches the head of `inodelk_list` only after
`__inodelk_grantable` has compared it with every lock already there, in a call and in a grant pass alike.

**No overtaking** does not hold. A request should not be granted while an older request it conflicts with
still waits, unless its owner holds a lock already. `__blocked_lock_conflict` looks at the queue only when
some *entry* lock waits in the domain, and the exemption for owners is decided on entry locks
(`newcomer_overtakes`). `inodelk_no_overtaking` is the property for the calls whose submissions the two
scans get right.
-/

namespace GlusterFS.Locks

open Transition WaitQueue

variable {lock : InodeLock} {d : Dom}

/-! ## Exclusion -/

/-- Held locks that overlap while one of them is a write lock have the same transport and owner. -/
def InodeExclusive (held : List InodeLock) : Prop :=
  held.Pairwise fun a b => inodelkOverlap a b = true → a.flType = .wrlck ∨ b.flType = .wrlck →
    a.transport = b.transport ∧ a.owner = b.owner

theorem sameInodelkOwner_iff {a b : InodeLock} :
    sameInodelkOwner a b = true ↔ a.owner = b.owner ∧ a.transport = b.transport := by
  simp [sameInodelkOwner]

/-- A lock that passes `__inodelk_grantable` conflicts with no held lock. -/
theorem no_conflict_of_grantable {held : List InodeLock}
    (h : inodelkGrantable held lock = none) : ∀ l ∈ held, inodelkConflict lock l = false := by
  intro l hl
  have hno := List.find?_eq_none.mp h l hl
  simpa using hno

theorem InodeExclusive.cons {held : List InodeLock} (h : InodeExclusive held)
    (hg : inodelkGrantable held lock = none) : InodeExclusive (lock :: held) := by
  refine List.pairwise_cons.mpr ⟨?_, h⟩
  intro l hl hov htype
  have hno := no_conflict_of_grantable hg l hl
  have ht : inodelkTypeConflict lock l = true := by
    simp only [inodelkTypeConflict, Bool.or_eq_true, beq_iff_eq]
    exact htype.symm
  -- overlap and types leave only the owner to exclude a conflict
  rw [inodelkConflict, hov, ht, Bool.and_true, Bool.and_true, Bool.not_eq_false'] at hno
  obtain ⟨howner, htrans⟩ := sameInodelkOwner_iff.mp hno
  exact ⟨htrans, howner⟩

theorem grantable_of_admits {raw : RawFields}
    (h : inodelkAdmits raw d lock = true) : inodelkGrantable d.inodelkList lock = none := by
  simp only [inodelkAdmits, Bool.and_eq_true, Option.isNone_iff_eq_none] at h
  exact h.1

variable (c : InodelkCall)

/-- The three ways a lock gets onto the list keep exclusion: a call, its pass, and the pass after a
    release. -/
theorem inodelk_onDom_exclusive (n : Nat)
    (h : InodeExclusive d.inodelkList) : InodeExclusive (c.onDom n d).1.inodelkList := by
  have henter : InodeExclusive (c.enter n d).inodelkList := by
    rcases inodelk_enter_cases c n d with ⟨-, -, hadm, he⟩ | ⟨-, -, -, -, he⟩ |
      ⟨held, waiting, hsub, -, he⟩
    · rw [he]
      exact h.cons (grantable_of_admits hadm)
    · rw [he]
      exact h
    rw [he]
    exact h.sublist hsub
  rcases inodelk_onDom_cases c n d with hd | hd
  · rw [hd, grantBlockedInodeLocks_eq]
    refine pass_held (P := InodeExclusive) ?_ henter
    intro held waiting w hex hj
    exact hex.cons (grantable_of_admits (inodelkJudge_grant_iff.mp hj))
  rw [hd]
  exact h

/-- **Mutual exclusion of inode locks.** In every reachable state, two locks held in one domain overlap
    only if neither is a write lock, or if they have the same transport and owner. -/
theorem inodelk_mutual_exclusion (calls : List LockCall) (s : LockState)
    (hrun : lockRun calls = .ok s) : ∀ d ∈ s.domList, InodeExclusive d.inodelkList := by
  refine lockRun_domain (P := fun _ _ d => InodeExclusive d.inodelkList) ?_ ?_ ?_ ?_ hrun
  · intro _ _ volume
    exact List.Pairwise.nil
  · intro _ _ _ _ d _ _ hd
    exact hd
  · intro c n _ d hd
    exact inodelk_onDom_exclusive c n hd
  intro c _ m d hd
  obtain ⟨q, hq⟩ := entrylk_onDom_frame c m d
  rw [hq]
  exact hd

/-- An `inodelk` call in which every allocation succeeds and no raw memory looks like an owner. -/
def inodelkCall (cmd : InodelkCmd) (type : FlType) (start len : Int) (trans root : Nat) : InodelkCall :=
  { volume := "replicate", cmd := cmd, flock := ⟨type, 0, start, len, 0⟩, trans := trans, pid := 1,
    lkOwner := 0, root := root, pinodeMem := true, domMem := true, lockMem := true,
    path := fun _ => true, raw := fun _ _ => (0, 0) }

/-- A client writes bytes 0 to 10; a second one waits for bytes 5 to 15. -/
def waiterBehindWriter : List LockCall :=
  [.inodelk (inodelkCall .setlk .wrlck 0 11 1 100), .inodelk (inodelkCall .setlkw .wrlck 5 11 2 200)]

def waiterDom : Dom :=
  { domain := "replicate", entrylkList := [], blockedEntrylks := [], inodelkList := [⟨.wrlck, 0, 10, 1, 100⟩],
    blockedInodelks := [⟨⟨.wrlck, 5, 15, 2, 200⟩, ⟨1, 2, 1, 0, 200⟩⟩] }

/-- The state they leave; only call 0 has been answered. -/
def waiterState : LockState :=
  { domList := [waiterDom], inodelkCalls := 2, inodelkReplies := [⟨⟨0, 1, 1, 0, 100⟩, 0, .ok⟩],
    entrylkCalls := 0, entrylkReplies := [] }

theorem inodelk_mutual_exclusion_waiter : lockRun waiterBehindWriter = .ok waiterState ∧
    InodeExclusive waiterDom.inodelkList :=
  ⟨rfl, inodelk_mutual_exclusion waiterBehindWriter waiterState rfl waiterDom (by simp [waiterState])⟩

/-! ## Ranges -/

/-- The bytes a `struct flock` denotes. -/
def Flock.bytes (flock : Flock) : Set Int :=
  {b | flock.lStart ≤ b ∧ (flock.lLen = 0 ∨ b < flock.lStart + flock.lLen)}

/-- `pl_common_inodelk` admits the range, and its last byte is an `off_t`. -/
structure Flock.Fits (flock : Flock) : Prop where
  start : 0 ≤ flock.lStart ∧ flock.lStart ≤ llongMax
  len : 0 ≤ flock.lLen
  last : flock.lStart + flock.lLen - 1 ≤ llongMax

theorem Flock.Fits.flEndOf_eq {flock : Flock} (h : flock.Fits) :
    flEndOf flock = if flock.lLen = 0 then llongMax else flock.lStart + flock.lLen - 1 := by
  obtain ⟨⟨hstart, -⟩, hlen, hlast⟩ := h
  have hsmall : flock.lStart + flock.lLen - 1 < 2 ^ 64 - 1 := by
    unfold llongMax at hlast
    omega
  rw [flEndOf, offT_eq (by omega) hsmall, if_pos hlast]

/-- The call's own request is granted at once. -/
def InodelkCall.GrantedAtOnce (n : Nat) (d : Dom) : Prop :=
  c.kind = .setlk ∧ c.reqlock.flType ≠ .unlck ∧ (inodeSetlkSection c.raw d c.reqlock (c.blockAs n)).1 = .ok

/-- The call runs a grant pass. -/
def InodelkCall.Passes : Prop := c.kind = .setlk ∨ c.kind = .release

/-- **No overtaking in one call.** A request that is granted conflicts with an older request that still
    waits only if its owner held a lock when it was granted. `retried` is about the requests the pass of
    the call grants, out of the queue as the call's own change left it. -/
structure NoInodelkOvertaking (c : InodelkCall) (n : Nat) (d : Dom) : Prop where
  newcomer : c.GrantedAtOnce n d → ∀ w ∈ d.blockedInodelks, inodelkConflict c.reqlock w.toInodeLock = true →
    ∃ h ∈ d.inodelkList, sameInodelkOwner h c.reqlock = true
  retried : c.Passes → ∀ r ∈ (grantBlockedInodeLocks c.raw (c.enter n d)).2,
    ∀ w ∈ (c.onDom n d).1.blockedInodelks, w.stamp < r.stamp → inodelkConflict r.toInodeLock w.toInodeLock = true →
    ∃ h ∈ heldAt BlockedInodeLock.toInodeLock BlockedInodeLock.stamp (c.enter n d).inodelkList
      (grantBlockedInodeLocks c.raw (c.enter n d)).2 r, sameInodelkOwner h r.toInodeLock = true

/-- The calls of `__lock_inodelk` one call makes: the domain each is made on, and the lock. -/
def InodelkCall.submissions (n : Nat) (d : Dom) : List (Dom × InodeLock) :=
  (if c.kind = .setlk ∧ c.reqlock.flType ≠ .unlck then [(d, c.reqlock)] else []) ++
    if c.kind = .setlk ∨ c.kind = .release then
      (WaitQueue.submissions (inodelkJudge c.raw (c.enter n d)) BlockedInodeLock.toInodeLock
        (c.enter n d).blockedInodelks ⟨(c.enter n d).inodelkList, []⟩).map fun x =>
          ((c.enter n d).withInodeQueue x.1, x.2.toInodeLock)
    else []

/-- **The scans get it right.** A lock that conflicts with a waiting one also conflicts with a held one,
    or its owner holds an inode lock, or else some entry lock waits in the domain and no entry lock is
    mistaken for one of its owner. -/
def ScansRight (raw : RawFields) (d : Dom) (lock : InodeLock) : Prop :=
  (∃ w ∈ d.blockedInodelks, inodelkConflict lock w.toInodeLock = true) →
    (∃ h ∈ d.inodelkList, inodelkConflict lock h = true) ∨ (∃ h ∈ d.inodelkList, sameInodelkOwner h lock = true) ∨
    (d.blockedEntrylks ≠ [] ∧ ownerHasEntry raw d lock = false)
deriving Decidable

/-- An admitted lock that conflicts with a waiting one has an owner that holds a lock. -/
theorem owner_holds_of_admits {raw : RawFields}
    (hadm : inodelkAdmits raw d lock = true) (hscan : ScansRight raw d lock) {w : BlockedInodeLock}
    (hw : w ∈ d.blockedInodelks) (hconf : inodelkConflict lock w.toInodeLock = true) :
    ∃ h ∈ d.inodelkList, sameInodelkOwner h lock = true := by
  rcases hscan ⟨w, hw, hconf⟩ with ⟨h, hh, hheld⟩ | howner | ⟨hentry, hraw⟩
  · have hno := no_conflict_of_grantable (grantable_of_admits hadm) h hh
    rw [hheld] at hno
    cases hno
  · exact howner
  -- the queue is scanned and `w` is found
  have hfound : (blockedInodelkConflict d d.blockedInodelks lock).isSome = true := by
    unfold blockedInodelkConflict
    rw [if_neg (by simpa using hentry), List.find?_isSome]
    exact ⟨w, hw, hconf⟩
  simp [inodelkAdmits, hfound, hraw] at hadm

variable {c : InodelkCall}

theorem admits_of_grantedAtOnce {n : Nat} (h : c.GrantedAtOnce n d) : inodelkAdmits c.raw d c.reqlock = true := by
  obtain ⟨-, htype, hret⟩ := h
  by_contra hno
  unfold inodeSetlkSection at hret
  rw [if_pos htype] at hret
  unfold lockInodelk at hret
  rw [if_neg hno] at hret
  cases hb : c.blockAs n with
  | none | some frame =>
    rw [hb] at hret
    cases hret

theorem onDom_of_passes (h : c.Passes) (n : Nat) (d : Dom) :
    (c.onDom n d).1 = (grantBlockedInodeLocks c.raw (c.enter n d)).1 := by
  unfold InodelkCall.onDom InodelkCall.enter
  rcases h with hk | hk
  · rw [hk]
  · rw [hk]

theorem mem_submissions_of_pass (h : c.Passes) {n : Nat} {q : State InodeLock BlockedInodeLock} {w : BlockedInodeLock}
    (hsub : (q, w) ∈ WaitQueue.submissions (inodelkJudge c.raw (c.enter n d))
      BlockedInodeLock.toInodeLock (c.enter n d).blockedInodelks ⟨(c.enter n d).inodelkList, []⟩) :
    ((c.enter n d).withInodeQueue q, w.toInodeLock) ∈ c.submissions n d := by
  have hpass : c.kind = .setlk ∨ c.kind = .release := h
  unfold InodelkCall.submissions
  rw [if_pos hpass]
  apply List.mem_append_right
  exact List.mem_map.mpr ⟨(q, w), hsub, rfl⟩

/-- **No overtaking.** From every reachable state, a call all of whose submissions the scans get right
    grants no lock past an older conflicting request, unless the owner holds a lock. -/
theorem inodelk_no_overtaking (calls : List LockCall) (s : LockState) (c : InodelkCall) (hrun : lockRun calls = .ok s)
    (hcond : ∀ x ∈ c.submissions s.inodelkCalls (s.dom c.volume), ScansRight c.raw x.1 x.2) :
    NoInodelkOvertaking c s.inodelkCalls (s.dom c.volume) := by
  constructor
  · intro hnow w hw hconf
    have hscan := hcond (s.dom c.volume, c.reqlock)
      (by simp [InodelkCall.submissions, hnow.1, hnow.2.1])
    exact owner_holds_of_admits (admits_of_grantedAtOnce hnow) hscan hw hconf
  intro hpass r hr w hw hlt hconf
  rw [onDom_of_passes hpass] at hw
  -- what the pass has done, as a relation between the lists before and after it
  have hstamp := inodelk_enter_stamped c (lockRun_dom_stamped hrun c.volume)
  have hspec := inodelk_pass_spec c.raw hstamp
  have hadm := inodelkJudge_grant_iff.mp (hspec.grant r hr)
  have hscan := hcond _ (mem_submissions_of_pass hpass (hspec.submitted r (.inl hr)))
  exact owner_holds_of_admits hadm hscan (mem_olderThan.mpr ⟨hw, hlt⟩) hconf

/-- An `entrylk` call in which every allocation succeeds. -/
def entrylkCall (cmd : EntrylkCmd) (basename : Option String) (trans root : Nat) : EntrylkCall :=
  { volume := "replicate", basename := basename, cmd := cmd, type := .wrlck, trans := trans, pid := 1,
    lkOwner := 0, root := root, pinodeMem := true, domMem := true, lockMem := fun _ => true }

/-- Bytes 12 to 20, which overlap what the waiter asks for and not what the writer holds. -/
def newcomer : InodelkCall := inodelkCall .setlkw .wrlck 12 9 3 300

/-- Then one client takes the name `f`, and another one waits for it. -/
def twoQueues : List LockCall :=
  waiterBehindWriter ++ [.entrylk (entrylkCall .lock (some "f") 4 400), .entrylk (entrylkCall .lock (some "f") 5 500)]

def twoQueuesState : LockState :=
  { waiterState with
    domList := [{ waiterDom with
      entrylkList := [⟨some "f", .wrlck, 4, 400⟩]
      blockedEntrylks := [⟨⟨some "f", .wrlck, 5, 500⟩, ⟨1, 5, 1, 0, 500⟩, rfl, rfl⟩] }]
    entrylkCalls := 2
    entrylkReplies := [⟨⟨0, 4, 1, 0, 400⟩, 0, .ok⟩] }

/-- With an entry lock waiting in the domain the newcomer is put behind the waiter. -/
theorem inodelk_no_overtaking_newcomer : lockRun twoQueues = .ok twoQueuesState ∧
    (newcomer.onDom 2 (twoQueuesState.dom "replicate")).1.blockedInodelks.map (·.owner) = [200, 300] ∧
    NoInodelkOvertaking newcomer 2 (twoQueuesState.dom "replicate") :=
  ⟨rfl, by decide +kernel, inodelk_no_overtaking twoQueues twoQueuesState newcomer rfl
    (by decide +kernel)⟩

/-- **The newcomer overtakes.** It conflicts with the waiting request, its owner holds nothing, and it is
    granted. -/
theorem newcomer_overtakes : lockRun waiterBehindWriter = .ok waiterState ∧
    (newcomer.onDom 2 (waiterState.dom "replicate")).1.inodelkList.map (·.owner) = [300, 100] ∧
    (newcomer.onDom 2 (waiterState.dom "replicate")).1.blockedInodelks.map (·.owner) = [200] ∧
    ¬ NoInodelkOvertaking newcomer 2 (waiterState.dom "replicate") := by
  refine ⟨rfl, by decide +kernel, by decide +kernel, ?_⟩
  intro h
  have howner := h.newcomer ⟨by decide, by decide, by decide +kernel⟩
    ⟨⟨.wrlck, 5, 15, 2, 200⟩, ⟨1, 2, 1, 0, 200⟩⟩ (by decide +kernel) (by decide)
  have hnone : ¬ ∃ h ∈ (waiterState.dom "replicate").inodelkList,
      sameInodelkOwner h newcomer.reqlock = true := by decide +kernel
  exact hnone howner

end GlusterFS.Locks
