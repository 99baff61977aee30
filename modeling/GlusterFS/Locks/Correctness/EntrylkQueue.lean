import GlusterFS.Locks.Correctness.InodelkExclusion

/-!
# `Locks.Correctness.EntrylkQueue` — exclusion, progress and order of entry locks

Three facts about the entry locks of a domain, in every reachable state and for requests of every type.

* Held names do not conflict, not even for one owner (`NamesExclusive`).
* Every queued request is justified: its name conflicts with a held name or with that of an older queued
  request (`Justified`). So the queue is empty when nothing is held.
* No request is granted past an older queued request with a conflicting name, unless its owner already has
  a lock or an older request in the domain (`NoEntrylkOvertaking`).

All three come from what `__lock_name` returns (`lockNameRet`) and from what a pass has done
(`entrylk_pass_spec`).
-/

namespace GlusterFS.Locks

open Transition WaitQueue List BlockedEntryLock

variable {waiting : List BlockedEntryLock} {mem : EntryMem} {d : Dom} {m n : Nat} {c : EntrylkCall}

/-! ## What `__lock_name` returns -/

/-- The request's owner holds a lock or has a request queued. -/
def OwnerKnown (held : List EntryLock) (waiting : List BlockedEntryLock) (lock : EntryLock) : Prop :=
  (∃ h ∈ held, sameEntrylkOwner h lock = true) ∨ ∃ w ∈ waiting, sameEntrylkOwner w.toEntryLock lock = true

variable {held : List EntryLock}

theorem ownerHasEntrylk_iff
    {lock : EntryLock} : ownerHasEntrylk held waiting lock = true ↔ OwnerKnown held waiting lock := by
  simp [ownerHasEntrylk, OwnerKnown]

/-- A request that is granted conflicts with no held name, and with a queued one only if its owner is
    known. -/
theorem lockNameRet_ok {basename : Option String} {type : EntrylkType}
    {frame : CallFrame} (h : lockNameRet mem d basename type frame = .ok) :
    (∀ l ∈ d.entrylkList, namesConflict l.basename basename = false) ∧
      ∀ w ∈ d.blockedEntrylks, namesConflict w.basename basename = true →
        OwnerKnown d.entrylkList d.blockedEntrylks (newEntrylkLock basename type frame) := by
  unfold lockNameRet at h
  split at h
  · cases h
  split at h
  · cases h
  next hheld =>
    have hfree : entrylkGrantable d.entrylkList basename = none := by simpa using hheld
    refine ⟨fun l hl => by simpa using find?_eq_none.mp hfree l hl, ?_⟩
    intro w hw hconf
    split at h
    · cases h
    next hqueue =>
      have hfound : (blockedEntrylkConflict d.blockedEntrylks basename).isSome = true := by
        rw [blockedEntrylkConflict, find?_isSome]
        exact ⟨w, hw, hconf⟩
      apply ownerHasEntrylk_iff.mp
      simpa [hfound] using hqueue

/-- A request that has to wait conflicts with a held or a queued name. -/
theorem lockNameRet_eagain {basename : Option String} {type : EntrylkType}
    {frame : CallFrame} (h : lockNameRet mem d basename type frame = .eagain) :
    (∃ l ∈ d.entrylkList, namesConflict l.basename basename = true) ∨
      ∃ w ∈ d.blockedEntrylks, namesConflict w.basename basename = true := by
  unfold lockNameRet at h
  split at h
  · cases h
  split at h
  next hheld =>
    left
    rwa [entrylkGrantable, find?_isSome] at hheld
  split at h
  next hqueue =>
    right
    simp only [Bool.and_eq_true] at hqueue
    have hsome := hqueue.1
    rwa [blockedEntrylkConflict, find?_isSome] at hsome
  · cases type <;> cases h

theorem entrylkJudge_grant {w : BlockedEntryLock} (h : entrylkJudge mem d held waiting w = .grant) :
    lockNameRet mem (d.withEntryQueue ⟨held, waiting⟩) w.basename w.type w.frame = .ok := by
  unfold entrylkJudge at h
  split at h
  next hret => exact hret
  · cases h
  · cases h

theorem entrylkJudge_wait {w : BlockedEntryLock} (h : entrylkJudge mem d held waiting w = .wait) :
    lockNameRet mem (d.withEntryQueue ⟨held, waiting⟩) w.basename w.type w.frame = .eagain := by
  unfold entrylkJudge at h
  split at h
  · cases h
  next hret => exact hret
  · cases h

/-! ## Exclusion -/

/-- No two held names conflict. -/
def NamesExclusive (held : List EntryLock) : Prop :=
  held.Pairwise fun a b => namesConflict a.basename b.basename = false

theorem namesConflict_comm (n1 n2 : Option String) : namesConflict n1 n2 = namesConflict n2 n1 := by
  unfold namesConflict
  rw [Bool.or_comm (allNames n1), Bool.beq_comm]

theorem NamesExclusive.cons {lock : EntryLock} (h : NamesExclusive held)
    (hfree : ∀ l ∈ held, namesConflict l.basename lock.basename = false) : NamesExclusive (lock :: held) := by
  refine pairwise_cons.mpr ⟨?_, h⟩
  intro l hl
  rw [namesConflict_comm]
  exact hfree l hl

theorem grantBlockedEntryLocks_exclusive (mem : EntryMem) (h : NamesExclusive d.entrylkList) :
    NamesExclusive (grantBlockedEntryLocks mem d).1.entrylkList := by
  rw [grantBlockedEntryLocks_eq]
  refine pass_held (P := NamesExclusive) ?_ h
  intro held waiting w hex hj
  exact hex.cons (lockNameRet_ok (entrylkJudge_grant hj)).1

theorem entrylk_onDom_exclusive (c : EntrylkCall) (n : Nat)
    (h : NamesExclusive d.entrylkList) : NamesExclusive (c.onDom n d).1.entrylkList := by
  rcases entrylk_onDom_cases c n d with ⟨⟨-, -, hret⟩, -, hd⟩ | ⟨-, -, hd⟩ |
    ⟨held, waiting, hsub, -, -, hd⟩ | ⟨-, hd⟩
  · rw [hd]
    exact h.cons (lockNameRet_ok hret).1
  · rw [hd]
    exact h
  · rw [hd]
    exact grantBlockedEntryLocks_exclusive c.lockMem (h.sublist hsub)
  rw [hd]
  exact h

/-! ## Every queued request is justified -/

/-- Every queued request conflicts with a held lock or with an older queued request. -/
def Justified (d : Dom) : Prop :=
  ∀ a ∈ d.blockedEntrylks, (∃ g ∈ d.entrylkList, namesConflict g.basename a.basename = true) ∨
    ∃ b ∈ d.blockedEntrylks, b.stamp < a.stamp ∧ namesConflict b.basename a.basename = true

/-- After a pass every queued request is justified, whatever the queue was before. -/
theorem grantBlockedEntryLocks_justified (mem : EntryMem) (h : d.Stamped n m) :
    Justified (grantBlockedEntryLocks mem d).1 := by
  have hspec := entrylk_pass_spec mem h
  intro a ha
  rcases lockNameRet_eagain (entrylkJudge_wait (hspec.wait a ha)) with ⟨g, hg, hconf⟩ | ⟨b, hb, hconf⟩
  · left
    have hheld : g ∈ (grantBlockedEntryLocks mem d).1.entryQueue.held := by
      rw [hspec.held]
      exact heldAt_subset a hg
    exact ⟨g, hheld, hconf⟩
  right
  obtain ⟨hbw, hlt⟩ := mem_olderThan.mp hb
  exact ⟨b, hbw, hlt, hconf⟩

theorem entrylk_onDom_justified (c : EntrylkCall) (hst : d.Stamped n m)
    (h : Justified d) : Justified (c.onDom m d).1 := by
  rcases entrylk_onDom_cases c m d with ⟨-, -, hd⟩ | ⟨hret, -, hd⟩ |
    ⟨held, waiting, -, hw, -, hd⟩ | ⟨-, hd⟩
  · rw [hd]
    intro a ha
    rcases h a ha with ⟨g, hg, hconf⟩ | hb
    · exact .inl ⟨g, mem_cons_of_mem _ hg, hconf⟩
    · exact .inr hb
  · rw [hd]
    intro a ha
    rcases mem_append.mp ha with ha | ha
    · rcases h a ha with hg | ⟨b, hb, hlt, hconf⟩
      · exact .inl hg
      · exact .inr ⟨b, mem_append_left _ hb, hlt, hconf⟩
    -- the new request: what stopped it is held, or queued before it
    rw [mem_singleton.mp ha]
    rcases lockNameRet_eagain hret with hg | ⟨b, hb, hconf⟩
    · exact .inl hg
    · exact .inr ⟨b, mem_append_left _ hb, hst.entry.below b hb, hconf⟩
  · rw [hd]
    have hst1 : (d.withEntryQueue ⟨held, waiting⟩).Stamped n m := ⟨hst.inode, hst.entry.sublist hw⟩
    exact grantBlockedEntryLocks_justified c.lockMem hst1
  rw [hd]
  exact h

/-- What holds of the entry locks of every domain. -/
structure EntryInv (n m : Nat) (d : Dom) : Prop where
  stamped : d.Stamped n m
  exclusive : NamesExclusive d.entrylkList
  justified : Justified d

theorem lockRun_entryInv {calls : List LockCall} {s : LockState} (hrun : lockRun calls = .ok s) :
    ∀ d ∈ s.domList, EntryInv s.inodelkCalls s.entrylkCalls d := by
  refine lockRun_domain (P := EntryInv) ?_ ?_ ?_ ?_ hrun
  · intro n m volume
    exact ⟨⟨Stamped.nil, Stamped.nil⟩, List.Pairwise.nil, fun a ha => by cases ha⟩
  · intro n m n' m' d hn hm hd
    exact ⟨⟨hd.stamped.inode.mono hn, hd.stamped.entry.mono hm⟩, hd.exclusive, hd.justified⟩
  · intro c n m d hd
    obtain ⟨q, hq⟩ := inodelk_onDom_frame c n d
    refine ⟨inodelk_onDom_stamped c hd.stamped, ?_, ?_⟩
    · rw [hq]
      exact hd.exclusive
    rw [hq]
    exact hd.justified
  intro c n m d hd
  exact ⟨entrylk_onDom_stamped c hd.stamped, entrylk_onDom_exclusive c m hd.exclusive,
    entrylk_onDom_justified c hd.stamped hd.justified⟩

/-- An older request of a stamped queue stands before a younger one. -/
theorem mem_front_of_stamp_lt {pre post : List BlockedEntryLock} {a b : BlockedEntryLock}
    (hst : Stamped stamp n (pre ++ a :: post)) (hb : b ∈ pre ++ a :: post)
    (hlt : b.stamp < a.stamp) : b ∈ pre := by
  rcases mem_append.mp hb with hb | hb
  · exact hb
  have htail := (pairwise_append.mp hst.increasing).2.1
  rcases mem_cons.mp hb with rfl | hb
  · omega
  have hgt := (pairwise_cons.mp htail).1 b hb
  omega

/-- **Exclusion and progress of entry locks.** In every reachable state of every domain the held names are
    pairwise non-conflicting, every queued request conflicts with a held lock or with a request queued
    before it, and nothing is queued when nothing is held. -/
theorem entrylk_exclusion_and_progress (calls : List LockCall) (s : LockState)
    (hrun : lockRun calls = .ok s) : ∀ d ∈ s.domList, NamesExclusive d.entrylkList ∧
    (∀ pre a post, d.blockedEntrylks = pre ++ a :: post →
      (∃ g ∈ d.entrylkList, namesConflict g.basename a.basename = true) ∨
      ∃ b ∈ pre, namesConflict b.basename a.basename = true) ∧ (d.entrylkList = [] → d.blockedEntrylks = []) := by
  intro d hd
  have hinv := lockRun_entryInv hrun d hd
  have hqueue : ∀ (pre : List BlockedEntryLock) (a : BlockedEntryLock) (post : List BlockedEntryLock),
      d.blockedEntrylks = pre ++ a :: post → (∃ g ∈ d.entrylkList, namesConflict g.basename a.basename = true) ∨
      ∃ b ∈ pre, namesConflict b.basename a.basename = true := by
    intro pre a post heq
    rcases hinv.justified a (by rw [heq]; simp) with hg | ⟨b, hb, hlt, hconf⟩
    · exact .inl hg
    rw [heq] at hb
    have hst := hinv.stamped.entry
    rw [heq] at hst
    exact .inr ⟨b, mem_front_of_stamp_lt hst hb hlt, hconf⟩
  refine ⟨hinv.exclusive, hqueue, ?_⟩
  intro hnone
  -- the first request in the queue would have nothing to wait for
  cases hw : d.blockedEntrylks with
  | nil => rfl
  | cons a post =>
    rcases hqueue [] a post hw with ⟨g, hg, -⟩ | ⟨b, hb, -⟩
    · rw [hnone] at hg
      cases hg
    · cases hb

theorem entrylk_exclusion_and_progress_two_queues : lockRun twoQueues = .ok twoQueuesState ∧
    ∀ d ∈ twoQueuesState.domList, d.blockedEntrylks ≠ [] ∧ NamesExclusive d.entrylkList ∧
      (d.entrylkList = [] → d.blockedEntrylks = []) := by
  refine ⟨rfl, ?_⟩
  intro d hd
  obtain ⟨hex, -, hempty⟩ := entrylk_exclusion_and_progress twoQueues twoQueuesState rfl d hd
  refine ⟨?_, hex, hempty⟩
  rw [mem_singleton.mp hd]
  simp

/-! ## No overtaking -/

theorem passStart_spec {d₁ : Dom} (n : Nat) (h : c.passStart d = some d₁) :
    (c.onDom n d).1 = (grantBlockedEntryLocks c.lockMem d₁).1 ∧
      ∃ held waiting, held.Sublist d.entrylkList ∧ waiting.Sublist d.blockedEntrylks ∧
        d₁ = d.withEntryQueue ⟨held, waiting⟩ := by
  rcases entrylk_onDom_cases c n d with ⟨-, hnone, -⟩ | ⟨-, hnone, -⟩ |
    ⟨held, waiting, hh, hw, hsome, hd⟩ | ⟨hnone, -⟩
  · exact absurd (hnone.symm.trans h) (by simp)
  · exact absurd (hnone.symm.trans h) (by simp)
  · obtain rfl : d.withEntryQueue ⟨held, waiting⟩ = d₁ := Option.some.inj (hsome.symm.trans h)
    exact ⟨hd, held, waiting, hh, hw, rfl⟩
  · exact absurd (hnone.symm.trans h) (by simp)

/-- Without a pass, nothing is granted but the call's own request. -/
theorem entrylkList_of_no_pass (n : Nat) (h : c.passStart d = none) : (c.onDom n d).1.entrylkList = d.entrylkList ∨
      (c.GrantedAtOnce n d ∧ (c.onDom n d).1.entrylkList = c.newlock n :: d.entrylkList) := by
  rcases entrylk_onDom_cases c n d with ⟨hnow, -, hd⟩ | ⟨-, -, hd⟩ |
    ⟨held, waiting, -, -, hsome, -⟩ | ⟨-, hd⟩
  · rw [hd]
    exact .inr ⟨hnow, rfl⟩
  · rw [hd]
    exact .inl rfl
  · exact absurd (hsome.symm.trans h) (by simp)
  rw [hd]
  exact .inl rfl

/-- **No overtaking in one call.** A request that is granted conflicts by name with an older request that
    still waits only if its owner had a lock, or an older request, in the domain when it was granted; and
    the pass keeps the requests it queues again in their order. `granted` says that these are all the
    grants there are. -/
structure NoEntrylkOvertaking (c : EntrylkCall) (n : Nat) (d : Dom) : Prop where
  newcomer : c.GrantedAtOnce n d → ∀ a ∈ d.blockedEntrylks, namesConflict a.basename c.basename = true →
    OwnerKnown d.entrylkList d.blockedEntrylks (c.newlock n)
  retried : ∀ d₁, c.passStart d = some d₁ → ∀ b ∈ (grantBlockedEntryLocks c.lockMem d₁).2,
    ∀ a ∈ (c.onDom n d).1.blockedEntrylks, a.stamp < b.stamp → namesConflict a.basename b.basename = true → OwnerKnown
      (heldAt toEntryLock stamp d₁.entrylkList
        (grantBlockedEntryLocks c.lockMem d₁).2 b)
      (olderThan stamp (c.onDom n d).1.blockedEntrylks b) b.toEntryLock
  order : ∀ d₁, c.passStart d = some d₁ → (c.onDom n d).1.blockedEntrylks.Sublist d₁.blockedEntrylks
  granted : ∀ l ∈ (c.onDom n d).1.entrylkList, l ∈ d.entrylkList ∨ (c.GrantedAtOnce n d ∧ l = c.newlock n) ∨
    ∃ d₁, c.passStart d = some d₁ ∧ ∃ b ∈ (grantBlockedEntryLocks c.lockMem d₁).2, l = b.toEntryLock

/-- The pass of a call, as a relation between the queues before and after it. -/
theorem passStart_pass_spec {d₁ : Dom} (hst : d.Stamped n m) (h : c.passStart d = some d₁) :
    PassSpec (entrylkJudge c.lockMem d₁) toEntryLock stamp
      d₁.entryQueue (c.onDom m d).1.entryQueue (grantBlockedEntryLocks c.lockMem d₁).2 := by
  obtain ⟨hdom, held, waiting, -, hsub, rfl⟩ := passStart_spec m h
  have hst1 : (d.withEntryQueue ⟨held, waiting⟩).Stamped n m := ⟨hst.inode, hst.entry.sublist hsub⟩
  rw [hdom]
  exact entrylk_pass_spec c.lockMem hst1

theorem entrylk_granted_from (hst : d.Stamped n m) :
    ∀ l ∈ (c.onDom m d).1.entrylkList, l ∈ d.entrylkList ∨ (c.GrantedAtOnce m d ∧ l = c.newlock m) ∨
      ∃ d₁, c.passStart d = some d₁ ∧ ∃ b ∈ (grantBlockedEntryLocks c.lockMem d₁).2, l = b.toEntryLock := by
  intro l hl
  cases hstart : c.passStart d with
  | none =>
    rcases entrylkList_of_no_pass m hstart with hsame | ⟨hnow, hcons⟩
    · rw [hsame] at hl
      exact .inl hl
    rw [hcons] at hl
    rcases mem_cons.mp hl with rfl | hl
    · exact .inr (.inl ⟨hnow, rfl⟩)
    · exact .inl hl
  | some d₁ =>
    obtain ⟨-, held, waiting, hsub, -, hd1⟩ := passStart_spec m hstart
    have hheld : (c.onDom m d).1.entrylkList = _ ++ d₁.entrylkList :=
      (passStart_pass_spec hst hstart).held
    rw [hheld] at hl
    rcases mem_append.mp hl with hl | hl
    · obtain ⟨b, hb, rfl⟩ := mem_map.mp hl
      exact .inr (.inr ⟨d₁, rfl, b, hb, rfl⟩)
    rw [hd1] at hl
    exact .inl (hsub.subset hl)

/-- **No overtaking of entry locks.** From every reachable state, in which each queue is in the order of
    the calls, no call grants a request past an older conflicting one, unless its owner is known. -/
theorem entrylk_no_overtaking (calls : List LockCall) (s : LockState) (hrun : lockRun calls = .ok s) (c : EntrylkCall) :
    (s.dom c.volume).blockedEntrylks.Pairwise (fun a b => a.stamp < b.stamp) ∧
      NoEntrylkOvertaking c s.entrylkCalls (s.dom c.volume) := by
  have hst := lockRun_dom_stamped hrun c.volume
  refine ⟨hst.entry.increasing, ?_, ?_, ?_, entrylk_granted_from hst⟩
  · rintro ⟨-, -, hret⟩ a ha hconf
    exact (lockNameRet_ok hret).2 a ha hconf
  · intro d₁ hd1 b hb a ha hlt hconf
    have hspec := passStart_pass_spec hst hd1
    have hret := lockNameRet_ok (entrylkJudge_grant (hspec.grant b hb))
    have hknown := hret.2 a (mem_olderThan.mpr ⟨ha, hlt⟩) hconf
    rw [newEntrylkLock_blocked] at hknown
    exact hknown
  intro d₁ hd1
  exact (passStart_pass_spec hst hd1).kept

/-- The client that waits for the name `f` in `twoQueues` gets it when the holder unlocks. -/
theorem entrylk_no_overtaking_unlock : lockRun twoQueues = .ok twoQueuesState ∧
    ((entrylkCall .unlock (some "f") 4 400).onDom 2 (twoQueuesState.dom "replicate")).1.entrylkList.map
      (·.owner) = [500] ∧
    NoEntrylkOvertaking (entrylkCall .unlock (some "f") 4 400) 2 (twoQueuesState.dom "replicate") :=
  ⟨rfl, by decide +kernel,
    (entrylk_no_overtaking twoQueues twoQueuesState rfl (entrylkCall .unlock (some "f") 4 400)).2⟩

end GlusterFS.Locks
