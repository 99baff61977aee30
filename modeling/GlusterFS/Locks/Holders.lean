import GlusterFS.Locks.Roots

/-!
# `Locks.Holders` — who holds the locks of an inode

`Locks.Roots` keeps beside every inode lock the number of the call it is from. Here the same is done for entry
locks, and both are put together: for each kind of lock and each domain, the calls whose locks are held and
those whose locks wait. A call can add one lock to the waiting ones, and whatever becomes held is answered with
success in the same call (`step_spec`).
-/

namespace GlusterFS.Locks

open WaitQueue
open List

/-! ## Entry locks and their calls -/

/-- A lock and the number of the `entrylk` call it is from. -/
structure RootedEntry where
  lock : EntryLock
  call : Nat
  deriving DecidableEq, Repr

def BlockedEntryLock.rooted (w : BlockedEntryLock) : RootedEntry := ⟨w.toEntryLock, w.frame.id⟩

/-- A grant pass over the locks with their calls. -/
def entryPass (mem : EntryMem) (d : Dom) (held : List RootedEntry) :
    State RootedEntry BlockedEntryLock × List BlockedEntryLock :=
  pass (fun held => entrylkJudge mem d (held.map RootedEntry.lock)) BlockedEntryLock.rooted ⟨held, d.blockedEntrylks⟩

variable (c : EntrylkCall)

def EntrylkCall.rootedOnDom (n : Nat) (d : Dom) (held : List RootedEntry) : List RootedEntry :=
  if c.pid = 0 then
    (entryPass c.lockMem (releaseEntryLocksForTransport d c.trans).1 (held.filter fun l => l.lock.trans != c.trans)).1.held
  else
    match c.cmd with
    | .lock =>
      if lockNameRet c.lockMem d c.basename c.type (c.frame n) = .ok then ⟨c.newlock n, n⟩ :: held else held
    | .lockNb =>
      if lockNameRet c.lockMem d c.basename c.type (c.frame n) = .ok then ⟨c.newlock n, n⟩ :: held else held
    | .unlock =>
      match unlockName d c.basename c.type with
      | (none, _) => held
      | (some _, d₁) =>
        (entryPass c.lockMem d₁ (held.reverse.eraseP fun l => namesEqual l.lock.basename c.basename).reverse).1.held
    | .other => held

/-- The lock an `entrylk` call asks for, if it asks for one. -/
def EntrylkCall.Asks (n : Nat) (l : RootedEntry) : Prop := c.cmd ≠ .unlock ∧ l = ⟨c.newlock n, n⟩

/-- The pass with notes is the pass of the model, and grants the same requests. -/
theorem entryPass_eq (mem : EntryMem) {d : Dom} {held : List RootedEntry} (h : held.map RootedEntry.lock = d.entrylkList) :
    (entryPass mem d held).1.held.map RootedEntry.lock = (grantBlockedEntryLocks mem d).1.entrylkList ∧
      (entryPass mem d held).2 = (grantBlockedEntryLocks mem d).2 := by
  rw [grantBlockedEntryLocks_eq]
  have hlock : ∀ w : BlockedEntryLock, RootedEntry.lock w.rooted = w.toEntryLock := fun _ => rfl
  have hmap := pass_map (entrylkJudge mem d) RootedEntry.lock hlock held d.blockedEntrylks
  rw [h] at hmap
  exact ⟨hmap.1.symm, hmap.2.symm⟩

/-- The locks a call takes off before its pass, with and without notes. -/
structure KeptBy (held kept : List RootedEntry) (d d₁ : Dom) : Prop where
  sublist : kept.Sublist held
  waiting : d₁.blockedEntrylks.Sublist d.blockedEntrylks
  noted : held.map RootedEntry.lock = d.entrylkList → kept.map RootedEntry.lock = d₁.entrylkList

/-- **What an `entrylk` call does**, with notes: it is granted at once, it is queued, it takes locks off and runs
    a pass, or it does nothing. -/
theorem entry_rootedOnDom_cases (n : Nat) (d : Dom) (held : List RootedEntry) :
    (c.Asks n ⟨c.newlock n, n⟩ ∧ Answered (c.onDom n d).2 n ∧ c.rootedOnDom n d held = ⟨c.newlock n, n⟩ :: held ∧
      (c.onDom n d).1 = d.withEntryQueue ⟨c.newlock n :: d.entrylkList, d.blockedEntrylks⟩) ∨
    (c.Asks n ⟨c.newlock n, n⟩ ∧ c.rootedOnDom n d held = held ∧ (c.onDom n d).1 = d.withEntryQueue
      ⟨d.entrylkList, d.blockedEntrylks ++ [blockedEntrylkLock c.basename c.type (c.frame n)]⟩) ∨
    (∃ d₁ kept, KeptBy held kept d d₁ ∧ c.rootedOnDom n d held = (entryPass c.lockMem d₁ kept).1.held ∧
      (c.onDom n d).1 = (grantBlockedEntryLocks c.lockMem d₁).1 ∧
      entrylkGrantReplies (grantBlockedEntryLocks c.lockMem d₁).2 ⊆ (c.onDom n d).2) ∨
    (c.rootedOnDom n d held = held ∧ (c.onDom n d).1 = d) := by
  unfold EntrylkCall.rootedOnDom EntrylkCall.onDom
  by_cases hpid : c.pid = 0
  · rw [if_pos hpid, if_pos hpid]
    refine .inr (.inr (.inl ⟨_, _, ⟨filter_sublist, filter_sublist, ?_⟩, rfl, rfl, ?_⟩))
    · intro hnoted
      show _ = d.entrylkList.filter fun l => l.trans != c.trans
      rw [← hnoted, filter_map]
      rfl
    · exact fun r hr => mem_append_left _ (mem_append_right _ hr)
  rw [if_neg hpid, if_neg hpid]
  cases hcmd : c.cmd with
  | other => exact .inr (.inr (.inr ⟨rfl, rfl⟩))
  | unlock =>
    rcases unlockName_cases d c.basename c.type with hnone | ⟨lock, -, -, -, -, hsome⟩
    · rw [hnone]
      exact .inr (.inr (.inr ⟨rfl, rfl⟩))
    rw [hsome]
    refine .inr (.inr (.inl ⟨d.withEntryQueue ⟨dropName d.entrylkList c.basename, d.blockedEntrylks⟩, _,
      ⟨?_, List.Sublist.refl _, ?_⟩, rfl, rfl, ?_⟩))
    · have hsub := (eraseP_sublist (p := fun l : RootedEntry => namesEqual l.lock.basename c.basename)
        (l := held.reverse)).reverse
      rwa [reverse_reverse] at hsub
    · intro hnoted
      show _ = dropName d.entrylkList c.basename
      unfold dropName
      have hreverse : (held.map RootedEntry.lock).reverse = held.reverse.map RootedEntry.lock :=
        map_reverse.symm
      rw [← hnoted, hreverse, eraseP_map, map_reverse]
      rfl
    · exact fun r hr => mem_append_left _ hr
  | lock | lockNb =>
    have hasks : c.Asks n ⟨c.newlock n, n⟩ := ⟨by rw [hcmd]; decide, rfl⟩
    unfold lockName
    cases hret : lockNameRet c.lockMem d c.basename c.type (c.frame n) with
    | ok => exact .inl ⟨hasks, ⟨_, mem_singleton_self _, rfl, Int.le_refl 0⟩, rfl, rfl⟩
    | eagain => first | exact .inr (.inl ⟨hasks, rfl, rfl⟩) | exact .inr (.inr (.inr ⟨rfl, rfl⟩))
    | einval | enomem | enotsup => exact .inr (.inr (.inr ⟨rfl, rfl⟩))

section

variable {c : EntrylkCall} {n : Nat} {d : Dom} {held : List RootedEntry}

theorem map_lock_entry_rootedOnDom (h : held.map RootedEntry.lock = d.entrylkList) :
    (c.rootedOnDom n d held).map RootedEntry.lock = (c.onDom n d).1.entrylkList := by
  rcases entry_rootedOnDom_cases c n d held with ⟨-, -, hroot, hdom⟩ | ⟨-, hroot, hdom⟩ |
    ⟨d₁, kept, hkept, hroot, hdom, -⟩ | ⟨hroot, hdom⟩
  · rw [hroot, hdom, map_cons, h]
    rfl
  · rw [hroot, hdom, h]
    rfl
  · rw [hroot, hdom]
    exact (entryPass_eq c.lockMem (hkept.noted h)).1
  · rw [hroot, hdom, h]

theorem mem_entry_onDom_blocked {w : BlockedEntryLock} (h : w ∈ (c.onDom n d).1.blockedEntrylks) :
    w ∈ d.blockedEntrylks ∨ c.Asks n w.rooted := by
  rcases entry_rootedOnDom_cases c n d [] with ⟨-, -, -, hdom⟩ | ⟨hasks, -, hdom⟩ |
    ⟨d₁, kept, hkept, -, hdom, -⟩ | ⟨-, hdom⟩
  · rw [hdom] at h
    exact .inl h
  · rw [hdom] at h
    rcases mem_append.mp h with hold | hnew
    · exact .inl hold
    rw [mem_singleton.mp hnew]
    exact .inr hasks
  · rw [hdom, grantBlockedEntryLocks_eq] at h
    exact .inl (hkept.waiting.subset ((pass_mem _ _ d₁.entryQueue).2.1 w h))
  rw [hdom] at h
  exact .inl h

/-- What is held after a call was held before, or it is answered and waited or is asked for. -/
theorem mem_entry_rootedOnDom {l : RootedEntry} (hnoted : held.map RootedEntry.lock = d.entrylkList)
    (h : l ∈ c.rootedOnDom n d held) :
    l ∈ held ∨ Answered (c.onDom n d).2 l.call ∧ (l ∈ d.blockedEntrylks.map BlockedEntryLock.rooted ∨ c.Asks n l) := by
  rcases entry_rootedOnDom_cases c n d held with ⟨hasks, hans, hroot, -⟩ | ⟨-, hroot, -⟩ |
    ⟨d₁, kept, hkept, hroot, -, hreplies⟩ | ⟨hroot, -⟩
  · rw [hroot] at h
    rcases mem_cons.mp h with rfl | hold
    · exact .inr ⟨hans, .inr hasks⟩
    · exact .inl hold
  · rw [hroot] at h
    exact .inl h
  · rw [hroot] at h
    obtain ⟨hheld, -, hgrant⟩ := pass_mem (fun held => entrylkJudge c.lockMem d₁ (held.map RootedEntry.lock))
      BlockedEntryLock.rooted ⟨kept, d₁.blockedEntrylks⟩
    rcases hheld l h with hold | ⟨w, hw, rfl⟩
    · exact .inl (hkept.sublist.subset hold)
    have hmodel : w ∈ (grantBlockedEntryLocks c.lockMem d₁).2 := by
      rw [← (entryPass_eq c.lockMem (hkept.noted hnoted)).2]
      exact hw
    exact .inr ⟨⟨_, hreplies (mem_map_of_mem hmodel), rfl, Int.le_refl 0⟩,
      .inl (mem_map_of_mem (hkept.waiting.subset (hgrant w hw)))⟩
  rw [hroot] at h
  exact .inl h

end

/-! ## Both kinds of lock -/

inductive LockKind where
  | inode
  | entry
  deriving DecidableEq, Repr

/-- A lock as far as its holder goes: the connection, and the number of the call. -/
structure Note where
  trans : Nat
  call : Nat
  deriving DecidableEq, Repr

def RootedLock.note (l : RootedLock) : Note := ⟨l.lock.transport, l.call⟩

def RootedEntry.note (l : RootedEntry) : Note := ⟨l.lock.trans, l.call⟩

/-- The state of an inode, with the calls all of its held locks are from. -/
structure HolderState where
  roots : RootState
  entries : String → List RootedEntry

def HolderState.init : HolderState := ⟨RootState.init, fun _ => []⟩

variable (s : HolderState)

def HolderState.entriesAfter : LockCall → String → List RootedEntry
  | .inodelk _ => s.entries
  | .entrylk c =>
    if c.pinodeMem = false then s.entries
    else
      match getDomain s.roots.locks.domList c.volume c.domMem with
      | none => s.entries
      | some d => fun volume =>
        if volume = c.volume then c.rootedOnDom s.roots.locks.entrylkCalls d (s.entries volume) else s.entries volume

def HolderState.step (a : LockCall) : Except Fault HolderState :=
  match s.roots.step a with
  | .error e => .error e
  | .ok roots => .ok ⟨roots, s.entriesAfter a⟩

def HolderState.calls : LockKind → Nat
  | .inode => s.roots.locks.inodelkCalls
  | .entry => s.roots.locks.entrylkCalls

def HolderState.replies : LockKind → List LockReply
  | .inode => s.roots.locks.inodelkReplies
  | .entry => s.roots.locks.entrylkReplies

def HolderState.held (volume : String) : LockKind → List Note
  | .inode => (s.roots.rooted volume).map RootedLock.note
  | .entry => (s.entries volume).map RootedEntry.note

def HolderState.waiting (volume : String) : LockKind → List Note
  | .inode => (s.roots.waiting volume).map RootedLock.note
  | .entry => ((s.roots.locks.dom volume).blockedEntrylks.map BlockedEntryLock.rooted).map RootedEntry.note

/-- The notes are about the locks that are held. -/
structure HolderState.Noted (s : HolderState) : Prop where
  inodes : s.roots.Noted
  entries : ∀ volume, (s.entries volume).map RootedEntry.lock = (s.roots.locks.dom volume).entrylkList

def LockCall.kind : LockCall → LockKind
  | .inodelk _ => .inode
  | .entrylk _ => .entry

def LockCall.volume : LockCall → String
  | .inodelk c => c.volume
  | .entrylk c => c.volume

/-- The call does not give a lock back. -/
def LockCall.locks : LockCall → Bool
  | .inodelk c => c.flock.lType ≠ .unlck
  | .entrylk c => c.cmd ≠ .unlock

/-- What a call does to the locks and who is told. -/
structure StepSpec (s s' : HolderState) (a : LockCall) (rs : List LockReply) : Prop where
  calls : s'.calls a.kind = s.calls a.kind + 1
  replies : s'.replies a.kind = s.replies a.kind ++ rs
  others : ∀ κ, κ ≠ a.kind → s'.calls κ = s.calls κ ∧
    ∀ volume, s'.held volume κ = s.held volume κ ∧ s'.waiting volume κ = s.waiting volume κ
  held : ∀ volume, ∀ m ∈ s'.held volume a.kind, m ∈ s.held volume a.kind ∨ a.volume = volume ∧ Answered rs m.call ∧
    (m ∈ s.waiting volume a.kind ∨ a.locks = true ∧ m = ⟨a.trans, s.calls a.kind⟩)
  waiting : ∀ volume, ∀ m ∈ s'.waiting volume a.kind, m ∈ s.waiting volume a.kind ∨
    a.volume = volume ∧ a.locks = true ∧ m = ⟨a.trans, s.calls a.kind⟩

section

variable {s s' : HolderState} {a : LockCall}

theorem holder_step (h : s.step a = .ok s') : s.roots.step a = .ok s'.roots ∧ s'.entries = s.entriesAfter a := by
  unfold HolderState.step at h
  cases hstep : s.roots.step a with
  | error e =>
    rw [hstep] at h
    cases h
  | ok roots =>
    rw [hstep] at h
    cases h
    exact ⟨rfl, rfl⟩

theorem domMem_of_getDomain_none {domList : List Dom} {volume : String} {mem : Bool}
    (h : getDomain domList volume mem = none) : mem = false := by
  unfold getDomain at h
  split at h
  · cases h
  cases mem with
  | false => rfl
  | true => cases h

/-- What an `entrylk` call does to the domains: nothing, or its work on one of them. -/
theorem step_entries {c : EntrylkCall} (h : s.step (.entrylk c) = .ok s') :
    ∃ domList rs, s'.roots.locks = s.roots.locks.entrylkDone domList rs ∧
      ((s'.entries = s.entries ∧ domList = s.roots.locks.domList ∧ (c.pinodeMem = false ∨ c.domMem = false)) ∨
        ((s'.entries = fun volume => if volume = c.volume then
            c.rootedOnDom s.roots.locks.entrylkCalls (s.roots.locks.dom c.volume) (s.entries volume)
            else s.entries volume) ∧ domList = putDomain s.roots.locks.domList
            (c.onDom s.roots.locks.entrylkCalls (s.roots.locks.dom c.volume)).1 ∧
          rs = (c.onDom s.roots.locks.entrylkCalls (s.roots.locks.dom c.volume)).2)) := by
  obtain ⟨hroots, hents⟩ := holder_step h
  have hlocks := (Except.ok.inj (step_locks hroots)).symm
  rw [hlocks, hents]
  unfold plCommonEntrylk HolderState.entriesAfter
  by_cases hmem : c.pinodeMem = false
  · dsimp only
    rw [if_pos hmem, if_pos hmem]
    exact ⟨_, _, rfl, .inl ⟨rfl, rfl, .inl hmem⟩⟩
  dsimp only
  rw [if_neg hmem, if_neg hmem]
  cases hdom : getDomain s.roots.locks.domList c.volume c.domMem with
  | none => exact ⟨_, _, rfl, .inl ⟨rfl, rfl, .inr (domMem_of_getDomain_none hdom)⟩⟩
  | some d =>
    have heq : d = s.roots.locks.dom c.volume := getDomain_eq hdom
    rw [heq]
    exact ⟨_, _, rfl, .inr ⟨rfl, rfl, rfl⟩⟩

theorem step_entries_dom {c : EntrylkCall} (h : s.step (.entrylk c) = .ok s') :
    ∃ domList rs, s'.roots.locks = s.roots.locks.entrylkDone domList rs ∧ ∀ volume,
      (s'.entries volume = s.entries volume ∧ s'.roots.locks.dom volume = s.roots.locks.dom volume ∧
        (c.volume = volume → c.pinodeMem = false ∨ c.domMem = false)) ∨ (c.volume = volume ∧
          s'.entries volume = c.rootedOnDom s.roots.locks.entrylkCalls (s.roots.locks.dom volume) (s.entries volume) ∧
          s'.roots.locks.dom volume = (c.onDom s.roots.locks.entrylkCalls (s.roots.locks.dom volume)).1 ∧
          rs = (c.onDom s.roots.locks.entrylkCalls (s.roots.locks.dom volume)).2) := by
  obtain ⟨domList, rs, hlocks, hcases⟩ := step_entries h
  have hdoms : ∀ volume, s'.roots.locks.dom volume = domOf domList volume := by
    intro volume
    unfold LockState.dom
    rw [hlocks]
    rfl
  refine ⟨domList, rs, hlocks, ?_⟩
  intro volume
  rw [hdoms volume]
  rcases hcases with ⟨hents, rfl, hnot⟩ | ⟨hents, rfl, rfl⟩
  · exact .inl ⟨congrFun hents volume, rfl, fun _ => hnot⟩
  have hname : (c.onDom s.roots.locks.entrylkCalls (s.roots.locks.dom c.volume)).1.domain = c.volume :=
    (entrylk_onDom_domain c _ _).trans (domOf_domain _ _)
  by_cases hvol : volume = c.volume
  · subst hvol
    refine .inr ⟨rfl, (congrFun hents _).trans (if_pos rfl), ?_, rfl⟩
    have hself := domOf_putDomain_self s.roots.locks.domList
      (c.onDom s.roots.locks.entrylkCalls (s.roots.locks.dom c.volume)).1
    rw [hname] at hself
    exact hself
  refine .inl ⟨(congrFun hents _).trans (if_neg hvol), ?_, fun heq => absurd heq.symm hvol⟩
  exact domOf_putDomain_other (by rw [hname]; exact hvol)

theorem step_inodelk_entries {c : InodelkCall} (h : s.step (.inodelk c) = .ok s') : s'.entries = s.entries ∧ ∀ volume,
      (s'.roots.locks.dom volume).entrylkList = (s.roots.locks.dom volume).entrylkList ∧
      (s'.roots.locks.dom volume).blockedEntrylks = (s.roots.locks.dom volume).blockedEntrylks := by
  obtain ⟨hroots, hents⟩ := holder_step h
  refine ⟨hents, ?_⟩
  intro volume
  obtain ⟨_, _, _, hdoms⟩ := step_inodelk_dom hroots
  rcases hdoms volume with ⟨-, hdom, -⟩ | ⟨-, -, hdom, -⟩
  · rw [hdom]
    exact ⟨rfl, rfl⟩
  obtain ⟨q, hq⟩ := inodelk_onDom_frame c s.roots.locks.inodelkCalls (s.roots.locks.dom volume)
  rw [hdom, hq]
  exact ⟨rfl, rfl⟩

theorem HolderState.Noted.step (hnoted : s.Noted) (h : s.step a = .ok s') : s'.Noted := by
  refine ⟨hnoted.inodes.step (holder_step h).1, ?_⟩
  intro volume
  cases a with
  | inodelk c =>
    obtain ⟨hents, hsame⟩ := step_inodelk_entries h
    rw [hents, (hsame volume).1]
    exact hnoted.entries volume
  | entrylk c =>
    obtain ⟨_, _, _, hdoms⟩ := step_entries_dom h
    rcases hdoms volume with ⟨hents, hdom, -⟩ | ⟨-, hents, hdom, -⟩
    · rw [hents, hdom]
      exact hnoted.entries volume
    rw [hents, hdom]
    exact map_lock_entry_rootedOnDom (hnoted.entries volume)

theorem step_spec_inodelk {c : InodelkCall} (hnoted : s.Noted) (h : s.step (.inodelk c) = .ok s') :
    ∃ rs, StepSpec s s' (.inodelk c) rs := by
  have hroots := (holder_step h).1
  obtain ⟨domList, rs, hlocks, hdoms⟩ := step_inodelk_dom hroots
  have hnew : ∀ {l : RootedLock}, c.Asks s.roots.locks.inodelkCalls l →
      (LockCall.inodelk c).locks = true ∧ l.note = ⟨c.trans, s.roots.locks.inodelkCalls⟩ := by
    rintro l ⟨htype, rfl⟩
    exact ⟨decide_eq_true htype, rfl⟩
  refine ⟨rs, ?_, ?_, ?_, ?_, ?_⟩
  · show s'.roots.locks.inodelkCalls = s.roots.locks.inodelkCalls + 1
    rw [hlocks]
    rfl
  · show s'.roots.locks.inodelkReplies = s.roots.locks.inodelkReplies ++ rs
    rw [hlocks]
    rfl
  · intro κ hκ
    cases κ with
    | inode => exact absurd rfl hκ
    | entry =>
      refine ⟨?_, ?_⟩
      · show s'.roots.locks.entrylkCalls = s.roots.locks.entrylkCalls
        rw [hlocks]
        rfl
      intro volume
      obtain ⟨hents, hsame⟩ := step_inodelk_entries h
      unfold HolderState.held HolderState.waiting
      rw [hents, (hsame volume).2]
      exact ⟨rfl, rfl⟩
  · intro volume m hm
    obtain ⟨l, hl, rfl⟩ := mem_map.mp hm
    rcases hdoms volume with ⟨hroot, -, -⟩ | ⟨hvol, hroot, -, rfl⟩
    · rw [hroot] at hl
      exact .inl (mem_map_of_mem hl)
    rw [hroot] at hl
    rcases answered_of_mem_rootedOnDom (hnoted.inodes volume) hl with hold | hans
    · exact .inl (mem_map_of_mem hold)
    rcases mem_rootedOnDom hl with hlisted | hasks
    · rcases mem_append.mp hlisted with hold | hwait
      · exact .inl (mem_map_of_mem hold)
      · exact .inr ⟨hvol, hans, .inl (mem_map_of_mem hwait)⟩
    · exact .inr ⟨hvol, hans, .inr (hnew hasks)⟩
  intro volume m hm
  obtain ⟨l, hl, rfl⟩ := mem_map.mp hm
  rcases mem_waiting_step hroots hl with hold | ⟨hvol, hasks⟩
  · exact .inl (mem_map_of_mem hold)
  · exact .inr ⟨hvol, hnew hasks⟩

theorem step_spec_entrylk {c : EntrylkCall} (hnoted : s.Noted) (h : s.step (.entrylk c) = .ok s') :
    ∃ rs, StepSpec s s' (.entrylk c) rs := by
  have hroots := (holder_step h).1
  obtain ⟨domList, rs, hlocks, hdoms⟩ := step_entries_dom h
  have hnew : ∀ {l : RootedEntry}, c.Asks s.roots.locks.entrylkCalls l →
      (LockCall.entrylk c).locks = true ∧ l.note = ⟨c.trans, s.roots.locks.entrylkCalls⟩ := by
    rintro l ⟨hcmd, rfl⟩
    exact ⟨decide_eq_true hcmd, rfl⟩
  refine ⟨rs, ?_, ?_, ?_, ?_, ?_⟩
  · show s'.roots.locks.entrylkCalls = s.roots.locks.entrylkCalls + 1
    rw [hlocks]
    rfl
  · show s'.roots.locks.entrylkReplies = s.roots.locks.entrylkReplies ++ rs
    rw [hlocks]
    rfl
  · intro κ hκ
    cases κ with
    | entry => exact absurd rfl hκ
    | inode =>
      refine ⟨?_, ?_⟩
      · show s'.roots.locks.inodelkCalls = s.roots.locks.inodelkCalls
        rw [hlocks]
        rfl
      intro volume
      obtain ⟨hroot, hsame⟩ := step_entrylk hroots
      unfold HolderState.held HolderState.waiting RootState.waiting
      rw [hroot, (hsame volume).2]
      exact ⟨rfl, rfl⟩
  · intro volume m hm
    obtain ⟨l, hl, rfl⟩ := mem_map.mp hm
    rcases hdoms volume with ⟨hents, -, -⟩ | ⟨hvol, hents, -, rfl⟩
    · rw [hents] at hl
      exact .inl (mem_map_of_mem hl)
    rw [hents] at hl
    rcases mem_entry_rootedOnDom (hnoted.entries volume) hl with hold | ⟨hans, hwait | hasks⟩
    · exact .inl (mem_map_of_mem hold)
    · exact .inr ⟨hvol, hans, .inl (mem_map_of_mem hwait)⟩
    · exact .inr ⟨hvol, hans, .inr (hnew hasks)⟩
  intro volume m hm
  obtain ⟨l, hl, rfl⟩ := mem_map.mp hm
  obtain ⟨w, hw, rfl⟩ := mem_map.mp hl
  rcases hdoms volume with ⟨-, hdom, -⟩ | ⟨hvol, -, hdom, -⟩
  · rw [hdom] at hw
    exact .inl (mem_map_of_mem (mem_map_of_mem hw))
  rw [hdom] at hw
  rcases mem_entry_onDom_blocked hw with hold | hasks
  · exact .inl (mem_map_of_mem (mem_map_of_mem hold))
  · exact .inr ⟨hvol, hnew hasks⟩

/-- **What a call does to the locks and who is told.** -/
theorem step_spec (hnoted : s.Noted) (h : s.step a = .ok s') : ∃ rs, StepSpec s s' a rs := by
  cases a with
  | inodelk c => exact step_spec_inodelk hnoted h
  | entrylk c => exact step_spec_entrylk hnoted h

/-! ## A connection without locks -/

/-- A connection has no lock of the kind in the domain, and waits for none. -/
def HolderState.Free (s : HolderState) (volume : String) (κ : LockKind) (trans : Nat) : Prop :=
  ∀ m, m ∈ s.held volume κ ∨ m ∈ s.waiting volume κ → m.trans ≠ trans

theorem HolderState.Free.step {volume : String} {κ : LockKind} {trans : Nat} {rs : List LockReply}
    (hspec : StepSpec s s' a rs) (hlocks : a.locks = false) (h : s.Free volume κ trans) : s'.Free volume κ trans := by
  have hno : ∀ {p : Prop}, ¬ (a.locks = true ∧ p) := fun hp => Bool.false_ne_true (hlocks.symm.trans hp.1)
  by_cases hκ : κ = a.kind
  · subst hκ
    rintro m (hm | hm)
    · rcases hspec.held volume m hm with hold | ⟨-, -, hwait | hnew⟩
      · exact h m (.inl hold)
      · exact h m (.inr hwait)
      · exact absurd hnew hno
    rcases hspec.waiting volume m hm with hold | ⟨-, hnew⟩
    · exact h m (.inr hold)
    · exact absurd hnew hno
  have hsame := (hspec.others κ hκ).2 volume
  intro m hm
  rw [hsame.1, hsame.2] at hm
  exact h m hm

theorem releaseHeldRooted_free {trans : Nat} {path : Nat → Bool} (hpath : ∀ k, path k = true)
    (held : List RootedLock) (k : Nat) : ∀ l ∈ releaseHeldRooted trans path k held, l.lock.transport ≠ trans := by
  induction held generalizing k with
  | nil =>
    intro l hl
    cases hl
  | cons l ls ih =>
    intro l' hl'
    rw [releaseHeldRooted, hpath k] at hl'
    split at hl'
    · exact ih (k + 1) l' hl'
    next hne =>
      rcases mem_cons.mp hl' with rfl | hrest
      · exact hne
      · exact ih k l' hrest

theorem releaseBlocked_free (trans : Nat) {path : Nat → Bool} (hpath : ∀ k, path k = true)
    (ws : List BlockedInodeLock) (k : Nat) (released : List BlockedInodeLock) :
    (∀ w ∈ (releaseBlocked trans path k ws released).1, w.transport ≠ trans) ∧
      (releaseBlocked trans path k ws released).2.2 ≠ none := by
  induction ws generalizing k released with
  | nil =>
    refine ⟨?_, ?_⟩
    · intro w hw
      cases hw
    intro hnone
    cases hnone
  | cons w ws ih =>
    rw [releaseBlocked, hpath k]
    split
    · exact ih (k + 1) (w :: released)
    next hne =>
      obtain ⟨hfree, hsome⟩ := ih k released
      refine ⟨?_, hsome⟩
      exact forall_mem_cons.mpr ⟨hne, hfree⟩

/-- A call that gets its domain does not crash. -/
theorem inodelk_step_ok (s : HolderState) {c : InodelkCall} (hdomMem : c.domMem = true) :
    ∃ s', s.step (.inodelk c) = .ok s' := by
  have hlocks : ∃ locks, (LockCall.inodelk c).step s.roots.locks = .ok locks := by
    simp only [LockCall.step, plCommonInodelk]
    split
    · exact ⟨_, rfl⟩
    split
    · exact ⟨_, rfl⟩
    cases hdom : getDomain s.roots.locks.domList c.volume c.domMem with
    | some d => exact ⟨_, rfl⟩
    | none => exact absurd ((domMem_of_getDomain_none hdom).symm.trans hdomMem) Bool.false_ne_true
  obtain ⟨locks, hlocks⟩ := hlocks
  unfold HolderState.step RootState.step
  rw [hlocks]
  exact ⟨_, rfl⟩

theorem entrylk_step_ok (s : HolderState) (c : EntrylkCall) : ∃ s', s.step (.entrylk c) = .ok s' := ⟨_, rfl⟩

/-- After the release of a transport's inode locks it has none in the domain, if every `inode_path` succeeds. -/
theorem release_inodelk {c : InodelkCall} (h : s.step (.inodelk c) = .ok s') (hrelease : ¬ c.NoRelease)
    (hpath : ∀ k, c.path k = true) : s'.Free c.volume .inode c.trans := by
  have hkind : c.kind = .release := by
    by_contra hne
    exact hrelease (.inr (.inr (.inr hne)))
  obtain ⟨_, _, _, hdoms⟩ := step_inodelk_dom (holder_step h).1
  rcases hdoms c.volume with ⟨-, -, hnot⟩ | ⟨-, hroot, hdom, -⟩
  · exact absurd (hnot rfl) hrelease
  generalize s.roots.locks.inodelkCalls = n at hroot hdom
  generalize s.roots.locks.dom c.volume = d at hroot hdom
  generalize s.roots.rooted c.volume = held at hroot
  obtain ⟨hblocked, hsome⟩ := releaseBlocked_free c.trans hpath d.blockedInodelks 0 []
  -- the lists before the grant pass
  have hheld : ∀ l ∈ c.rootedEnter n d held, l.lock.transport ≠ c.trans := by
    unfold InodelkCall.rootedEnter
    rw [hkind]
    dsimp only
    split
    next hnone => exact absurd hnone hsome
    · exact releaseHeldRooted_free hpath held _
  have hwait : ∀ w ∈ (c.enter n d).blockedInodelks, w.transport ≠ c.trans := by
    have hlist : (c.enter n d).blockedInodelks = (releaseBlocked c.trans c.path 0 d.blockedInodelks []).1 := by
      unfold InodelkCall.enter releaseInodeLocksOfTransport
      rw [hkind]
      dsimp only
      split
      all_goals next heq => rw [heq]
    rw [hlist]
    exact hblocked
  rintro m (hm | hm)
  · obtain ⟨l, hl, rfl⟩ := mem_map.mp hm
    rw [hroot] at hl
    unfold InodelkCall.rootedOnDom at hl
    rw [hkind] at hl
    obtain ⟨hpassed, -, hgrant⟩ := pass_mem (fun held => inodelkJudge c.raw (c.enter n d) (held.map RootedLock.lock))
      BlockedInodeLock.rooted ⟨c.rootedEnter n d held, (c.enter n d).blockedInodelks⟩
    rcases hpassed l hl with hentered | ⟨w, hw, rfl⟩
    · exact hheld l hentered
    · exact hwait w (hgrant w hw)
  obtain ⟨l, hl, rfl⟩ := mem_map.mp hm
  obtain ⟨w, hw, rfl⟩ := mem_map.mp hl
  have hpass : (c.onDom n d).1 = (grantBlockedInodeLocks c.raw (c.enter n d)).1 := by
    simp only [InodelkCall.onDom, InodelkCall.enter, hkind]
  rw [hdom, hpass, grantBlockedInodeLocks_eq] at hw
  exact hwait w ((pass_mem _ _ (c.enter n d).inodeQueue).2.1 w hw)

theorem release_entrylk {c : EntrylkCall} (h : s.step (.entrylk c) = .ok s') (hpid : c.pid = 0)
    (hmem : c.pinodeMem = true) (hdomMem : c.domMem = true) : s'.Free c.volume .entry c.trans := by
  obtain ⟨_, _, _, hdoms⟩ := step_entries_dom h
  rcases hdoms c.volume with ⟨-, -, hnot⟩ | ⟨-, hents, hdom, -⟩
  · rcases hnot rfl with hfalse | hfalse
    · exact absurd (hfalse.symm.trans hmem) Bool.false_ne_true
    · exact absurd (hfalse.symm.trans hdomMem) Bool.false_ne_true
  generalize s.roots.locks.entrylkCalls = n at hents hdom
  generalize s.roots.locks.dom c.volume = d at hents hdom
  generalize s.entries c.volume = held at hents
  have hwait : ∀ w ∈ (releaseEntryLocksForTransport d c.trans).1.blockedEntrylks, w.trans ≠ c.trans := by
    intro w hw
    simpa using (mem_filter.mp hw).2
  rintro m (hm | hm)
  · obtain ⟨l, hl, rfl⟩ := mem_map.mp hm
    rw [hents] at hl
    unfold EntrylkCall.rootedOnDom at hl
    rw [if_pos hpid] at hl
    obtain ⟨hpassed, -, hgrant⟩ := pass_mem (fun held =>
        entrylkJudge c.lockMem (releaseEntryLocksForTransport d c.trans).1 (held.map RootedEntry.lock))
      BlockedEntryLock.rooted
      ⟨held.filter fun l => l.lock.trans != c.trans, (releaseEntryLocksForTransport d c.trans).1.blockedEntrylks⟩
    rcases hpassed l hl with hentered | ⟨w, hw, rfl⟩
    · have hne := (mem_filter.mp hentered).2
      exact ne_of_beq_false (Bool.not_eq_true' _ ▸ hne)
    · exact hwait w (hgrant w hw)
  obtain ⟨l, hl, rfl⟩ := mem_map.mp hm
  obtain ⟨w, hw, rfl⟩ := mem_map.mp hl
  have hpass : (c.onDom n d).1 = (grantBlockedEntryLocks c.lockMem (releaseEntryLocksForTransport d c.trans).1).1 := by
    unfold EntrylkCall.onDom
    rw [if_pos hpid]
  rw [hdom, hpass, grantBlockedEntryLocks_eq] at hw
  exact hwait w ((pass_mem _ _ (releaseEntryLocksForTransport d c.trans).1.entryQueue).2.1 w hw)

end

end GlusterFS.Locks
