import GlusterFS.Locks.Roots
import GlusterFS.Locks.Correctness.InodelkExclusion

/-!
# `Locks.Correctness.RootOwners` — what the owner of an inode lock says

Two locks with the same transport and owner are never in each other's way. That is meant for locks of one
request. While a request waits its call root is allocated, so no other request has that address, and two waiting
locks with one owner are of one request. But a lock that is held stays when its request has been answered and
the root freed. The next request of the same client may get the same memory, and then both hold a lock on the
same bytes (`reused_root_shares_lock`).

`inst` says for every call which call root it came under, also where two of them have the same address.
-/

namespace GlusterFS.Locks

open WaitQueue Transition RootState

/-! ## Owners and requests -/

/-- Locks of one owner are from one call root. -/
def OneRoot (inst : Nat → Nat) (ls : List RootedLock) : Prop :=
  ∀ l ∈ ls, ∀ l' ∈ ls, sameInodelkOwner l.lock l'.lock = true → inst l.call = inst l'.call

theorem OneRoot.add {inst : Nat → Nat} {ls ls' : List RootedLock} {new : RootedLock} (h : OneRoot inst ls)
    (hsub : ∀ l ∈ ls', l ∈ ls ∨ l = new)
    (hnew : ∀ l ∈ ls, sameInodelkOwner l.lock new.lock = true → inst l.call = inst new.call) : OneRoot inst ls' := by
  intro l hl l' hl' hsame
  have hsymm : sameInodelkOwner l'.lock l.lock = true := by
    obtain ⟨howner, htrans⟩ := sameInodelkOwner_iff.mp hsame
    exact sameInodelkOwner_iff.mpr ⟨howner.symm, htrans.symm⟩
  rcases hsub l hl with hold | rfl
  · rcases hsub l' hl' with hold' | rfl
    · exact h l hold l' hold' hsame
    · exact hnew l hold hsame
  rcases hsub l' hl' with hold' | rfl
  · exact (hnew l' hold' hsymm).symm
  · rfl

/-- The allocator does not hand out what is in use: a request with the address of one that waits is under the
    same call root. -/
def Allocates (inst : Nat → Nat) (s : RootState) : LockCall → Prop
  | .entrylk _ => True
  | .inodelk c => ∀ d ∈ s.locks.domList, ∀ w ∈ d.blockedInodelks, w.owner = c.root →
    inst w.frame.id = inst s.locks.inodelkCalls

/-- The same for the requests of the connection whose locks are held. Nothing in the server sees to it. -/
def Unreused (inst : Nat → Nat) (s : RootState) : LockCall → Prop
  | .entrylk _ => True
  | .inodelk c => ∀ l ∈ s.rooted c.volume, l.lock.transport = c.trans → l.lock.owner = c.root →
    inst l.call = inst s.locks.inodelkCalls

instance decidableAllocates (inst : Nat → Nat) (s : RootState) : ∀ a, Decidable (Allocates inst s a)
  | .entrylk _ => inferInstanceAs (Decidable True)
  | .inodelk _ => inferInstanceAs (Decidable (∀ _ ∈ _, ∀ _ ∈ _, _))

instance decidableUnreused (inst : Nat → Nat) (s : RootState) : ∀ a, Decidable (Unreused inst s a)
  | .entrylk _ => inferInstanceAs (Decidable True)
  | .inodelk _ => inferInstanceAs (Decidable (∀ _ ∈ _, _))

section

variable {inst : Nat → Nat} {s s' : RootState} {a : LockCall}

/-- A request that waits and has the address of the new one is under its root. -/
theorem inst_of_waiting {c : InodelkCall} {volume : String} {l : RootedLock} (h : Allocates inst s (.inodelk c))
    (hl : l ∈ s.waiting volume) (howner : l.lock.owner = c.root) : inst l.call = inst s.locks.inodelkCalls := by
  obtain ⟨w, hw, rfl⟩ := List.mem_map.mp hl
  rcases domOf_mem s.locks.domList volume with hmem | hempty
  · exact h _ hmem w hw howner
  unfold LockState.dom at hw
  rw [hempty] at hw
  cases hw

theorem OneRoot.waiting_step (hone : ∀ volume, OneRoot inst (s.waiting volume)) (halloc : Allocates inst s a)
    (h : s.step a = .ok s') : ∀ volume, OneRoot inst (s'.waiting volume) := by
  intro volume
  cases a with
  | entrylk c =>
    unfold waiting
    rw [((step_entrylk h).2 volume).2]
    exact hone volume
  | inodelk c =>
    refine (hone volume).add (fun l hl => (mem_waiting_step h hl).imp_right fun hasks => hasks.2.2) ?_
    intro l hl hsame
    exact inst_of_waiting halloc hl (sameInodelkOwner_iff.mp hsame).1

theorem OneRoot.listed_step (hone : ∀ volume, OneRoot inst (s.listed volume)) (halloc : Allocates inst s a)
    (hunreused : Unreused inst s a) (h : s.step a = .ok s') : ∀ volume, OneRoot inst (s'.listed volume) := by
  intro volume
  cases a with
  | entrylk c =>
    obtain ⟨hroot, hsame⟩ := step_entrylk h
    unfold listed waiting
    rw [hroot, (hsame volume).2]
    exact hone volume
  | inodelk c =>
    -- in the domain of the call there is a new lock; the others are as they were
    by_cases hvol : c.volume = volume
    · refine (hone volume).add (fun l hl => (mem_listed_step h hl).imp_right fun hasks => hasks.2.2) ?_
      intro l hl hsame
      obtain ⟨howner, htrans⟩ := sameInodelkOwner_iff.mp hsame
      rcases List.mem_append.mp hl with hheld | hwait
      · exact hunreused l (by rw [hvol]; exact hheld) htrans howner
      · exact inst_of_waiting halloc hwait howner
    obtain ⟨_, _, _, hdoms⟩ := step_inodelk_dom h
    rcases hdoms volume with ⟨hroot, hdom, -⟩ | ⟨heq, -⟩
    · unfold listed waiting
      rw [hroot, hdom]
      exact hone volume
    · exact absurd heq hvol

end

/-- **Owners and requests.** In every run, two locks of a domain that wait and have the same transport and owner
    are from one call root. If no request gets the address of one whose lock is held in its domain, this is so
    for all locks of the domain, held or waiting. -/
theorem one_root_per_owner (inst : Nat → Nat) (calls : List LockCall) (s : RootState)
    (halloc : Along RootState.step (Allocates inst) RootState.init calls)
    (hrun : run RootState.step RootState.init calls = .ok s) :
    lockRun calls = .ok s.locks ∧ s.Noted ∧ (∀ volume, OneRoot inst (s.waiting volume)) ∧
      (Along RootState.step (Unreused inst) RootState.init calls → ∀ volume, OneRoot inst (s.listed volume)) := by
  refine ⟨run_locks hrun, ?_, ?_, ?_⟩
  · exact run_invariant_all (I := RootState.Noted) (fun _ _ _ hnoted hstep => hnoted.step hstep) (fun _ => rfl) hrun
  · refine run_invariant (I := fun s => ∀ volume, OneRoot inst (s.waiting volume)) ?_ ?_ halloc hrun
    · intro s a s' hone hC hstep
      exact OneRoot.waiting_step hone hC hstep
    intro volume l hl
    cases hl
  intro hunreused
  refine run_invariant (I := fun s => ∀ volume, OneRoot inst (s.listed volume)) ?_ ?_ (halloc.and hunreused) hrun
  · intro s a s' hone hC hstep
    exact OneRoot.listed_step hone hC.1 hC.2 hstep
  intro volume l hl
  cases hl

/-- The requests of `waiterBehindWriter` each have a call root of their own. -/
theorem waiter_has_one_root : ∃ s, run RootState.step RootState.init waiterBehindWriter = .ok s ∧
    (s.listed "replicate").map RootedLock.call = [0, 1] ∧ OneRoot id (s.listed "replicate") := by
  have halloc : Along RootState.step (Allocates id) RootState.init waiterBehindWriter := by decide +kernel
  have hunreused : Along RootState.step (Unreused id) RootState.init waiterBehindWriter := by decide +kernel
  exact ⟨_, rfl, by decide +kernel, (one_root_per_owner id _ _ halloc rfl).2.2.2 hunreused "replicate"⟩

/-- A client writes bytes 0 to 9 and is answered. Its next request has the same address. -/
def reusedRoot : List LockCall :=
  [.inodelk (inodelkCall .setlk .wrlck 0 10 1 100), .inodelk (inodelkCall .setlk .wrlck 0 10 1 100)]

/-- The allocator handed out nothing that was in use, and both requests have a write lock on the same bytes. -/
theorem reused_root_shares_lock : Along RootState.step (Allocates id) RootState.init reusedRoot ∧
    (run RootState.step RootState.init reusedRoot).map (fun s => s.rooted "replicate") =
      .ok [⟨⟨.wrlck, 0, 9, 1, 100⟩, 1⟩, ⟨⟨.wrlck, 0, 9, 1, 100⟩, 0⟩] ∧
    ¬ OneRoot id [⟨⟨.wrlck, 0, 9, 1, 100⟩, 1⟩, ⟨⟨.wrlck, 0, 9, 1, 100⟩, 0⟩] := by
  refine ⟨by decide +kernel, by decide +kernel, ?_⟩
  intro hone
  exact absurd (hone _ (List.mem_cons_self ..) _ (List.mem_cons_of_mem _ (List.mem_singleton_self _)) rfl) (by decide)

end GlusterFS.Locks
