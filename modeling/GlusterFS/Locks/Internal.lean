import GlusterFS.Locks.Inodelk
import GlusterFS.Locks.Entrylk
import GlusterFS.Lib.Run

/-!
# `Locks.Internal` — runs of internal lock calls on an inode

`pl_common_inodelk` and `pl_common_entrylk` share the domains of an inode. A run is any sequence of the two
kinds of call, each with its grant pass; the state keeps the answers given so far, and the number of calls
of each kind, which numbers their frames.
-/

namespace GlusterFS.Locks

open Transition

structure LockState where
  domList : List Dom
  inodelkCalls : Nat
  inodelkReplies : List LockReply
  entrylkCalls : Nat
  entrylkReplies : List LockReply
  deriving DecidableEq, Repr

def LockState.init : LockState := ⟨[], 0, [], 0, []⟩

inductive LockCall where
  | inodelk (c : InodelkCall)
  | entrylk (c : EntrylkCall)

def LockCall.trans : LockCall → Nat
  | .inodelk c => c.trans
  | .entrylk c => c.trans

variable (s : LockState)

/-- The state once an `inodelk` call has left `domList` and given the answers `rs`. -/
def LockState.inodelkDone (domList : List Dom) (rs : List LockReply) : LockState :=
  { s with domList := domList, inodelkCalls := s.inodelkCalls + 1,
           inodelkReplies := s.inodelkReplies ++ rs }

/-- The state once an `entrylk` call has left `domList` and given the answers `rs`. -/
def LockState.entrylkDone (domList : List Dom) (rs : List LockReply) : LockState :=
  { s with domList := domList, entrylkCalls := s.entrylkCalls + 1,
           entrylkReplies := s.entrylkReplies ++ rs }

/-- `pl_common_inodelk`. A domain that could not be allocated is not noticed; the paths that use it
    crash. -/
def plCommonInodelk (c : InodelkCall) : Except Fault LockState :=
  let frame := c.frame s.inodelkCalls
  if c.flock.lStart < 0 ∨ c.flock.lLen < 0 then
    .ok (s.inodelkDone s.domList [⟨frame, -1, .einval⟩])
  else if c.pinodeMem = false then .ok (s.inodelkDone s.domList [⟨frame, -1, .enomem⟩])
  else
    match getDomain s.domList c.volume c.domMem with
    | some d =>
      let (d', rs) := c.onDom s.inodelkCalls d
      .ok (s.inodelkDone (putDomain s.domList d') rs)
    | none =>
      match c.kind with
      | .release => .error .nullDomain
      | .setlk => .error .nullDomain
      | .noMemory => .ok (s.inodelkDone s.domList [⟨frame, -1, .enomem⟩])
      | .notSupported => .ok (s.inodelkDone s.domList [⟨frame, -1, .enotsup⟩])

def plCommonEntrylk (c : EntrylkCall) : LockState :=
  let frame := c.frame s.entrylkCalls
  if c.pinodeMem = false then s.entrylkDone s.domList [⟨frame, -1, .enomem⟩]
  else
    match getDomain s.domList c.volume c.domMem with
    | some d =>
      let (d', rs) := c.onDom s.entrylkCalls d
      s.entrylkDone (putDomain s.domList d') rs
    | none => s.entrylkDone s.domList [⟨frame, -1, .enomem⟩]

def LockCall.step : LockCall → Except Fault LockState
  | .inodelk c => plCommonInodelk s c
  | .entrylk c => .ok (plCommonEntrylk s c)

/-- The state after a sequence of calls on a new inode. -/
def lockRun (calls : List LockCall) : Except Fault LockState := run LockCall.step LockState.init calls

def LockState.dom (volume : String) : Dom := domOf s.domList volume

/-! ## One call, inverted -/

/-- **What a call can do**: an `inodelk` or an `entrylk` call on its domain, or an answer that leaves
    every domain as it was. -/
theorem step_cases {s s' : LockState} {a : LockCall} (h : a.step s = .ok s') :
    (∃ c, a = .inodelk c ∧ 0 ≤ c.flock.lStart ∧ 0 ≤ c.flock.lLen ∧ c.pinodeMem = true ∧
      s' = s.inodelkDone (putDomain s.domList (c.onDom s.inodelkCalls (s.dom c.volume)).1)
        (c.onDom s.inodelkCalls (s.dom c.volume)).2) ∨ (∃ c, a = .entrylk c ∧
      s' = s.entrylkDone (putDomain s.domList (c.onDom s.entrylkCalls (s.dom c.volume)).1)
        (c.onDom s.entrylkCalls (s.dom c.volume)).2) ∨ (∃ c r, a = .inodelk c ∧ r.frame = c.frame s.inodelkCalls ∧
      (0 ≤ c.flock.lStart → 0 ≤ c.flock.lLen → c.pinodeMem = true → c.kind ≠ .release) ∧
      s' = s.inodelkDone s.domList [r]) ∨ (∃ c r, a = .entrylk c ∧ r.frame = c.frame s.entrylkCalls ∧
      s' = s.entrylkDone s.domList [r]) := by
  cases a with
  | inodelk c =>
    simp only [LockCall.step, plCommonInodelk] at h
    split at h
    next hrange =>
      exact .inr (.inr (.inl ⟨c, _, rfl, rfl, fun hs hl _ => by omega, (Except.ok.inj h).symm⟩))
    next hrange =>
      split at h
      next hmem =>
        refine .inr (.inr (.inl ⟨c, _, rfl, rfl, fun _ _ hm => ?_, (Except.ok.inj h).symm⟩))
        rw [hmem] at hm
        cases hm
      next hmem =>
        split at h
        next d hd =>
          have hdom : d = s.dom c.volume := getDomain_eq hd
          rw [hdom] at h
          exact .inl ⟨c, rfl, by omega, by omega, by simpa using hmem, (Except.ok.inj h).symm⟩
        split at h
        · cases h
        · cases h
        all_goals
          next hk =>
          exact .inr (.inr (.inl ⟨c, _, rfl, rfl, fun _ _ _ => by simp [hk], (Except.ok.inj h).symm⟩))
  | entrylk c =>
    simp only [LockCall.step, plCommonEntrylk, Except.ok.injEq] at h
    split at h
    · exact .inr (.inr (.inr ⟨c, _, rfl, rfl, h.symm⟩))
    split at h
    next d hd =>
      have hdom : d = s.dom c.volume := getDomain_eq hd
      rw [hdom] at h
      exact .inr (.inl ⟨c, rfl, h.symm⟩)
    · exact .inr (.inr (.inr ⟨c, _, rfl, rfl, h.symm⟩))

/-- **The domain rule.** A property of single domains that a new domain has, and that the two kinds of
    call keep, holds of every domain in every reachable state. `n` and `m` are the numbers of the calls. -/
theorem lockRun_domain {P : Nat → Nat → Dom → Prop} (hnew : ∀ n m volume, P n m (allocateDomain volume))
    (hmono : ∀ {n m n' m' d}, n ≤ n' → m ≤ m' → P n m d → P n' m' d)
    (hinodelk : ∀ (c : InodelkCall) {n m d}, P n m d → P (n + 1) m (c.onDom n d).1)
    (hentrylk : ∀ (c : EntrylkCall) {n m d}, P n m d → P n (m + 1) (c.onDom m d).1)
    {calls : List LockCall} {s : LockState} (h : lockRun calls = .ok s) :
    ∀ d ∈ s.domList, P s.inodelkCalls s.entrylkCalls d := by
  refine run_invariant_all (I := fun s => ∀ d ∈ s.domList, P s.inodelkCalls s.entrylkCalls d) ?_
    (by intro d hd; cases hd) h
  intro s a s' hs hstep d hd
  have hdom : ∀ volume, P s.inodelkCalls s.entrylkCalls (s.dom volume) := by
    intro volume
    rcases domOf_mem s.domList volume with hmem | hnew'
    · exact hs _ hmem
    rw [LockState.dom, hnew']
    exact hnew _ _ _
  rcases step_cases hstep with ⟨c, -, -, -, -, rfl⟩ | ⟨c, -, rfl⟩ | ⟨c, r, -, -, -, rfl⟩ |
    ⟨c, r, -, -, rfl⟩
  · rcases mem_putDomain hd with rfl | hd
    · exact hinodelk c (hdom c.volume)
    · exact hmono (Nat.le_succ _) le_rfl (hs d hd)
  · rcases mem_putDomain hd with rfl | hd
    · exact hentrylk c (hdom c.volume)
    · exact hmono le_rfl (Nat.le_succ _) (hs d hd)
  · exact hmono (Nat.le_succ _) le_rfl (hs d hd)
  · exact hmono le_rfl (Nat.le_succ _) (hs d hd)

end GlusterFS.Locks
