import GlusterFS.Server.LockTable
import GlusterFS.Locks.Correctness.InodelkExclusion

/-!
# `Server.Correctness.LockTable` — the lock table covers the locks that are held

A locker has the inode or fd, the pid and the volume of its request, but not the range or the name. So one unlock
takes the lockers of all locks off that have these in common, and the other locks stay without one
(`unlock_takes_two_lockers`). Where an unlock is answered only when no such lock is left, the table has a locker
for every held lock whose answer has arrived, and the cleanup at a disconnect leaves no inode lock of the
connection on a file and no entry lock on a directory. It does leave inode locks on directories and entry locks
on files.
-/

namespace GlusterFS.Server

open Locks Transition List ServerState

variable {x : Export}

variable {volume : String} {new : HolderState} {rs : List LockReply} {κ : LockKind}

/-! ## Callbacks -/

theorem callback_eq {r : Root} (h : r.cbk ≠ .nop) (opRet : Int) (mem : Bool) (t : LockTable) :
    r.callback x opRet mem t = lockCbk x r opRet mem t r.unlocks := by
  unfold Root.callback Root.unlocks
  cases hcbk : r.cbk with
  | inodelk | finodelk | entrylk => rfl
  | nop => exact absurd hcbk h

theorem mem_gfAddLocker {target : Target} {pid : Int} {t : LockTable} (l : Locker) (dir : Bool) :
    l ∈ (gfAddLocker x volume target pid t true).lockers dir ↔
      l ∈ t.lockers dir ∨ dir = x.isDir (x.inodeOf target) ∧ l = ⟨volume, target, pid⟩ := by
  unfold gfAddLocker LockTable.lockers
  cases hdir : x.isDir (x.inodeOf target) <;> cases dir <;> simp

theorem mem_gfDelLocker {target : Target} {pid : Int} {t : LockTable} (l : Locker) (dir : Bool) :
    l ∈ (gfDelLocker x volume target pid t).lockers dir ↔
      l ∈ t.lockers dir ∧ (dir = x.isDir (x.inodeOf target) → l ≠ ⟨volume, target, pid⟩) := by
  have hsame : l.sameAs volume target pid = true ↔ l = ⟨volume, target, pid⟩ := by
    obtain ⟨v, t, p⟩ := l
    simp only [Locker.sameAs, Bool.and_eq_true, beq_iff_eq, Locker.mk.injEq]
    tauto
  unfold gfDelLocker LockTable.lockers
  cases hdir : x.isDir (x.inodeOf target) <;> cases dir <;> simp [← hsame]

/-! ## Winding a call -/

structure WindSpec (s s' : ServerState) (inode : Nat) (root : Root) (a : LockCall) (new : HolderState)
    (rs : List LockReply) : Prop where
  step : (s.inodes inode).step a = .ok new
  spec : StepSpec (s.inodes inode) new a rs
  here : s'.inodes inode = new
  elsewhere : ∀ i, i ≠ inode → s'.inodes i = s.inodes i
  root : s'.roots a.kind inode ((s.inodes inode).calls a.kind) = root
  roots : ∀ κ i n, ¬ (κ = a.kind ∧ i = inode ∧ n = (s.inodes inode).calls a.kind) → s'.roots κ i n = s.roots κ i n
  pending : s'.pending = s.pending ++ rs.map fun r => ⟨s'.roots a.kind inode r.frame.id, r.opRet⟩
  ltable : s'.ltable = s.ltable

variable {a : LockCall} {inode : Nat} {root : Root} {s s' : ServerState}

theorem wind_spec (hnoted : (s.inodes inode).Noted)
    (h : s.wind inode root a = .ok s') : ∃ new rs, WindSpec s s' inode root a new rs := by
  unfold ServerState.wind at h
  dsimp only at h
  cases hstep : (s.inodes inode).step a with
  | error e =>
    rw [hstep] at h
    cases h
  | ok new =>
    rw [hstep] at h
    cases h
    obtain ⟨rs, hspec⟩ := step_spec hnoted hstep
    refine ⟨new, rs, hstep, hspec, if_pos rfl, fun i hi => if_neg hi, if_pos ⟨rfl, rfl, rfl⟩, ?_, ?_, rfl⟩
    · intro κ i n hne
      refine if_neg ?_
      rintro ⟨rfl, rfl, rfl⟩
      exact hne ⟨rfl, rfl, rfl⟩
    dsimp only
    rw [hspec.replies, drop_left]

theorem WindSpec.noted (hspec : WindSpec s s' inode root a new rs) (hnoted : ∀ i, (s.inodes i).Noted) :
    ∀ i, (s'.inodes i).Noted := by
  intro i
  by_cases hi : i = inode
  · rw [hi, hspec.here]
    exact (hnoted inode).step hspec.step
  rw [hspec.elsewhere i hi]
  exact hnoted i

theorem WindSpec.listed (hspec : WindSpec s s' inode root a new rs) {i : Nat}
    {m : Note} (hm : m ∈ (s'.inodes i).held volume κ ∨ m ∈ (s'.inodes i).waiting volume κ) :
    (m ∈ (s.inodes i).held volume κ ∨ m ∈ (s.inodes i).waiting volume κ) ∨
      (κ = a.kind ∧ i = inode ∧ a.volume = volume ∧ a.locks = true ∧ m = ⟨a.trans, (s.inodes inode).calls a.kind⟩) := by
  by_cases hi : i = inode
  · subst hi
    rw [hspec.here] at hm
    by_cases hκ : κ = a.kind
    · subst hκ
      rcases hm with hm | hm
      · rcases hspec.spec.held volume m hm with hold | ⟨hvol, -, hwait | ⟨hlocks, hnew⟩⟩
        · exact .inl (.inl hold)
        · exact .inl (.inr hwait)
        · exact .inr ⟨rfl, rfl, hvol, hlocks, hnew⟩
      rcases hspec.spec.waiting volume m hm with hold | ⟨hvol, hlocks, hnew⟩
      · exact .inl (.inr hold)
      · exact .inr ⟨rfl, rfl, hvol, hlocks, hnew⟩
    have hsame := (hspec.spec.others κ hκ).2 volume
    rw [hsame.1, hsame.2] at hm
    exact .inl hm
  rw [hspec.elsewhere i hi] at hm
  exact .inl hm

/-- A lock that is held after a call was held before it, or its answer is on its way. -/
theorem WindSpec.held (hspec : WindSpec s s' inode root a new rs) {i : Nat}
    {m : Note} (hm : m ∈ (s'.inodes i).held volume κ) :
    m ∈ (s.inodes i).held volume κ ∨ (κ = a.kind ∧ i = inode ∧ a.volume = volume ∧ Answered rs m.call) := by
  by_cases hi : i = inode
  · subst hi
    rw [hspec.here] at hm
    by_cases hκ : κ = a.kind
    · subst hκ
      rcases hspec.spec.held volume m hm with hold | ⟨hvol, hans, -⟩
      · exact .inl hold
      · exact .inr ⟨rfl, rfl, hvol, hans⟩
    rw [((hspec.spec.others κ hκ).2 volume).1] at hm
    exact .inl hm
  rw [hspec.elsewhere i hi] at hm
  exact .inl hm

/-! ## Covered locks -/

/-- A positive answer for the call is on its way. -/
def Underway (pending : List Answer) (r : Root) : Prop := ∃ a ∈ pending, a.root = r ∧ 0 ≤ a.opRet
deriving Decidable

/-- The call of a lock on the inode, in the domain, of the connection. -/
structure Root.IsOf (r : Root) (x : Export) (i : Nat) (volume : String) (m : Note) : Prop where
  trans : r.trans = m.trans
  volume : r.volume = volume
  inode : x.inodeOf r.target = i
  cbk : r.cbk ≠ .nop
  locks : r.unlocks = false

/-- **The table covers the locks.** Each lock is of a call that is known, and a lock that is held has a locker in
    the list for its inode, or its answer is on its way. -/
structure Covered (x : Export) (s : ServerState) : Prop where
  noted : ∀ i, (s.inodes i).Noted
  known : ∀ i volume κ m, m ∈ (s.inodes i).held volume κ ∨ m ∈ (s.inodes i).waiting volume κ →
    m.call < (s.inodes i).calls κ ∧ (s.roots κ i m.call).IsOf x i volume m
  covered : ∀ i volume κ, ∀ m ∈ (s.inodes i).held volume κ, Underway s.pending (s.roots κ i m.call) ∨
    (s.roots κ i m.call).locker ∈ (s.ltable m.trans).lockers (x.isDir i)

theorem covered_init : Covered x init := by
  refine ⟨fun i => ⟨fun volume => rfl, fun volume => rfl⟩, ?_, ?_⟩
  · rintro i volume κ m (hm | hm) <;> cases κ <;> cases hm
  intro i volume κ m hm
  cases κ <;> cases hm

section

variable {s s' : ServerState} {inode : Nat} {root : Root} {a : LockCall}

theorem Covered.wind (h : Covered x s) (hwind : s.wind inode root a = .ok s')
    (hroot : a.locks = true → root.IsOf x inode a.volume ⟨a.trans, (s.inodes inode).calls a.kind⟩) : Covered x s' := by
  obtain ⟨new, rs, hspec⟩ := wind_spec (h.noted inode) hwind
  have hcalls : ∀ i κ, (s.inodes i).calls κ ≤ (s'.inodes i).calls κ := by
    intro i κ
    by_cases hi : i = inode
    · rw [hi, hspec.here]
      by_cases hκ : κ = a.kind
      · rw [hκ, hspec.spec.calls]
        exact Nat.le_succ _
      · rw [(hspec.spec.others κ hκ).1]
    · rw [hspec.elsewhere i hi]
  -- the roots of earlier calls stay
  have hroots : ∀ {i κ n}, n < (s.inodes i).calls κ → s'.roots κ i n = s.roots κ i n := by
    intro i κ n hn
    refine hspec.roots κ i n ?_
    rintro ⟨rfl, rfl, rfl⟩
    exact lt_irrefl _ hn
  refine ⟨hspec.noted h.noted, ?_, ?_⟩
  · intro i volume κ m hm
    rcases hspec.listed hm with hold | ⟨rfl, rfl, rfl, hlocks, rfl⟩
    · obtain ⟨hlt, hof⟩ := h.known i volume κ m hold
      rw [hroots hlt]
      exact ⟨lt_of_lt_of_le hlt (hcalls i κ), hof⟩
    rw [hspec.root, hspec.here, hspec.spec.calls]
    exact ⟨Nat.lt_succ_self _, hroot hlocks⟩
  intro i volume κ m hm
  rcases hspec.held hm with hold | ⟨rfl, rfl, -, r, hr, hid, hret⟩
  · obtain ⟨hlt, -⟩ := h.known i volume κ m (.inl hold)
    rw [hroots hlt, hspec.ltable, hspec.pending]
    rcases h.covered i volume κ m hold with ⟨b, hb, hb'⟩ | hlocker
    · exact .inl ⟨b, mem_append_left _ hb, hb'⟩
    · exact .inr hlocker
  refine .inl ⟨⟨s'.roots a.kind i r.frame.id, r.opRet⟩, ?_, ?_, hret⟩
  · rw [hspec.pending]
    exact mem_append_right _ (mem_map_of_mem hr)
  · rw [hid]

end

/-! ## The answers -/

/-- **What an unlock needs.** When it is answered, no lock of the connection that was asked for through the same
    inode or fd, by the same pid and in the same volume is held any more, except for locks whose own answer is
    still on its way. And for the answer to a lock there is memory. -/
def Sole (x : Export) (s : ServerState) : Action → Prop
  | .request _ => True
  | .answer k mem =>
    match s.pending[k]? with
    | none => True
    | some a => 0 ≤ a.opRet → if a.root.unlocks then
        ∀ κ ∈ [LockKind.inode, .entry], ∀ m ∈ (s.inodes (x.inodeOf a.root.target)).held a.root.volume κ,
          m.trans = a.root.trans → (s.roots κ (x.inodeOf a.root.target) m.call).locker = a.root.locker →
            Underway (s.pending.eraseIdx k) (s.roots κ (x.inodeOf a.root.target) m.call)
      else mem = true

instance decidableSole (x : Export) (s : ServerState) (act : Action) : Decidable (Sole x s act) := by
  unfold Sole
  split
  · infer_instance
  · split <;> infer_instance

theorem mem_kinds (κ : LockKind) : κ ∈ [LockKind.inode, .entry] := by
  cases κ <;> decide

theorem mem_eraseIdx_or {α : Type} {l : List α} {k : Nat} {a b : α} (hk : l[k]? = some a) (hb : b ∈ l) :
    b ∈ l.eraseIdx k ∨ b = a := by
  obtain ⟨j, hj⟩ := mem_iff_getElem?.mp hb
  by_cases hjk : j = k
  · rw [hjk, hk] at hj
    exact .inr (Option.some.inj hj).symm
  · exact .inl (mem_eraseIdx_iff_getElem?.mpr ⟨j, hjk, hj⟩)

theorem Covered.answer {s : ServerState} (h : Covered x s) {k : Nat} {mem : Bool} (hsole : Sole x s (.answer k mem)) :
    Covered x (s.answer x k mem) := by
  unfold ServerState.answer
  cases hk : s.pending[k]? with
  | none => exact h
  | some a =>
    simp only [Sole, hk] at hsole
    refine ⟨h.noted, h.known, ?_⟩
    intro i volume κ m hm
    dsimp only at hm ⊢
    obtain ⟨-, hof⟩ := h.known i volume κ m (.inl hm)
    rcases h.covered i volume κ m hm with ⟨b, hb, hbroot, hbret⟩ | hlocker
    · rcases mem_eraseIdx_or hk hb with hrest | rfl
      · exact .inl ⟨b, hrest, hbroot, hbret⟩
      -- it is the answer to this lock: the locker goes onto the table
      have hlocks : b.root.unlocks = false := by
        rw [hbroot]
        exact hof.locks
      have hmem := hsole hbret
      rw [hlocks, if_neg Bool.false_ne_true] at hmem
      have hcbk : b.root.cbk ≠ .nop := by
        rw [hbroot]
        exact hof.cbk
      have htrans : m.trans = b.root.trans := by
        rw [hbroot, hof.trans]
      refine .inr ?_
      rw [if_pos htrans, callback_eq hcbk, hlocks, lockCbk, if_pos hbret, if_neg Bool.false_ne_true, hmem,
        mem_gfAddLocker, hbroot, hof.inode]
      exact .inr ⟨rfl, rfl⟩
    by_cases htrans : m.trans = a.root.trans
    · rw [if_pos htrans]
      by_cases hcbk : a.root.cbk = .nop
      · refine .inr ?_
        unfold Root.callback
        rw [hcbk]
        exact hlocker
      rw [callback_eq hcbk]
      unfold lockCbk
      by_cases hret : 0 ≤ a.opRet
      · rw [if_pos hret]
        cases hunlocks : a.root.unlocks with
        | false =>
          have hmem := hsole hret
          rw [hunlocks, if_neg Bool.false_ne_true] at hmem
          rw [if_neg Bool.false_ne_true, hmem, mem_gfAddLocker]
          exact .inr (.inl hlocker)
        | true =>
          have hsole := hsole hret
          rw [hunlocks, if_pos rfl] at hsole
          rw [if_pos rfl, mem_gfDelLocker]
          by_cases hsame : (s.roots κ i m.call).locker = a.root.locker
          · -- the locker goes, but then the answer is still on its way
            have htarget : (s.roots κ i m.call).target = a.root.target := congrArg Locker.target hsame
            have hvol : (s.roots κ i m.call).volume = a.root.volume := congrArg Locker.volume hsame
            rw [hof.volume] at hvol
            have hinode : i = x.inodeOf a.root.target := by rw [← htarget, hof.inode]
            subst hvol hinode
            exact .inl (hsole κ (mem_kinds κ) m hm htrans hsame)
          · exact .inr ⟨hlocker, fun _ => hsame⟩
      rw [if_neg hret]
      exact .inr hlocker
    rw [if_neg htrans]
    exact .inr hlocker

theorem Request.root_isOf (r : Request) (n : Nat) (h : r.call.locks = true) :
    r.root.IsOf x (x.inodeOf r.target) r.call.volume ⟨r.call.trans, n⟩ := by
  cases r with
  | inodelk i c | finodelk fd c | entrylk i c =>
    exact ⟨rfl, rfl, rfl, Callback.noConfusion, beq_eq_false_iff_ne.mpr (of_decide_eq_true h)⟩
  | fentrylk fd cmd c => exact ⟨rfl, rfl, rfl, Callback.noConfusion, rfl⟩

theorem Covered.step {act : Action} (h : Covered x s) (hsole : Sole x s act)
    (hstep : s.step x act = .ok s') : Covered x s' := by
  cases act with
  | request r => exact h.wind hstep (fun hlocks => r.root_isOf _ hlocks)
  | answer k mem =>
    cases hstep
    exact h.answer hsole

/-! ## The cleanup -/

/-- Nothing fails in a call of the cleanup. -/
def Surroundings.Good (e : Surroundings) : Prop := e.pinodeMem = true ∧ e.domMem = true ∧ ∀ k, e.path k = true

/-- The calls release the locks of one kind that the connection has in the domain of a locker. -/
structure Releases (conn : Nat) (κ : LockKind) (call : Surroundings → Locker → LockCall) : Prop where
  kind : ∀ e l, (call e l).kind = κ
  volume : ∀ e l, (call e l).volume = l.volume
  locks : ∀ e l, (call e l).locks = false
  step : ∀ e l, e.Good → ∀ s : HolderState, ∃ s', s.step (call e l) = .ok s' ∧ s'.Free l.volume κ conn

theorem releases_files (conn : Nat) : Releases conn .inode (fun e l => .inodelk (fileRelease conn e l)) := by
  refine ⟨fun _ _ => rfl, fun _ _ => rfl, fun _ _ => rfl, ?_⟩
  intro e l he s
  obtain ⟨s', hs'⟩ := inodelk_step_ok s (c := fileRelease conn e l) he.2.1
  refine ⟨s', hs', release_inodelk hs' ?_ he.2.2⟩
  rintro (hrange | hrange | hmem | hkind)
  · exact Int.lt_irrefl 0 hrange
  · exact Int.lt_irrefl 0 hrange
  · exact absurd (hmem.symm.trans he.1) Bool.false_ne_true
  · exact hkind rfl

theorem releases_dirs (conn : Nat) : Releases conn .entry (fun e l => .entrylk (dirRelease conn e l)) := by
  refine ⟨fun _ _ => rfl, fun _ _ => rfl, fun _ _ => rfl, ?_⟩
  intro e l he s
  obtain ⟨s', hs'⟩ := entrylk_step_ok s (dirRelease conn e l)
  exact ⟨s', hs', release_entrylk hs' rfl he.1 he.2.1⟩

/-- A state of the server in the course of a cleanup that began with `s`, once the calls for `done` have been made:
    the connection has no lock left there, and locks came to be held only there. -/
structure Cleaned (x : Export) (conn : Nat) (κ : LockKind) (done : List Locker) (s s' : ServerState) : Prop where
  noted : ∀ i, (s'.inodes i).Noted
  free : ∀ l ∈ done, (s'.inodes (x.inodeOf l.target)).Free l.volume κ conn
  held : ∀ i volume κ' m, m ∈ (s'.inodes i).held volume κ' → m ∈ (s.inodes i).held volume κ' ∨
    κ' = κ ∧ ∃ l ∈ done, x.inodeOf l.target = i ∧ l.volume = volume

/-- **A loop of the cleanup**: it gets through, and does what it should for each of the lockers. -/
theorem cleanupLoop_cleaned {conn : Nat} {call : Surroundings → Locker → LockCall}
    (hcall : Releases conn κ call) {env : Nat → Surroundings} (henv : ∀ k, (env k).Good) :
    ∀ (ls : List Locker) (k : Nat) (done : List Locker) (s0 s : ServerState), Cleaned x conn κ done s0 s →
      ∃ s', cleanupLoop x conn call env k ls s = .ok s' ∧ Cleaned x conn κ (done ++ ls) s0 s' := by
  intro ls
  induction ls with
  | nil =>
    intro k done s0 s h
    rw [append_nil]
    exact ⟨s, rfl, h⟩
  | cons l ls ih =>
    intro k done s0 s h
    obtain ⟨new, hnew, hfree⟩ := hcall.step (env k) l (henv k) (s.inodes (x.inodeOf l.target))
    have hwind : ∃ s1, s.wind (x.inodeOf l.target) ⟨.nop, conn, 0, l.volume, l.target, .unlck, .unlock⟩
        (call (env k) l) = .ok s1 := by
      unfold ServerState.wind
      dsimp only
      rw [hnew]
      exact ⟨_, rfl⟩
    obtain ⟨s1, hwind⟩ := hwind
    obtain ⟨new', rs, hspec⟩ := wind_spec (h.noted _) hwind
    have heq : new' = new := Except.ok.inj (hspec.step.symm.trans hnew)
    subst heq
    have hcleaned : Cleaned x conn κ (done ++ [l]) s0 s1 := by
      refine ⟨hspec.noted h.noted, ?_, ?_⟩
      · intro l' hl'
        rcases mem_append.mp hl' with hdone | hlast
        · -- the call asks for no lock, so what was free stays free
          have hfree' := h.free l' hdone
          by_cases hi : x.inodeOf l'.target = x.inodeOf l.target
          · rw [hi, hspec.here]
            rw [hi] at hfree'
            exact hfree'.step hspec.spec (hcall.locks _ _)
          rw [hspec.elsewhere _ hi]
          exact hfree'
        rw [mem_singleton.mp hlast, hspec.here]
        exact hfree
      intro i volume κ' m hm
      rcases hspec.held hm with hold | ⟨hκ, rfl, hvol, -⟩
      · rcases h.held i volume κ' m hold with hfst | ⟨hκ, l', hl', hplace⟩
        · exact .inl hfst
        · exact .inr ⟨hκ, l', mem_append_left _ hl', hplace⟩
      rw [hcall.kind] at hκ
      rw [hcall.volume] at hvol
      exact .inr ⟨hκ, l, mem_append_right _ (mem_singleton_self l), rfl, hvol⟩
    obtain ⟨s', hloop, hend⟩ := ih (k + 1) (done ++ [l]) s0 s1 hcleaned
    refine ⟨s', ?_, ?_⟩
    · rw [cleanupLoop, hwind]
      exact hloop
    rw [append_assoc] at hend
    exact hend

/-- The connection has no lock of the kind that a locker of the inode stands for. -/
def LeftFree (x : Export) (s : ServerState) (conn : Nat) : Prop :=
  ∀ i volume, (x.isDir i = false → ∀ l ∈ ((s.inodes i).roots.locks.dom volume).inodelkList, l.transport ≠ conn) ∧
    (x.isDir i = true → ∀ l ∈ ((s.inodes i).roots.locks.dom volume).entrylkList, l.trans ≠ conn)

/-- **The cleanup releases what is covered.** -/
theorem cleanup_leaves_free {s : ServerState} (h : Covered x s) (hpend : s.pending = []) (conn : Nat)
    {env : Nat → Surroundings} (henv : ∀ k, (env k).Good) :
    ∃ s', doLockTableCleanup x env conn s = .ok s' ∧ LeftFree x s' conn := by
  have hlocker : ∀ i volume κ, ∀ m ∈ (s.inodes i).held volume κ, m.trans = conn →
      ∃ l ∈ (s.ltable conn).lockers (x.isDir i), x.inodeOf l.target = i ∧ l.volume = volume := by
    intro i volume κ m hm htrans
    obtain ⟨-, hof⟩ := h.known i volume κ m (.inl hm)
    rcases h.covered i volume κ m hm with ⟨a, ha, -⟩ | hlocker
    · rw [hpend] at ha
      cases ha
    rw [htrans] at hlocker
    exact ⟨_, hlocker, hof.inode, hof.volume⟩
  have hstart : ∀ κ s1, (∀ i, (inodes s1 i).Noted) → Cleaned x conn κ [] s1 s1 := by
    intro κ s1 hnoted
    refine ⟨hnoted, ?_, fun i volume κ' m hm => .inl hm⟩
    intro l hl
    cases hl
  obtain ⟨s1, hfiles, hclean1⟩ := cleanupLoop_cleaned (releases_files conn) henv (s.ltable conn).fileLockers 0 []
    { s with ltable := fun c => if c = conn then gfLockTableNew else s.ltable c } _ (hstart _ _ h.noted)
  obtain ⟨s2, hdirs, hclean2⟩ := cleanupLoop_cleaned (releases_dirs conn) henv (s.ltable conn).dirLockers
    (s.ltable conn).fileLockers.length [] s1 _ (hstart _ _ hclean1.noted)
  refine ⟨s2, ?_, ?_⟩
  · unfold doLockTableCleanup
    dsimp only
    rw [hfiles]
    exact hdirs
  intro i volume
  refine ⟨?_, ?_⟩
  · intro hdir l hl htrans
    rw [← (hclean2.noted i).inodes volume] at hl
    obtain ⟨rooted, hroot, rfl⟩ := mem_map.mp hl
    have hm : rooted.note ∈ (s2.inodes i).held volume .inode := mem_map_of_mem hroot
    -- the calls for directories leave the inode locks as they are
    rcases hclean2.held i volume .inode _ hm with hm1 | ⟨hκ, -⟩
    · have hplace : ∃ l ∈ (s.ltable conn).fileLockers, x.inodeOf l.target = i ∧ l.volume = volume := by
        rcases hclean1.held i volume .inode _ hm1 with hm0 | ⟨-, l, hl, hplace⟩
        · obtain ⟨l, hl, hplace⟩ := hlocker i volume .inode _ hm0 htrans
          rw [hdir] at hl
          exact ⟨l, hl, hplace⟩
        · exact ⟨l, hl, hplace⟩
      obtain ⟨l', hl', rfl, rfl⟩ := hplace
      exact hclean1.free l' hl' _ (.inl hm1) htrans
    · cases hκ
  intro hdir l hl htrans
  rw [← (hclean2.noted i).entries volume] at hl
  obtain ⟨rooted, hroot, rfl⟩ := mem_map.mp hl
  have hm : rooted.note ∈ (s2.inodes i).held volume .entry := mem_map_of_mem hroot
  have hplace : ∃ l ∈ (s.ltable conn).dirLockers, x.inodeOf l.target = i ∧ l.volume = volume := by
    rcases hclean2.held i volume .entry _ hm with hm1 | ⟨-, l, hl, hplace⟩
    · rcases hclean1.held i volume .entry _ hm1 with hm0 | ⟨hκ, -⟩
      · obtain ⟨l, hl, hplace⟩ := hlocker i volume .entry _ hm0 htrans
        rw [hdir] at hl
        exact ⟨l, hl, hplace⟩
      · cases hκ
    · exact ⟨l, hl, hplace⟩
  obtain ⟨l', hl', rfl, rfl⟩ := hplace
  exact hclean2.free l' hl' _ (.inl hm) htrans

/-! ## Runs -/

/-- **The lock table covers held locks.** After any requests of any connections, with their answers in any order, and
    once no answer is on its way: every lock that is held has a locker of its request in the table of its
    connection, and the cleanup of a connection leaves it no inode lock on a file and no entry lock on a
    directory. -/
theorem held_locks_have_lockers (x : Export) (acts : List Action) (s : ServerState)
    (hsole : Along (ServerState.step x) (Sole x) ServerState.init acts)
    (hrun : run (ServerState.step x) ServerState.init acts = .ok s) (hpending : s.pending = []) :
    (∀ i, (s.inodes i).Noted) ∧
      (∀ i volume κ, ∀ m ∈ (s.inodes i).held volume κ, (s.roots κ i m.call).IsOf x i volume m ∧
        (s.roots κ i m.call).locker ∈ (s.ltable m.trans).lockers (x.isDir i)) ∧
      ∀ conn env, (∀ k, (env k).Good) → ∃ s', doLockTableCleanup x env conn s = .ok s' ∧ LeftFree x s' conn := by
  have hcovered : Covered x s :=
    run_invariant (fun _ _ _ h hC hstep => Covered.step h hC hstep) covered_init hsole hrun
  refine ⟨hcovered.noted, ?_, fun conn env henv => cleanup_leaves_free hcovered hpending conn henv⟩
  intro i volume κ m hm
  refine ⟨(hcovered.known i volume κ m (.inl hm)).2, ?_⟩
  rcases hcovered.covered i volume κ m hm with ⟨a, ha, -⟩ | hlocker
  · rw [hpending] at ha
    cases ha
  · exact hlocker

/-- Every inode is a file, and an fd has the number of its inode. -/
def onlyFiles : Export := ⟨id, fun _ => false⟩

/-- A cleanup in which nothing fails. -/
def calm : Surroundings := ⟨400, true, true, fun _ => true, fun _ _ => (0, 0), fun _ => true⟩

/-- A request of connection 1, and its answer. -/
def answered (inode : Nat) (type : FlType) (start len : Int) (root : Nat) : List Action :=
  [.request (.inodelk inode (inodelkCall .setlk type start len 1 root)), .answer 0 true]

/-- Locks on two files, one of which is given back. -/
def twoFiles : List Action := answered 5 .wrlck 0 10 100 ++ answered 6 .wrlck 0 10 200 ++ answered 5 .unlck 0 10 300

/-- The lock on the other file has its locker, and the cleanup takes it off. -/
theorem other_file_is_covered : ∃ s, run (ServerState.step onlyFiles) ServerState.init twoFiles = .ok s ∧
    (⟨1, 0⟩ : Note) ∈ (s.inodes 6).held "replicate" .inode ∧
    (s.roots .inode 6 0).locker ∈ (s.ltable 1).fileLockers ∧
    ∃ s', doLockTableCleanup onlyFiles (fun _ => calm) 1 s = .ok s' ∧ LeftFree onlyFiles s' 1 := by
  have hsole : Along (ServerState.step onlyFiles) (Sole onlyFiles) ServerState.init twoFiles := by decide +kernel
  have hparts : (run (ServerState.step onlyFiles) ServerState.init twoFiles).map
      (fun s => (s.pending, (s.inodes 6).held "replicate" .inode)) = .ok ([], [⟨1, 0⟩]) := by decide +kernel
  obtain ⟨s, hrun, heq⟩ := map_eq_ok hparts
  obtain ⟨hpending, hheld⟩ := Prod.mk.inj heq
  have hmem : (⟨1, 0⟩ : Note) ∈ (s.inodes 6).held "replicate" .inode := by
    rw [← hheld]
    exact mem_singleton_self _
  obtain ⟨-, hlockers, hcleanup⟩ := held_locks_have_lockers onlyFiles twoFiles s hsole hrun hpending.symm
  exact ⟨s, hrun, hmem, (hlockers 6 "replicate" .inode _ hmem).2,
    hcleanup 1 (fun _ => calm) (fun _ => ⟨rfl, rfl, fun _ => rfl⟩)⟩

/-- Two locks on parts of one file, one of which is given back. -/
def twoParts : List Action := answered 5 .wrlck 0 10 100 ++ answered 5 .wrlck 20 10 200 ++ answered 5 .unlck 0 10 300

/-- Everything has been answered and the second lock is held, but the table is empty, and the cleanup leaves the
    lock where it is. -/
theorem unlock_takes_two_lockers :
    (run (ServerState.step onlyFiles) ServerState.init twoParts).map (fun s => (s.pending,
      ((s.inodes 5).roots.locks.dom "replicate").inodelkList, s.ltable 1)) =
      .ok ([], [⟨.wrlck, 20, 29, 1, 200⟩], ⟨[], []⟩) ∧
    ((run (ServerState.step onlyFiles) ServerState.init twoParts).bind
      (doLockTableCleanup onlyFiles (fun _ => calm) 1)).map (fun s =>
        ((s.inodes 5).roots.locks.dom "replicate").inodelkList) = .ok [⟨.wrlck, 20, 29, 1, 200⟩] := by
  decide +kernel

end GlusterFS.Server
