import GlusterFS.Afr.FdInterleaving
import GlusterFS.Afr.Correctness.FdChangelog

/-!
# `Afr.Correctness.FdInterleaving` — the balance of pre-ops and post-op

The flush takes back one pre-op, so the counters are balanced if at most one `writev` did one. Two of them
do if both look at the flags before the first child has answered either. `BalanceInv` is what holds as long
as no `writev` finds the flags clear while another is in its pre-op.
-/

namespace GlusterFS.Afr

open GlusterFS.Storage Transition
open Function (update update_apply update_of_ne update_self)

variable {n : Nat} {priv : Priv n} {env : Env n} {ctx : FdCtx n} {old store : FileStore n} {s s' : WritesState n}
  {t : Nat} {i : Fin n}

/-! ## What the steps add -/

theorem preOpOn_counter (store : FileStore n) (i i' j : Fin n) :
    (preOpOn store i).counter i' j = store.counter i' j + if i' = i then 1 else 0 := by
  unfold preOpOn FileStore.counter
  rw [update_apply]
  by_cases hi : i' = i
  · subst hi
    rw [if_pos rfl, if_pos rfl, doXattrop_ok (setPendingDict_keys _) (doXattrop_none _ _)
      (mem_setPendingDict _ j)]
    show _ + markAllPending (fun _ _ => 0) .data j _ = _
    rw [markAllPending_zero]
    rfl
  rw [if_neg hi, if_neg hi]
  exact (BitVec.add_zero _).symm

/-! ## The flush -/

theorem afrLockRecFd_next {openedOn : Fin n → Bool} (hlock : ∀ i, env.lock i = .ok) (hopen : ∀ i, openedOn i = true) :
    ∀ {is : List (Fin n)} {l : Local n}, (∀ i, l.childUp i = true) → 0 < l.lockCount ∨ is ≠ [] →
      ∃ l', afrLockRecFd priv env openedOn is l = .next l' := by
  intro is
  induction is with
  | nil =>
    intro l _ hsome
    have hpos : l.lockCount ≠ 0 := by
      rcases hsome with h | h
      · omega
      · exact absurd rfl h
    unfold afrLockRecFd
    rw [if_neg hpos]
    exact ⟨l, rfl⟩
  | cons i is ih =>
    intro l hup _
    unfold afrLockRecFd
    have hin : ¬ (l.childUp i = false ∨ openedOn i = false) := by simp [hup i, hopen i]
    rw [if_neg hin, hlock i]
    split
    · exact ⟨l, rfl⟩
    apply ih
    · exact hup
    · exact .inl (Nat.succ_pos _)

theorem afrWindFd_ok (hfop : ∀ i, env.fop i = .ok) (op : FdOp) (s : Local n × FdCtx n) : afrWindFd op env s = s := by
  unfold afrWindFd
  generalize env.fopOrder _ = is
  induction is with
  | nil => rfl
  | cons i is ih =>
    rw [List.foldl_cons, hfop i]
    exact ih

/-- A flush in which everything succeeds winds to its post-op, with minus one for every child. -/
theorem fdTransaction_flush_all
    {l : Local n} (hn : List.finRange n ≠ []) (hall : AllSucceed priv env) (htype : l.type = .data)
    (hup : ∀ i, l.childUp i = true) (hopen : ∀ i, ctx.openedOn i = true) : ∃ (wound : Option (Local n)) (l' : Local n),
      fdTransaction priv .flush env l ctx store = fdPostOp env ctx store wound l' ∧ l'.type = .data ∧
      (∀ i, l'.childUp i = true) ∧ ∀ j, l'.pending j TransactionType.data.index = -1 := by
  have hlocks := afrLockFd_keeps priv env ctx.openedOn { l with pending := fun _ _ => 0 }
  obtain ⟨l1, hnext⟩ : ∃ l1, afrLockFd priv env ctx.openedOn { l with pending := fun _ _ => 0 } = .next l1 := by
    unfold afrLockFd
    split
    · exact ⟨_, rfl⟩
    apply afrLockRecFd_next hall.lock hopen
    · exact hup
    · exact .inr hn
  rw [hnext] at hlocks
  have htype1 : l1.type = .data := hlocks.type.trans htype
  have hneeded : changelogNeededPreOp priv .flush ctx = false := rfl
  refine ⟨some { l1 with pending := markAllSuccess l1.pending l1.type },
    { l1 with pending := markAllSuccess l1.pending l1.type }, ?_, htype1, ?_, ?_⟩
  · unfold fdTransaction
    rw [hnext]
    show (if changelogNeededPreOp priv .flush ctx then _ else fdWindFop .flush env ctx store l1) = _
    rw [hneeded, if_neg Bool.false_ne_true]
    unfold fdWindFop
    rw [if_neg (by decide), afrWindFd_ok hall.fop]
    rfl
  · intro i
    exact hlocks.up i (hall.lock i) (hup i)
  intro j
  show markAllSuccess l1.pending l1.type j _ = _
  rw [htype1]
  exact update_self _ _ _

/-- **The flush takes back one** about every child, on every child, if all have their pre-op done. -/
theorem afrFlush_all {o : FdOutcome n} (hall : AllSucceed priv env) (hopen : ∀ i, ctx.openedOn i = true)
    (hfail : ∀ i, ctx.childFailed i = false) (hdone : ∀ i, ctx.preOpDone i = true)
    (hflush : afrFlush priv env ctx store = some o) (i j : Fin n) : o.store.counter i j = store.counter i j + -1 := by
  unfold afrFlush at hflush
  obtain ⟨l, hinit, ho⟩ := Option.map_eq_some_iff.mp hflush
  obtain ⟨htype, hup, -⟩ := localInit_some hinit
  have hn : List.finRange n ≠ [] := List.ne_nil_of_mem (List.mem_finRange i)
  have hnot : isFirstWriteOnFd ctx = false := by
    unfold isFirstWriteOnFd
    rw [List.all_eq_false]
    exact ⟨i, List.mem_finRange i, by simp [hdone i]⟩
  rw [hnot, if_neg Bool.false_ne_true] at ho
  have hup' : ∀ i, l.childUp i = true := by
    intro i
    rw [hup]
    exact hall.up i
  obtain ⟨wound, l', heq, htype', hup'', hone⟩ :=
    fdTransaction_flush_all hn hall htype hup' hopen
  rw [← ho, heq]
  have hpend : markFailedChildren (markDownChildren l'.pending l'.childUp l'.type) ctx.childFailed
      l'.type = l'.pending := by
    funext j
    unfold markFailedChildren markDownChildren
    rw [hfail j, hup'' j]
    rfl
  have hexec : fxattropExecuted (fun i => l'.childUp i && ctx.preOpDone i)
      (markFailedChildren (markDownChildren l'.pending l'.childUp l'.type) ctx.childFailed l'.type)
      env.postOp store i = true := by
    rw [fxattropExecuted_iff]
    refine ⟨by rw [hup'' i, hdone i]; rfl, ?_⟩
    unfold fxattropOn
    rw [hall.postOp i]
    exact doXattrop_none _ _
  have hend := fxattropStore_executed hexec j
  rw [hpend] at hend
  show (fxattropStore _ _ _ _).counter i j = _
  rw [hpend, hend, hone j]

theorem afrFlush_none {o : FdOutcome n}
    (hdone : ∀ i, ctx.preOpDone i = false) (hflush : afrFlush priv env ctx store = some o) : o.store = store := by
  unfold afrFlush at hflush
  obtain ⟨l, _, ho⟩ := Option.map_eq_some_iff.mp hflush
  have hfst : isFirstWriteOnFd ctx = true := by
    unfold isFirstWriteOnFd
    rw [List.all_eq_true]
    intro i _
    rw [hdone i]
    rfl
  rw [hfst, if_pos rfl] at ho
  rw [← ho]
  rfl

/-! ## The invariant -/

/-- The `writev` is not in its pre-op. -/
def WritePhase.NotInPreOp : WritePhase n → Prop
  | .preOp _ => False
  | _ => True

/-- What the flags and the counters say about the pre-ops. Either none was done; or one `writev` is in its
    pre-op, with a flag for each child that answered; or one pre-op was done everywhere. -/
inductive PreOps (old : FileStore n) (s : WritesState n) : Prop where
  | none (hflags : ∀ i, s.ctx.preOpDone i = false) (hphases : ∀ t, (s.phase t).NotInPreOp)
      (hcounters : ∀ i j, s.store.counter i j = old.counter i j)
  | one (t : Nat) (on : Fin n → PreOpOn) (hphase : s.phase t = .preOp on)
      (hothers : ∀ t', t' ≠ t → (s.phase t').NotInPreOp)
      (hflags : ∀ i, s.ctx.preOpDone i = true ↔ on i = .answered)
      (hcounters : ∀ i j, s.store.counter i j = old.counter i j + if on i = .sent then 0 else 1)
  | all (hflags : ∀ i, s.ctx.preOpDone i = true) (hphases : ∀ t, (s.phase t).NotInPreOp)
      (hcounters : ∀ i j, s.store.counter i j = old.counter i j + 1)

structure BalanceInv (old : FileStore n) (s : WritesState n) : Prop where
  childFailed : ∀ i, s.ctx.childFailed i = false
  openedOn : ∀ i, s.ctx.openedOn i = true
  preOps : PreOps old s

/-- **No `writev` looks at clear flags while another is in its pre-op.** -/
def WriteStep.Alone (s : WritesState n) : WriteStep n → Prop
  | .locked _ => isFirstWriteOnFd s.ctx = true → ∀ t, (s.phase t).NotInPreOp
  | _ => True

theorem notInPreOp_setPhase {t' : Nat} {p : WritePhase n} (hp : p.NotInPreOp)
    (h : t' ≠ t → (s.phase t').NotInPreOp) : ((s.setPhase t p).phase t').NotInPreOp := by
  show (update s.phase t p t').NotInPreOp
  rw [update_apply]
  split
  · exact hp
  next hne => exact h hne

section

variable (h : PreOps old s)
include h

theorem PreOps.move (hnot : (s.phase t).NotInPreOp) {p : WritePhase n} (hp : p.NotInPreOp) :
    PreOps old (s.setPhase t p) := by
  cases h with
  | none hflags hphases hctrs =>
    exact .none hflags (fun t' => notInPreOp_setPhase hp fun _ => hphases t') hctrs
  | one t0 on hph hothers hflags hctrs =>
    have hne : t0 ≠ t := by
      rintro rfl
      rw [hph] at hnot
      exact hnot
    refine .one t0 on ?_ ?_ hflags hctrs
    · show update s.phase t p t0 = _
      rw [update_of_ne hne]
      exact hph
    intro t' ht'
    exact notInPreOp_setPhase hp fun _ => hothers t' ht'
  | all hflags hphases hctrs =>
    exact .all hflags (fun t' => notInPreOp_setPhase hp fun _ => hphases t') hctrs

theorem PreOps.inPreOp {on : Fin n → PreOpOn} (hph : s.phase t = .preOp on) :
    (∀ t', t' ≠ t → (s.phase t').NotInPreOp) ∧ (∀ i, s.ctx.preOpDone i = true ↔ on i = .answered) ∧
    ∀ i j, s.store.counter i j = old.counter i j + if on i = .sent then 0 else 1 := by
  have hin : ¬ (s.phase t).NotInPreOp := by
    rw [hph]
    exact id
  cases h with
  | none _ hphases _ | all _ hphases _ => exact absurd (hphases t) hin
  | one t0 on0 hphase0 hothers hflags hctrs =>
    have heq : t = t0 := by
      by_contra hne
      exact hin (hothers t hne)
    subst heq
    rw [hph] at hphase0
    cases hphase0
    exact ⟨hothers, hflags, hctrs⟩

/-- The test: with clear flags the pre-op starts, and it starts alone. -/
theorem PreOps.locked (halone : (WriteStep.locked t).Alone s)
    (hstep : writesStep priv s (.locked t) = .ok s') : PreOps old s' ∧ s'.ctx = s.ctx := by
  simp only [writesStep] at hstep
  split at hstep
  next hlocking =>
    have hnot : (s.phase t).NotInPreOp := by
      rw [hlocking]
      trivial
    split at hstep
    next hneeded =>
      cases hstep
      refine ⟨?_, rfl⟩
      have hfst : isFirstWriteOnFd s.ctx = true := (Bool.and_eq_true_iff.mp hneeded).2
      have hclear : ∀ i, s.ctx.preOpDone i = false := by
        intro i
        have := List.all_eq_true.mp hfst i (List.mem_finRange i)
        simpa using this
      have hctrs : ∀ i j, s.store.counter i j = old.counter i j := by
        cases h with
        | none _ _ hctrs => exact hctrs
        | one t0 on hph _ _ _ =>
          have := halone hfst t0
          rw [hph] at this
          exact this.elim
        | all hflags _ _ =>
          intro i
          have := hclear i
          rw [hflags i] at this
          cases this
      refine .one t (fun _ => .sent) ?_ ?_ ?_ ?_
      · exact update_self _ _ _
      · intro t' ht'
        show (update s.phase t _ t').NotInPreOp
        rw [update_of_ne ht']
        exact halone hfst t'
      · intro i
        show s.ctx.preOpDone i = true ↔ _
        rw [hclear i]
        simp
      intro i j
      rw [if_pos rfl]
      exact (hctrs i j).trans (BitVec.add_zero _).symm
    · cases hstep
      exact ⟨h.move hnot trivial, rfl⟩
  · cases hstep

theorem PreOps.execute (hstep : writesStep priv s (.execute t i) = .ok s') : PreOps old s' ∧ s'.ctx = s.ctx := by
  simp only [writesStep] at hstep
  split at hstep
  next on hph =>
    split at hstep
    next hsent =>
      cases hstep
      obtain ⟨hothers, hflags, hctrs⟩ := h.inPreOp hph
      refine ⟨.one t (update on i .executed) (update_self _ _ _) ?_ ?_ ?_, rfl⟩
      · intro t' ht'
        show (update s.phase t _ t').NotInPreOp
        rw [update_of_ne ht']
        exact hothers t' ht'
      · intro i'
        show s.ctx.preOpDone i' = true ↔ _
        rw [hflags i', update_apply]
        by_cases hi : i' = i
        · simp [hi, hsent]
        · simp [hi]
      intro i' j
      show (preOpOn s.store i).counter i' j = _
      rw [preOpOn_counter, hctrs i' j, update_apply, add_assoc]
      by_cases hi : i' = i
      · simp [hi, hsent]
      · simp [hi]
    · cases hstep
  · cases hstep

theorem PreOps.answer (hstep : writesStep priv s (.answer t i) = .ok s') :
    PreOps old s' ∧ s'.ctx = markPreOpDoneOnFd .write s.ctx i := by
  simp only [writesStep] at hstep
  split at hstep
  next on hph =>
    split at hstep
    next hexec =>
      obtain ⟨hothers, hflags, hctrs⟩ := h.inPreOp hph
      have hflags' : ∀ i', (markPreOpDoneOnFd .write s.ctx i).preOpDone i' = true ↔
          update on i .answered i' = .answered := by
        intro i'
        show update s.ctx.preOpDone i true i' = true ↔ _
        rw [update_apply, update_apply]
        by_cases hi : i' = i
        · simp [hi]
        · simp [hi, hflags i']
      have hcounters' : ∀ i' j, s.store.counter i' j =
          old.counter i' j + if update on i .answered i' = .sent then 0 else 1 := by
        intro i' j
        rw [hctrs i' j, update_apply]
        by_cases hi : i' = i
        · simp [hi, hexec]
        · simp [hi]
      split at hstep
      next hlast =>
        -- every child has answered
        cases hstep
        have hans : ∀ i', update on i .answered i' = .answered := by
          intro i'
          simpa using List.all_eq_true.mp hlast i' (List.mem_finRange i')
        refine ⟨.all ?_ ?_ ?_, rfl⟩
        · intro i'
          exact (hflags' i').mpr (hans i')
        · intro t'
          exact notInPreOp_setPhase trivial fun hne => hothers t' hne
        intro i' j
        refine (hcounters' i' j).trans ?_
        rw [hans i']
        rfl
      · cases hstep
        refine ⟨.one t _ (update_self _ _ _) ?_ hflags' hcounters', rfl⟩
        intro t' ht'
        show (update s.phase t _ t').NotInPreOp
        rw [update_of_ne ht']
        exact hothers t' ht'
    · cases hstep
  · cases hstep

theorem PreOps.written (hstep : writesStep priv s (.written t i) = .ok s') : PreOps old s' ∧ s'.ctx = s.ctx := by
  simp only [writesStep] at hstep
  split at hstep
  next answered hph =>
    have hnot : (s.phase t).NotInPreOp := by
      rw [hph]
      trivial
    split at hstep
    · split at hstep
      all_goals
        cases hstep
        exact ⟨h.move hnot trivial, rfl⟩
    · cases hstep
  · cases hstep

end

theorem writesStep_balance (s : WritesState n) (a : WriteStep n)
    (s' : WritesState n) (h : BalanceInv old s) (halone : a.Alone s)
    (hstep : writesStep priv s a = .ok s') : BalanceInv old s' := by
  obtain ⟨hfail, hopen, hpre⟩ := h
  cases a with
  | locked t =>
    obtain ⟨hpre', hctx⟩ := hpre.locked halone hstep
    exact ⟨by rwa [hctx], by rwa [hctx], hpre'⟩
  | execute t i =>
    obtain ⟨hpre', hctx⟩ := hpre.execute hstep
    exact ⟨by rwa [hctx], by rwa [hctx], hpre'⟩
  | answer t i =>
    obtain ⟨hpre', hctx⟩ := hpre.answer hstep
    exact ⟨by rwa [hctx], by rwa [hctx], hpre'⟩
  | written t i =>
    obtain ⟨hpre', hctx⟩ := hpre.written hstep
    exact ⟨by rwa [hctx], by rwa [hctx], hpre'⟩

/-- **The change log of an fd is balanced under concurrency.** Any number of `writev`s, interleaved in any
    way, all succeeding on every child; all of them finish, and then the flush succeeds. If no `writev` looked
    at clear flags while another was in its pre-op, every counter has its old value again. -/
theorem fd_changelog_balanced (priv : Priv n) (s₀ s : WritesState n) (as : List (WriteStep n)) (env : Env n)
    (o : FdOutcome n) (hinit : s₀.Initial) (hrun : run (writesStep priv) s₀ as = .ok s)
    (hfinished : s.Finished) (hall : AllSucceed priv env) (hflush : afrFlush priv env s.ctx s.store = some o)
    (halone : Along (writesStep priv) WriteStep.Alone s₀ as) (i j : Fin n) :
    o.store.counter i j = s₀.store.counter i j := by
  have hstart : BalanceInv s₀.store s₀ := by
    refine ⟨hinit.childFailed, hinit.openedOn, .none hinit.preOpDone ?_ fun _ _ => rfl⟩
    intro t
    rw [hinit.phase t]
    trivial
  obtain ⟨hfailed, hopen, hpre⟩ := run_invariant writesStep_balance hstart halone hrun
  cases hpre with
  | none hflags _ hcounters =>
    rw [afrFlush_none hflags hflush]
    exact hcounters i j
  | one t on hphase _ _ _ =>
    -- a `writev` in its pre-op is not finished
    rcases hfinished t with h | h
    all_goals
      rw [hphase] at h
      cases h
  | all hflags _ hcounters =>
    rw [afrFlush_all hall hopen hfailed hflags hflush i j, hcounters i j, add_assoc]
    exact BitVec.add_zero _

/-- Two children, and no `writev` yet. -/
def noWrites : WritesState 2 :=
  { ctx := freshFd.ctx, store := freshFd.store, phase := fun _ => .locking }

def afterSteps (as : List (WriteStep 2)) : WritesState 2 :=
  match run (writesStep twoChildren) noWrites as with
  | .ok s => s
  | .error _ => noWrites

/-- The pre-op of a `writev` on both children. -/
def preOpSteps (t : Nat) : List (WriteStep 2) := [.execute t 0, .execute t 1, .answer t 0, .answer t 1]

/-- One `writev` does the pre-op, and the other starts when it is done. -/
def oneAfterTheOther : List (WriteStep 2) :=
  .locked 0 :: preOpSteps 0 ++ [.locked 1, .written 1 0, .written 0 0, .written 0 1, .written 1 1]

/-- Two `writev`s get their locks, on different ranges, before any child has answered a pre-op. -/
def bothFirst : List (WriteStep 2) :=
  .locked 0 :: .locked 1 :: preOpSteps 0 ++ preOpSteps 1 ++ [.written 0 0, .written 0 1, .written 1 0, .written 1 1]

theorem noWrites_initial : noWrites.Initial := ⟨fun _ => rfl, fun _ => rfl, fun _ => rfl, fun _ => rfl⟩

theorem allWell_succeed : AllSucceed twoChildren allWell := ⟨fun _ => rfl, fun _ => rfl, fun _ => rfl, fun _ => rfl⟩

theorem fd_changelog_balanced_two : ∃ o, afrFlush twoChildren allWell (afterSteps oneAfterTheOther).ctx
        (afterSteps oneAfterTheOther).store = some o ∧ o.store.counter 0 1 = noWrites.store.counter 0 1 := by
  refine ⟨_, rfl, ?_⟩
  apply fd_changelog_balanced twoChildren noWrites (afterSteps oneAfterTheOther) oneAfterTheOther allWell _
    noWrites_initial rfl _ allWell_succeed rfl
  · -- only the first test finds clear flags
    refine (along_cons_ok rfl).mpr ⟨fun _ _ => trivial, ?_⟩
    iterate 4 refine (along_cons_ok rfl).mpr ⟨trivial, ?_⟩
    refine (along_cons_ok rfl).mpr ⟨fun h => absurd h (by decide +kernel), ?_⟩
    iterate 4 refine (along_cons_ok rfl).mpr ⟨trivial, ?_⟩
    trivial
  intro t
  match t with
  | 0 => exact .inr rfl
  | 1 => exact .inr rfl
  | t + 2 => exact .inl rfl

/-- **Two pre-ops, one post-op.** Two `writev`s at once, everything succeeds, both finish and the flush
    succeeds; yet every counter is one more than before. -/
theorem two_preOps_one_postOp :
    noWrites.Initial ∧ run (writesStep twoChildren) noWrites bothFirst = .ok (afterSteps bothFirst) ∧
    (afterSteps bothFirst).Finished ∧ AllSucceed twoChildren allWell ∧
    ∃ o, afrFlush twoChildren allWell (afterSteps bothFirst).ctx (afterSteps bothFirst).store = some o ∧
      ∀ i j, o.store.counter i j = noWrites.store.counter i j + 1 := by
  refine ⟨noWrites_initial, rfl, ?_, allWell_succeed, _, rfl, ?_⟩
  · intro t
    match t with
    | 0 => exact .inr rfl
    | 1 => exact .inr rfl
    | t + 2 => exact .inl rfl
  · decide +kernel

end GlusterFS.Afr
