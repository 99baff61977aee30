import GlusterFS.Afr.SelfHeal.Sources
import GlusterFS.Afr.WriteHistory
import GlusterFS.Afr.Correctness.Changelog

/-!
# `Afr.Correctness.SourceSelection` — the sources hold what was acknowledged

Whatever fails and whenever the clients crash, a child that holds a write which another child lacks accuses
that child (`HistoryInv`): it executed the pre-op before it wrote, and a post-op takes the mark back only
about the children that wrote. So if a child holds all acknowledged writes and does not accuse itself, every
source holds them too, by `source_not_accused`.

A child that accuses itself is not believed. It does if a client crashed after its pre-op, or if it missed a
post-op, and it may be the only child that holds everything: then the source can be a child that does not.
-/

namespace GlusterFS.Afr

open GlusterFS.Storage Transition TransactionType

variable {n : Nat} {path : Path} {l : Local n} {store : Store n} {i k : Fin n} {env : Env n} {c : Nat} {s : History n}

/-! ## A write without a crash is a transaction -/

theorem resume_store (priv : Priv n) (t : Transaction) (env : Env n) (store : Store n) (l : Local n)
    (preDone preDone' : Fin n → Bool) (wound wound' : Option (Local n)) :
    (afrTransactionResume priv t env store preDone wound l).store =
      (afrTransactionResume priv t env store preDone' wound' l).store := by
  unfold afrTransactionResume
  split <;> rfl

/-- **Without a crash a write is a transaction** of `afr_transaction`. -/
theorem writeAttempt_store (path : Path) (s : History n) (w : WriteRun n) (h : w.crash = none) :
    (writeAttempt path s w).store = (afrTransaction w.priv (dataOn path) w.env s.store).store := by
  unfold writeAttempt afrTransaction
  have htype : (dataOn path).fop.type = .data := rfl
  rw [htype]
  cases hinit : localInit w.priv .data with
  | none => rfl
  | some l =>
    dsimp only
    cases hlock : afrLock w.priv w.env l with
    | unlock l' => rfl
    | next l' =>
      dsimp only
      have htype' : l'.type = .data := (afrLock_keeps hlock).1.trans (localInit_some hinit).1
      have henabled : w.priv.changelogEnabled l'.type = true := by
        rw [htype']
        exact w.enabled
      rw [if_pos henabled]
      unfold afrChangelogPreOp
      split
      · rfl
      unfold writeLocked
      rw [h]
      simp only [reduceCtorEq, if_false, Option.isSome_none, Bool.false_eq_true]
      change (if (preOpAnswered (dataOn path) w.env s.store l').opRet = -1 ∧
          (preOpAnswered (dataOn path) w.env s.store l').opErrno = .enotsup then _ else _ : History n).store =
        (if (preOpAnswered (dataOn path) w.env s.store l').opRet = -1 ∧
          (preOpAnswered (dataOn path) w.env s.store l').opErrno = .enotsup then _ else _ : Outcome n).store
      split
      all_goals exact resume_store _ _ _ _ _ _ _ _ _

/-! ## What the phases of a data transaction add -/

/-- The counter about child `j`, on one file of child `i`. -/
def counterAt (path : Path) (store : Store n) (i j : Fin n) : BitVec 32 :=
  Xattrs.counters (store i path) j data.index

theorem phaseStore_data (htype : l.type = .data) (runs : Fin n → Slot → XattropRun) (store : Store n) (i j : Fin n) :
    counterAt path (phaseStore (dataOn path) l runs store) i j = counterAt path store i j + l.pending j data.index ∨
      counterAt path (phaseStore (dataOn path) l runs store) i j = counterAt path store i j := by
  unfold counterAt phaseStore
  split
  · unfold phaseOn
    rw [htype]
    have hone : (childXattrops (dataOn path).path (setPendingDict l.pending) (runs i)
        data.slots (store i)).1 path = (doXattrop (setPendingDict l.pending) (runs i .main).fail (store i path)).1 :=
      Function.update_self _ _ _
    rw [hone]
    rcases doXattrop_cases (setPendingDict_keys l.pending) (runs i .main).fail (store i path) j (l.pending j)
      (mem_setPendingDict l.pending j) with h | ⟨-, h⟩
    · left
      exact congrFun h _
    right
    exact congrFun h _
  · exact .inr rfl

theorem phaseStore_down {runs : Fin n → Slot → XattropRun} (h : l.childUp i = false) (j : Fin n) :
    counterAt path (phaseStore (dataOn path) l runs store) i j = counterAt path store i j := by
  unfold counterAt phaseStore
  rw [h]
  rfl

theorem phaseStore_executed (htype : l.type = .data) {runs : Fin n → Slot → XattropRun}
    (h : phaseExecuted (dataOn path) l runs store i = true) (j : Fin n) :
    counterAt path (phaseStore (dataOn path) l runs store) i j = counterAt path store i j + l.pending j data.index := by
  unfold counterAt
  rw [phaseStore_counters h path j, htype]
  have hone : (data.slots.countP fun s => (dataOn path).path s = path) = 1 :=
    countP_path (dataOn path) (show Slot.main ∈ data.slots by decide)
  rw [hone, one_nsmul]

/-! ## The pre-op -/

theorem preOpCbk_foldl_up : ∀ {rs : List (Fin n × Reply)} {l : Local n},
    (rs.foldl preOpCbk l).childUp k = true → l.childUp k = true ∧ ∀ r, (k, r) ∈ rs → r = .ok := by
  intro rs
  induction rs with
  | nil =>
    intro l h
    exact ⟨h, fun r hr => absurd hr (List.not_mem_nil)⟩
  | cons x rs ih =>
    intro l h
    obtain ⟨hup, hrest⟩ := ih h
    obtain ⟨i, r⟩ := x
    cases r with
    | ok =>
      refine ⟨hup, fun r hr => ?_⟩
      rcases List.mem_cons.mp hr with heq | hr
      · cases heq
        rfl
      · exact hrest r hr
    | error e =>
      change Function.update l.childUp i false k = true at hup
      rw [Function.update_apply] at hup
      split at hup
      · cases hup
      next hne =>
        refine ⟨hup, fun r hr => ?_⟩
        rcases List.mem_cons.mp hr with heq | hr
        · cases heq
          exact absurd rfl hne
        · exact hrest r hr

theorem executed_of_answered (h : (preOpAnswered (dataOn path) env store l).childUp k = true) :
    phaseExecuted (dataOn path) (preOpMarked l) env.preOp store k = true := by
  obtain ⟨hup, hok⟩ := preOpCbk_foldl_up h
  rw [phaseExecuted_iff]
  refine ⟨hup, fun x hx => ?_⟩
  have hmem : (k, (env.preOp k x.1).seen x.2) ∈
      env.preOrder (phaseReplies (dataOn path) (preOpMarked l) env.preOp store) := by
    rw [(env.preOrder_perm _).mem_iff]
    unfold phaseReplies
    rw [List.mem_flatMap]
    refine ⟨k, List.mem_filter.mpr ⟨List.mem_finRange k, hup⟩, ?_⟩
    exact List.mem_map_of_mem hx
  have hseen := hok _ hmem
  unfold XattropRun.seen at hseen
  split at hseen
  · cases hseen
  · exact hseen

theorem preOpAnswered_keeps (t : Transaction) (env : Env n) (store : Store n) (l : Local n) :
    (preOpMarked l).SameMarks (preOpAnswered t env store l) := preOpCbk_foldl_keeps _ _

/-- The pre-op puts a counter at most one ahead, and by one on every child that is still there after it. -/
theorem preOp_ahead (env : Env n) (htype : l.type = .data) (hzero : l.pending = fun _ _ => 0)
    (hc : counterAt path store k i = BitVec.ofNat 32 c) : ∃ c', c ≤ c' ∧ c' ≤ c + 1 ∧
      counterAt path (phaseStore (dataOn path) (preOpMarked l) env.preOp store) k i = BitVec.ofNat 32 c' ∧
      ((preOpAnswered (dataOn path) env store l).childUp k = true → c' = c + 1) := by
  have hone : (preOpMarked l).pending i data.index = 1 := by
    show markAllPending l.pending l.type i _ = 1
    rw [hzero, htype, markAllPending_zero]
    rfl
  have hnext : counterAt path store k i + (preOpMarked l).pending i data.index = BitVec.ofNat 32 (c + 1) := by
    rw [hone, hc, BitVec.ofNat_add]
    rfl
  have htype' : (preOpMarked l).type = .data := htype
  by_cases hexec : phaseExecuted (dataOn path) (preOpMarked l) env.preOp store k = true
  · exact ⟨c + 1, by omega, le_refl _, (phaseStore_executed htype' hexec i).trans hnext, fun _ => rfl⟩
  have hout : (preOpAnswered (dataOn path) env store l).childUp k = true → False :=
    fun h => hexec (executed_of_answered h)
  rcases phaseStore_data htype' env.preOp store k i with hadd | hsame
  · exact ⟨c + 1, by omega, le_refl _, hadd.trans hnext, fun h => (hout h).elim⟩
  · exact ⟨c, le_refl _, by omega, hsame.trans hc, fun h => (hout h).elim⟩

/-! ## The post-op -/

theorem resume_data (priv : Priv n) (henabled : priv.dataChangeLog = true) (path : Path) (env : Env n)
    (store : Store n) (htype : l.type = .data) :
    (afrTransactionResume priv (dataOn path) env store (fun _ => false) none l).store =
      phaseStore (dataOn path) { l with pending := markDownChildren l.pending l.childUp l.type } env.postOp
        store := by
  have : priv.changelogEnabled l.type = true := by
    rw [htype]
    exact henabled
  unfold afrTransactionResume
  rw [if_pos this]

/-- The post-op moves a counter by at most one, down only on a child that is up, and only if it takes the
    mark back. -/
theorem postOp_ahead (env : Env n) (htype : l.type = .data) (hc : counterAt path store k i = BitVec.ofNat 32 c)
    (hpos : l.childUp k = true → 1 ≤ c) (hp : l.pending i data.index = 1 ∨ l.pending i data.index = 0 ∨
      l.pending i data.index = -1) :
    ∃ c', c' ≤ c + 1 ∧ counterAt path (phaseStore (dataOn path) l env.postOp store) k i = BitVec.ofNat 32 c' ∧
      (c ≤ c' ∨ (l.childUp k = true ∧ l.pending i data.index = -1 ∧ c = c' + 1)) := by
  by_cases hup : l.childUp k = true
  · rcases phaseStore_data htype env.postOp store k i with hadd | hsame
    · rcases hp with hp | hp | hp
      · refine ⟨c + 1, le_refl _, ?_, .inl (by omega)⟩
        rw [hadd, hp, hc, BitVec.ofNat_add]
        rfl
      · refine ⟨c, by omega, ?_, .inl (le_refl _)⟩
        rw [hadd, hp, hc]
        exact BitVec.add_zero _
      obtain ⟨c0, rfl⟩ : ∃ c0, c = c0 + 1 := ⟨c - 1, by have := hpos hup; omega⟩
      refine ⟨c0, by omega, ?_, .inr ⟨hup, hp, rfl⟩⟩
      rw [hadd, hp, hc, BitVec.ofNat_add, add_assoc]
      exact BitVec.add_zero _
    · exact ⟨c, by omega, hsame.trans hc, .inl (le_refl _)⟩
  · exact ⟨c, by omega, (phaseStore_down (Bool.eq_false_iff.mpr hup) i).trans hc, .inl (le_refl _)⟩

/-! ## One write -/

/-- How a write may move the counter of `k` about `i`: never back, by at most two, and by at least one if `k`
    executes the write and `i` does not. -/
structure Ahead (path : Path) (k i : Fin n) (c : Nat) (s s' : History n) : Prop where
  move : ∃ c', c ≤ c' ∧ c' ≤ c + 2 ∧ counterAt path s'.store k i = BitVec.ofNat 32 c' ∧
    (s'.held k s.count = true → s'.held i s.count = false → 1 ≤ c')

theorem preOpAnswered_marks (path : Path) (env : Env n) (store : Store n)
    (htype : l.type = .data) (hzero : l.pending = fun _ _ => 0) :
    (preOpAnswered (dataOn path) env store l).type = .data ∧
      (preOpAnswered (dataOn path) env store l).pending = marksOf .data 1 := by
  obtain ⟨ht, hp⟩ := preOpAnswered_keeps (dataOn path) env store l
  refine ⟨ht.trans htype, hp.trans ?_⟩
  show markAllPending l.pending l.type = _
  rw [hzero, htype, markAllPending_zero]

theorem unsupported_ahead {priv : Priv n} (henabled : priv.dataChangeLog = true) (htype : l.type = .data) (hmarks : l.pending = marksOf .data 1) (hc : counterAt path store k i = BitVec.ofNat 32 c)
    (hpos : l.childUp k = true → 1 ≤ c) : ∃ c', c ≤ c' ∧ c' ≤ c + 1 ∧
      counterAt path (afrTransactionResume priv (dataOn path) env store (fun _ => false) none l).store k i =
        BitVec.ofNat 32 c' := by
  rw [resume_data priv henabled path env store htype]
  have hp : markDownChildren l.pending l.childUp l.type i data.index = 1 ∨
      markDownChildren l.pending l.childUp l.type i data.index = 0 := by
    unfold markDownChildren
    rw [hmarks, htype]
    split
    · exact .inl rfl
    · exact .inr (Function.update_self _ _ _)
  obtain ⟨c', hle, hc', hmove⟩ := postOp_ahead env
    (l := { l with pending := markDownChildren l.pending l.childUp l.type }) htype hc hpos
    (by tauto)
  refine ⟨c', ?_, hle, hc'⟩
  rcases hmove with h | ⟨_, hneg, _⟩
  · exact h
  rcases hp with hp | hp
  all_goals exact absurd (hp.symm.trans hneg) (by decide)

/-- After the write the post-op goes back by one, but not about a child that did not write. -/
theorem written_ahead {priv : Priv n} (henabled : priv.dataChangeLog = true) (htype : l.type = .data) (hmarks : l.pending = marksOf .data (-1)) (hc : counterAt path store k i = BitVec.ofNat 32 c)
    (hpos : l.childUp k = true → 1 ≤ c) : ∃ c', c' ≤ c + 1 ∧
      counterAt path (afrTransactionResume priv (dataOn path) env store (fun _ => false) none
        (afrWind (dataOn path).fop env l)).store k i = BitVec.ofNat 32 c' ∧
      (c ≤ c' ∨ (l.childUp k = true ∧ c = c' + 1 ∧ l.childUp i = true ∧ env.fop i = .ok)) := by
  have htype' : (afrWind (dataOn path).fop env l).type = .data := (afrWind_type _ _ _).trans htype
  have hup' : (afrWind (dataOn path).fop env l).childUp = l.childUp := (cbk_foldl _ env _ l).2.1
  rw [resume_data priv henabled path env store htype']
  have hmarks' : l.pending = marksOf l.type (-1) := by rw [hmarks, htype]
  have hp : (postOpLocal (dataOn path).fop env l).pending i data.index =
      if StaysMarked (dataOn path).fop env l i then 0 else -1 := by
    rw [postOpLocal_pending hmarks', htype, if_pos rfl]
  obtain ⟨c', hle, hc', hmove⟩ := postOp_ahead env (l := postOpLocal (dataOn path).fop env l) htype' hc
    (by show (afrWind (dataOn path).fop env l).childUp k = true → _; rw [hup']; exact hpos)
    (by rw [hp]; split <;> simp)
  refine ⟨c', hle, hc', ?_⟩
  rcases hmove with h | ⟨hk, hneg, heq⟩
  · exact .inl h
  right
  change (afrWind (dataOn path).fop env l).childUp k = true at hk
  rw [hup'] at hk
  rw [hp] at hneg
  split at hneg
  · exact absurd hneg (by decide)
  next hnot =>
    unfold StaysMarked at hnot
    rw [not_or] at hnot
    refine ⟨hk, heq, by simpa using hnot.1, ?_⟩
    cases hr : env.fop i with
    | ok => rfl
    | error e =>
      have : env.marked (dataOn path).fop i = true := by
        unfold Env.marked
        rw [hr]
        rfl
      exact absurd this hnot.2

theorem writeLocked_ahead {w : WriteRun n} (htype : l.type = .data) (hzero : l.pending = fun _ _ => 0)
    (hc : counterAt path s.store k i = BitVec.ofNat 32 c) (hnew : s.held k s.count = false) :
    Ahead path k i c s (writeLocked path s w l) := by
  obtain ⟨c1, hle, hle', hc1, hup1⟩ := preOp_ahead w.env htype hzero hc
  obtain ⟨htype1, hmarks1⟩ := preOpAnswered_marks path w.env s.store htype hzero
  have hpos1 : (preOpAnswered (dataOn path) w.env s.store l).childUp k = true → 1 ≤ c1 := by
    intro h
    have := hup1 h
    omega
  have hwritten : ∀ store', (({ s.written w (windMarked (preOpAnswered (dataOn path) w.env s.store l)) with
      store := store' } : History n).held k s.count = true →
      (preOpAnswered (dataOn path) w.env s.store l).childUp k = true) := by
    intro store' h
    change (if s.count = s.count then w.writes _ k else s.held k s.count) = true at h
    rw [if_pos rfl] at h
    exact (Bool.and_eq_true_iff.mp h).1
  unfold writeLocked
  dsimp only
  split
  · -- the client crashes before it writes
    exact ⟨c1, hle, by omega, hc1, fun hk => absurd hk (by simp [hnew])⟩
  split
  · obtain ⟨c2, hle2, hle2', hc2⟩ := unsupported_ahead w.enabled htype1 hmarks1 hc1 hpos1
    exact ⟨c2, by omega, by omega, hc2, fun hk => absurd hk (by simp [hnew])⟩
  split
  · -- the client crashes before the post-op
    refine ⟨c1, hle, by omega, hc1, fun hk _ => ?_⟩
    exact hpos1 (hwritten _ hk)
  have hmarks2 : (windMarked (preOpAnswered (dataOn path) w.env s.store l)).pending = marksOf .data (-1) := by
    show markAllSuccess _ _ = _
    rw [hmarks1, htype1, markAllSuccess_marksOf]
  obtain ⟨c2, hle2, hc2, hmove⟩ := written_ahead w.enabled
    (l := windMarked (preOpAnswered (dataOn path) w.env s.store l)) htype1 hmarks2 hc1 hpos1
  refine ⟨c2, ?_, by omega, hc2, fun hk hi => ?_⟩
  · rcases hmove with h | ⟨hk, heq, _⟩
    · omega
    have := hup1 hk
    omega
  have hk1 := hup1 (hwritten _ hk)
  rcases hmove with h | ⟨_, _, hi1, hok⟩
  · omega
  -- a child that answered the write holds it
  change (if s.count = s.count then w.writes _ i else s.held i s.count) = false at hi
  rw [if_pos rfl] at hi
  unfold WriteRun.writes at hi
  rw [hi1, hok] at hi
  cases hi

/-! ## Histories -/

/-- **The counters tell who lacks what.** A child that holds a write accuses every child that does not. -/
structure HistoryInv (path : Path) (s : History n) : Prop where
  ahead : ∀ k i, ∃ c, c ≤ 2 * s.count ∧ counterAt path s.store k i = BitVec.ofNat 32 c ∧
    ∀ t, s.held k t = true → s.held i t = false → 1 ≤ c
  fresh : ∀ k t, s.held k t = true → t < s.count

/-- What a write leaves apart from the counters: the writes that were there before stay where they are. -/
theorem writeLocked_held (path : Path) (s : History n) (w : WriteRun n) (l : Local n) (k : Fin n) {t : Nat}
    (h : t ≠ s.count) : (writeLocked path s w l).held k t = s.held k t := by
  unfold writeLocked
  dsimp only
  split
  · rfl
  split
  · rfl
  split
  all_goals exact if_neg h

/-- A write either changes nothing but its number, or it has its locks. -/
theorem writeAttempt_cases (path : Path) (s : History n) (w : WriteRun n) :
    writeAttempt path s w = { s with count := s.count + 1 } ∨
    ∃ l : Local n, l.type = .data ∧ (l.pending = fun _ _ => 0) ∧
      writeAttempt path s w = { writeLocked path s w l with count := s.count + 1 } := by
  unfold writeAttempt
  cases hinit : localInit w.priv .data with
  | none => exact .inl rfl
  | some l =>
    dsimp only
    cases hlock : afrLock w.priv w.env l with
    | unlock l' => exact .inl rfl
    | next l' =>
      dsimp only
      split
      · exact .inl rfl
      have hkeeps := afrLock_keeps hlock
      obtain ⟨htype, -, hzero⟩ := localInit_some hinit
      exact .inr ⟨l', hkeeps.1.trans htype, hkeeps.2.trans hzero, rfl⟩

theorem historyStep_inv (s : History n) (w : WriteRun n) (s' : History n)
    (h : HistoryInv path s) (hstep : historyStep path s w = .ok s') : HistoryInv path s' := by
  cases hstep
  have hnew : ∀ k, s.held k s.count = false := by
    intro k
    cases hk : s.held k s.count with
    | false => rfl
    | true => exact absurd (h.fresh k s.count hk) (lt_irrefl _)
  rcases writeAttempt_cases path s w with heq | ⟨l, htype, hzero, heq⟩
  · rw [heq]
    refine ⟨fun k i => ?_, fun k t hk => Nat.lt_succ_of_lt (h.fresh k t hk)⟩
    obtain ⟨c, hle, hc, hlacks⟩ := h.ahead k i
    exact ⟨c, by show c ≤ 2 * (s.count + 1); omega, hc, hlacks⟩
  rw [heq]
  refine ⟨fun k i => ?_, fun k t hk => ?_⟩
  · obtain ⟨c, hle, hc, hlacks⟩ := h.ahead k i
    obtain ⟨c', hge, hle', hc', hwrite⟩ := (writeLocked_ahead htype hzero hc (hnew k)).move
    refine ⟨c', by show c' ≤ 2 * (s.count + 1); omega, hc', fun t hk hi => ?_⟩
    change (writeLocked path s w l).held k t = true at hk
    change (writeLocked path s w l).held i t = false at hi
    by_cases ht : t = s.count
    · rw [ht] at hk hi
      exact hwrite hk hi
    rw [writeLocked_held path s w l k ht] at hk
    rw [writeLocked_held path s w l i ht] at hi
    have := hlacks t hk hi
    omega
  change (writeLocked path s w l).held k t = true at hk
  show t < s.count + 1
  by_cases ht : t = s.count
  · omega
  rw [writeLocked_held path s w l k ht] at hk
  have := h.fresh k t hk
  omega

theorem Initial.inv (h : s.Initial path) : HistoryInv path s where
  ahead k i := ⟨0, Nat.zero_le _, h.counters k i, fun t hk => absurd hk (by simp [h.held k t])⟩
  fresh k t hk := absurd hk (by simp [h.held k t])

theorem history_count {ws : List (WriteRun n)} {s' : History n}
    (hrun : run (historyStep path) s ws = .ok s') : s'.count = s.count + ws.length := by
  induction ws generalizing s with
  | nil =>
    cases hrun
    rfl
  | cons w ws ih =>
    obtain ⟨s1, hstep, hrest⟩ := run_cons_ok.mp hrun
    cases hstep
    rw [ih hrest, List.length_cons]
    show s.count + 1 + ws.length = _
    omega

/-- **Source selection never loses acknowledged data.** After any history of writes, with any failures of the
    children and any crashes of the clients, all children are up and the matrix is read. If some child `f`
    that holds every acknowledged write does not accuse itself, every source holds every acknowledged write.
    The counters must not have overflowed. -/
theorem source_holds_acked (path : Path) (s₀ s : History n) (ws : List (WriteRun n)) (buf : Fin n → Stat)
    (hinit : s₀.Initial path) (hrun : run (historyStep path) s₀ ws = .ok s)
    (hroom : 2 * ws.length + 1 < 2 ^ 32) (f : Fin n) (hfull : ∀ t, s.acked t = true → s.held f t = true)
    (hself : counterAt path s.store f f = 0) (i : Fin n)
    (hsource : (afrShMarkSources (some buf) (afrShBuildPendingMatrix (s.xattr path) .data)
      .data).sources i = true) : ∀ t, s.acked t = true → s.held i t = true := by
  intro t hacked
  by_contra hlacks
  have hinv := run_invariant_all historyStep_inv (Initial.inv hinit) hrun
  obtain ⟨c, hle, hc, hpos⟩ := hinv.ahead f i
  have hcount : s.count = ws.length := by
    rw [history_count hrun, hinit.count, zero_add]
  -- `f` holds the write and `i` does not, so `f` accuses `i`
  have haccused : afrShBuildPendingMatrix (s.xattr path) .data f i ≠ 0 := by
    have hcounter : Xattrs.counters (s.xattr path f) i TransactionType.data.index = BitVec.ofNat 32 c := hc
    apply afrShBuildPendingMatrix_ne_zero hcounter
    · exact hpos t (hfull t hacked) (Bool.eq_false_iff.mpr hlacks)
    · omega
  have hzero : afrShBuildPendingMatrix (s.xattr path) .data f f = 0 :=
    (afrShBuildPendingMatrix_self _ _ _).trans hself
  exact haccused (source_not_accused hzero hsource)

def unwritten : History 2 :=
  { store := fun _ _ _ => none, held := fun _ _ => false, acked := fun _ => false, count := 0 }

theorem unwritten_initial : unwritten.Initial "/f" := ⟨fun _ _ => rfl, fun _ _ => rfl, fun _ => rfl, rfl⟩

/-- A write that fails on one child, if any. -/
def writeFailing (failing : Option (Fin 2)) (crash : Option Crash) : WriteRun 2 :=
  { priv := twoChildren, enabled := rfl
    env := { secondFails (.other 28) with fop := fun j => if failing = some j then .error (.other 28) else .ok }
    applied := fun _ => false, crash := crash }

def afterTwo (w₁ w₂ : WriteRun 2) : History 2 := writeAttempt "/f" (writeAttempt "/f" unwritten w₁) w₂

/-- The sources a self-heal finds if both files have the same size. -/
def sourcesOf (s : History 2) : Fin 2 → Bool :=
  (afrShMarkSources (some fun _ => ⟨0, 0⟩) (afrShBuildPendingMatrix (s.xattr "/f") .data) .data).sources

/-- The first of two writes fails on the first child: the other child is the source. -/
theorem source_holds_acked_failing :
    sourcesOf (afterTwo (writeFailing (some 0) none) (writeFailing none none)) 1 = true ∧
    ∀ t, (afterTwo (writeFailing (some 0) none) (writeFailing none none)).acked t = true →
      (afterTwo (writeFailing (some 0) none) (writeFailing none none)).held 1 t = true := by
  have hsource : sourcesOf (afterTwo (writeFailing (some 0) none) (writeFailing none none)) 1 = true := by
    decide +kernel
  refine ⟨hsource, ?_⟩
  refine source_holds_acked "/f" unwritten (afterTwo (writeFailing (some 0) none) (writeFailing none none))
    [writeFailing (some 0) none, writeFailing none none] (fun _ => ⟨0, 0⟩) unwritten_initial rfl (by decide) 1
    ?_ (by decide +kernel) 1 hsource
  intro t ht
  match t with
  | 0 => decide +kernel
  | 1 => decide +kernel
  | t + 2 => cases ht

/-- **The source lacks an acknowledged write.** The first write fails on the first child and is acknowledged;
    the client of the second crashes after the pre-op. Both children accuse themselves now, and of two fools
    of the same size the first is the source, although the other holds every acknowledged write. -/
theorem fool_source_lacks_acked : unwritten.Initial "/f" ∧
    run (historyStep "/f") unwritten [writeFailing (some 0) none, writeFailing none (some .afterPreOp)] =
      .ok (afterTwo (writeFailing (some 0) none) (writeFailing none (some .afterPreOp))) ∧
    (∀ t, (afterTwo (writeFailing (some 0) none) (writeFailing none (some .afterPreOp))).acked t = true →
      (afterTwo (writeFailing (some 0) none) (writeFailing none (some .afterPreOp))).held 1 t = true) ∧
    sourcesOf (afterTwo (writeFailing (some 0) none) (writeFailing none (some .afterPreOp))) 0 = true ∧
    (afterTwo (writeFailing (some 0) none) (writeFailing none (some .afterPreOp))).acked 0 = true ∧
    (afterTwo (writeFailing (some 0) none) (writeFailing none (some .afterPreOp))).held 0 0 = false := by
  refine ⟨unwritten_initial, rfl, ?_, ?_, ?_, ?_⟩
  · intro t ht
    match t with
    | 0 => decide +kernel
    | t + 1 => cases ht
  all_goals decide +kernel

end GlusterFS.Afr
