import GlusterFS.Lib.Run
import GlusterFS.Afr.FdTransaction
import GlusterFS.Afr.Correctness.Changelog

/-!
# `Afr.Correctness.FdChangelog` — what the writes on an fd leave in the counters

Between the pre-op of the first write and the post-op of the flush, what is known of the failures is in the
context of the fd. On a child whose pre-op is done the counters are ahead (`Counted`), and the post-op takes
one back, but not about a child that failed. So a failure on child `j` is recorded if `j` is marked in the
context, or is down when the flush comes.

It is not always marked. A failed `ftruncate` is marked in the transaction of the `ftruncate` only, which
does no post-op; and a child that a write never reached, because it was down or failed its lock or its
pre-op, is not marked anywhere. If such a child is there again for the flush, the failure is forgotten.
-/

namespace GlusterFS.Afr

open GlusterFS.Storage Transition List TransactionType
open Function (update update_apply update_self)

variable {n : Nat} {env : Env n} {sent : Fin n → Bool} {pending : Pending n} {runs : Fin n → Slot → XattropRun}
  {store : FileStore n} {i j : Fin n} {d : Nat} {ctx : FdCtx n} {l : Local n} {old : BitVec 32} {op : FdOp}

/-! ## Locks -/

/-- The state in which the locking ends, however it ends. -/
def Locking.loc : Locking n → Local n
  | .next l => l
  | .unlock l => l

/-- What the locking of child after child may do: it only takes children out, and only those whose lock
    fails. -/
structure LockKeeps (env : Env n) (l l' : Local n) : Prop where
  type : l'.type = l.type
  pending : l'.pending = l.pending
  down : ∀ j, l'.childUp j = true → l.childUp j = true
  up : ∀ j, env.lock j = .ok → l.childUp j = true → l'.childUp j = true

theorem LockKeeps.refl (env : Env n) (l : Local n) : LockKeeps env l l := ⟨rfl, rfl, fun _ h => h, fun _ _ h => h⟩

theorem LockKeeps.trans {l₁ l2 l3 : Local n} (h1 : LockKeeps env l₁ l2)
    (h2 : LockKeeps env l2 l3) : LockKeeps env l₁ l3 where
  type := h2.type.trans h1.type
  pending := h2.pending.trans h1.pending
  down j h := h1.down j (h2.down j h)
  up j hj h := h2.up j hj (h1.up j hj h)

theorem afrLockCbk_lockKeeps (env : Env n) (l : Local n) (i : Fin n) :
    LockKeeps env l (afrLockCbk l i (env.lock i)).loc := by
  cases hr : env.lock i with
  | ok => exact ⟨rfl, rfl, fun _ h => h, fun _ _ h => h⟩
  | error e =>
    have hfail : ∀ j, (l.childFailed i e).childUp j = true ↔ j ≠ i ∧ l.childUp j = true := by
      intro j
      show update l.childUp i false j = true ↔ _
      rw [update_apply]
      by_cases hj : j = i
      all_goals simp [hj]
    have hne : ∀ j, env.lock j = .ok → j ≠ i := by
      intro j hj hji
      rw [hji, hr] at hj
      cases hj
    simp only [afrLockCbk]
    split
    all_goals exact ⟨rfl, rfl, fun j h => ((hfail j).mp h).2, fun j hj h => (hfail j).mpr ⟨hne j hj, h⟩⟩

theorem afrLockRecFd_keeps (priv : Priv n) (env : Env n) (openedOn : Fin n → Bool) :
    ∀ (is : List (Fin n)) (l : Local n), LockKeeps env l (afrLockRecFd priv env openedOn is l).loc := by
  intro is
  induction is with
  | nil =>
    intro l
    unfold afrLockRecFd
    split
    · exact ⟨rfl, rfl, fun _ h => h, fun _ _ h => h⟩
    · exact LockKeeps.refl env l
  | cons i is ih =>
    intro l
    unfold afrLockRecFd
    split
    · exact ih l
    split
    · exact LockKeeps.refl env l
    have hone := afrLockCbk_lockKeeps env l i
    split
    next l' hlock =>
      rw [hlock] at hone
      exact hone
    next l' hlock =>
      rw [hlock] at hone
      exact hone.trans (ih l')

theorem afrLockFd_keeps (priv : Priv n) (env : Env n) (openedOn : Fin n → Bool) (l : Local n) :
    LockKeeps env l (afrLockFd priv env openedOn l).loc := by
  unfold afrLockFd
  split
  · exact LockKeeps.refl env l
  · exact afrLockRecFd_keeps priv env openedOn (List.finRange n) l

/-! ## The callbacks of the operation -/

/-- What the callbacks of an operation leave, when they come from the children `is`. -/
structure WindKeeps (op : FdOp) (env : Env n) (is : List (Fin n)) (s s' : Local n × FdCtx n) : Prop where
  childUp : s'.1.childUp = s.1.childUp
  type : s'.1.type = s.1.type
  pending : ∀ j k, s'.1.pending j k = s.1.pending j k ∨ s'.1.pending j k = 0
  preOpDone : s'.2.preOpDone = s.2.preOpDone
  childFailed : ∀ j, s'.2.childFailed j = true ↔ s.2.childFailed j = true ∨ (op = .write ∧ j ∈ is ∧ env.fop j ≠ .ok)

theorem markChildDead_or (pending : Pending n) (i : Fin n) (type : TransactionType) (j : Fin n)
    (k : Fin 3) : markChildDead pending i type j k = pending j k ∨ markChildDead pending i type j k = 0 := by
  unfold markChildDead
  by_cases hj : j = i
  · subst hj
    rw [update_self, update_apply]
    split
    · exact .inr rfl
    · exact .inl rfl
  rw [Function.update_of_ne hj]
  exact .inl rfl

theorem windCbkFd_keeps (op : FdOp) (env : Env n) (s : Local n × FdCtx n) (i : Fin n) :
    WindKeeps op env [i] s (windCbkFd op s i (env.fop i)) := by
  cases hr : env.fop i with
  | ok =>
    refine ⟨rfl, rfl, fun _ _ => .inl rfl, rfl, ?_⟩
    intro j
    constructor
    · exact .inl
    rintro (h | ⟨_, hj, hne⟩)
    · exact h
    rw [mem_singleton] at hj
    rw [hj] at hne
    exact absurd hr hne
  | error e =>
    by_cases hop : op = .write
    · subst hop
      refine ⟨rfl, rfl, fun _ _ => .inl rfl, rfl, ?_⟩
      intro j
      show update s.2.childFailed i true j = true ↔ _
      rw [update_apply]
      by_cases hj : j = i
      · subst hj
        simp [hr]
      · simp [hj]
    -- the mark goes to the transaction itself
    have hdead : windCbkFd op s i (.error e) = (afrTransactionFopFailed s.1 i, s.2) := by
      cases op
      case write => exact absurd rfl hop
      all_goals rfl
    rw [hdead]
    refine ⟨rfl, rfl, fun j k => markChildDead_or s.1.pending i s.1.type j k, rfl, ?_⟩
    intro j
    constructor
    · exact .inl
    rintro (h | ⟨h, _⟩)
    · exact h
    · exact absurd h hop

theorem windCbkFd_foldl (op : FdOp) (env : Env n) : ∀ (is : List (Fin n)) (s : Local n × FdCtx n),
    WindKeeps op env is s (is.foldl (fun s i => windCbkFd op s i (env.fop i)) s) := by
  intro is
  induction is with
  | nil =>
    intro s
    refine ⟨rfl, rfl, fun _ _ => .inl rfl, rfl, ?_⟩
    intro j
    simp
  | cons i is ih =>
    intro s
    have hone := windCbkFd_keeps op env s i
    have hrest := ih (windCbkFd op s i (env.fop i))
    rw [foldl_cons]
    refine ⟨hrest.childUp.trans hone.childUp, hrest.type.trans hone.type, ?_, hrest.preOpDone.trans hone.preOpDone, ?_⟩
    · intro j k
      rcases hrest.pending j k with h | h
      · rw [h]
        exact hone.pending j k
      · exact .inr h
    intro j
    rw [hrest.childFailed j, hone.childFailed j, mem_singleton, mem_cons]
    tauto

/-- The operation goes to the children that are up, and those are the ones that answer. -/
theorem afrWindFd_keeps (op : FdOp) (env : Env n) (s : Local n × FdCtx n) :
    WindKeeps op env ((List.finRange n).filter fun i => s.1.childUp i) s (afrWindFd op env s) := by
  have h := windCbkFd_foldl op env (env.fopOrder ((List.finRange n).filter fun i => s.1.childUp i)) s
  refine ⟨h.childUp, h.type, h.pending, h.preOpDone, ?_⟩
  intro j
  rw [← (env.fopOrder_perm _).mem_iff]
  exact h.childFailed j

/-! ## The callbacks of the pre-op -/

/-- What the callbacks of the pre-op leave for the answers `rs`. -/
structure PreOpKeeps (rs : List (Fin n × Reply)) (s s' : Local n × FdCtx n) : Prop where
  marks : s.1.SameMarks s'.1
  down : ∀ j, s'.1.childUp j = true → s.1.childUp j = true
  up : ∀ j, (∀ r, (j, r) ∈ rs → r = .ok) → s.1.childUp j = true → s'.1.childUp j = true
  preOpDone : ∀ i, s'.2.preOpDone i = true → s.2.preOpDone i = true ∨ (i, Reply.ok) ∈ rs
  childFailed : s'.2.childFailed = s.2.childFailed

theorem preOpCbkFd_keeps (op : FdOp) (s : Local n × FdCtx n) (x : Fin n × Reply) :
    PreOpKeeps [x] s (preOpCbkFd op s x) := by
  obtain ⟨i, r⟩ := x
  cases r with
  | ok =>
    refine ⟨⟨rfl, rfl⟩, fun _ h => h, fun _ _ h => h, ?_, ?_⟩
    · intro j h
      by_cases hj : j = i
      · subst hj
        exact .inr (mem_singleton.mpr rfl)
      left
      show s.2.preOpDone j = true
      cases op <;> simpa [preOpCbkFd, markPreOpDoneOnFd, hj] using h
    · cases op <;> rfl
  | error e =>
    have hup : ∀ j, (preOpCbkFd op s (i, .error e)).1.childUp j = true ↔ j ≠ i ∧ s.1.childUp j = true := by
      intro j
      show update s.1.childUp i false j = true ↔ _
      rw [update_apply]
      by_cases hj : j = i
      all_goals simp [hj]
    refine ⟨⟨rfl, rfl⟩, fun j h => ((hup j).mp h).2, ?_, fun _ h => .inl h, rfl⟩
    intro j hok h
    refine (hup j).mpr ⟨?_, h⟩
    intro hj
    have := hok (.error e) (by simp [hj])
    cases this

theorem preOpCbkFd_foldl (op : FdOp) : ∀ (rs : List (Fin n × Reply)) (s : Local n × FdCtx n),
    PreOpKeeps rs s (rs.foldl (preOpCbkFd op) s) := by
  intro rs
  induction rs with
  | nil =>
    intro s
    exact ⟨⟨rfl, rfl⟩, fun _ h => h, fun _ _ h => h, fun _ h => .inl h, rfl⟩
  | cons x rs ih =>
    intro s
    have hone := preOpCbkFd_keeps op s x
    have hrest := ih (preOpCbkFd op s x)
    rw [foldl_cons]
    refine ⟨⟨hrest.marks.1.trans hone.marks.1, hrest.marks.2.trans hone.marks.2⟩,
      fun j h => hone.down j (hrest.down j h), ?_, ?_, hrest.childFailed.trans hone.childFailed⟩
    · intro j hok h
      apply hrest.up j
      · intro r hr
        exact hok r (mem_cons_of_mem x hr)
      apply hone.up j
      · intro r hr
        rw [mem_singleton] at hr
        exact hok r (by rw [hr]; exact mem_cons_self)
      · exact h
    intro i h
    rcases hrest.preOpDone i h with h | h
    · rcases hone.preOpDone i h with h | h
      · exact .inl h
      rw [mem_singleton] at h
      right
      rw [← h]
      exact mem_cons_self
    · exact .inr (mem_cons_of_mem x h)

/-! ## What an `fxattrop` adds -/

theorem fxattropOn_cases (pending : Pending n) (runs : Fin n → Slot → XattropRun) (store : FileStore n)
    (i j : Fin n) (k : Fin 3) :
    (fxattropOn pending runs store i).1.counters j k = (store i).counters j k + pending j k ∨
    (fxattropOn pending runs store i).1.counters j k = (store i).counters j k := by
  rcases doXattrop_cases (setPendingDict_keys pending) (runs i .main).fail (store i) j (pending j)
    (mem_setPendingDict pending j) with h | ⟨-, h⟩
  · left
    show (doXattrop _ _ _).1.counters j k = _
    rw [h]
    rfl
  right
  show (doXattrop _ _ _).1.counters j k = _
  rw [h]

theorem fxattropStore_cases (sent : Fin n → Bool) (pending : Pending n) (runs : Fin n → Slot → XattropRun)
    (store : FileStore n) (i j : Fin n) : (fxattropStore sent pending runs store).counter i j =
        store.counter i j + pending j data.index ∨
      (fxattropStore sent pending runs store).counter i j = store.counter i j := by
  unfold FileStore.counter fxattropStore
  split
  · exact fxattropOn_cases pending runs store i j _
  · exact .inr rfl

theorem fxattropExecuted_iff : fxattropExecuted sent pending runs store i = true ↔
      sent i = true ∧ (fxattropOn pending runs store i).2 = .ok := by
  unfold fxattropExecuted
  rw [Bool.and_eq_true, beq_iff_eq]

theorem fxattropStore_executed (h : fxattropExecuted sent pending runs store i = true) (j : Fin n) :
    (fxattropStore sent pending runs store).counter i j = store.counter i j + pending j data.index := by
  obtain ⟨hsent, hok⟩ := fxattropExecuted_iff.mp h
  unfold FileStore.counter fxattropStore
  rw [if_pos hsent]
  show (doXattrop _ _ _).1.counters j _ = _
  rw [doXattrop_ok (setPendingDict_keys pending) hok (mem_setPendingDict pending j)]
  rfl

theorem executed_of_reply (h : (i, Reply.ok) ∈ fxattropReplies sent pending runs store) :
    fxattropExecuted sent pending runs store i = true := by
  unfold fxattropReplies at h
  obtain ⟨i', hi', heq⟩ := mem_map.mp h
  rw [Prod.mk.injEq] at heq
  obtain ⟨rfl, hseen⟩ := heq
  rw [fxattropExecuted_iff]
  refine ⟨(mem_filter.mp hi').2, ?_⟩
  unfold XattropRun.seen at hseen
  split at hseen
  · cases hseen
  · exact hseen

theorem reply_of_clean {r : Reply} (hclean : runs j .main = ⟨none, none⟩)
    (h : (j, r) ∈ fxattropReplies sent pending runs store) : r = .ok := by
  unfold fxattropReplies at h
  obtain ⟨j', _, heq⟩ := mem_map.mp h
  rw [Prod.mk.injEq] at heq
  obtain ⟨rfl, hseen⟩ := heq
  unfold XattropRun.seen fxattropOn at hseen
  rw [hclean] at hseen
  rw [← hseen]
  exact doXattrop_none _ _

/-! ## How far a counter is ahead -/

/-- The counter of `i` about `j` is `d` ahead of `old`, and by at least one if the pre-op is done on `i`. -/
def Counted (i j : Fin n) (old : BitVec 32) (d : Nat) (ctx : FdCtx n) (store : FileStore n) : Prop :=
  store.counter i j = old + BitVec.ofNat 32 d ∧ (ctx.preOpDone i = true → 1 ≤ d)

theorem ofNat_pred (h : 1 ≤ d) : BitVec.ofNat 32 d + (-1 : BitVec 32) = BitVec.ofNat 32 (d - 1) := by
  obtain ⟨k, rfl⟩ : ∃ k, d = k + 1 := ⟨d - 1, by omega⟩
  rw [BitVec.ofNat_add, add_assoc]
  show BitVec.ofNat 32 k + 0#32 = BitVec.ofNat 32 k
  exact BitVec.add_zero _

/-- What the post-op of a flush may add about a child. -/
def Taken (pending : Pending n) : Prop :=
  ∀ j, pending j data.index = -1 ∨ pending j data.index = 0

theorem Taken.zero_or {pending' : Pending n} (h : Taken pending)
    (hor : ∀ j k, pending' j k = pending j k ∨ pending' j k = 0) : Taken pending' := by
  intro j
  rcases hor j data.index with h' | h'
  · rw [h']
    exact h j
  · exact .inr h'

theorem markAllSuccess_taken (pending : Pending n) : Taken (markAllSuccess pending .data) := by
  intro j
  left
  show update _ _ _ _ = _
  rw [update_self]

theorem update_zero_or (c : Counters) (k0 k : Fin 3) : update c k0 0 k = c k ∨ update c k0 0 k = 0 := by
  rw [update_apply]
  split
  · exact .inr rfl
  · exact .inl rfl

theorem postOpPending_or (pending : Pending n) (childUp childFailed : Fin n → Bool)
    (type : TransactionType) (j : Fin n) (k : Fin 3) :
    markFailedChildren (markDownChildren pending childUp type) childFailed type j k = pending j k ∨
    markFailedChildren (markDownChildren pending childUp type) childFailed type j k = 0 := by
  have hdown : markDownChildren pending childUp type j k = pending j k ∨
      markDownChildren pending childUp type j k = 0 := by
    unfold markDownChildren
    split
    · exact .inl rfl
    · exact update_zero_or (pending j) type.index k
  unfold markFailedChildren
  split
  · rcases update_zero_or (markDownChildren pending childUp type j) type.index k with h | h
    · rw [h]
      exact hdown
    · exact .inr h
  · exact hdown

/-- Nothing is taken back about a child that is down or marked in the context. -/
theorem postOpPending_zero {childUp childFailed : Fin n → Bool}
    (h : childUp j = false ∨ childFailed j = true) (pending : Pending n) (type : TransactionType) :
    markFailedChildren (markDownChildren pending childUp type) childFailed type j type.index = 0 := by
  unfold markFailedChildren
  split
  · rw [update_self]
  next hfail =>
    have hdown : childUp j = false := by
      rcases h with h | h
      · exact h
      · exact absurd h hfail
    unfold markDownChildren
    rw [hdown]
    show update _ _ _ _ = _
    rw [update_self]

/-! ## A flush -/

/-- **The post-op of a flush** takes at most one back, and only where the pre-op is done. -/
theorem fdPostOp_counted {wound : Option (Local n)} (htype : l.type = .data) (htaken : Taken l.pending) (h : Counted i j old d ctx store) :
    ∃ d' ≤ d, Counted i j old d' (fdPostOp env ctx store wound l).ctx (fdPostOp env ctx store wound l).store := by
  obtain ⟨hcounter, hflag⟩ := h
  have hmarks := htaken.zero_or (postOpPending_or l.pending l.childUp ctx.childFailed .data) j
  unfold fdPostOp
  rw [htype]
  by_cases hsent : (l.childUp i && ctx.preOpDone i) = true
  · obtain ⟨hup, hdone⟩ := Bool.and_eq_true_iff.mp hsent
    have hpos := hflag hdone
    have hcleared : ¬ (ctx.preOpDone i && !l.childUp i) = true := by simp [hup]
    rcases fxattropStore_cases (fun i => l.childUp i && ctx.preOpDone i)
      (markFailedChildren (markDownChildren l.pending l.childUp .data) ctx.childFailed .data) env.postOp
      store i j with hadd | hsame
    · rcases hmarks with hone | hzero
      · refine ⟨d - 1, by omega, ?_, fun hf => absurd hf hcleared⟩
        rw [hadd, hcounter, hone, add_assoc, ofNat_pred hpos]
      refine ⟨d, le_refl d, ?_, fun hf => absurd hf hcleared⟩
      rw [hadd, hcounter, hzero]
      exact BitVec.add_zero _
    · exact ⟨d, le_refl d, hsame.trans hcounter, fun hf => absurd hf hcleared⟩
  refine ⟨d, le_refl d, ?_, ?_⟩
  · rw [← hcounter]
    exact congrArg (Xattrs.counters · j data.index) (if_neg hsent)
  intro hf
  exact hflag (Bool.and_eq_true_iff.mp hf).1

theorem flush_needs : changelogNeededPostOp .flush = true := rfl

theorem upDownFlush_needs : changelogNeededPostOp .upDownFlush = true := rfl

section

variable (hop : changelogNeededPostOp op = true)
include hop

theorem changelogNeededPreOp_flush (priv : Priv n) (ctx : FdCtx n) : changelogNeededPreOp priv op ctx = false := by
  cases op
  case write => cases hop
  case ftruncate => cases hop
  all_goals rfl

theorem fdWindFop_flush (env : Env n) (ctx : FdCtx n) (store : FileStore n) (htype : l.type = .data) :
    ∃ (ctx' : FdCtx n) (wound : Option (Local n)) (l' : Local n),
      fdWindFop op env ctx store l = fdPostOp env ctx' store wound l' ∧ l'.type = .data ∧
      Taken l'.pending ∧ l'.childUp = l.childUp ∧ ctx'.preOpDone = ctx.preOpDone ∧
      ctx'.childFailed = ctx.childFailed := by
  unfold fdWindFop
  split
  · refine ⟨ctx, none, { l with pending := markAllSuccess l.pending l.type }, ?_, htype, ?_, rfl, rfl, rfl⟩
    · unfold fdResume
      rw [if_pos hop]
    show Taken (markAllSuccess l.pending l.type)
    rw [htype]
    exact markAllSuccess_taken l.pending
  have hkeeps := afrWindFd_keeps op env ({ l with pending := markAllSuccess l.pending l.type }, ctx)
  refine ⟨(afrWindFd op env ({ l with pending := markAllSuccess l.pending l.type }, ctx)).2,
    some { l with pending := markAllSuccess l.pending l.type },
    (afrWindFd op env ({ l with pending := markAllSuccess l.pending l.type }, ctx)).1, ?_,
    hkeeps.type.trans htype, ?_, hkeeps.childUp, hkeeps.preOpDone, ?_⟩
  · unfold fdResume
    rw [if_pos hop]
  · have htaken : Taken (markAllSuccess l.pending l.type) := by
      rw [htype]
      exact markAllSuccess_taken l.pending
    exact htaken.zero_or hkeeps.pending
  -- only a write marks the context
  funext j
  have hj := hkeeps.childFailed j
  have hnot : op ≠ .write := by
    rintro rfl
    cases hop
  simp only [hnot, false_and, or_false] at hj
  exact Bool.eq_iff_iff.mpr hj

/-- **A flush** either ends without a post-op, with nothing changed, or runs its post-op. -/
theorem fdTransaction_flush (priv : Priv n)
    (env : Env n) (htype : l.type = .data) (ctx : FdCtx n) (store : FileStore n) :
    ∃ l₁, LockKeeps env { l with pending := fun _ _ => 0 } l₁ ∧
      (fdTransaction priv op env l ctx store = .noPostOp l₁ ctx store none ∨
      ∃ (ctx' : FdCtx n) (wound : Option (Local n)) (l' : Local n),
        fdTransaction priv op env l ctx store = fdPostOp env ctx' store wound l' ∧ l'.type = .data ∧
        Taken l'.pending ∧ l'.childUp = l₁.childUp ∧ ctx'.preOpDone = ctx.preOpDone ∧
        ctx'.childFailed = ctx.childFailed) := by
  have hlocks := afrLockFd_keeps priv env ctx.openedOn { l with pending := fun _ _ => 0 }
  unfold fdTransaction
  split
  next l₁ hlock =>
    rw [hlock] at hlocks
    exact ⟨l₁, hlocks, .inl rfl⟩
  next l₁ hlock =>
    rw [hlock] at hlocks
    refine ⟨l₁, hlocks, .inr ?_⟩
    rw [changelogNeededPreOp_flush hop, if_neg Bool.false_ne_true]
    exact fdWindFop_flush hop env ctx store (hlocks.type.trans htype)

theorem fdTransaction_flush_counted (priv : Priv n)
    (env : Env n) (htype : l.type = .data) (h : Counted i j old d ctx store) :
    ∃ d' ≤ d, Counted i j old d' (fdTransaction priv op env l ctx store).ctx
      (fdTransaction priv op env l ctx store).store := by
  obtain ⟨l₁, _, hno | ⟨ctx', wound, l', heq, htype', htaken, _, hdone, _⟩⟩ :=
    fdTransaction_flush hop priv env htype ctx store
  · rw [hno]
    exact ⟨d, le_refl d, h⟩
  rw [heq]
  apply fdPostOp_counted htype' htaken
  unfold Counted at h ⊢
  rwa [hdone]

end

/-! ## A write -/

/-- **The pre-op** adds one, and sets the flag of a child only if it did. -/
theorem preOp_counted (htype : l.type = .data) {s : Local n × FdCtx n}
    (hpre : PreOpKeeps (env.preOrder (fxattropReplies l.childUp (markAllPending l.pending l.type) env.preOp
      store)) ({ l with pending := markAllPending l.pending l.type }, ctx) s) (h : Counted i j old d ctx store) :
    ∃ d' ≤ d + 1, Counted i j old d' s.2
      (fxattropStore l.childUp (markAllPending l.pending l.type) env.preOp store) := by
  obtain ⟨hcounter, hflag⟩ := h
  have hone : markAllPending l.pending l.type j data.index = 1 := by
    rw [htype]
    show update _ _ _ _ = _
    rw [update_self]
  have hnext : store.counter i j + markAllPending l.pending l.type j data.index =
      old + BitVec.ofNat 32 (d + 1) := by
    rw [hone, hcounter, BitVec.ofNat_add, add_assoc]
    rfl
  by_cases hexec : fxattropExecuted l.childUp (markAllPending l.pending l.type) env.preOp store i = true
  · exact ⟨d + 1, le_refl _, (fxattropStore_executed hexec j).trans hnext, fun _ => by omega⟩
  -- the flag, if it is set, was set before
  have hold : s.2.preOpDone i = true → 1 ≤ d := by
    intro hdone
    rcases hpre.preOpDone i hdone with h | h
    · exact hflag h
    rw [(env.preOrder_perm _).mem_iff] at h
    exact absurd (executed_of_reply h) hexec
  rcases fxattropStore_cases l.childUp (markAllPending l.pending l.type) env.preOp store i j with
    hadd | hsame
  · exact ⟨d + 1, le_refl _, hadd.trans hnext, fun _ => by omega⟩
  · exact ⟨d, by omega, hsame.trans hcounter, hold⟩

theorem fdWindFop_write (hop : changelogNeededPostOp op = false) (env : Env n) (ctx : FdCtx n)
    (store : FileStore n) (l : Local n) : fdWindFop op env ctx store l =
      let l₁ := { l with pending := markAllSuccess l.pending l.type }
      .noPostOp (afrWindFd op env (l₁, ctx)).1 (afrWindFd op env (l₁, ctx)).2 store (some l₁) := by
  unfold fdWindFop fdResume
  have hnot : op ≠ .upDownFlush := by
    rintro rfl
    cases hop
  rw [if_neg hnot, hop]
  rfl

/-- **What a write can do** with the counters and the context. The context `ctx₁` and the state `l₁` are
    those of the moment the operation is wound, if it is. -/
theorem fdTransaction_write (hop : changelogNeededPostOp op = false) (priv : Priv n)
    (env : Env n) (htype : l.type = .data) (ctx : FdCtx n) (store : FileStore n) : ∃ (l₁ : Local n) (ctx₁ : FdCtx n),
      (∀ j, l.childUp j = true → env.lock j = .ok → env.preOp j .main = ⟨none, none⟩ → l₁.childUp j = true) ∧
      ctx₁.childFailed = ctx.childFailed ∧ (∀ {i j : Fin n} {old : BitVec 32} {d : Nat}, Counted i j old d ctx store →
        ∃ d' ≤ d + 1, Counted i j old d' ctx₁ (fdTransaction priv op env l ctx store).store) ∧
      (((fdTransaction priv op env l ctx store).wound = none ∧ (fdTransaction priv op env l ctx store).ctx = ctx₁) ∨
        ((fdTransaction priv op env l ctx store).wound = some l₁ ∧
          (fdTransaction priv op env l ctx store).ctx = (afrWindFd op env (l₁, ctx₁)).2)) := by
  have hlocks := afrLockFd_keeps priv env ctx.openedOn { l with pending := fun _ _ => 0 }
  have hnoPost : ∀ (ctx : FdCtx n) (store : FileStore n) (wound : Option (Local n)) (l : Local n),
      fdResume op env ctx store wound l = .noPostOp l ctx store wound := by
    intro ctx store wound l
    unfold fdResume
    rw [hop]
    rfl
  unfold fdTransaction
  split
  next l₁ hlock =>
    rw [hlock] at hlocks
    refine ⟨l₁, ctx, fun j hj hlk _ => hlocks.up j hlk hj, rfl, ?_, .inl ⟨rfl, rfl⟩⟩
    intro i j old d h
    exact ⟨d, by omega, h⟩
  next l₁ hlock =>
    rw [hlock] at hlocks
    split
    · -- the first write on the fd does the pre-op
      unfold fdPreOp
      split
      · refine ⟨l₁, ctx, fun j hj hlk _ => hlocks.up j hlk hj, rfl, ?_, .inl ⟨rfl, rfl⟩⟩
        intro i j old d h
        exact ⟨d, by omega, h⟩
      have hpre := preOpCbkFd_foldl op
        (env.preOrder (fxattropReplies l₁.childUp (markAllPending l₁.pending l₁.type) env.preOp store))
        ({ l₁ with pending := markAllPending l₁.pending l₁.type }, ctx)
      dsimp only
      generalize hs : (env.preOrder (fxattropReplies l₁.childUp (markAllPending l₁.pending l₁.type)
        env.preOp store)).foldl (preOpCbkFd op)
        ({ l₁ with pending := markAllPending l₁.pending l₁.type }, ctx) = s at hpre ⊢
      have hup : ∀ j, l.childUp j = true → env.lock j = .ok → env.preOp j .main = ⟨none, none⟩ →
          s.1.childUp j = true := by
        intro j hj hlk hclean
        apply hpre.up j
        · intro r hr
          rw [(env.preOrder_perm _).mem_iff] at hr
          exact reply_of_clean hclean hr
        · exact hlocks.up j hlk hj
      have hcounted : ∀ {i j : Fin n} {old : BitVec 32} {d : Nat}, Counted i j old d ctx store →
          ∃ d' ≤ d + 1, Counted i j old d' s.2
            (fxattropStore l₁.childUp (markAllPending l₁.pending l₁.type) env.preOp store) := by
        intro i j old d h
        exact preOp_counted (hlocks.type.trans htype) hpre h
      split
      · rw [hnoPost]
        exact ⟨s.1, s.2, hup, hpre.childFailed, hcounted, .inl ⟨rfl, rfl⟩⟩
      rw [fdWindFop_write hop]
      exact ⟨{ s.1 with pending := markAllSuccess s.1.pending s.1.type }, s.2, hup, hpre.childFailed,
        hcounted, .inr ⟨rfl, rfl⟩⟩
    rw [fdWindFop_write hop]
    refine ⟨{ l₁ with pending := markAllSuccess l₁.pending l₁.type }, ctx,
      fun j hj hlk _ => hlocks.up j hlk hj, rfl, ?_, .inr ⟨rfl, rfl⟩⟩
    intro i j old d h
    exact ⟨d, by omega, h⟩

/-! ## One action -/

variable (s : FdState n)

theorem afrUpDownFlush_down (env : Env n) (htype : l.type = .data) : (afrUpDownFlush s none env l).loc.type = .data ∧
    (∀ j, env.lock j = .ok → l.childUp j = true → (afrUpDownFlush s none env l).loc.childUp j = true) ∧
    (afrUpDownFlush s none env l).ctx.childFailed = s.ctx.childFailed ∧
    ∀ {i j : Fin n} {old : BitVec 32} {d : Nat}, Counted i j old d s.ctx s.store →
      ∃ d' ≤ d, Counted i j old d' (afrUpDownFlush s none env l).ctx (afrUpDownFlush s none env l).store := by
  obtain ⟨l₁, hlocks, hcases⟩ := fdTransaction_flush upDownFlush_needs s.priv env htype s.ctx s.store
  refine ⟨?_, ?_, ?_, ?_⟩
  · show (fdTransaction s.priv .upDownFlush env l s.ctx s.store).loc.type = _
    rcases hcases with hno | ⟨ctx', wound, l', heq, htype', _⟩
    · rw [hno]
      exact hlocks.type.trans htype
    rw [heq]
    exact htype'
  · intro j hj hup
    show (fdTransaction s.priv .upDownFlush env l s.ctx s.store).loc.childUp j = true
    rcases hcases with hno | ⟨ctx', wound, l', heq, _, _, hup', _⟩
    · rw [hno]
      exact hlocks.up j hj hup
    rw [heq]
    show l'.childUp j = true
    rw [hup']
    exact hlocks.up j hj hup
  · show (fdTransaction s.priv .upDownFlush env l s.ctx s.store).ctx.childFailed = _
    rcases hcases with hno | ⟨ctx', wound, l', heq, _, _, _, _, hfail⟩
    · rw [hno]
      rfl
    rw [heq]
    exact hfail
  intro i j old d h
  obtain ⟨d', hle, hcounter, hflag⟩ :=
    fdTransaction_flush_counted upDownFlush_needs s.priv env htype h
  refine ⟨d', hle, hcounter, ?_⟩
  -- the end of the flush only takes flags away
  intro hdone
  exact hflag (Bool.and_eq_true_iff.mp hdone).1

/-- **What a write leaves** in the state, from whatever its preparations left. -/
structure OpLeaves (op : FdOp) (env : Env n) (l : Local n) (ctx : FdCtx n) (store : FileStore n)
    (s s' : FdState n) : Prop where
  counted : ∀ {i j : Fin n} {old : BitVec 32} {d : Nat}, Counted i j old d ctx store →
    ∃ d' ≤ d + 1, Counted i j old d' s'.ctx s'.store
  sticky : ∀ j, ctx.childFailed j = true → s'.ctx.childFailed j = true
  marks : ∀ j, l.childUp j = true → env.lock j = .ok → env.preOp j .main = ⟨none, none⟩ →
    (op = .write ∨ env.fop j = .ok) → ∀ r ∈ s'.log, r ∉ s.log → r j = false → s'.ctx.childFailed j = true

theorem doFdOp_leaves (hop : changelogNeededPostOp op = false) (s : FdState n) (env : Env n) (htype : l.type = .data) (ctx : FdCtx n) (store : FileStore n) :
    OpLeaves op env l ctx store s (doFdOp s op env l ctx store) := by
  obtain ⟨l₁, ctx₁, hup, hfail, hcounted, hcases⟩ :=
    fdTransaction_write hop s.priv env htype ctx store
  have hwind := afrWindFd_keeps op env (l₁, ctx₁)
  refine ⟨?_, ?_, ?_⟩
  · intro i j old d h
    obtain ⟨d', hle, hcounter, hflag⟩ := hcounted h
    refine ⟨d', hle, hcounter, ?_⟩
    show (fdTransaction s.priv op env l ctx store).ctx.preOpDone i = true → _
    rcases hcases with ⟨_, hctx⟩ | ⟨_, hctx⟩
    · rw [hctx]
      exact hflag
    rw [hctx, hwind.preOpDone]
    exact hflag
  · intro j hj
    show (fdTransaction s.priv op env l ctx store).ctx.childFailed j = true
    rw [← hfail] at hj
    rcases hcases with ⟨_, hctx⟩ | ⟨_, hctx⟩
    · rwa [hctx]
    rw [hctx, hwind.childFailed]
    exact .inl hj
  intro j hj hlk hclean hkind r hr hnew hrj
  have hj1 := hup j hj hlk hclean
  show (fdTransaction s.priv op env l ctx store).ctx.childFailed j = true
  change r ∈ s.log ++ ((fdTransaction s.priv op env l ctx store).wound.map
    fun w i => w.childUp i && env.fop i == .ok).toList at hr
  rcases mem_append.mp hr with hr | hr
  · exact absurd hr hnew
  rcases hcases with ⟨hwound, _⟩ | ⟨hwound, hctx⟩
  · rw [hwound] at hr
    cases hr
  -- the operation reached the child, and failed there
  rw [hwound] at hr
  obtain rfl := mem_singleton.mp hr
  have hnot : env.fop j ≠ .ok := by
    intro hok
    simp [hj1, hok] at hrj
  rw [hctx, hwind.childFailed]
  refine .inr ⟨?_, ?_, hnot⟩
  · rcases hkind with hkind | hok
    · exact hkind
    · exact absurd hok hnot
  · exact mem_filter.mpr ⟨mem_finRange j, hj1⟩

/-- The operation does not start with the self-heal of a child that came up. -/
def FdAction.NoHeal : FdAction n → Prop
  | .writev _ _ _ => s.ctx.downCount < s.downCount ∨ s.upCount ≤ s.ctx.upCount
  | _ => True

/-- **Child `j` is not lost unnoticed.** Unless it is marked in the context already, it is up, its locks and
    its pre-op go well, and an `ftruncate` does not fail on it; a `writev` may fail on it. -/
def FdAction.Keeps (j : Fin n) (s : FdState n) : FdAction n → Prop
  | .writev env flushEnv _ => s.ctx.childFailed j = true ∨
      s.priv.childUp j = true ∧ env.lock j = .ok ∧ flushEnv.lock j = .ok ∧ env.preOp j .main = ⟨none, none⟩
  | .ftruncate env flushEnv => s.ctx.childFailed j = true ∨
      s.priv.childUp j = true ∧ env.lock j = .ok ∧ flushEnv.lock j = .ok ∧
        env.preOp j .main = ⟨none, none⟩ ∧ env.fop j = .ok
  | _ => True

/-- What an action leaves: a write is an operation, after a flush or not, and anything else keeps the context
    and the counters. -/
theorem fdNext_cases (a : FdAction n) (hheal : a.NoHeal s) :
    ((fdNext s a).ctx = s.ctx ∧ (fdNext s a).store = s.store ∧ (fdNext s a).log = s.log) ∨
    ∃ (op : FdOp) (env : Env n) (l : Local n) (ctx : FdCtx n) (store : FileStore n),
      OpLeaves op env l ctx store s (fdNext s a) ∧ ctx.childFailed = s.ctx.childFailed ∧
      (∀ {i j : Fin n} {old : BitVec 32} {d : Nat}, Counted i j old d s.ctx s.store →
        ∃ d' ≤ d, Counted i j old d' ctx store) ∧ ∀ j, a.Keeps j s → s.ctx.childFailed j = true ∨
        (l.childUp j = true ∧ env.lock j = .ok ∧ env.preOp j .main = ⟨none, none⟩ ∧
          (op = .write ∨ env.fop j = .ok)) := by
  cases a with
  | childUp i | childDown i => exact .inl ⟨rfl, rfl, rfl⟩
  | writev env flushEnv heal =>
    simp only [fdNext, afrWritev]
    cases hinit : localInit s.priv .data with
    | none => exact .inl ⟨rfl, rfl, rfl⟩
    | some l =>
      obtain ⟨htype, hup, -⟩ := localInit_some hinit
      right
      dsimp only
      split
      · obtain ⟨htype', hup', hfail, hcounted⟩ := afrUpDownFlush_down s flushEnv htype
        refine ⟨.write, env, _, _, _, doFdOp_leaves rfl s env htype' _ _, hfail, hcounted, ?_⟩
        rintro j (hj | ⟨hj, hlk, hflk, hclean⟩)
        · exact .inl hj
        rw [← hup] at hj
        exact .inr ⟨hup' j hflk hj, hlk, hclean, .inl rfl⟩
      next hdown =>
        have hnot : ¬ s.ctx.upCount < s.upCount := by
          rcases hheal with h | h
          · exact absurd h hdown
          · omega
        rw [if_neg hnot]
        refine ⟨.write, env, l, s.ctx, s.store, doFdOp_leaves rfl s env htype _ _, rfl, ?_, ?_⟩
        · intro i j old d h
          exact ⟨d, le_refl d, h⟩
        rintro j (hj | ⟨hj, hlk, _, hclean⟩)
        · exact .inl hj
        rw [← hup] at hj
        exact .inr ⟨hj, hlk, hclean, .inl rfl⟩
  | ftruncate env flushEnv =>
    simp only [fdNext, afrFtruncate]
    cases hinit : localInit s.priv .data with
    | none => exact .inl ⟨rfl, rfl, rfl⟩
    | some l =>
      obtain ⟨htype, hup, -⟩ := localInit_some hinit
      right
      dsimp only
      split
      · obtain ⟨htype', hup', hfail, hcounted⟩ := afrUpDownFlush_down s flushEnv htype
        refine ⟨.ftruncate, env, _, _, _, doFdOp_leaves rfl s env htype' _ _, hfail, hcounted, ?_⟩
        rintro j (hj | ⟨hj, hlk, hflk, hclean, hok⟩)
        · exact .inl hj
        rw [← hup] at hj
        exact .inr ⟨hup' j hflk hj, hlk, hclean, .inr hok⟩
      refine ⟨.ftruncate, env, l, s.ctx, s.store, doFdOp_leaves rfl s env htype _ _, rfl, ?_, ?_⟩
      · intro i j old d h
        exact ⟨d, le_refl d, h⟩
      rintro j (hj | ⟨hj, hlk, _, hclean, hok⟩)
      · exact .inl hj
      rw [← hup] at hj
      exact .inr ⟨hj, hlk, hclean, .inr hok⟩

/-! ## Runs -/

theorem fdStep_counted (k : Nat) (s : FdState n) (a : FdAction n)
    (s' : FdState n) (h : ∃ d ≤ k, Counted i j old d s.ctx s.store) (hheal : a.NoHeal s)
    (hstep : fdStep s a = .ok s') : ∃ d ≤ k + 1, Counted i j old d s'.ctx s'.store := by
  cases hstep
  obtain ⟨d, hle, hd⟩ := h
  rcases fdNext_cases s a hheal with ⟨hctx, hstore, _⟩ | ⟨op, env, l, ctx, store, hop, _, hflush, _⟩
  · rw [hctx, hstore]
    exact ⟨d, by omega, hd⟩
  obtain ⟨d1, hle1, hd1⟩ := hflush hd
  obtain ⟨d2, hle2, hd2⟩ := hop.counted hd1
  exact ⟨d2, by omega, hd2⟩

/-- A child on which some operation did not succeed is marked. -/
def FailuresMarked (j : Fin n) (s : FdState n) : Prop := ∀ r ∈ s.log, r j = false → s.ctx.childFailed j = true

theorem fdStep_marked (a : FdAction n) (s' : FdState n)
    (h : FailuresMarked j s) (hC : a.NoHeal s ∧ a.Keeps j s) (hstep : fdStep s a = .ok s') : FailuresMarked j s' := by
  cases hstep
  rcases fdNext_cases s a hC.1 with ⟨hctx, _, hlog⟩ | ⟨op, env, l, ctx, store, hop, hfail, _, hkeeps⟩
  · intro r hr hrj
    rw [hlog] at hr
    rw [hctx]
    exact h r hr hrj
  intro r hr hrj
  have hsticky := hop.sticky j
  rw [hfail] at hsticky
  by_cases hold : r ∈ s.log
  · exact hsticky (h r hold hrj)
  rcases hkeeps j hC.2 with hj | ⟨hup, hlk, hclean, hkind⟩
  · exact hsticky hj
  · exact hop.marks j hup hlk hclean hkind r hr hold hrj

theorem toInt_lt_add {b : BitVec 32} (hpos : 1 ≤ d) (hroom : b.toInt + d < 2 ^ 31) :
    b.toInt < (b + BitVec.ofNat 32 d).toInt := by
  have hlow : -(2 ^ 31) ≤ b.toInt := by
    have := BitVec.le_toInt b
    simpa using this
  have heq : (b + BitVec.ofNat 32 d).toInt = b.toInt + d := by
    rw [BitVec.toInt_add, BitVec.toInt_ofNat', Int.add_bmod_bmod]
    apply Int.bmod_eq_of_le
    · norm_num at hlow ⊢
      omega
    norm_num at hroom ⊢
    omega
  omega

/-- **Failures on an fd are recorded.** A fresh fd, any `writev`s and `ftruncate`s on it with any failures
    and any comings and goings of the children, then the flush; child `i` executes the flush's post-op, which
    it only gets if its pre-op is done. If some operation succeeded on `i` but not on `j`, the counter of `i`
    about `j` is larger than before, provided no write had to self-heal first, the counter does not
    overflow, and either `j` was never lost unnoticed or it is down when the flush comes. -/
theorem fd_failure_recorded (s₀ s : FdState n) (as : List (FdAction n)) (env : Env n) (o : FdOutcome n)
    (i j : Fin n) (hfresh : s₀.Fresh) (hrun : run fdStep s₀ as = .ok s)
    (hflush : afrFlush s.priv env s.ctx s.store = some o) (hpost : o.postDone i = true)
    (hfailed : ∃ r ∈ s.log, r i = true ∧ r j = false) (hheal : Along fdStep FdAction.NoHeal s₀ as)
    (hkept : Along fdStep (FdAction.Keeps j) s₀ as ∨ s.priv.childUp j = false)
    (hroom : (s₀.store.counter i j).toInt + as.length < 2 ^ 31) :
    (s₀.store.counter i j).toInt < (o.store.counter i j).toInt := by
  -- how far the counter is ahead when the flush comes
  have hstart : ∃ d ≤ 0, Counted i j (s₀.store.counter i j) d s₀.ctx s₀.store := by
    refine ⟨0, le_refl 0, (BitVec.add_zero _).symm, ?_⟩
    rw [hfresh.preOpDone i]
    intro h
    cases h
  obtain ⟨d, hle, hcounter, hflag⟩ := run_invariant_counted fdStep_counted hstart hheal hrun
  -- the failure is marked, or the child is down
  have hmark : s.priv.childUp j = false ∨ s.ctx.childFailed j = true := by
    rcases hkept with hkeeps | hdown
    · right
      obtain ⟨r, hr, _, hrj⟩ := hfailed
      have hnone : FailuresMarked j s₀ := by
        intro r hr
        rw [hfresh.log] at hr
        cases hr
      exact run_invariant fdStep_marked hnone (hheal.and hkeeps) hrun r hr hrj
    · exact .inl hdown
  unfold afrFlush at hflush
  obtain ⟨l, hinit, ho⟩ := Option.map_eq_some_iff.mp hflush
  obtain ⟨htype, hup, -⟩ := localInit_some hinit
  split at ho
  · rw [← ho] at hpost
    cases hpost
  obtain ⟨l₁, hlocks, hno | ⟨ctx', wound, l', heq, htype', _, hup', hdone, hfail'⟩⟩ :=
    fdTransaction_flush flush_needs s.priv env htype s.ctx s.store
  · rw [← ho, hno] at hpost
    cases hpost
  rw [← ho, heq] at hpost ⊢
  change fxattropExecuted (fun i => l'.childUp i && ctx'.preOpDone i)
    (markFailedChildren (markDownChildren l'.pending l'.childUp l'.type) ctx'.childFailed l'.type)
    env.postOp s.store i = true at hpost
  have hsent := Bool.and_eq_true_iff.mp (fxattropExecuted_iff.mp hpost).1
  have hpos : 1 ≤ d := by
    apply hflag
    rw [← hdone]
    exact hsent.2
  have hzero : l'.childUp j = false ∨ ctx'.childFailed j = true := by
    rcases hmark with hdown | hmark
    · left
      rw [hup']
      rw [← hup] at hdown
      cases h : l₁.childUp j with
      | false => rfl
      | true => exact absurd (hlocks.down j h) (by simp [hdown])
    right
    rwa [hfail']
  have hend : (fdPostOp env ctx' s.store wound l').store.counter i j = s.store.counter i j := by
    refine (fxattropStore_executed hpost j).trans ?_
    rw [htype', postOpPending_zero hzero l'.pending .data]
    exact BitVec.add_zero _
  rw [hend, hcounter]
  apply toInt_lt_add hpos
  have hlen : (d : Int) ≤ as.length := by
    rw [zero_add] at hle
    exact_mod_cast hle
  omega

/-- An fd that is open on two children, on a file without any counters. -/
def freshFd : FdState 2 :=
  { priv := twoChildren, upCount := 0, downCount := 0
    ctx := { preOpDone := fun _ => false, openedOn := fun _ => true, childFailed := fun _ => false
             upCount := 0, downCount := 0 }
    store := fun _ _ => none, log := [] }

theorem freshFd_fresh : freshFd.Fresh := ⟨fun _ => rfl, fun _ => rfl, rfl, rfl, rfl⟩

def allWell : Env 2 := { secondFails .eagain with fop := fun _ => .ok }

/-- Only the pre-op goes wrong, on the second child. -/
def secondLost : Env 2 :=
  { allWell with preOp := fun i _ => if i = 1 then ⟨some (0, .enotconn), none⟩ else ⟨none, none⟩ }

def noHeal : Heal 2 := ⟨id, fun _ => true⟩

def afterOne (a : FdAction 2) : FdState 2 := fdNext freshFd a

/-- A flush in which nothing goes wrong: the children that executed the post-op, and the counter of the
    first child about the second. -/
def flushed (s : FdState 2) : Option (Bool × BitVec 32) :=
  (afrFlush s.priv allWell s.ctx s.store).map fun o => (o.postDone 0, o.store.counter 0 1)

/-- A `writev` that fails on the second child is recorded. -/
theorem fd_failure_recorded_writev : ∃ o, afrFlush twoChildren allWell
        (afterOne (.writev (secondFails (.other 28)) allWell noHeal)).ctx
        (afterOne (.writev (secondFails (.other 28)) allWell noHeal)).store = some o ∧
      (freshFd.store.counter 0 1).toInt < (o.store.counter 0 1).toInt := by
  refine ⟨_, rfl, ?_⟩
  exact fd_failure_recorded freshFd (afterOne (.writev (secondFails (.other 28)) allWell noHeal))
    [.writev (secondFails (.other 28)) allWell noHeal] allWell _ 0 1 freshFd_fresh rfl rfl
    (by decide +kernel) ⟨_, mem_singleton.mpr rfl, by decide +kernel, by decide +kernel⟩
    ⟨.inr (le_refl 0), fun _ _ => trivial⟩
    (.inl ⟨.inr ⟨rfl, rfl, rfl, rfl⟩, fun _ _ => trivial⟩) (by decide +kernel)

/-- **A failed `ftruncate` is forgotten.** It fails on the second child only; the flush goes well, and the
    first child, which executed it, has its old counter about the second. The same happens to a `writev` for
    which the second child fails the pre-op. -/
theorem failed_ftruncate_forgotten : freshFd.Fresh ∧
    (∃ r ∈ (afterOne (.ftruncate (secondFails (.other 28)) allWell)).log, r 0 = true ∧ r 1 = false) ∧
    flushed (afterOne (.ftruncate (secondFails (.other 28)) allWell)) = some (true, freshFd.store.counter 0 1) ∧
    (∃ r ∈ (afterOne (.writev secondLost allWell noHeal)).log, r 0 = true ∧ r 1 = false) ∧
    flushed (afterOne (.writev secondLost allWell noHeal)) = some (true, freshFd.store.counter 0 1) := by
  refine ⟨freshFd_fresh, ⟨_, mem_singleton.mpr rfl, ?_, ?_⟩, ?_,
    ⟨_, mem_singleton.mpr rfl, ?_, ?_⟩, ?_⟩ <;> decide +kernel

end GlusterFS.Afr
