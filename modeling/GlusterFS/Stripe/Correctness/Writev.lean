import GlusterFS.Stripe.Io

/-!
# `Stripe.Correctness.Writev` — how often, and with what, a striped write is answered

The loop that sends the writes and the callbacks of those that have returned share `local`. Only the loop counts
the writes, and it sets `unwind` before it sends the last one. The invariant (`Sending`) counts what is still to
come of an answer (`answersDue`): one answer from the time all writes have returned, and none before.

Two things are needed for this that the code does not ensure. A callback looks at `wind_count` and at `unwind`
one after the other without the lock. If the loop counts and marks the last write in between, the callback answers
for the writes sent before, and the last callback answers again. And the result: a write that succeeds after
another has failed is added to the -1.
-/

namespace GlusterFS.Stripe

open List Threads

/-! ## The result that is due -/

def WriteResult.isFailed : WriteResult → Bool
  | .failed _ => true
  | .wrote _ => false

def WriteResult.written : WriteResult → Nat
  | .failed _ => 0
  | .wrote n => n

/-- -1 if a write has failed, and what was written otherwise. -/
def writeResult (results : List WriteResult) : Int :=
  if results.any WriteResult.isFailed then -1 else (results.map WriteResult.written).sum

@[simp] theorem writeResult_failed (results : List WriteResult) (errno : Errno) :
    writeResult (results ++ [.failed errno]) = -1 := by
  simp [writeResult, WriteResult.isFailed]

theorem writeResult_wrote {results : List WriteResult} {n : Nat}
    (h : n = 0 ∨ results.any WriteResult.isFailed = false) :
    writeResult (results ++ [.wrote n]) = writeResult results + n := by
  have hany : (results ++ [WriteResult.wrote n]).any WriteResult.isFailed = results.any WriteResult.isFailed := by
    simp [WriteResult.isFailed]
  have hsum : ((results ++ [WriteResult.wrote n]).map WriteResult.written).sum =
      (results.map WriteResult.written).sum + n := by
    simp [WriteResult.written]
  unfold writeResult
  rw [hany, hsum]
  rcases h with rfl | hnone
  · simp
  · simp [hnone]

/-! ## The loop -/

def WriteOp.isWind : WriteOp → Bool
  | .wind _ => true
  | _ => false

theorem count_windOps (all : List WriteCall) : (windOps all).count .count = all.length := by
  fun_induction windOps all with
  | case1 => rfl
  | case2 call => rfl
  | case3 call calls _ ih => simp [ih]

theorem countP_windOps (all : List WriteCall) : (windOps all).countP WriteOp.isWind = all.length := by
  fun_induction windOps all with
  | case1 => rfl
  | case2 call => rfl
  | case3 call calls _ ih =>
    rw [countP_cons_of_neg (by simp [WriteOp.isWind]), countP_cons_of_pos (by rfl), ih]
    rfl

variable {all : List WriteCall}

theorem last_mem_windOps (h : all ≠ []) : .last ∈ windOps all := by
  fun_induction windOps all with
  | case1 => exact absurd rfl h
  | case2 call => simp
  | case3 call calls hmore ih =>
    have hne : calls ≠ [] := by
      rintro rfl
      exact hmore rfl
    simp [ih hne]

theorem mem_windOps {op : WriteOp} (h : op ∈ windOps all) : op = .count ∨ op = .last ∨ ∃ call, op = .wind call := by
  fun_induction windOps all with
  | case1 => cases h
  | case2 call =>
    simp only [mem_cons, not_mem_nil, or_false] at h
    exact h.imp_right fun h => h.imp_right fun heq => ⟨call, heq⟩
  | case3 call calls _ ih =>
    rcases mem_cons.mp h with rfl | h
    · exact .inl rfl
    rcases mem_cons.mp h with rfl | h
    · exact .inr (.inr ⟨call, rfl⟩)
    · exact ih h

/-- Until the last write is marked one is still to be sent, and from then on none is counted. -/
theorem windOps_rest {rest : List WriteOp} (h : rest <:+ windOps all) :
    (.last ∈ rest → 0 < rest.countP WriteOp.isWind) ∧ (.last ∉ rest → rest.count .count = 0) := by
  fun_induction windOps all with
  | case1 =>
    rw [suffix_nil.mp h]
    simp
  | case2 call =>
    simp only [suffix_cons_iff, suffix_nil] at h
    rcases h with rfl | rfl | rfl | rfl <;> simp [WriteOp.isWind]
  | case3 call calls hmore ih =>
    have hne : calls ≠ [] := by
      rintro rfl
      exact hmore rfl
    rw [suffix_cons_iff, suffix_cons_iff] at h
    rcases h with rfl | rfl | h
    · simp [WriteOp.isWind, last_mem_windOps hne]
    · simp [WriteOp.isWind, last_mem_windOps hne]
    · exact ih h

theorem last_once {rest : List WriteOp} (h : .last :: rest <:+ windOps all) : .last ∉ rest := by
  fun_induction windOps all with
  | case1 => exact absurd (suffix_nil.mp h) (by simp)
  | case2 call =>
    simp only [suffix_cons_iff, suffix_nil, List.cons.injEq, reduceCtorEq, false_and, false_or, or_false, true_and] at h
    rw [h]
    simp
  | case3 call calls _ ih =>
    simp only [suffix_cons_iff, List.cons.injEq, reduceCtorEq, false_and, false_or] at h
    exact ih h

theorem stripeWritev_ne_nil (fctx : FdCtx) (vector : Iovec) (offset : Nat) : stripeWritev fctx vector offset ≠ [] := by
  simp only [stripeWritev, writeCalls]
  split <;> simp

/-! ## The invariant -/

/-- The answers that were given, and those the callbacks are about to give when the loop is done. -/
def answersDue (n : Nat) (answers : List (Int × Errno)) (ops : List WriteOp) : Nat :=
  answers.length + (ops.count .unwind + ops.count .test + ops.count (.compare n))

/-- The state while the loop has still to do `winder` and the callbacks `ops`. -/
structure Sending (all : List WriteCall) (s : WriteState) (winder ops : List WriteOp) : Prop where
  rest : winder <:+ windOps all
  counted : s.frame.windCount + winder.count .count = all.length
  sent : s.frame.callCount + s.calls.length + winder.countP WriteOp.isWind = all.length
  last : s.frame.unwind = true ↔ .last ∉ winder
  kinds : ∀ op ∈ ops, op = .test ∨ op = .unwind ∨ ∃ c ≤ s.frame.callCount, op = .compare c
  returned : s.results.length = s.frame.callCount
  quiet : s.frame.unwind = false → s.answers = [] ∧ .unwind ∉ ops
  due : s.frame.unwind = true → answersDue all.length s.answers ops = if s.frame.callCount = all.length then 1 else 0
  value : s.frame.opRet = writeResult s.results
  told : ∀ a ∈ s.answers, a.1 = writeResult s.results

variable {all : List WriteCall} {s : WriteState} {winder ops : List WriteOp}

section

variable (h : Sending all s winder ops)
include h

theorem Sending.perm {ops' : List WriteOp} (hperm : ops.Perm ops') : Sending all s winder ops' := { h with
  kinds := fun op hop => h.kinds op (hperm.mem_iff.mpr hop)
  quiet := fun hnot => ⟨(h.quiet hnot).1, fun hop => (h.quiet hnot).2 (hperm.mem_iff.mpr hop)⟩
  due := by
    intro hunwind
    rw [← h.due hunwind]
    unfold answersDue
    rw [hperm.count_eq, hperm.count_eq, hperm.count_eq] }

theorem Sending.withThreads (threads : List (List WriteOp)) : Sending all { s with threads := threads } winder ops :=
  ⟨h.rest, h.counted, h.sent, h.last, h.kinds, h.returned, h.quiet, h.due, h.value, h.told⟩

theorem Sending.windCount_eq (hunwind : s.frame.unwind = true) : s.frame.windCount = all.length := by
  have hcounted := h.counted
  rw [(windOps_rest h.rest).2 (h.last.mp hunwind)] at hcounted
  exact hcounted

theorem Sending.callCount_lt (hnot : s.frame.unwind = false) : s.frame.callCount < all.length := by
  have hlast : .last ∈ winder := by
    by_contra hlast
    rw [h.last.mpr hlast] at hnot
    cases hnot
  have hleft := (windOps_rest h.rest).1 hlast
  have hsent := h.sent
  omega

theorem Sending.answers_eq_nil (hlt : s.frame.callCount < all.length) : s.answers = [] := by
  cases hunwind : s.frame.unwind with
  | false => exact (h.quiet hunwind).1
  | true =>
    have hdue := h.due hunwind
    rw [if_neg (ne_of_lt hlt)] at hdue
    unfold answersDue at hdue
    exact length_eq_zero_iff.mp (by omega)

end

/-! ## The steps of the loop -/

theorem Sending.countStep (h : Sending all s (.count :: winder) ops) :
    Sending all { s with frame := { s.frame with windCount := s.frame.windCount + 1 } } winder ops := { h with
  rest := (suffix_cons ..).trans h.rest
  counted := by
    have hcounted := h.counted
    rw [count_cons_self] at hcounted
    show s.frame.windCount + 1 + _ = _
    omega
  sent := by
    have hsent := h.sent
    rw [countP_cons_of_neg (by simp [WriteOp.isWind])] at hsent
    exact hsent
  last := by
    have hlast := h.last
    simp only [mem_cons, reduceCtorEq, false_or] at hlast
    exact hlast }

theorem Sending.windStep {call : WriteCall} (h : Sending all s (.wind call :: winder) ops) :
    Sending all { s with calls := s.calls ++ [call] } winder ops := { h with
  rest := (suffix_cons ..).trans h.rest
  counted := by
    have hcounted := h.counted
    rw [count_cons_of_ne (by simp)] at hcounted
    exact hcounted
  sent := by
    have hsent := h.sent
    rw [countP_cons_of_pos (by rfl)] at hsent
    show s.frame.callCount + (s.calls ++ [call]).length + _ = _
    rw [length_append, length_singleton]
    omega
  last := by
    have hlast := h.last
    simp only [mem_cons, reduceCtorEq, false_or] at hlast
    exact hlast }

/-- The last write is marked: this is where no callback may be between its two looks. -/
theorem Sending.lastStep (h : Sending all s (.last :: winder) ops) (htest : .test ∉ ops) :
    Sending all { s with frame := { s.frame with unwind := true } } winder ops := by
  have honce := last_once h.rest
  have hnot : s.frame.unwind = false := by
    cases hunwind : s.frame.unwind with
    | false => rfl
    | true => exact absurd mem_cons_self (h.last.mp hunwind)
  have hlt := h.callCount_lt hnot
  obtain ⟨hanss, hunwind⟩ := h.quiet hnot
  have hcompare : .compare all.length ∉ ops := by
    intro hop
    obtain heq | heq | ⟨c, hc, heq⟩ := h.kinds _ hop
    · cases heq
    · cases heq
    cases heq
    omega
  exact
    { h with
      rest := (suffix_cons ..).trans h.rest
      counted := by
        have hcounted := h.counted
        rw [count_cons_of_ne (by simp)] at hcounted
        exact hcounted
      sent := by
        have hsent := h.sent
        rw [countP_cons_of_neg (by simp [WriteOp.isWind])] at hsent
        exact hsent
      last := ⟨fun _ => honce, fun _ => rfl⟩
      quiet := nofun
      due := by
        intro _
        rw [if_neg (ne_of_lt hlt), answersDue]
        show s.answers.length + _ = 0
        rw [hanss, count_eq_zero.mpr hunwind, count_eq_zero.mpr htest, count_eq_zero.mpr hcompare]
        rfl }

/-! ## The steps of a callback -/

theorem Sending.compareStep {c : Nat} (h : Sending all s winder (.compare c :: ops)) :
    Sending all s winder ((if c = s.frame.windCount then [.test] else []) ++ ops) := { h with
  kinds := by
    intro op hop
    rcases mem_append.mp hop with hop | hop
    · split at hop
      · exact .inl (mem_singleton.mp hop)
      · cases hop
    · exact h.kinds op (mem_cons_of_mem _ hop)
  quiet := by
    intro hnot
    obtain ⟨hanss, hunwind⟩ := h.quiet hnot
    refine ⟨hanss, ?_⟩
    intro hop
    rcases mem_append.mp hop with hop | hop
    · split at hop
      · cases mem_singleton.mp hop
      · cases hop
    · exact hunwind (mem_cons_of_mem _ hop)
  due := by
    intro hunwind
    have hdue := h.due hunwind
    rw [← hdue, h.windCount_eq hunwind]
    unfold answersDue
    split
    next heq =>
      subst heq
      rw [count_cons_self]
      simp
      omega
    next hne =>
      rw [nil_append, count_cons_of_ne (by simp), count_cons_of_ne (by simp), count_cons_of_ne (by simpa using hne)] }

theorem Sending.testStep (h : Sending all s winder (.test :: ops)) :
    Sending all s winder ((if s.frame.unwind then [.unwind] else []) ++ ops) := { h with
  kinds := by
    intro op hop
    rcases mem_append.mp hop with hop | hop
    · split at hop
      · exact .inr (.inl (mem_singleton.mp hop))
      · cases hop
    · exact h.kinds op (mem_cons_of_mem _ hop)
  quiet := by
    intro hnot
    obtain ⟨hanss, hunwind⟩ := h.quiet hnot
    rw [hnot]
    exact ⟨hanss, fun hop => hunwind (mem_cons_of_mem _ hop)⟩
  due := by
    intro hunwind
    rw [← h.due hunwind, hunwind]
    unfold answersDue
    simp
    omega }

theorem Sending.unwindStep (h : Sending all s winder (.unwind :: ops)) :
    Sending all { s with answers := s.answers ++ [(s.frame.opRet, s.frame.opErrno)] } winder ops := { h with
  kinds := fun op hop => h.kinds op (mem_cons_of_mem _ hop)
  quiet := fun hnot => absurd mem_cons_self (h.quiet hnot).2
  due := by
    intro hunwind
    rw [← h.due hunwind]
    unfold answersDue
    simp
    omega
  told := by
    exact forall_mem_append.mpr ⟨h.told, forall_mem_singleton.mpr h.value⟩ }

/-- A write returns: nothing was answered before, and its callback may be the one that answers. -/
theorem Sending.replyStep (h : Sending all s winder ops) {j : Nat} (hj : j < s.calls.length) {result : WriteResult}
    (hvalue : (s.frame.collect result).opRet = writeResult (s.results ++ [result])) : Sending all { s with
        frame := s.frame.collect result
        calls := s.calls.eraseIdx j
        results := s.results ++ [result] }
      winder (.compare (s.frame.collect result).callCount :: ops) := by
  have hcall : (s.frame.collect result).callCount = s.frame.callCount + 1 := by cases result <;> rfl
  have hwind : (s.frame.collect result).windCount = s.frame.windCount := by cases result <;> rfl
  have hmark : (s.frame.collect result).unwind = s.frame.unwind := by cases result <;> rfl
  have hsent := h.sent
  have hlt : s.frame.callCount < all.length := by omega
  have hnil := h.answers_eq_nil hlt
  exact
    { rest := h.rest
      counted := by
        show (s.frame.collect result).windCount + _ = _
        rw [hwind]
        exact h.counted
      sent := by
        show (s.frame.collect result).callCount + (s.calls.eraseIdx j).length + _ = _
        rw [hcall, length_eraseIdx_of_lt hj]
        omega
      last := by
        show (s.frame.collect result).unwind = true ↔ _
        rw [hmark]
        exact h.last
      kinds := by
        intro op hop
        show _ ∨ _ ∨ ∃ c ≤ (s.frame.collect result).callCount, _
        rw [hcall] at hop ⊢
        rcases mem_cons.mp hop with rfl | hop
        · exact .inr (.inr ⟨_, le_rfl, rfl⟩)
        rcases h.kinds op hop with heq | heq | ⟨c, hc, heq⟩
        · exact .inl heq
        · exact .inr (.inl heq)
        · exact .inr (.inr ⟨c, Nat.le_succ_of_le hc, heq⟩)
      returned := by
        show (s.results ++ [result]).length = (s.frame.collect result).callCount
        rw [hcall, length_append, h.returned]
        rfl
      quiet := by
        intro hnot
        obtain ⟨hanss, hunwind⟩ := h.quiet (hmark ▸ hnot)
        refine ⟨hanss, ?_⟩
        simp [hunwind]
      due := by
        intro hunwind
        have hdue := h.due (hmark ▸ hunwind)
        rw [if_neg (ne_of_lt hlt)] at hdue
        show answersDue all.length s.answers _ = if (s.frame.collect result).callCount = _ then 1 else 0
        rw [hcall]
        unfold answersDue at hdue ⊢
        rw [count_cons_of_ne (by simp), count_cons_of_ne (by simp), count_cons]
        by_cases hlast : s.frame.callCount + 1 = all.length
        · rw [if_pos hlast, hlast]
          simp
          omega
        rw [if_neg hlast, if_neg (by simpa using hlast)]
        omega
      value := hvalue
      told := by
        intro a ha
        have ha' : a ∈ s.answers := ha
        rw [hnil] at ha'
        cases ha' }

/-! ## Runs -/

/-- The loop is the first thread. -/
def SendingState (all : List WriteCall) (s : WriteState) : Prop :=
  ∃ winder callbacks, s.threads = winder :: callbacks ∧ Sending all s winder (pending callbacks)

theorem sendingState_start (fctx : FdCtx) (vector : Iovec) (offset : Nat) :
    SendingState (stripeWritev fctx vector offset) (.start (some fctx) vector offset) := by
  have hlast := last_mem_windOps (stripeWritev_ne_nil fctx vector offset)
  refine ⟨windOps (stripeWritev fctx vector offset), [], rfl, ?_⟩
  exact
    { rest := suffix_rfl
      counted := by
        show 0 + _ = _
        rw [zero_add, count_windOps]
      sent := by
        show 0 + _ = _
        rw [zero_add, countP_windOps]
      last := ⟨nofun, fun h => absurd hlast h⟩
      kinds := fun op hop => (nomatch hop)
      returned := rfl
      quiet := fun _ => ⟨rfl, nofun⟩
      due := nofun
      value := rfl
      told := fun a ha => (nomatch ha) }

/-- What is asked of a run: the loop does not mark the last write while a callback has compared the counts and not
    yet looked at `unwind`, and no write that has written something returns after one that has failed. -/
def Orderly (s : WriteState) : WriteAction → Prop
  | .run i => (next? s.threads i).map Prod.fst = some .last → .test ∉ pending s.threads
  | .reply _ (.wrote n) => n = 0 ∨ s.results.any WriteResult.isFailed = false
  | .reply _ (.failed _) => True

instance decidableOrderly (s : WriteState) : ∀ a, Decidable (Orderly s a)
  | .run _ => inferInstanceAs (Decidable (_ → _))
  | .reply _ (.wrote _) => inferInstanceAs (Decidable (_ ∨ _))
  | .reply _ (.failed _) => isTrue trivial

/-- **One step**, of the loop, of a callback or of a child. -/
theorem sendingState_step (s : WriteState) (a : WriteAction) (s' : WriteState)
    (h : SendingState all s) (horderly : Orderly s a) (hstep : writeStep s a = .ok s') : SendingState all s' := by
  obtain ⟨winder, callbacks, hthr, hsending⟩ := h
  cases a with
  | reply j result =>
    simp only [writeStep] at hstep
    split at hstep
    · cases hstep
    next call hcall =>
    cases hstep
    obtain ⟨hj, -⟩ := List.getElem?_eq_some_iff.mp hcall
    have hvalue : (s.frame.collect result).opRet = writeResult (s.results ++ [result]) := by
      cases result with
      | failed errno => rw [writeResult_failed, WriteLocal.collect]
      | wrote n => rw [writeResult_wrote horderly, WriteLocal.collect, hsending.value]
    refine ⟨winder, callbacks ++ [[.compare (s.frame.collect result).callCount]], ?_, ?_⟩
    · show s.threads ++ _ = _
      rw [hthr]
      rfl
    have hperm := pending_start callbacks [.compare (s.frame.collect result).callCount]
    exact ((hsending.replyStep hj hvalue).perm hperm.symm).withThreads _
  | run i =>
    simp only [writeStep] at hstep
    split at hstep
    · cases hstep
    next op rest hnext =>
    cases hstep
    cases i with
    | zero =>
      -- the loop goes on
      rw [hthr] at hnext
      have hwinder : winder = op :: rest := by simpa using next?_eq_some.mp hnext
      subst hwinder
      have hadvance : advance s.threads 0 [] rest = rest :: callbacks := by
        rw [hthr]
        rfl
      rcases mem_windOps (hsending.rest.subset List.mem_cons_self) with rfl | rfl | ⟨call, rfl⟩
      · exact ⟨rest, callbacks, hadvance, hsending.countStep.withThreads _⟩
      · have htest := horderly (by rw [hthr, hnext]; rfl)
        rw [hthr] at htest
        have hsending' := hsending.lastStep fun hop => htest (List.mem_append_right _ hop)
        exact ⟨rest, callbacks, hadvance, hsending'.withThreads _⟩
      · exact ⟨rest, callbacks, hadvance, hsending.windStep.withThreads _⟩
    | succ i =>
      -- a callback goes on
      rw [hthr] at hnext
      have hnext' : next? callbacks i = some (op, rest) := hnext
      have hfront := hsending.perm (pending_next hnext')
      have hadvance : ∀ new, advance s.threads (i + 1) new rest =
          winder :: advance callbacks i new rest := by
        intro new
        rw [hthr]
        rfl
      have hback := fun new => (pending_advance hnext' new).symm
      rcases hfront.kinds op List.mem_cons_self with rfl | rfl | ⟨c, -, rfl⟩
      · exact ⟨winder, _, hadvance _, (hfront.testStep.perm (hback _)).withThreads _⟩
      · exact ⟨winder, _, hadvance _, (hfront.unwindStep.perm (hback [])).withThreads _⟩
      · exact ⟨winder, _, hadvance _, (hfront.compareStep.perm (hback _)).withThreads _⟩

/-- **A striped write is answered once**, with -1 if a child has failed and otherwise with the sum of what the
    children have written: for any number of stripes, any results and any order of the replies and of the steps of
    the loop and the callbacks, if the run is `Orderly`. -/
theorem writev_answered_once (fctx : FdCtx) (vector : Iovec) (offset : Nat) (actions : List WriteAction)
    (s : WriteState) (horderly : Transition.Along writeStep Orderly (.start (some fctx) vector offset) actions)
    (hrun : Transition.run writeStep (.start (some fctx) vector offset) actions = .ok s) : s.answers.length ≤ 1 ∧
    (∀ a ∈ s.answers, s.results.length = (stripeWritev fctx vector offset).length ∧ a.1 = writeResult s.results) ∧
    (Threads.pending s.threads = [] → s.calls = [] → ∃ errno, s.answers = [(writeResult s.results, errno)]) := by
  obtain ⟨winder, callbacks, hthreads, h⟩ :=
    Transition.run_invariant sendingState_step (sendingState_start fctx vector offset) horderly hrun
  have hdone : s.answers ≠ [] → s.frame.callCount = (stripeWritev fctx vector offset).length := by
    intro hne
    by_contra hnot
    have hsent := h.sent
    exact hne (h.answers_eq_nil (by omega))
  refine ⟨?_, ?_, ?_⟩
  · cases hunwind : s.frame.unwind with
    | false =>
      rw [(h.quiet hunwind).1]
      exact Nat.zero_le 1
    | true =>
      have hdue := h.due hunwind
      unfold answersDue at hdue
      split at hdue <;> omega
  · intro a ha
    refine ⟨?_, h.told a ha⟩
    rw [h.returned, hdone (ne_nil_of_mem ha)]
  intro hidle hcalls
  rw [hthreads] at hidle
  obtain ⟨hwinder, hcallbacks⟩ := append_eq_nil_iff.mp hidle
  have hops : Threads.pending callbacks = [] := hcallbacks
  subst hwinder
  have hsent := h.sent
  have hdue := h.due (h.last.mpr not_mem_nil)
  rw [hcalls, length_nil, countP_nil] at hsent
  rw [hops, if_pos (by omega)] at hdue
  obtain ⟨⟨opRet, errno⟩, hanswers⟩ := length_eq_one_iff.mp hdue
  refine ⟨errno, ?_⟩
  have hvalue := h.told (opRet, errno) (by rw [hanswers]; exact mem_singleton_self _)
  rw [hanswers, ← hvalue]

/-- The first of two writes returns before the second is sent, and the second fails. -/
theorem early_reply_then_failure : ∃ s, Transition.run writeStep (.start (some pairCtx) [[1, 2, 3, 4, 5, 6]] 0)
        [.run 0, .run 0, .reply 0 (.wrote 4), .run 1, .run 1, .run 0, .run 0, .run 0, .reply 0 (.failed (.child 5)),
          .run 2, .run 2, .run 2] = .ok s ∧ s.answers.length ≤ 1 ∧ ∃ errno, s.answers = [(-1, errno)] := by
  obtain ⟨s, hs, hidle⟩ := Transition.map_eq_ok
    (r := Transition.run writeStep (.start (some pairCtx) [[1, 2, 3, 4, 5, 6]] 0)
      [.run 0, .run 0, .reply 0 (.wrote 4), .run 1, .run 1, .run 0, .run 0, .run 0, .reply 0 (.failed (.child 5)),
        .run 2, .run 2, .run 2])
    (f := fun s => (Threads.pending s.threads, s.calls, s.results)) (b := ([], [], [.wrote 4, .failed (.child 5)]))
    (by decide +kernel)
  simp only [Prod.mk.injEq] at hidle
  obtain ⟨hthreads, hcalls, hresults⟩ := hidle
  obtain ⟨hle, -, hanswer⟩ := writev_answered_once pairCtx [[1, 2, 3, 4, 5, 6]] 0 _ s (by decide +kernel) hs
  have hone := hanswer hthreads.symm hcalls.symm
  rw [← hresults] at hone
  exact ⟨s, hs, hle, hone⟩

/-- **Answered twice, and a failure told as success.** A callback has found the counts equal when the loop counts
    and marks the last write; it answers with what is there, and the last callback answers again. And where the
    second of two writes returns after the first has failed, the application is told that one byte was written. -/
theorem write_answered_twice_or_wrong : (Transition.run writeStep (.start (some pairCtx) [[1, 2, 3, 4, 5, 6]] 0)
      [.run 0, .run 0, .reply 0 (.wrote 4), .run 1, .run 0, .run 0, .run 1, .run 1, .run 0, .reply 0 (.wrote 2),
        .run 2, .run 2, .run 2]).map WriteState.answers = .ok [(4, .ok), (6, .ok)] ∧
    (Transition.run writeStep (.start (some pairCtx) [[1, 2, 3, 4, 5, 6]] 0)
      [.run 0, .run 0, .run 0, .run 0, .run 0, .reply 0 (.failed (.child 5)), .reply 0 (.wrote 2), .run 1,
        .run 2, .run 2, .run 2]).map WriteState.answers = .ok [(1, .child 5)] := by
  decide +kernel

end GlusterFS.Stripe
