import GlusterFS.WriteBehind.Correctness.Invariant

/-!
# `WriteBehind.Correctness.Interleaving` — from single operations to every interleaving

An invariant of the file is mostly about the operations that *some* thread has still to do, in no order. `Preserved`
says what has to be shown of such an invariant: that calls of the application, each operation of a thread and each
answer of the child keep it. `Preserved.run` then gives it at the end of every run, for every interleaving.

`F` is what is true of every thread on its own, and `E` and `A` are conditions on the operations and answers of the
run, for results that hold under a condition only.
-/

namespace GlusterFS.WriteBehind

open Threads Transition List

variable {s s' : State}

/-! ## What a pass does -/

abbrev State.unwinds (s : State) : Marked := markUnwinds s.windowConf s.windowCurrent s.queue

abbrev State.winds (s : State) (conf : Conf) (flushAll : Bool) (collapsed : Collapsed) : Marked :=
  windsAfter conf s flushAll (getOtherRequests collapsed.queue)

theorem State.unwinds_marks (s : State) :
    Scan.Marks Unacked Request.behind [] s.queue s.unwinds.queue s.unwinds.marked := markUnwinds_marks ..

variable {new : List Op}

variable {conf : Conf}

/-- **`wb_process_queue`**: the four scans, and the operations that follow. -/
theorem wbProcessQueue_cases {flushAll : Bool} (h : wbProcessQueue conf s flushAll = .ok (s', new)) :
    ∃ collapsed, collapseWriteBufs conf.pageSize .start s.unwinds.queue = .ok collapsed ∧ s' = { s with
          windowCurrent := s.windowCurrent + windowAdded s.unwinds.marked
          aggregateCurrent := s.aggregateCurrent - ((s.winds conf flushAll collapsed).marked.map Request.writeSize).sum
          queue := (s.winds conf flushAll collapsed).queue
          passive := s.passive ++ collapsed.packed.filterMap Request.unref } ∧ new = unwindOps s.unwinds.marked ++
        (sync conf.aggregateSize (s.winds conf flushAll collapsed).marked).map .send ++
        resumeOps (getOtherRequests collapsed.queue).marked := by
  unfold wbProcessQueue at h
  dsimp only at h
  split at h
  · cases h
  next collapsed hc =>
    cases h
    exact ⟨collapsed, hc, rfl, rfl⟩

theorem windsAfter_marks (conf : Conf) (s : State) (flushAll : Bool) (others : Marked) :
    Scan.Marks Windable Request.wound [] others.queue (windsAfter conf s flushAll others).queue
      (windsAfter conf s flushAll others).marked := by
  unfold windsAfter
  split
  · exact markWinds_marks _ _ _ _ _
  · exact .stop [] _

theorem State.winds_marks (s : State) (conf : Conf) (flushAll : Bool) (collapsed : Collapsed) :
    Scan.Marks Windable Request.wound [] (getOtherRequests collapsed.queue).queue
      (s.winds conf flushAll collapsed).queue (s.winds conf flushAll collapsed).marked := windsAfter_marks ..

theorem scans_forall {P : Request → Prop} {collapsed : Collapsed} (flushAll : Bool)
    (hcol : collapseWriteBufs conf.pageSize .start s.unwinds.queue =
      .ok collapsed) (hjoin : ∀ a b, Joins a b → P a → P b → P (a.absorb b)) (hmark : ∀ a, P a → P a.marked)
    (hwind : ∀ a, P a → P a.wound) (h : ∀ r ∈ s.unwinds.queue, P r) :
    ∀ r ∈ (s.winds conf flushAll collapsed).queue, P r := by
  have hmerge := (collapseWriteBufs_merges Packing.Sound.start hcol).forall_mem hjoin h
  have hothers := (others_marks collapsed.queue).forall_mem hmark hmerge
  exact (s.winds_marks conf flushAll collapsed).forall_mem hwind hothers

/-! ## What the other operations do -/

theorem exec_unwind {id : Nat} (h : exec conf s (.unwind id) = .ok (s', new)) :
    ∃ r, s.find id = some r ∧ s' = { s with log := .acked id r.opRet :: s.log } ∧ new = [] := by
  simp only [exec] at h
  split at h
  · cases h
  next r hr =>
    cases h
    exact ⟨r, hr, rfl, rfl⟩

theorem exec_send {wind : Wind} (h : exec conf s (.send wind) = .ok (s', new)) :
    s' = { s with calls := s.calls ++ [.write wind], log := .sent (carriedBy wind.ids s.queue) :: s.log } ∧
      new = [] := by
  simp only [exec] at h
  split at h
  · cases h
  cases h
  exact ⟨rfl, rfl⟩

theorem exec_resume {id : Nat} {fop : OtherFop} (h : exec conf s (.resume id fop) = .ok (s', new)) :
    (fop.wind = true ∧ s' = { s with log := .resumed id :: s.log, calls := s.calls ++ [.other id fop] } ∧ new = []) ∨
      (fop.wind = false ∧ wbFfrCbk conf { s with log := .resumed id :: s.log } id = (s', new)) := by
  simp only [exec] at h
  split at h
  next hw =>
    cases h
    exact .inl ⟨hw, rfl, rfl⟩
  next hw => exact .inr ⟨Bool.eq_false_iff.mpr hw, Except.ok.inj h⟩

/-! ## What does not concern the queue -/

/-- Events that are not about what the child has. -/
def Event.Quiet : Event → Prop
  | .sent _ => False
  | .answered _ _ _ => False
  | _ => True

/-- The log has grown by such events only. -/
def QuietLog (log log' : List Event) : Prop := ∃ es, (∀ e ∈ es, Event.Quiet e) ∧ log' = es ++ log

namespace QuietLog

variable {log log' : List Event}

theorem refl (log : List Event) : QuietLog log log := ⟨[], fun _ he => (nomatch he), rfl⟩

theorem cons {e : Event} (he : e.Quiet) (h : QuietLog log log') : QuietLog log (e :: log') := by
  obtain ⟨es, hes, rfl⟩ := h
  refine ⟨e :: es, ?_, rfl⟩
  exact forall_mem_cons.mpr ⟨he, hes⟩

theorem trans {log'' : List Event} (h : QuietLog log log') (h' : QuietLog log' log'') : QuietLog log log'' := by
  obtain ⟨es, hes, rfl⟩ := h
  obtain ⟨es', hes', rfl⟩ := h'
  refine ⟨es' ++ es, ?_, (append_assoc _ _ _).symm⟩
  intro e he
  exact (mem_append.mp he).elim (hes' e) (hes e)

theorem subset (h : QuietLog log log') : log ⊆ log' := by
  obtain ⟨es, -, rfl⟩ := h
  exact subset_append_right es log

theorem answered (h : QuietLog log log') {w : Nat} (ha : Answered log' w) : Answered log w := by
  obtain ⟨es, hes, rfl⟩ := h
  obtain ⟨writes, size, opRet, hmem, hw⟩ := ha
  rcases mem_append.mp hmem with hmem | hmem
  · exact (hes _ hmem).elim
  · exact ⟨writes, size, opRet, hmem, hw⟩

end QuietLog

/-- The operation sends nothing. -/
def Op.Silent (op : Op) : Prop := ∀ wind, op ≠ .send wind

/-- What leaves the queue, its history, the window and the calls of the child as they are. -/
structure Aside (s s' : State) (new : List Op) : Prop where
  issued : s'.issued = s.issued
  queue : s'.queue = s.queue
  window : s'.windowCurrent = s.windowCurrent
  calls : s'.calls = s.calls
  log : QuietLog s.log s'.log
  silent : ∀ op ∈ new, op.Silent

theorem wbFfrCbk_aside (conf : Conf) (s : State) (id : Nat) :
    Aside s (wbFfrCbk conf s id).1 (wbFfrCbk conf s id).2 := by
  unfold wbFfrCbk
  split
  · refine ⟨rfl, rfl, rfl, rfl, .cons trivial (.refl _), ?_⟩
    intro op hop
    rw [mem_singleton.mp hop]
    exact nofun
  · exact ⟨rfl, rfl, rfl, rfl, .refl _, nofun⟩

theorem answer_aside (conf : Conf) (s : State) (opRet opErrno : Int) {call : Call}
    (hcall : ∀ wind, call ≠ .write wind) :
    Aside s (answer conf s opRet opErrno call).1 (answer conf s opRet opErrno call).2 := by
  have hunref : ∀ id, ∀ op ∈ [Op.unref id false, .mark false], op.Silent := by
    intro id op hop wind heq
    subst heq
    simp at hop
  cases call with
  | write wind => exact absurd rfl (hcall wind)
  | other id fop =>
    cases fop with
    | fsync => exact ⟨rfl, rfl, rfl, rfl, .cons trivial (.refl _), hunref id⟩
    | stat | fstat | truncate | ftruncate | setattr | readv | flush behind =>
      exact ⟨rfl, rfl, rfl, rfl, .refl _, hunref id⟩
  | flush id behind =>
    cases behind with
    | true => exact ⟨rfl, rfl, rfl, rfl, .refl _, nofun⟩
    | false => exact wbFfrCbk_aside conf s id
  | direct size => exact ⟨rfl, rfl, rfl, rfl, .refl _, nofun⟩

/-- A call is answered: what is left, and the thread that goes on. -/
abbrev State.answered (conf : Conf) (s : State) (j : Nat) (opRet opErrno : Int) (call : Call) : State × List Op :=
  answer conf { s with calls := s.calls.eraseIdx j } opRet opErrno call

theorem mem_eraseIdx_of_ne {calls : List Call} {call c : Call} {j : Nat} (hcall : calls[j]? = some call) (hc : c ∈ calls)
    (hne : c ≠ call) : c ∈ calls.eraseIdx j := by
  obtain ⟨i, hi⟩ := mem_iff_getElem?.mp hc
  refine mem_eraseIdx_iff_getElem?.mpr ⟨i, ?_, hi⟩
  rintro rfl
  rw [hcall] at hi
  cases hi
  exact hne rfl

/-! ## The rule for interleavings -/

/-- What is true of a thread stays true as it goes on. -/
structure Follows (conf : Conf) (F : List Op → Prop) (E : State → Op → Prop) (I : State → List Op → Prop) : Prop where
  enter : ∀ fop, F [.enqueue fop]
  exec : ∀ {s s' op new rest}, E s op → (op :: rest) ∈ s.threads → I s (pending s.threads) →
    exec conf s op = .ok (s', new) → F (op :: rest) → F (new ++ rest)
  answer : ∀ s opRet opErrno call, F (answer conf s opRet opErrno call).2

/-- What has to be shown of an invariant. -/
structure Preserved (conf : Conf) (F : List Op → Prop) (E : State → Op → Prop) (A : State → Int → Call → Prop)
    (I : State → List Op → Prop) : Prop where
  perm : ∀ {s ops ops'}, ops.Perm ops' → I s ops → I s ops'
  threads : ∀ {s ops} ts, I s ops → I { s with threads := ts } ops
  enter : ∀ {s ops} fop, I s ops → I s (.enqueue fop :: ops)
  check : ∀ {s ops}, I s ops → I (s.check .writev) ops
  direct : ∀ {s ops} till size, I s ops → I { s with disableTill := till, calls := s.calls ++ [.direct size] } ops
  exec : ∀ {s op rest ops s' new}, E s op → F (op :: rest) → (pending s.threads).Perm (op :: (rest ++ ops)) →
    I s (op :: (rest ++ ops)) → exec conf s op = .ok (s', new) → I s' (new ++ (rest ++ ops))
  answer : ∀ {s ops j call} opRet opErrno, A s opRet call → (pending s.threads).Perm ops →
    s.calls[j]? = some call → I s ops → I (answer conf { s with calls := s.calls.eraseIdx j } opRet opErrno call).1
      ((answer conf { s with calls := s.calls.eraseIdx j } opRet opErrno call).2 ++ ops)

/-- The conditions, on a step of a run. -/
def StepMeets (E : State → Op → Prop) (A : State → Int → Call → Prop) (s : State) : Action → Prop
  | .run i => ∀ op rest, next? s.threads i = some (op, rest) → E s op
  | .reply j opRet _ => ∀ call, s.calls[j]? = some call → A s opRet call
  | _ => True

instance decidableStepMeets {E : State → Op → Prop} {A : State → Int → Call → Prop} [∀ s op, Decidable (E s op)]
    [∀ s opRet call, Decidable (A s opRet call)] (s : State) : ∀ a, Decidable (StepMeets E A s a)
  | .run i => decidable_of_iff (∀ p ∈ next? s.threads i, E s p.1) Prod.forall
  | .reply j opRet _ => inferInstanceAs (Decidable (∀ call ∈ s.calls[j]?, A s opRet call))
  | .writev _ _ | .other _ | .flush => isTrue trivial

theorem step_threads {a : Action} (hs : step conf s a = .ok s') :
    s'.threads = s.threads ∨ (∃ fop, s'.threads = s.threads ++ [[.enqueue fop]]) ∨
      (∃ s1 opRet opErrno call, s'.threads = s.threads ++ [(answer conf s1 opRet opErrno call).2]) ∨
      ∃ i op rest s1 new, a = .run i ∧ next? s.threads i = some (op, rest) ∧ exec conf s op = .ok (s1, new) ∧
        s'.threads = advance s.threads i new rest := by
  cases a with
  | writev off vector =>
    cases hs
    unfold wbWritev
    split
    · exact .inl rfl
    split
    · exact .inl rfl
    · exact .inr (.inl ⟨_, rfl⟩)
  | other fop =>
    simp only [step] at hs
    split at hs
    · cases hs
      exact .inr (.inl ⟨_, rfl⟩)
    · cases hs
  | flush =>
    cases hs
    exact .inr (.inl ⟨_, rfl⟩)
  | run i =>
    simp only [step] at hs
    split at hs
    · cases hs
    next op rest hnext =>
      split at hs
      · cases hs
      next s1 new hexec =>
        cases hs
        exact .inr (.inr (.inr ⟨i, op, rest, s1, new, rfl, hnext, hexec, rfl⟩))
  | reply j opRet opErrno =>
    simp only [step] at hs
    split at hs
    · cases hs
    next call hcall =>
      cases hs
      exact .inr (.inr (.inl ⟨_, opRet, opErrno, call, rfl⟩))

def Holds (F : List Op → Prop) (I : State → List Op → Prop) (s : State) : Prop :=
  (∀ t ∈ s.threads, F t) ∧ I s (pending s.threads)

namespace Preserved

variable {conf : Conf} {F : List Op → Prop} {E : State → Op → Prop} {A : State → Int → Call → Prop}
  {I : State → List Op → Prop}

theorem start (hI : Preserved conf F E A I) {ts : List (List Op)} {t : List Op}
    (hF : ∀ t ∈ ts, F t) (ht : F t) (h : I s (t ++ pending ts)) : Holds F I { s with threads := ts ++ [t] } := by
  constructor
  · exact forall_mem_append.mpr ⟨hF, forall_mem_singleton.mpr ht⟩
  · exact hI.threads _ (hI.perm (pending_start ts t).symm h)

/-- **One step of a run.** -/
theorem step (hF : Follows conf F E I) (hI : Preserved conf F E A I) {a : Action} (h : Holds F I s)
    (hmeets : StepMeets E A s a) (hs : step conf s a = .ok s') : Holds F I s' := by
  obtain ⟨hthr, hinv⟩ := h
  cases a with
  | writev off vector =>
    cases hs
    unfold wbWritev
    split
    · exact ⟨hthr, hI.check hinv⟩
    split
    · exact ⟨hthr, hI.direct _ _ (hI.check hinv)⟩
    · exact hI.start hthr (hF.enter _) (hI.enter _ (hI.check hinv))
  | other fop =>
    simp only [WriteBehind.step] at hs
    split at hs
    · cases hs
      exact hI.start hthr (hF.enter _) (hI.enter _ hinv)
    · cases hs
  | flush =>
    cases hs
    exact hI.start hthr (hF.enter _) (hI.enter _ hinv)
  | run i =>
    simp only [WriteBehind.step] at hs
    split at hs
    · cases hs
    next op rest hnext =>
      split at hs
      · cases hs
      next s1 new hexec =>
        cases hs
        have hmem : (op :: rest) ∈ s.threads := mem_of_getElem? (next?_eq_some.mp hnext)
        constructor
        · intro t ht
          rcases mem_or_eq_of_mem_set ht with ht | rfl
          · exact hthr t ht
          · exact hF.exec (hmeets op rest hnext) hmem hinv hexec (hthr _ hmem)
        -- the rest of the thread in front of what the others do
        have hrest : (others s.threads i rest).Perm
            (rest ++ ((s.threads.take i).flatten ++ (s.threads.drop (i + 1)).flatten)) := by
          rw [others, ← append_assoc, ← append_assoc]
          exact perm_append_comm.append_right _
        have hpend := (pending_next hnext).trans (hrest.cons op)
        have hafter := hI.exec (hmeets op rest hnext) (hthr _ hmem) hpend (hI.perm hpend hinv) hexec
        refine hI.threads _ (hI.perm ?_ hafter)
        exact ((hrest.append_left new).symm).trans (pending_advance hnext new).symm
  | reply j opRet opErrno =>
    simp only [WriteBehind.step] at hs
    split at hs
    · cases hs
    next call hcall =>
      cases hs
      exact hI.start hthr (hF.answer _ opRet opErrno call)
        (hI.answer opRet opErrno (hmeets call hcall) (.refl _) hcall hinv)

/-- **Every run.** -/
theorem run (hF : Follows conf F E I) (hI : Preserved conf F E A I) {actions : List Action}
    (hinit : Holds F I s) (hmeets : Along (WriteBehind.step conf) (StepMeets E A) s actions)
    (hrun : Transition.run (WriteBehind.step conf) s actions = .ok s') : Holds F I s' :=
  run_invariant (fun _ _ _ hs hC hstep => step hF hI hs hC hstep) hinit hmeets hrun

end Preserved

theorem follows_true (conf : Conf) (E : State → Op → Prop) (I : State → List Op → Prop) :
    Follows conf (fun _ => True) E I := ⟨fun _ => trivial, fun _ _ _ _ _ => trivial, fun _ _ _ _ => trivial⟩

theorem Preserved.run_all {I : State → List Op → Prop}
    (hI : Preserved conf (fun _ => True) (fun _ _ => True) (fun _ _ _ => True) I) {actions : List Action}
    (hinit : I s (pending s.threads)) (hrun : Transition.run (WriteBehind.step conf) s actions = .ok s') :
    I s' (pending s'.threads) := by
  refine (Preserved.run (follows_true conf _ _) hI ⟨fun _ _ => trivial, hinit⟩ ?_ hrun).2
  refine (along_true actions s).mono ?_
  intro s a _
  cases a <;> simp [StepMeets]

end GlusterFS.WriteBehind
