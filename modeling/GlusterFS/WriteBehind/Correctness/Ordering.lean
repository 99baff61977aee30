import GlusterFS.WriteBehind.Correctness.Interleaving

/-!
# `WriteBehind.Correctness.Ordering` — operations wait for the writes before them

For every interleaving: when an operation that is no write is resumed, the child has answered every write that was
put on the queue before it, and a write is sent only after all operations put on the queue before it have left it.

The first half is about writes that have something to write. An empty write that follows an operation in the queue is
taken for bytes to be copied behind an earlier write, because `__wb_collapse_write_bufs` clears `ptr` there but not
`iov_len` and `write_size`; it goes to `passive_requests` and the child never gets it.
-/

namespace GlusterFS.WriteBehind

open History Threads
open List

variable {issued : List Fop} {onWay unrefs resumes : List Nat}

/-- What must have happened before an event. -/
def InOrder (issued : List Fop) : Event → List Event → Prop
  | .resumed o, earlier => o < issued.length ∧ WritesAnswered issued earlier o
  | .sent writes, earlier =>
    ∀ w ∈ writes, w < issued.length ∧ ∀ o < w, IsOther issued o → Event.left o ∈ earlier
  | _, _ => True

theorem InOrder.append {e : Event} {earlier : List Event} (h : InOrder issued e earlier)
    (fop : Fop) : InOrder (issued ++ [fop]) e earlier := by
  have hlt : ∀ {n : Nat}, n < issued.length → n < (issued ++ [fop]).length := by
    intro n hn
    rw [length_append]
    exact Nat.lt_add_right _ hn
  cases e with
  | resumed o =>
    refine ⟨hlt h.1, ?_⟩
    intro w hw hwrite
    exact h.2 w hw (hwrite.of_append (Nat.lt_trans hw h.1))
  | sent writes =>
    intro w hw
    obtain ⟨hwlt, hleft⟩ := h w hw
    exact ⟨hlt hwlt, fun o ho hother => hleft o ho (hother.of_append (Nat.lt_trans ho hwlt))⟩
  | answered _ _ _ | acked _ _ | left _ | checked _ _ => trivial

/-- The invariant of a file whose threads have these operations to do. -/
structure Consistent (s : State) (ops : List Op) : Prop where
  queue : Sound s.issued s.queue s.log (ops.flatMap Op.unrefs)
    (ops.flatMap Op.winds ++ s.calls.flatMap Call.winds) (ops.flatMap Op.resumes)
  calls : ∀ id fop, Call.other id fop ∈ s.calls → IsOther s.issued id
  ordered : Each (InOrder s.issued) s.log

/-! ## What is sent -/

theorem Sound.inOrder_sent {q : List Request} {log : List Event}
    {ids : List Nat} (h : Sound issued q log unrefs onWay resumes) (hids : ids ⊆ onWay) :
    InOrder issued (.sent (carriedBy ids q)) log := by
  intro w hw
  obtain ⟨r, hr, hwr⟩ := List.mem_flatMap.mp hw
  obtain ⟨hrq, hid⟩ := List.mem_filter.mp hr
  have hval := h.request r hrq
  obtain ⟨-, f, hf, -⟩ := hval.carried w hwr
  refine ⟨(List.getElem?_eq_some_iff.mp hf).1, ?_⟩
  intro o holt hother
  refine (h.others o hother).resolve_right ?_
  rintro ⟨x, hx, rfl⟩
  -- the request of the write is wound, so only writes are before it
  obtain ⟨r', hr', hrid, hrw, hrs, -⟩ := h.sent r.id (hids (by simpa using hid))
  have hsame := h.unique hr' hrq hrid
  subst hsame
  obtain ⟨pre, post, rfl⟩ := List.append_of_mem hrq
  have hnot := (h.request x hx).not_isOther
  rcases List.mem_append.mp hx with hxpre | hxpost
  · have hwound := (List.pairwise_append.mp h.wound).2.2 x hxpre r' mem_cons_self hrw hrs
    exact hnot hwound.1 hother
  rcases List.mem_cons.mp hxpost with rfl | hxpost
  · exact hnot hrw hother
  have horder := (List.pairwise_cons.mp (List.pairwise_append.mp h.order).2.1).1 x hxpost w hwr
  omega

/-! ## The operations of a pass -/

variable (rs : List Request)

theorem unwindOps_unrefs : (unwindOps rs).flatMap Op.unrefs = rs.map Request.id := by
  induction rs with
  | nil => rfl
  | cons r rs ih =>
    rw [map_cons, ← ih]
    rfl

theorem unwindOps_winds : (unwindOps rs).flatMap Op.winds = [] := by
  induction rs with
  | nil => rfl
  | cons r rs ih => exact ih

theorem unwindOps_resumes : (unwindOps rs).flatMap Op.resumes = [] := by
  induction rs with
  | nil => rfl
  | cons r rs ih => exact ih

theorem sends_winds (ws : List Wind) : (ws.map Op.send).flatMap Op.winds = ws.flatMap Wind.ids := by
  rw [flatMap_map]
  rfl

theorem sends_unrefs (ws : List Wind) : (ws.map Op.send).flatMap Op.unrefs = [] := by
  induction ws with
  | nil => rfl
  | cons w ws ih => exact ih

theorem sends_resumes (ws : List Wind) : (ws.map Op.send).flatMap Op.resumes = [] := by
  induction ws with
  | nil => rfl
  | cons w ws ih => exact ih

theorem mem_resumeOps {op : Op} {rs : List Request} (h : op ∈ resumeOps rs) : ∃ r ∈ rs, ∃ fop, r.fop = .other fop ∧
      (op = .detach r.id ∨ op = .resume r.id fop ∨ (fop.wind = false ∧ (op = .unref r.id false ∨ op = .mark false))) := by
  obtain ⟨r, hr, hop⟩ := mem_flatMap.mp h
  cases hf : r.fop with
  | write off vector => simp [hf] at hop
  | other fop =>
    refine ⟨r, hr, fop, hf, ?_⟩
    cases hw : fop.wind with
    | true =>
      simp only [hf, hw, if_true, mem_cons, not_mem_nil, or_false] at hop
      rcases hop with rfl | rfl
      · exact .inl rfl
      · exact .inr (.inl rfl)
    | false =>
      simp only [hf, hw, Bool.false_eq_true, if_false, mem_cons, not_mem_nil, or_false] at hop
      rcases hop with rfl | rfl | rfl | rfl
      · exact .inl rfl
      · exact .inr (.inr ⟨rfl, .inl rfl⟩)
      · exact .inr (.inl rfl)
      · exact .inr (.inr ⟨rfl, .inr rfl⟩)

theorem resumeOps_winds : (resumeOps rs).flatMap Op.winds = [] := by
  rw [flatMap_eq_nil_iff]
  intro op hop
  obtain ⟨r, -, fop, -, rfl | rfl | ⟨-, rfl | rfl⟩⟩ := mem_resumeOps hop
  all_goals rfl

theorem resumeOps_resumes : (resumeOps rs).flatMap Op.resumes ⊆ rs.map Request.id := by
  intro o ho
  obtain ⟨op, hop, ho⟩ := mem_flatMap.mp ho
  obtain ⟨r, hr, fop, -, rfl | rfl | ⟨-, rfl | rfl⟩⟩ := mem_resumeOps hop
  · rw [mem_singleton.mp ho]
    exact mem_map_of_mem hr
  · rw [mem_singleton.mp ho]
    exact mem_map_of_mem hr
  · cases ho
  · cases ho

theorem resumeOps_unrefs : (resumeOps rs).flatMap Op.unrefs ⊆ rs.map Request.id := by
  intro o ho
  obtain ⟨op, hop, ho⟩ := mem_flatMap.mp ho
  obtain ⟨r, hr, fop, -, rfl | rfl | ⟨-, rfl | rfl⟩⟩ := mem_resumeOps hop
  · cases ho
  · cases ho
  · rw [mem_singleton.mp ho]
    exact mem_map_of_mem hr
  · cases ho

theorem Sound.push_others {q : List Request} {log : List Event} (h : Sound issued q log unrefs onWay resumes) (os : List Nat)
    (hos : ∀ o ∈ os, IsOther issued o) : Sound issued q log (os ++ unrefs) onWay resumes := by
  induction os with
  | nil => exact h
  | cons o os ih =>
    exact (ih fun x hx => hos x (mem_cons_of_mem o hx)).push_other (hos o mem_cons_self)

theorem Sound.scans {conf : Conf} {s : State} {collapsed : Collapsed}
    (h : Sound s.issued s.queue s.log unrefs onWay resumes) (flushAll : Bool)
    (hcol : collapseWriteBufs conf.pageSize .start s.unwinds.queue = .ok collapsed) :
    Sound s.issued (s.winds conf flushAll collapsed).queue s.log (s.unwinds.marked.map Request.id ++ unrefs)
      ((s.winds conf flushAll collapsed).marked.map Request.id ++ onWay)
      ((getOtherRequests collapsed.queue).marked.map Request.id ++ resumes) := by
  have hunw := h.unwindAll s.unwinds_marks
  have hmerge := hunw.collapseAll (collapseWriteBufs_merges Packing.Sound.start hcol)
  have hothers := hmerge.markAll (others_marks collapsed.queue)
  exact hothers.windAll (s.winds_marks conf flushAll collapsed)

/-- **A pass over the queue keeps the invariant.** -/
theorem Sound.processQueue {conf : Conf} {s s' : State} {flushAll : Bool} {new : List Op} (h : Sound s.issued s.queue s.log unrefs onWay resumes)
    (hp : wbProcessQueue conf s flushAll = .ok (s', new)) :
    Sound s'.issued s'.queue s'.log (new.flatMap Op.unrefs ++ unrefs) (new.flatMap Op.winds ++ onWay)
      (new.flatMap Op.resumes ++ resumes) := by
  obtain ⟨collapsed, hcol, rfl, rfl⟩ := wbProcessQueue_cases hp
  have hwinds := s.winds_marks conf flushAll collapsed
  have hscans := h.scans flushAll hcol
  generalize s.unwinds = unwinds at *
  generalize s.winds conf flushAll collapsed = winds at *
  generalize getOtherRequests collapsed.queue = others at *
  -- a flush is unreferenced before it is resumed
  have hflush := hscans.push_others ((resumeOps others.marked).flatMap Op.unrefs) (by
    intro o ho
    exact (hscans.next o (mem_append_left _ (resumeOps_unrefs _ ho))).1)
  have hsync : Sound s.issued winds.queue s.log ((resumeOps others.marked).flatMap Op.unrefs ++
      (unwinds.marked.map Request.id ++ unrefs)) ((sync conf.aggregateSize winds.marked).flatMap Wind.ids ++ onWay)
      (others.marked.map Request.id ++ resumes) := by
    rcases sync_ids conf.aggregateSize winds.marked with hids | ⟨hnone, hempty⟩
    · rw [hids]
      exact hflush
    rw [hnone]
    refine hflush.forget ?_
    intro r hr hid
    obtain ⟨r', hr', hrid⟩ := mem_map.mp hid
    have hsame := hflush.unique (hwinds.marked_sublist.subset hr') hr hrid
    subst hsame
    exact hempty r' hr'
  simp only [flatMap_append, unwindOps_unrefs, unwindOps_winds, unwindOps_resumes, sends_unrefs, sends_winds,
    sends_resumes, resumeOps_winds, nil_append, append_nil]
  refine hsync.mono (List.Subset.refl _) ?_ (.refl _) ?_
  · rw [← append_assoc]
    exact perm_append_comm.append_right _
  intro o ho
  rcases mem_append.mp ho with ho | ho
  · exact mem_append_left _ (resumeOps_resumes _ ho)
  · exact mem_append_right _ ho

/-! ## Every operation of a thread -/

theorem afterEnqueue_quiet (id : Nat) (fop : Fop) :
    (afterEnqueue id fop).flatMap Op.unrefs = [] ∧ (afterEnqueue id fop).flatMap Op.winds = [] ∧
      (afterEnqueue id fop).flatMap Op.resumes = [] := by
  cases fop with
  | write off vector => exact ⟨rfl, rfl, rfl⟩
  | other fop => cases fop <;> exact ⟨rfl, rfl, rfl⟩

namespace Consistent

variable {conf : Conf} {s s' : State} {ops new : List Op}

theorem log_cons (h : Consistent s ops) {e : Event} (he : ∀ issued earlier, InOrder issued e earlier) :
    Consistent { s with log := e :: s.log } ops where
  queue := h.queue.mono (subset_cons_self _ _) (.refl _) (.refl _) (List.Subset.refl _)
  calls := h.calls
  ordered := each_cons.mpr ⟨he _ _, h.ordered⟩

theorem check (h : Consistent s ops) (who : Checker) : Consistent (s.check who) ops :=
  have hlog := h.log_cons (e := .checked who (s.opRet = -1)) fun _ _ => trivial
  ⟨hlog.queue, hlog.calls, hlog.ordered⟩

theorem ffrCbk (conf : Conf) (h : Consistent s ops) (id : Nat) :
    Consistent (wbFfrCbk conf s id).1 ((wbFfrCbk conf s id).2 ++ ops) := by
  unfold wbFfrCbk
  split
  · have hcheck := h.check (.flush id)
    exact ⟨hcheck.queue, hcheck.calls, hcheck.ordered⟩
  · exact ⟨h.queue, h.calls, h.ordered⟩

theorem calls_append (h : Consistent s ops) (call : Call) (hwinds : call.winds = [])
    (hother : ∀ id fop, call = .other id fop → IsOther s.issued id) :
    Consistent { s with calls := s.calls ++ [call] } ops where
  queue := by
    show Sound s.issued s.queue s.log _ (_ ++ (s.calls ++ [call]).flatMap Call.winds) _
    rw [flatMap_append, flatMap_singleton, hwinds, append_nil]
    exact h.queue
  calls := by
    intro id fop hmem
    rcases mem_append.mp hmem with hmem | hmem
    · exact h.calls id fop hmem
    · exact hother id fop (mem_singleton.mp hmem).symm
  ordered := h.ordered

/-- **One operation of a thread.** -/
theorem exec {op : Op} (h : Consistent s (op :: ops)) (he : exec conf s op = .ok (s', new)) :
    Consistent s' (new ++ ops) := by
  cases op with
  | enqueue fop =>
    cases he
    obtain ⟨hu, hw, hr⟩ := afterEnqueue_quiet s.issued.length fop
    refine ⟨?_, fun id f hmem => (h.calls id f hmem).append fop, h.ordered.mono fun e earlier he => he.append fop⟩
    simp only [flatMap_append, hu, hw, hr, nil_append]
    exact h.queue.enqueue fop
  | mark flushAll =>
    have hqueue := h.queue.processQueue he
    obtain ⟨collapsed, -, rfl, rfl⟩ := wbProcessQueue_cases he
    refine ⟨?_, h.calls, h.ordered⟩
    simp only [flatMap_append, append_assoc] at hqueue ⊢
    exact hqueue
  | unwind id =>
    obtain ⟨r, -, rfl, rfl⟩ := exec_unwind he
    have hlog := h.log_cons (e := .acked id r.opRet) fun _ _ => trivial
    exact ⟨hlog.queue, hlog.calls, hlog.ordered⟩
  | unref id acked =>
    cases he
    refine ⟨h.queue.unref, h.calls, ?_⟩
    show Each _ (if leaves id s.queue then .left id :: s.log else s.log)
    split
    · exact each_cons.mpr ⟨trivial, h.ordered⟩
    · exact h.ordered
  | send wind =>
    obtain ⟨rfl, rfl⟩ := exec_send he
    refine ⟨?_, ?_, each_cons.mpr ⟨h.queue.inOrder_sent ?_, h.ordered⟩⟩
    · refine h.queue.mono (subset_cons_self _ _) (.refl _) ?_ (List.Subset.refl _)
      show (wind.ids ++ ops.flatMap Op.winds ++ s.calls.flatMap Call.winds).Perm
        (ops.flatMap Op.winds ++ (s.calls ++ [Call.write wind]).flatMap Call.winds)
      rw [flatMap_append, flatMap_singleton, ← append_assoc, append_assoc]
      exact perm_append_comm
    · intro id fop hmem
      rcases mem_append.mp hmem with hmem | hmem
      · exact h.calls id fop hmem
      · cases mem_singleton.mp hmem
    · exact fun id hid => mem_append_left _ (mem_append_left _ hid)
  | detach id =>
    cases he
    have hother := (h.queue.next id (mem_append_left _ mem_cons_self)).1
    refine ⟨(h.queue.detach hother).mono (List.Subset.refl _) (.refl _) (.refl _) ?_, h.calls, h.ordered⟩
    exact subset_cons_self _ _
  | resume id fop =>
    obtain ⟨hother, hans⟩ := h.queue.next id (mem_append_left _ mem_cons_self)
    have hlog : Consistent { s with log := .resumed id :: s.log } ops :=
      ⟨h.queue.mono (subset_cons_self _ _) (.refl _) (.refl _) (subset_cons_self _ _), h.calls,
        each_cons.mpr ⟨⟨hother.lt, hans⟩, h.ordered⟩⟩
    rcases exec_resume he with ⟨-, rfl, rfl⟩ | ⟨-, heq⟩
    · refine hlog.calls_append (.other id fop) rfl ?_
      rintro id' fop' heq
      cases heq
      exact hother
    have hffr := hlog.ffrCbk conf id
    rw [heq] at hffr
    exact hffr
  | flush id behind =>
    cases he
    have hsame : Consistent s ops := ⟨h.queue, h.calls, h.ordered⟩
    exact hsame.calls_append (.flush id behind) rfl fun _ _ heq => nomatch heq

/-- **One answer of the child.** -/
theorem answer (conf : Conf) (h : Consistent s ops) {j : Nat} {call : Call} (hcall : s.calls[j]? = some call)
    (opRet opErrno : Int) : Consistent (s.answered conf j opRet opErrno call).1
      ((s.answered conf j opRet opErrno call).2 ++ ops) := by
  obtain ⟨hlt, hget⟩ := List.getElem?_eq_some_iff.mp hcall
  have hmem : call ∈ s.calls := hget ▸ List.getElem_mem hlt
  have hperm : s.calls.Perm (call :: s.calls.eraseIdx j) := by
    rw [← hget]
    exact (List.getElem_cons_eraseIdx_perm hlt).symm
  have hcalls : ∀ id fop, Call.other id fop ∈ s.calls.eraseIdx j → IsOther s.issued id :=
    fun id fop hin => h.calls id fop (List.mem_of_mem_eraseIdx hin)
  -- what the call was for comes first among what is on its way
  have hqueue : Sound s.issued s.queue s.log (ops.flatMap Op.unrefs)
      (call.winds ++ (ops.flatMap Op.winds ++ (s.calls.eraseIdx j).flatMap Call.winds))
      (ops.flatMap Op.resumes) := by
    refine h.queue.mono (List.Subset.refl _) (.refl _) ?_ (List.Subset.refl _)
    rw [← append_assoc]
    refine ((hperm.flatMap_right Call.winds).append_left _).trans ?_
    rw [List.flatMap_cons, ← append_assoc]
    exact List.perm_append_comm.append_right _
  -- without what a write was for, nothing else has changed
  have hrest : call.winds = [] → Consistent { s with calls := s.calls.eraseIdx j } ops := by
    intro hwinds
    rw [hwinds] at hqueue
    exact ⟨hqueue, hcalls, h.ordered⟩
  cases call with
  | write wind =>
    exact ⟨hqueue.replied wind.size opRet opErrno, hcalls, each_cons.mpr ⟨trivial, h.ordered⟩⟩
  | other id fop =>
    have hother := h.calls id fop hmem
    have hpush : ∀ {s1 : State}, s1.issued = s.issued → Consistent s1 ops →
        Consistent s1 ([.unref id false, .mark false] ++ ops) := by
      intro s1 hissued h1
      exact ⟨h1.queue.push_other (hissued ▸ hother), h1.calls, h1.ordered⟩
    cases fop with
    | fsync => exact hpush rfl ((hrest rfl).check (.fsync id))
    | stat | fstat | truncate | ftruncate | setattr | readv | flush behind => exact hpush rfl (hrest rfl)
  | flush id behind =>
    cases behind with
    | true => exact hrest rfl
    | false => exact (hrest rfl).ffrCbk conf id
  | direct size => exact hrest rfl

section

variable (h : Consistent s ops)
include h

theorem perm {ops' : List Op} (hperm : ops.Perm ops') : Consistent s ops' :=
  ⟨h.queue.mono (List.Subset.refl _) (hperm.flatMap_right _) ((hperm.flatMap_right _).append_right _)
    (hperm.symm.flatMap_right _).subset, h.calls, h.ordered⟩

theorem threads (ts : List (List Op)) : Consistent { s with threads := ts } ops := ⟨h.queue, h.calls, h.ordered⟩

theorem enter (fop : Fop) : Consistent s (.enqueue fop :: ops) := ⟨h.queue, h.calls, h.ordered⟩

theorem direct (till size : Nat) :
    Consistent { s with disableTill := till, calls := s.calls ++ [.direct size] } ops := by
  have hcalls := h.calls_append (.direct size) rfl fun _ _ heq => nomatch heq
  exact ⟨hcalls.queue, hcalls.calls, hcalls.ordered⟩

end

/-- **The invariant holds under every interleaving.** -/
theorem preserved (conf : Conf) (F : List Op → Prop) (E : State → Op → Prop) (A : State → Int → Call → Prop) :
    Preserved conf F E A Consistent where
  perm hperm h := h.perm hperm
  threads ts h := h.threads ts
  enter fop h := h.enter fop
  check h := h.check .writev
  direct till size h := h.direct till size
  exec _ _ _ h he := h.exec he
  answer opRet opErrno _ _ hcall h := h.answer conf hcall opRet opErrno

theorem create (conf : Conf) (disabled noWindow : Bool) :
    Consistent (.create conf disabled noWindow) (pending (State.create conf disabled noWindow).threads) :=
  ⟨Sound.empty, fun _ _ hmem => (nomatch hmem), each_nil⟩

theorem runFrom {disabled noWindow : Bool} {actions : List Action}
    (hrun : runFrom conf disabled noWindow actions = .ok s') : Consistent s' (pending s'.threads) :=
  (preserved conf _ _ _).run_all (create conf disabled noWindow) hrun

end Consistent

/-! ## Runs -/

/-- **Operations wait for writes, and writes for operations**, under every interleaving of calls, queue passes and
    answers. -/
theorem others_wait_for_writes (conf : Conf) (disabled noWindow : Bool) (actions : List Action) (s : State)
    (hrun : runFrom conf disabled noWindow actions = .ok s) :
    (∀ later o earlier, s.log = later ++ .resumed o :: earlier →
      ∀ w < o, IsWrite s.issued w → Answered earlier w) ∧
    (∀ later writes earlier, s.log = later ++ .sent writes :: earlier →
      ∀ w ∈ writes, ∀ o < w, IsOther s.issued o → Event.left o ∈ earlier) := by
  have hordered := (Consistent.runFrom hrun).ordered
  constructor
  · intro later o earlier hsplit
    exact (hordered later _ earlier hsplit).2
  intro later writes earlier hsplit w hw
  exact (hordered later _ earlier hsplit w hw).2

/-- A write of ten bytes, a read behind it, and a write behind the read. -/
def readBetweenWrites : List Action :=
  [.writev 0 [10], .run 0, .run 0, .run 0, .run 0, .run 0, .other .readv, .run 1, .run 1, .writev 0 [10], .run 2,
    .run 2, .run 2, .run 2, .reply 0 10 0, .run 3, .run 3, .run 3, .reply 0 0 0, .run 4, .run 4, .run 4]

/-- The read is resumed after the answer to the first write, and has left before the second is sent. -/
theorem read_waits_for_write :
    ∃ s, runFrom smallConf false false readBetweenWrites = .ok s ∧
      ∃ later earlier, s.log = .sent [2] :: later ++ .resumed 1 :: earlier ∧ Answered earlier 0 ∧
        Event.left 1 ∈ later ++ .resumed 1 :: earlier := by
  obtain ⟨s, hs, hdata⟩ := Transition.map_eq_ok
    (show (runFrom smallConf false false readBetweenWrites).map (fun s => (s.log, s.issued)) =
      .ok ([.sent [2], .left 1, .resumed 1, .answered [0] 10 10, .acked 2 10, .checked .writev false, .sent [0],
        .acked 0 10, .checked .writev false],
        [.write 0 [10], .other .readv, .write 0 [10]]) by decide +kernel)
  obtain ⟨hlog, hissued⟩ := Prod.mk.inj hdata
  obtain ⟨hresumed, hsent⟩ := others_wait_for_writes smallConf false false readBetweenWrites s hs
  refine ⟨s, hs, [.left 1], _, hlog.symm, ?_, ?_⟩
  · refine hresumed [.sent [2], .left 1] 1 _ hlog.symm 0 (by decide) ?_
    rw [← hissued]
    exact ⟨.write 0 [10], rfl, rfl, by decide⟩
  refine hsent [] [2] _ hlog.symm 2 (by decide) 1 (by decide) ?_
  rw [← hissued]
  exact ⟨.other .readv, rfl, rfl⟩

/-- Two writes that wait behind a third one, a read, an empty write and another read. -/
def emptyWriteBetweenReads : List Action :=
  [.writev 0 [10], .run 0, .run 0, .run 0, .run 0, .run 0, .writev 100 [10], .run 1, .run 1, .run 1, .run 1,
    .writev 200 [10], .run 2, .run 2, .run 2, .run 2, .other .readv, .run 3, .run 3, .run 3, .writev 300 [0], .run 4,
    .run 4, .run 4, .run 4, .other .readv, .run 5, .run 5, .run 5, .reply 0 10 0, .run 6, .reply 0 10 0, .run 7,
    .reply 0 10 0, .run 8, .run 8, .run 8, .reply 0 0 0, .run 9, .run 9, .run 9, .run 9]

/-- The second read is resumed although the child never got the empty write before it. -/
theorem read_overtakes_empty_write :
    ∃ s, runFrom smallConf false false emptyWriteBetweenReads = .ok s ∧
      ∃ earlier, s.log = .resumed 5 :: earlier ∧ s.issued[4]? = some (.write 300 [0]) ∧
        ¬ Answered earlier 4 ∧ ∀ writes, Event.sent writes ∈ earlier → 4 ∉ writes := by
  obtain ⟨s, hs, hdata⟩ := Transition.map_eq_ok
    (show (runFrom smallConf false false emptyWriteBetweenReads).map (fun s => (s.log, s.issued[4]?)) =
      .ok ([.resumed 5, .left 3, .resumed 3, .answered [2] 10 10, .answered [1] 10 10, .answered [0] 10 10,
        .sent [2], .acked 4 0, .checked .writev false, .sent [1], .acked 2 10, .checked .writev false, .acked 1 10,
        .checked .writev false, .sent [0], .acked 0 10, .checked .writev false], some (.write 300 [0])) by
      decide +kernel)
  obtain ⟨hlog, hissued⟩ := Prod.mk.inj hdata
  refine ⟨s, hs, _, hlog.symm, hissued.symm, ?_, ?_⟩
  · rintro ⟨writes, size, opRet, hmem, hw⟩
    simp only [mem_cons, not_mem_nil, Event.answered.injEq, reduceCtorEq, false_or, or_false] at hmem
    rcases hmem with ⟨rfl, -, -⟩ | ⟨rfl, -, -⟩ | ⟨rfl, -, -⟩ <;> simp at hw
  intro writes hmem
  simp only [mem_cons, not_mem_nil, Event.sent.injEq, reduceCtorEq, false_or, or_false] at hmem
  rcases hmem with rfl | rfl | rfl <;> decide

/-- **No write is lost**, under every interleaving. A write that the child has not answered is in the buffer of one
    request of the queue, and that request is referenced. -/
theorem unanswered_write_kept (conf : Conf) (disabled noWindow : Bool) (actions : List Action) (s : State) (w : Nat)
    (hrun : runFrom conf disabled noWindow actions = .ok s) (hw : IsWrite s.issued w) (hno : ¬ Answered s.log w) :
    ∃ r ∈ s.queue, w ∈ r.carried ∧ 0 < r.refcount ∧ ∀ r' ∈ s.queue, w ∈ r'.carried → r' = r := by
  have hsound := (Consistent.runFrom hrun).queue
  obtain ⟨r, hr, hwrite, hreply, hcarried⟩ := (hsound.writes w hw).resolve_left hno
  refine ⟨r, hr, hcarried, ?_, ?_⟩
  · rw [(hsound.request r hr).refs hwrite, hreply]
    exact Nat.add_pos_left Nat.one_pos _
  intro r' hr' hcarried'
  have hge := ((hsound.request r hr).carried w hcarried).1
  have hge' := ((hsound.request r' hr').carried w hcarried').1
  -- the bytes of an earlier request have smaller numbers than any later request
  rcases lt_trichotomy r'.id r.id with hlt | heq | hlt
  · exact absurd (rel_of_id_lt hsound.ids_rising hsound.order hr' hr hlt w hcarried') hge.not_gt
  · exact hsound.unique hr' hr heq
  · exact absurd (rel_of_id_lt hsound.ids_rising hsound.order hr hr' hlt w hcarried) hge'.not_gt

/-- A write that was sent and is not answered yet. -/
theorem sent_write_kept : ∃ s, runFrom smallConf false false (readBetweenWrites.take 6) = .ok s ∧
    ∃ r ∈ s.queue, 0 ∈ r.carried ∧ 0 < r.refcount := by
  obtain ⟨s, hs, hdata⟩ := Transition.map_eq_ok
    (show (runFrom smallConf false false (readBetweenWrites.take 6)).map (fun s => (s.log, s.issued)) =
      .ok ([.sent [0], .acked 0 10, .checked .writev false], [.write 0 [10]]) by decide +kernel)
  obtain ⟨hlog, hissued⟩ := Prod.mk.inj hdata
  obtain ⟨r, hr, hcarried, href, -⟩ := unanswered_write_kept smallConf false false _ s 0 hs
    (hissued ▸ ⟨.write 0 [10], rfl, rfl, by decide⟩) (by simp [Answered, ← hlog])
  exact ⟨s, hs, r, hr, hcarried, href⟩

end GlusterFS.WriteBehind
