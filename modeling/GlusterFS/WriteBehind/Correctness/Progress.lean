import GlusterFS.WriteBehind.Correctness.Acknowledged

/-!
# `WriteBehind.Correctness.Progress` — no request is left behind

When no thread has anything to do and the child has nothing to answer, no operation is left in the queue, as long as no
write is answered before `wb_stack_unwind` is done with it (`AckedBefore`). Together with `Acknowledged` this is what
write-behind owes to its caller.

The head of the queue carries the argument (`HeadMoves`): if an operation waits, then the request in front of it is a
write the child will answer, or an operation that was resumed, or another pass is to come. A request only leaves the
queue together with a pass. That is what fails without the condition: a write that is answered first leaves the queue
with the reference of its acknowledgement, and no pass follows.
-/

namespace GlusterFS.WriteBehind

open History Scan Threads
open List

variable {op : Op} {rest : List Op} {j id : Nat}

/-- The writes that are put on the queue have a vector. -/
def HasVector (_ : State) : Op → Prop
  | .enqueue (.write _ vector) => vector ≠ []
  | _ => True

instance decidableHasVector (s : State) : ∀ op, Decidable (HasVector s op)
  | .enqueue (.write _ vector) => inferInstanceAs (Decidable (vector ≠ []))
  | .enqueue (.other _) | .mark _ | .unwind _ | .unref _ _ | .send _ | .detach _ | .resume _ _ | .flush _ _ => isTrue trivial

/-- The writes of the child write were acknowledged before: the child has their last reference. -/
def AckedBefore (s : State) (_ : Int) : Call → Prop
  | .write wind => ∀ r ∈ s.queue, r.id ∈ wind.ids → r.refcount = 1
  | _ => True

instance decidableAckedBefore (s : State) (opRet : Int) : ∀ call, Decidable (AckedBefore s opRet call)
  | .write _ => inferInstanceAs (Decidable (∀ _ ∈ _, _))
  | .other _ _ | .flush _ _ | .direct _ => isTrue trivial

/-! ## Threads -/

/-- What a thread still has to do after an operation. -/
def Leads : Op → List Op → Prop
  | .detach id, rest => (∃ fop, fop.wind = true ∧ Op.resume id fop ∈ rest) ∨ Op.unref id false ∈ rest
  | .unref _ false, rest => ∃ flushAll, Op.mark flushAll ∈ rest
  | _, _ => True

theorem Leads.append (h : Leads op rest) (more : List Op) : Leads op (rest ++ more) := by
  cases op with
  | detach id =>
    rcases h with ⟨fop, hwind, hmem⟩ | hmem
    · exact .inl ⟨fop, hwind, mem_append_left _ hmem⟩
    · exact .inr (mem_append_left _ hmem)
  | unref id acked =>
    cases acked with
    | true => trivial
    | false =>
      obtain ⟨flushAll, hmem⟩ := h
      exact ⟨flushAll, mem_append_left _ hmem⟩
  | enqueue _ | mark _ | unwind _ | send _ | resume _ _ | flush _ _ => trivial

theorem each_leads_append {t t' : List Op} (h : Each Leads t) (h' : Each Leads t') : Each Leads (t ++ t') :=
  h.concat (fun _ _ more hop => hop.append more) h'

theorem unwindOps_leads (rs : List Request) : Each Leads (unwindOps rs) := by
  induction rs with
  | nil => exact each_nil
  | cons r rs ih =>
    exact each_leads_append (t := [.unwind r.id, .unref r.id true])
      (each_cons.mpr ⟨trivial, each_cons.mpr ⟨trivial, each_nil⟩⟩) ih

theorem sends_leads (ws : List Wind) : Each Leads (ws.map Op.send) := by
  induction ws with
  | nil => exact each_nil
  | cons w ws ih => exact each_cons.mpr ⟨trivial, ih⟩

theorem resumeOps_leads (rs : List Request) : Each Leads (resumeOps rs) := by
  induction rs with
  | nil => exact each_nil
  | cons r rs ih =>
    refine each_leads_append ?_ ih
    dsimp only
    split
    · exact each_nil
    next fop _ =>
      split
      next hw => exact each_cons.mpr ⟨.inl ⟨fop, hw, mem_cons_self⟩, each_cons.mpr ⟨trivial, each_nil⟩⟩
      · refine each_cons.mpr ⟨.inr mem_cons_self, each_cons.mpr ⟨⟨false, by simp⟩, ?_⟩⟩
        exact each_cons.mpr ⟨trivial, each_cons.mpr ⟨trivial, each_nil⟩⟩

variable (conf : Conf)

theorem wbFfrCbk_leads (s : State) (id : Nat) : Each Leads (wbFfrCbk conf s id).2 := by
  unfold wbFfrCbk
  split
  · exact each_cons.mpr ⟨trivial, each_nil⟩
  · exact each_nil

theorem exec_leads {conf : Conf} {s s' : State} {new : List Op} (he : exec conf s op = .ok (s', new)) :
    Each Leads new := by
  cases op with
  | enqueue fop =>
    cases he
    cases fop with
    | write off vector => exact each_cons.mpr ⟨trivial, each_nil⟩
    | other fop =>
      have hone : Each Leads [Op.mark true] := each_cons.mpr ⟨trivial, each_nil⟩
      cases fop with
      | flush behind => exact each_cons.mpr ⟨trivial, each_cons.mpr ⟨trivial, each_nil⟩⟩
      | stat | fstat | truncate | ftruncate | setattr | readv | fsync => exact hone
  | mark flushAll =>
    obtain ⟨collapsed, -, -, rfl⟩ := wbProcessQueue_cases he
    exact each_leads_append (each_leads_append (unwindOps_leads _) (sends_leads _)) (resumeOps_leads _)
  | unwind id =>
    obtain ⟨-, -, -, rfl⟩ := exec_unwind he
    exact each_nil
  | unref id acked =>
    cases he
    exact each_nil
  | send wind =>
    obtain ⟨-, rfl⟩ := exec_send he
    exact each_nil
  | detach id =>
    cases he
    exact each_nil
  | resume id fop =>
    rcases exec_resume he with ⟨-, -, rfl⟩ | ⟨-, heq⟩
    · exact each_nil
    have hleads := wbFfrCbk_leads conf { s with log := .resumed id :: s.log } id
    rwa [heq] at hleads
  | flush id behind =>
    cases he
    exact each_nil

theorem answer_leads (s : State) (opRet opErrno : Int) (call : Call) :
    Each Leads (answer conf s opRet opErrno call).2 := by
  have hunref : ∀ id, Each Leads [Op.unref id false, .mark false] := fun id =>
    each_cons.mpr ⟨⟨false, mem_cons_self⟩, each_cons.mpr ⟨trivial, each_nil⟩⟩
  cases call with
  | write wind => exact each_cons.mpr ⟨trivial, each_nil⟩
  | other id fop => cases fop <;> exact hunref id
  | flush id behind =>
    cases behind with
    | true => exact each_nil
    | false => exact wbFfrCbk_leads conf s id
  | direct size => exact each_nil

theorem follows_leads (E : State → Op → Prop) (I : State → List Op → Prop) : Follows conf (Each Leads) E I where
  enter _ := each_cons.mpr ⟨trivial, each_nil⟩
  exec _ _ _ he hF := each_leads_append (exec_leads he) (each_cons.mp hF).2
  answer := answer_leads conf

theorem wbFfrCbk_marks (s : State) (id : Nat) : ∀ op ∈ (wbFfrCbk conf s id).2, ∃ flushAll, op = .mark flushAll := by
  unfold wbFfrCbk
  split
  · intro op hop
    exact ⟨false, mem_singleton.mp hop⟩
  · exact nofun

/-! ## The operations of a pass -/

theorem detach_mem_pass {unwinds others : List Request} {winds : List Wind}
    (h : Op.detach id ∈ unwindOps unwinds ++ winds.map .send ++ resumeOps others) : ∃ r ∈ others, r.id = id := by
  rcases mem_append.mp h with h | h
  · rcases mem_append.mp h with h | h
    · obtain ⟨r, -, hr⟩ := mem_flatMap.mp h
      simp at hr
    obtain ⟨w, -, hw⟩ := mem_map.mp h
    cases hw
  obtain ⟨r, hr, fop, -, heq | heq | ⟨-, heq | heq⟩⟩ := mem_resumeOps h
  · cases heq
    exact ⟨r, hr, rfl⟩
  all_goals cases heq

theorem unref_mem_pass {unwinds others : List Request} {winds : List Wind}
    (h : Op.unref id true ∈ unwindOps unwinds ++ winds.map .send ++ resumeOps others) : ∃ r ∈ unwinds, r.id = id := by
  rcases mem_append.mp h with h | h
  · rcases mem_append.mp h with h | h
    · obtain ⟨r, hr, hmem⟩ := mem_flatMap.mp h
      have hid : id = r.id := by simpa using hmem
      exact ⟨r, hr, hid.symm⟩
    obtain ⟨w, -, hw⟩ := mem_map.mp h
    cases hw
  · obtain ⟨r, hr, fop, -, heq | heq | ⟨-, heq | heq⟩⟩ := mem_resumeOps h <;> cases heq

variable {rs : List Request} {r : Request}

theorem detach_mem_resumeOps (hr : r ∈ rs) (hother : r.fop.isWrite = false) : Op.detach r.id ∈ resumeOps rs := by
  refine mem_flatMap.mpr ⟨r, hr, ?_⟩
  cases hf : r.fop with
  | write off vector =>
    rw [hf] at hother
    cases hother
  | other fop =>
    dsimp only
    split <;> exact mem_cons_self

/-! ## The head of the queue -/

/-- A request that will leave the queue together with a pass: a write the child has, or an operation that was resumed. -/
def Request.Moves (r : Request) : Prop :=
  (r.fop.isWrite = true ∧ r.stackWound = true) ∨ (r.fop.isWrite = false ∧ r.markedForResume = true)

/-- If an operation is in the queue, the first request moves. -/
def HeadMoves (q : List Request) : Prop := (∃ o ∈ q, o.fop.isWrite = false) → ∃ r rest, q = r :: rest ∧ r.Moves

theorem HeadMoves.filterMap {q : List Request} {f : Request → Option Request} (h : HeadMoves q)
    (hf : ∀ r ∈ q, ∃ r', f r = some r' ∧ r.SameShape r') : HeadMoves (q.filterMap f) := by
  rintro ⟨o', ho', hother⟩
  obtain ⟨o, ho, hoo'⟩ := mem_filterMap.mp ho'
  obtain ⟨o'', ho'', hshape⟩ := hf o ho
  rw [hoo'] at ho''
  cases ho''
  rw [hshape.fop] at hother
  obtain ⟨r, rest, rfl, hmoves⟩ := h ⟨o, ho, hother⟩
  obtain ⟨r', hr', hr⟩ := hf r mem_cons_self
  refine ⟨r', rest.filterMap f, filterMap_cons_some hr', ?_⟩
  rw [Request.Moves, hr.fop, hr.stackWound, hr.markedForResume]
  exact hmoves

/-- A scan that marks keeps the first request, or marks it. -/
theorem marks_head {sel : List Request → Request → Prop} {upd : Request → Request}
    {q' marked : List Request} (h : Marks sel upd [] (r :: rs) q' marked) (hupd : r.Moves → (upd r).Moves)
    (hr : r.Moves) : ∃ r' rest, q' = r' :: rest ∧ r'.Moves := by
  cases h with
  | stop => exact ⟨r, rs, rfl, hr⟩
  | skip _ => exact ⟨r, _, rfl, hr⟩
  | take _ _ => exact ⟨upd r, _, rfl, hupd hr⟩

/-- **`__wb_can_wind`** does not wait for more writes if there is an operation behind them. -/
theorem canWind_stops (q : List Request) : ∀ expected, (∀ r ∈ q, r.fop.isWrite = true → r.stub = true) →
    (∀ r ∈ q, r.fop.isWrite = true → r.stackWound = false) → (∀ r ∈ q, r.fop.isWrite = false → r.stub = true) →
    (∃ o ∈ q, o.fop.isWrite = false) →
      canWind expected q = some .otherFopInQueue ∨ canWind expected q = some .nonContiguousWrites := by
  induction q with
  | nil =>
    rintro _ _ _ _ ⟨o, ho, -⟩
    cases ho
  | cons r rs ih =>
    rintro expected hstub hwound hothers ⟨o, ho, hother⟩
    rw [canWind]
    by_cases hw : r.fop.isWrite = true
    · have hrw : r.isWrite = true := Request.isWrite_iff.mpr ⟨hstub r mem_cons_self hw, hw⟩
      have hrs := hwound r mem_cons_self hw
      rw [if_neg (by simp [hrw]), if_neg (by simp [hrs]), if_neg (by simp [hrs])]
      split
      · exact .inr rfl
      -- the operation is further back
      have hrest : o ∈ rs := by
        refine (mem_cons.mp ho).resolve_left ?_
        rintro rfl
        rw [hw] at hother
        cases hother
      exact ih _ (fun x hx => hstub x (mem_cons_of_mem r hx)) (fun x hx => hwound x (mem_cons_of_mem r hx))
        (fun x hx => hothers x (mem_cons_of_mem r hx)) ⟨o, hrest, hother⟩
    have hrw : r.isWrite = false := by simp [Request.isWrite, hw]
    rw [if_pos (by simp [hrw]), if_pos (hothers r mem_cons_self (Bool.eq_false_iff.mpr hw))]
    exact .inl rfl

/-- **`__wb_mark_winds`** winds the first write if there is an operation behind it. -/
theorem markWinds_head (aggregateConf aggregateCurrent : Nat) (windAll trickling : Bool) (hr : r.isWrite = true) (hs : r.stackWound = false)
    (hstop : canWind none (r :: rs) = some .otherFopInQueue ∨ canWind none (r :: rs) = some .nonContiguousWrites) :
    ∃ rest, (markWinds aggregateConf aggregateCurrent windAll trickling (r :: rs)).queue = r.wound :: rest := by
  have hall : ∃ rest, (markWindAll none (r :: rs)).queue = r.wound :: rest := by
    rw [markWindAll, if_neg (by simp [hr]), if_neg (by simp [hs]), if_neg (by simp)]
    exact ⟨_, rfl⟩
  have hcond : ∀ why, (why = if !windAll && decide (aggregateCurrent < aggregateConf) then canWind none (r :: rs)
      else none) → ((trickling && why ≠ some .incompleteWrites) || windAll || why = some .nonContiguousWrites
      || why = some .otherFopInQueue || decide (aggregateConf ≤ aggregateCurrent)) = true := by
    intro why hwhy
    by_cases hscan : (!windAll && decide (aggregateCurrent < aggregateConf)) = true
    · rw [if_pos hscan] at hwhy
      rcases hstop with hstop | hstop <;> simp [hwhy, hstop]
    -- the scan is not made if all are to be wound, or if there is enough
    have : windAll = true ∨ aggregateConf ≤ aggregateCurrent := by
      cases windAll with
      | true => exact .inl rfl
      | false => exact .inr (by simpa using hscan)
    rcases this with h | h <;> simp [h]
  unfold markWinds
  rw [if_pos (hcond _ rfl)]
  exact hall

/-! ## The invariant -/

/-- Something is to be done about an operation that was marked. -/
def Busy (s : State) (ops : List Op) (id : Nat) : Prop :=
  Op.detach id ∈ ops ∨ (∃ fop, fop.wind = true ∧ Op.resume id fop ∈ ops) ∨ Op.unref id false ∈ ops ∨
    ∃ fop, Call.other id fop ∈ s.calls

theorem Busy.mono {s s' : State} {ops ops' : List Op} (h : Busy s ops id)
    (hops : ∀ op ∈ ops, (∀ flushAll, op ≠ .mark flushAll) → op ∈ ops')
    (hcalls : ∀ fop, Call.other id fop ∈ s.calls → Busy s' ops' id) : Busy s' ops' id := by
  rcases h with hmem | ⟨fop, hw, hmem⟩ | hmem | ⟨fop, hcall⟩
  · exact .inl (hops _ hmem nofun)
  · exact .inr (.inl ⟨fop, hw, hops _ hmem nofun⟩)
  · exact .inr (.inr (.inl (hops _ hmem nofun)))
  · exact hcalls fop hcall

theorem Busy.of_calls {s s' : State} {ops : List Op} (hcalls : s.calls ⊆ s'.calls) (fop : OtherFop)
    (hmem : Call.other id fop ∈ s.calls) : Busy s' ops id := .inr (.inr (.inr ⟨fop, hcalls hmem⟩))

/-- What holds of one request. -/
structure Request.Ready (ops : List Op) (r : Request) : Prop where
  vector : r.fop.isWrite = true → r.fop.vector ≠ []
  reply : r.fop.isWrite = true → r.gotReply = false
  refs : r.fop.isWrite = false → r.refcount = 1
  detached : r.stub = false → r.markedForResume = true
  detaching : Op.detach r.id ∈ ops → r.markedForResume = true

/-- The invariant of a run in which no write is answered too early. -/
structure Progressing (s : State) (ops : List Op) : Prop where
  base : Consistent s ops
  ready : ∀ r ∈ s.queue, r.Ready ops
  busy : ∀ r ∈ s.queue, r.markedForResume = true → Busy s ops r.id
  acks : ∀ id, Op.unref id true ∈ ops → ¬ IsOther s.issued id
  head : (∃ flushAll, Op.mark flushAll ∈ ops) ∨ HeadMoves s.queue

theorem Request.Ready.mono {ops ops' : List Op} (h : r.Ready ops)
    (hops : Op.detach r.id ∈ ops' → Op.detach r.id ∈ ops) : r.Ready ops' :=
  { h with detaching := fun hmem => h.detaching (hops hmem) }

namespace Progressing

variable {conf : Conf} {s s' : State} {ops ops' new : List Op}

theorem of_queue_eq (h : Progressing s ops) (hbase : Consistent s' ops') (hqueue : s'.queue = s.queue)
    (hissued : s'.issued = s.issued) (hdetach : ∀ id, Op.detach id ∈ ops' → Op.detach id ∈ ops)
    (hbusy : ∀ id, Busy s ops id → Busy s' ops' id) (hacks : ∀ id, Op.unref id true ∈ ops' → Op.unref id true ∈ ops)
    (hmark : ∀ flushAll, Op.mark flushAll ∈ ops → Op.mark flushAll ∈ ops') : Progressing s' ops' where
  base := hbase
  ready := by
    rw [hqueue]
    exact fun r hr => (h.ready r hr).mono (hdetach r.id)
  busy := by
    rw [hqueue]
    exact fun r hr hm => hbusy r.id (h.busy r hr hm)
  acks := by
    rw [hissued]
    exact fun id hid => h.acks id (hacks id hid)
  head := by
    rw [hqueue]
    exact h.head.imp_left fun ⟨flushAll, hmem⟩ => ⟨flushAll, hmark flushAll hmem⟩

/-! ## A pass -/

/-- **The head of the queue after a pass.** Either it could be resumed, or it is a write that had to be wound because
    an operation is behind it. -/
theorem head_through {q : List Request} {log : List Event} {unrefs onWay resumes : List Nat}
    (hq : Sound s.issued q log unrefs onWay resumes) (hready : ∀ r ∈ q, r.Ready ops) (flushAll : Bool) :
    HeadMoves (windsAfter conf s flushAll (getOtherRequests q)).queue := by
  have hkind : ∀ o ∈ (windsAfter conf s flushAll (getOtherRequests q)).queue, o.fop.isWrite = false →
      ∃ o' ∈ q, o'.fop.isWrite = false := by
    have hfops : (windsAfter conf s flushAll (getOtherRequests q)).queue.map Request.fop = q.map Request.fop :=
      ((windsAfter_marks conf s flushAll (getOtherRequests q)).map_eq fun _ => rfl).trans
        ((others_marks q).map_eq fun _ => rfl)
    intro o ho hother
    have hmem : o.fop ∈ q.map Request.fop := hfops ▸ mem_map_of_mem ho
    obtain ⟨o', ho', heq⟩ := mem_map.mp hmem
    exact ⟨o', ho', by rw [heq, hother]⟩
  rintro ⟨o, ho, hother⟩
  obtain ⟨o', ho', hother'⟩ := hkind o ho hother
  cases q with
  | nil => cases ho'
  | cons r rs =>
    have hr := hready r mem_cons_self
    have hothers := others_marks (r :: rs)
    have hwinds := windsAfter_marks conf s flushAll (getOtherRequests (r :: rs))
    have hwound : ∀ x : Request, x.Moves → x.wound.Moves := by
      rintro x (⟨hw, -⟩ | hx)
      · exact .inl ⟨hw, rfl⟩
      · exact .inr hx
    by_cases hmoves : r.Moves
    · -- it moved already
      obtain ⟨r1, rest1, heq, hr1⟩ := marks_head hothers (fun hx => hx.imp_right fun hx => ⟨hx.1, rfl⟩) hmoves
      rw [heq] at hwinds
      exact marks_head hwinds (hwound r1) hr1
    by_cases hw : r.fop.isWrite = true
    · have hstub := (hq.request r mem_cons_self).stub hw
      have hrw : r.isWrite = true := Request.isWrite_iff.mpr ⟨hstub, hw⟩
      have hrs : r.stackWound = false := Bool.eq_false_iff.mpr fun hs => hmoves (.inl ⟨hw, hs⟩)
      have hnone : getOtherRequests (r :: rs) = .stop (r :: rs) := by
        rw [getOtherRequests, if_pos (by simp [hw])]
      rw [hnone] at ho ⊢
      -- behind a write no operation was marked, and behind one that is not wound no write is
      have hbeh : ∀ x ∈ rs, (x.fop.isWrite = false → x.stub = true) ∧
          (x.fop.isWrite = true → x.stackWound = false) := by
        intro x hx
        constructor
        · intro _
          by_contra hxs
          have hm := (hready x (mem_cons_of_mem r hx)).detached (Bool.eq_false_iff.mpr hxs)
          have := (pairwise_cons.mp hq.marked).1 x hx hm
          rw [hw] at this
          cases this
        intro hxw
        by_contra hxs
        have := ((pairwise_cons.mp hq.wound).1 x hx hxw (Bool.not_eq_false _ ▸ hxs)).2
        rw [hrs] at this
        cases this
      have hstop := canWind_stops (r :: rs) none (fun x hx => (hq.request x hx).stub)
        (forall_mem_cons.mpr ⟨fun _ => hrs, fun x hx => (hbeh x hx).2⟩)
        (forall_mem_cons.mpr ⟨fun _ => hstub, fun x hx => (hbeh x hx).1⟩) ⟨o', ho', hother'⟩
      obtain ⟨rest, hrest⟩ := markWinds_head conf.aggregateSize s.aggregateCurrent flushAll
        conf.enableTricklingWrites hrw hrs hstop
      exact ⟨r.wound, rest, hrest, .inl ⟨hw, rfl⟩⟩
    -- an operation at the head is resumed now
    have hw : r.fop.isWrite = false := Bool.eq_false_iff.mpr hw
    have hm : r.markedForResume = false := Bool.eq_false_iff.mpr fun hm => hmoves (.inr ⟨hw, hm⟩)
    have hstub : r.stub = true := by
      by_contra hs
      rw [hr.detached (Bool.eq_false_iff.mpr hs)] at hm
      cases hm
    have htake : (getOtherRequests (r :: rs)).queue = r.marked :: rs := by
      rw [getOtherRequests, if_neg (by simp [hstub, hw]), if_neg (by simp [hm])]
      rfl
    rw [htake] at hwinds
    exact marks_head hwinds (hwound r.marked) (.inr ⟨hw, rfl⟩)

/-- **A pass.** -/
theorem mark {flushAll : Bool} (h : Progressing s (.mark flushAll :: ops)) (hbase : Consistent s' (new ++ ops))
    (he : wbProcessQueue conf s flushAll = .ok (s', new)) : Progressing s' (new ++ ops) := by
  obtain ⟨collapsed, hcol, rfl, rfl⟩ := wbProcessQueue_cases he
  have hq := h.base.queue
  have hunw := s.unwinds_marks
  have hmerges := collapseWriteBufs_merges Packing.Sound.start hcol
  have hmerge := (hq.unwindAll hunw).collapseAll hmerges
  have hothers := others_marks collapsed.queue
  have hsound := hmerge.markAll hothers
  have hwinds := s.winds_marks conf flushAll collapsed
  -- up to the operation that is resumed, the pass changes nothing that matters here
  have hready : ∀ r ∈ collapsed.queue, r.Ready (.mark flushAll :: ops) := by
    refine hmerges.forall_mem ?_ (hunw.forall_mem (fun a ha => ⟨ha.vector, ha.reply, ha.refs, ha.detached,
      ha.detaching⟩) h.ready)
    intro a b hab ha _
    have hwa := (Request.isWrite_iff.mp hab.1.1).2
    refine ⟨fun _ => ?_, fun _ => ha.reply hwa, fun hnot => ?_, ha.detached, ha.detaching⟩
    · intro hnil
      unfold Request.absorb at hnil
      cases hf : a.fop with
      | other fop => exact hab.2.2.2 (by rw [hf]; rfl)
      | write off vector =>
        cases vector with
        | nil => exact hab.2.2.2 (by rw [hf]; rfl)
        | cons len lens => simp [hf, Fop.vector] at hnil
    rw [Request.absorb_isWrite, hwa] at hnot
    cases hnot
  have hbusy : ∀ r ∈ collapsed.queue, r.markedForResume = true → Busy s (.mark flushAll :: ops) r.id := by
    refine hmerges.forall_mem ?_ (hunw.forall_mem (P := fun r : Request => r.markedForResume = true → Busy s _ r.id)
      (fun _ hx => hx) h.busy)
    exact fun _ _ _ ha _ => ha
  have hhead : HeadMoves (s.winds conf flushAll collapsed).queue :=
    head_through hmerge hready flushAll
  generalize s.unwinds = unwinds at *
  generalize s.winds conf flushAll collapsed = winds at *
  generalize getOtherRequests collapsed.queue = others at *
  -- an operation the thread will detach was marked, in this pass or before
  have hdetach : ∀ r ∈ others.queue, Op.detach r.id ∈ unwindOps unwinds.marked ++
      (sync conf.aggregateSize winds.marked).map .send ++ resumeOps others.marked ++ ops →
        r ∈ others.marked ∨ Op.detach r.id ∈ ops := by
    intro r hr hmem
    rcases mem_append.mp hmem with hmem | hmem
    · obtain ⟨x, hx, hid⟩ := detach_mem_pass hmem
      exact .inl (hsound.unique (hothers.marked_sublist.subset hx) hr hid ▸ hx)
    · exact .inr hmem
  have hmark : ∀ r ∈ others.marked, ∃ a ∈ collapsed.queue, a.fop.isWrite = false ∧ r = a.marked := by
    intro r hr
    obtain ⟨a, ha, ⟨before, hnext⟩, rfl⟩ := hothers.mem_marked hr
    exact ⟨a, ha, hnext.2.1, rfl⟩
  refine
    { base := hbase
      ready := hwinds.forall_mem (fun a ha => ⟨ha.vector, ha.reply, ha.refs, ha.detached, ha.detaching⟩) ?_
      busy := hwinds.forall_mem (P := fun r : Request => r.markedForResume = true → Busy _ _ r.id) (fun _ hx => hx) ?_
      acks := ?_
      head := .inr hhead }
  · intro r hr
    rcases hothers.mem_cases hr with hold | hnow
    · have hold := hready r hold
      refine { hold with detaching := fun hmem => ?_ }
      rcases hdetach r hr hmem with hnow | hmem
      · obtain ⟨a, -, -, rfl⟩ := hmark r hnow
        rfl
      · exact hold.detaching (mem_cons_of_mem _ hmem)
    obtain ⟨a, ha, -, rfl⟩ := hmark r hnow
    have hold := hready a ha
    exact ⟨hold.vector, hold.reply, hold.refs, fun _ => rfl, fun _ => rfl⟩
  · intro r hr hm
    rcases hothers.mem_cases hr with hold | hnow
    · refine (hbusy r hold hm).mono (fun op hmem hop => ?_) (.of_calls (List.Subset.refl _))
      exact mem_append_right _ ((mem_cons.mp hmem).resolve_left (hop flushAll))
    obtain ⟨a, -, hother, rfl⟩ := hmark r hnow
    exact .inl (mem_append_left _ (mem_append_right _ (detach_mem_resumeOps hnow hother)))
  intro id hmem
  rcases mem_append.mp hmem with hmem | hmem
  · obtain ⟨r, hr, rfl⟩ := unref_mem_pass hmem
    have hunwound := hq.unwindAll hunw
    obtain ⟨a, -, ⟨before, hunacked⟩, rfl⟩ := hunw.mem_marked hr
    exact (hunwound.request _ (hunw.marked_sublist.subset hr)).not_isOther (Request.isWrite_iff.mp hunacked.1).2
  · exact h.acks id (mem_cons_of_mem _ hmem)

/-! ## The other operations -/

theorem busy_tail (h : Busy s (op :: ops) id) (hcalls : s.calls ⊆ s'.calls)
    (hop : (op = .detach id ∨ (∃ fop, fop.wind = true ∧ op = .resume id fop) ∨ op = .unref id false) →
      Busy s' (new ++ ops) id) : Busy s' (new ++ ops) id := by
  rcases h with hmem | ⟨fop, hw, hmem⟩ | hmem | ⟨fop, hcall⟩
  · rcases mem_cons.mp hmem with heq | hmem
    · exact hop (.inl heq.symm)
    · exact .inl (mem_append_right _ hmem)
  · rcases mem_cons.mp hmem with heq | hmem
    · exact hop (.inr (.inl ⟨fop, hw, heq.symm⟩))
    · exact .inr (.inl ⟨fop, hw, mem_append_right _ hmem⟩)
  · rcases mem_cons.mp hmem with heq | hmem
    · exact hop (.inr (.inr heq.symm))
    · exact .inr (.inr (.inl (mem_append_right _ hmem)))
  · exact .inr (.inr (.inr ⟨fop, hcalls hcall⟩))

theorem of_done (h : Progressing s (op :: ops)) (hbase : Consistent s' (new ++ ops))
    (hqueue : s'.queue = s.queue) (hissued : s'.issued = s.issued) (hcalls : s.calls ⊆ s'.calls)
    (hnew : ∀ x ∈ new, ∃ flushAll, x = .mark flushAll) (hmark : ∀ flushAll, op ≠ .mark flushAll)
    (hop : ∀ id, (op = .detach id ∨ (∃ fop, fop.wind = true ∧ op = .resume id fop) ∨ op = .unref id false) →
      Busy s' (new ++ ops) id) : Progressing s' (new ++ ops) := by
  -- of what the thread does now only passes are new
  have hold : ∀ {x : Op}, x ∈ new ++ ops → (∀ flushAll, x ≠ .mark flushAll) → x ∈ op :: ops := by
    intro x hx hnot
    rcases mem_append.mp hx with hx | hx
    · obtain ⟨flushAll, heq⟩ := hnew x hx
      exact absurd heq (hnot flushAll)
    · exact mem_cons_of_mem _ hx
  refine h.of_queue_eq hbase hqueue hissued (fun id hmem => hold hmem nofun)
    (fun id hb => busy_tail hb hcalls (hop id)) (fun id hmem => hold hmem nofun) ?_
  intro flushAll hmem
  exact mem_append_right _ ((mem_cons.mp hmem).resolve_left fun heq => hmark flushAll heq.symm)

theorem enqueue {fop : Fop} (h : Progressing s (.enqueue fop :: ops)) (hvector : HasVector s (.enqueue fop))
    (hbase : Consistent s' (new ++ ops)) (he : WriteBehind.exec conf s (.enqueue fop) = .ok (s', new)) :
    Progressing s' (new ++ ops) := by
  cases he
  have hq := h.base.queue
  have hafter : ∀ x ∈ afterEnqueue s.issued.length fop,
      (∃ flushAll, x = .mark flushAll) ∨ ∃ id behind, x = .flush id behind := by
    intro x hx
    cases fop with
    | write off vector => exact .inl ⟨false, by simpa [afterEnqueue] using hx⟩
    | other fop =>
      cases fop with
      | flush behind =>
        rcases (by simpa [afterEnqueue] using hx : x = .mark true ∨ x = .flush _ behind) with rfl | rfl
        · exact .inl ⟨true, rfl⟩
        · exact .inr ⟨_, behind, rfl⟩
      | _ => exact .inl ⟨true, by simpa [afterEnqueue] using hx⟩
  have hpass : ∃ flushAll, Op.mark flushAll ∈ afterEnqueue s.issued.length fop := by
    cases fop with
    | write off vector => exact ⟨false, mem_cons_self⟩
    | other fop => cases fop <;> exact ⟨true, mem_cons_self⟩
  have hold : ∀ {x : Op}, x ∈ afterEnqueue s.issued.length fop ++ ops → (∀ flushAll, x ≠ .mark flushAll) →
      (∀ id behind, x ≠ .flush id behind) → x ∈ Op.enqueue fop :: ops := by
    intro x hx hmark hflush
    rcases mem_append.mp hx with hx | hx
    · rcases hafter x hx with ⟨flushAll, heq⟩ | ⟨id, behind, heq⟩
      · exact absurd heq (hmark flushAll)
      · exact absurd heq (hflush id behind)
    · exact mem_cons_of_mem _ hx
  refine
    { base := hbase
      ready := ?_
      busy := ?_
      acks := ?_
      head := ?_ }
  · intro r hr
    rcases mem_append.mp hr with hr | hr
    · exact (h.ready r hr).mono fun hmem => hold hmem nofun (fun _ _ heq => nomatch heq)
    rw [mem_singleton.mp hr]
    refine ⟨?_, fun _ => rfl, ?_, fun hs => (nomatch hs), fun hmem => ?_⟩
    · intro hw
      cases fop with
      | write off vector => exact hvector
      | other _ => cases hw
    · intro hw
      show (if fop.isWrite then 2 else 1) = 1
      rw [if_neg (show ¬ fop.isWrite = true from Bool.eq_false_iff.mp hw)]
    -- the new number is not yet in use
    have hin := hold hmem nofun (fun _ _ heq => nomatch heq)
    have hother := (hq.next s.issued.length (mem_flatMap.mpr ⟨_, hin, mem_singleton_self _⟩)).1
    exact absurd hother.lt (lt_irrefl _)
  · intro r hr hm
    rcases mem_append.mp hr with hr | hr
    · refine busy_tail (h.busy r hr hm) (List.Subset.refl _) ?_
      rintro (heq | ⟨_, _, heq⟩ | heq) <;> cases heq
    rw [mem_singleton.mp hr] at hm
    cases hm
  · intro id hmem hother
    have hin := hold hmem nofun (fun _ _ heq => nomatch heq)
    have hlt := hq.owed id (mem_flatMap.mpr ⟨_, hin, mem_singleton_self _⟩)
    exact h.acks id hin (hother.of_append hlt)
  obtain ⟨flushAll, hmem⟩ := hpass
  exact .inl ⟨flushAll, mem_append_left _ hmem⟩

/-- **A reference is given back**: a write stays until the child has answered, and with an operation comes a pass. -/
theorem unref {acked : Bool} (h : Progressing s (.unref id acked :: (rest ++ ops)))
    (hleads : Leads (.unref id acked) rest) (hbase : Consistent s' (new ++ (rest ++ ops)))
    (he : WriteBehind.exec conf s (.unref id acked) = .ok (s', new)) : Progressing s' (new ++ (rest ++ ops)) := by
  cases he
  have hq := h.base.queue
  refine
    { base := hbase
      ready := ?_
      busy := ?_
      acks := fun x hmem => h.acks x (mem_cons_of_mem _ hmem)
      head := ?_ }
  · intro b hb
    obtain ⟨a, ha, hab⟩ := mem_filterMap.mp hb
    have hready := h.ready a ha
    rcases Sound.unref_cases hab with ⟨-, rfl⟩ | ⟨-, hlt, rfl⟩
    · exact hready.mono (mem_cons_of_mem _)
    refine ⟨hready.vector, hready.reply, fun hw => ?_, hready.detached, fun hmem => ?_⟩
    · have := hready.refs hw
      omega
    · exact hready.detaching (mem_cons_of_mem _ hmem)
  · intro b hb hm
    obtain ⟨a, ha, hab⟩ := mem_filterMap.mp hb
    have hshape := Sound.unref_shape hab
    rw [hshape.markedForResume] at hm
    rw [hshape.id]
    show Busy _ ([] ++ (rest ++ ops)) a.id
    refine busy_tail (h.busy a ha hm) (List.Subset.refl _) ?_
    rintro (heq | ⟨_, _, heq⟩ | heq)
    · cases heq
    · cases heq
    -- the last reference of an operation takes it off the queue
    cases heq
    rcases Sound.unref_cases hab with ⟨hne, -⟩ | ⟨-, hlt, -⟩
    · exact absurd rfl hne
    have := (h.ready a ha).refs ((hq.request a ha).marked hm)
    omega
  cases acked with
  | false =>
    obtain ⟨flushAll, hmem⟩ := hleads
    exact .inl ⟨flushAll, mem_append_right _ (mem_append_left _ hmem)⟩
  | true =>
    rcases h.head with ⟨flushAll, hmem⟩ | hhead
    · exact .inl ⟨flushAll, (mem_cons.mp hmem).resolve_left nofun⟩
    refine .inr (hhead.filterMap ?_)
    intro r hr
    by_cases hid : r.id = id
    · subst hid
      have hnot := h.acks r.id mem_cons_self
      have hval := hq.request r hr
      have hw : r.fop.isWrite = true := by
        by_contra hw
        obtain ⟨-, f, hf, hkind, -⟩ := hval.carried r.id hval.self
        exact hnot ⟨f, hf, by rw [hkind]; exact Bool.eq_false_iff.mpr hw⟩
      obtain ⟨b, hb, -⟩ : ∃ b, (if r.id = r.id then r.unref else some r) = some b ∧ True := by
        rw [if_pos rfl, Request.unref]
        have hrefs := hval.refs hw
        have howed : r.id ∈ (Op.unref r.id true :: (rest ++ ops)).flatMap Op.unrefs :=
          mem_append_left _ mem_cons_self
        have hb : r.writeBehind = true := by
          by_contra hb
          exact hval.unacked hw (Bool.eq_false_iff.mpr hb) howed
        have hcnt := count_pos_iff.mpr howed
        simp only [hb, (h.ready r hr).reply hw, Bool.false_eq_true, if_false, if_true] at hrefs
        rw [if_neg (by omega)]
        exact ⟨_, rfl, trivial⟩
      exact ⟨b, hb, Sound.unref_shape hb⟩
    · exact ⟨r, if_neg hid, ⟨rfl, rfl, rfl, rfl, rfl, rfl⟩⟩

/-- **An operation is about to be resumed.** -/
theorem detach (h : Progressing s (.detach id :: (rest ++ ops)))
    (hleads : Leads (.detach id) rest) (hbase : Consistent s' (new ++ (rest ++ ops)))
    (he : WriteBehind.exec conf s (.detach id) = .ok (s', new)) : Progressing s' (new ++ (rest ++ ops)) := by
  cases he
  have hcases : ∀ b ∈ s.queue.map (Request.detach id), ∃ a ∈ s.queue, b = a.detach id := by
    intro b hb
    obtain ⟨a, ha, rfl⟩ := mem_map.mp hb
    exact ⟨a, ha, rfl⟩
  refine
    { base := hbase
      ready := ?_
      busy := ?_
      acks := fun x hmem => h.acks x (mem_cons_of_mem _ hmem)
      head := ?_ }
  · intro b hb
    obtain ⟨a, ha, rfl⟩ := hcases b hb
    have hready := h.ready a ha
    rcases Sound.detach_cases id a with ⟨rfl, heq⟩ | ⟨-, heq⟩
    · rw [heq]
      have hmark := hready.detaching mem_cons_self
      exact ⟨hready.vector, hready.reply, hready.refs, fun _ => hmark, fun _ => hmark⟩
    rw [heq]
    exact hready.mono (mem_cons_of_mem _)
  · intro b hb hm
    obtain ⟨a, ha, rfl⟩ := hcases b hb
    have hshape := Sound.detach_shape id a
    rw [hshape.markedForResume] at hm
    rw [hshape.id]
    show Busy _ ([] ++ (rest ++ ops)) a.id
    refine busy_tail (h.busy a ha hm) (List.Subset.refl _) ?_
    rintro (heq | ⟨_, _, heq⟩ | heq)
    · -- the thread goes on with it
      cases heq
      rcases hleads with ⟨fop, hw, hmem⟩ | hmem
      · exact .inr (.inl ⟨fop, hw, mem_append_right _ (mem_append_left _ hmem)⟩)
      · exact .inr (.inr (.inl (mem_append_right _ (mem_append_left _ hmem))))
    · cases heq
    · cases heq
  rcases h.head with ⟨flushAll, hmem⟩ | hhead
  · exact .inl ⟨flushAll, (mem_cons.mp hmem).resolve_left nofun⟩
  refine .inr ?_
  show HeadMoves (s.queue.map (Request.detach id))
  rw [← filterMap_eq_map]
  exact hhead.filterMap fun r _ => ⟨_, rfl, Sound.detach_shape id r⟩

/-- **One operation of a thread.** -/
theorem exec (h : Progressing s (op :: (rest ++ ops))) (hvector : HasVector s op)
    (hleads : Leads op rest) (he : WriteBehind.exec conf s op = .ok (s', new)) :
    Progressing s' (new ++ (rest ++ ops)) := by
  have hbase := h.base.exec he
  cases op with
  | enqueue fop => exact h.enqueue hvector hbase he
  | mark flushAll => exact h.mark hbase he
  | unref id acked => exact h.unref hleads hbase he
  | detach id => exact h.detach hleads hbase he
  | unwind id =>
    obtain ⟨r, -, rfl, rfl⟩ := exec_unwind he
    refine h.of_done hbase rfl rfl (List.Subset.refl _) nofun nofun ?_
    rintro _ (heq | ⟨_, _, heq⟩ | heq) <;> cases heq
  | send wind =>
    obtain ⟨rfl, rfl⟩ := exec_send he
    refine h.of_done hbase rfl rfl (subset_append_left _ _) nofun nofun ?_
    rintro _ (heq | ⟨_, _, heq⟩ | heq) <;> cases heq
  | resume id fop =>
    rcases exec_resume he with ⟨hwind, rfl, rfl⟩ | ⟨hwind, heq⟩
    · refine h.of_done hbase rfl rfl (subset_append_left _ _) nofun
        nofun ?_
      rintro _ (heq | ⟨_, _, heq⟩ | heq)
      · cases heq
      · cases heq
        exact .inr (.inr (.inr ⟨fop, mem_append_right _ mem_cons_self⟩))
      · cases heq
    have haside := wbFfrCbk_aside conf { s with log := .resumed id :: s.log } id
    have hnew := wbFfrCbk_marks conf { s with log := .resumed id :: s.log } id
    rw [heq] at haside hnew
    refine h.of_done hbase haside.queue haside.issued (fun _ hc => haside.calls ▸ hc) hnew
      nofun ?_
    rintro _ (heq | ⟨_, hw, heq⟩ | heq)
    · cases heq
    · cases heq
      rw [hwind] at hw
      cases hw
    · cases heq
  | flush id behind =>
    cases he
    refine h.of_done hbase rfl rfl (subset_append_left _ _) nofun nofun ?_
    rintro _ (heq | ⟨_, _, heq⟩ | heq) <;> cases heq

/-! ## Answers of the child -/

theorem answer_write {wind : Wind} (h : Progressing s ops) (hcall : s.calls[j]? = some (.write wind))
    (opRet opErrno : Int) (hacked : AckedBefore s opRet (.write wind)) :
    Progressing (s.answered conf j opRet opErrno (.write wind)).1
      ((s.answered conf j opRet opErrno (.write wind)).2 ++ ops) := by
  have hbase := h.base.answer conf hcall opRet opErrno
  -- only requests the write was not for are left
  have hleft : ∀ b ∈ s.queue.filterMap (fun r => if r.id ∈ wind.ids then r.replied opRet opErrno else some r),
      b ∈ s.queue := by
    intro b hb
    obtain ⟨a, ha, hab⟩ := mem_filterMap.mp hb
    rcases Sound.answered_cases hab with ⟨hid, hr⟩ | ⟨-, rfl⟩
    · have hlt := (Sound.replied_cases hr).1
      have := hacked a ha hid
      omega
    · exact ha
  have hold : ∀ {x : Op}, x ∈ [Op.mark false] ++ ops → (∀ flushAll, x ≠ .mark flushAll) → x ∈ ops := by
    intro x hx hnot
    exact (mem_cons.mp hx).resolve_left (hnot false)
  refine
    { base := hbase
      ready := fun b hb => (h.ready b (hleft b hb)).mono fun hmem => hold hmem nofun
      busy := ?_
      acks := fun id hmem => h.acks id (hold hmem nofun)
      head := .inl ⟨false, mem_append_left _ mem_cons_self⟩ }
  intro b hb hm
  refine (h.busy b (hleft b hb) hm).mono (fun _ hmem _ => mem_append_right _ hmem) fun fop hmem => ?_
  exact .inr (.inr (.inr ⟨fop, mem_eraseIdx_of_ne hcall hmem nofun⟩))

/-- **One answer of the child.** -/
theorem answer {call : Call} (h : Progressing s ops) (hcall : s.calls[j]? = some call) (opRet opErrno : Int)
    (hacked : AckedBefore s opRet call) : Progressing (s.answered conf j opRet opErrno call).1
      ((s.answered conf j opRet opErrno call).2 ++ ops) := by
  have hbase := h.base.answer conf hcall opRet opErrno
  have hrest (hnot : ∀ wind, call ≠ .write wind)
      (hnew : ∀ x ∈ (s.answered conf j opRet opErrno call).2,
        (∃ flushAll, x = .mark flushAll) ∨ ∃ id fop, call = .other id fop ∧ x = .unref id false)
      (hunref : ∀ id fop, call = .other id fop →
        Op.unref id false ∈ (s.answered conf j opRet opErrno call).2) :
      Progressing (s.answered conf j opRet opErrno call).1
        ((s.answered conf j opRet opErrno call).2 ++ ops) := by
    have haside := answer_aside conf { s with calls := s.calls.eraseIdx j } opRet opErrno hnot
    have hold : ∀ {x : Op}, x ∈ (s.answered conf j opRet opErrno call).2
        ++ ops → (∀ flushAll, x ≠ .mark flushAll) → (∀ id, x ≠ .unref id false) → x ∈ ops := by
      intro x hx hmark hun
      refine (mem_append.mp hx).resolve_left fun hx => ?_
      rcases hnew x hx with ⟨flushAll, heq⟩ | ⟨id, fop, -, heq⟩
      · exact hmark flushAll heq
      · exact hun id heq
    refine h.of_queue_eq hbase haside.queue haside.issued
      (fun id hmem => hold hmem nofun nofun) ?_
      (fun id hmem => hold hmem nofun nofun)
      (fun _ hmem => mem_append_right _ hmem)
    refine fun id hb => hb.mono (fun _ hmem _ => mem_append_right _ hmem) fun fop hmem => ?_
    by_cases heq : call = .other id fop
    · exact .inr (.inr (.inl (mem_append_left _ (hunref id fop heq))))
    refine .inr (.inr (.inr ⟨fop, ?_⟩))
    rw [haside.calls]
    exact mem_eraseIdx_of_ne hcall hmem fun h => heq h.symm
  cases call with
  | write wind => exact h.answer_write hcall opRet opErrno hacked
  | other id fop =>
    have htwo : (s.answered conf j opRet opErrno (.other id fop)).2 =
        [.unref id false, .mark false] := by
      cases fop <;> rfl
    refine hrest nofun ?_ ?_
    · rw [htwo]
      intro x hx
      rcases (by simpa using hx : x = .unref id false ∨ x = .mark false) with rfl | rfl
      · exact .inr ⟨id, fop, rfl, rfl⟩
      · exact .inl ⟨false, rfl⟩
    rw [htwo]
    rintro id' fop' heq
    cases heq
    exact mem_cons_self
  | flush id behind =>
    refine hrest nofun (fun x hx => .inl ?_) (fun _ _ heq => nomatch heq)
    cases behind with
    | true => cases hx
    | false => exact wbFfrCbk_marks conf _ id x hx
  | direct size =>
    exact hrest nofun nofun (fun _ _ heq => nomatch heq)

theorem preserved (conf : Conf) : Preserved conf (Each Leads) HasVector AckedBefore Progressing where
  perm hperm h := by
    exact h.of_queue_eq (h.base.perm hperm) rfl rfl (fun _ hmem => hperm.mem_iff.mpr hmem)
      (fun _ hb => hb.mono (fun _ hmem _ => hperm.mem_iff.mp hmem) (.of_calls (List.Subset.refl _)))
      (fun _ hmem => hperm.mem_iff.mpr hmem) (fun _ hmem => hperm.mem_iff.mp hmem)
  threads ts h := { h with base := h.base.threads ts }
  enter fop h := by
    exact h.of_queue_eq (h.base.enter fop) rfl rfl
      (fun _ hmem => (mem_cons.mp hmem).resolve_left nofun)
      (fun _ hb => hb.mono (fun _ hmem _ => mem_cons_of_mem _ hmem) (.of_calls (List.Subset.refl _)))
      (fun _ hmem => (mem_cons.mp hmem).resolve_left nofun) (fun _ hmem => mem_cons_of_mem _ hmem)
  check h :=
    h.of_queue_eq (h.base.check .writev) rfl rfl (fun _ hmem => hmem) (fun _ hb => hb) (fun _ hmem => hmem)
      (fun _ hmem => hmem)
  direct till size h := by
    exact h.of_queue_eq (h.base.direct till size) rfl rfl (fun _ hmem => hmem)
      (fun _ hb => hb.mono (fun _ hmem _ => hmem) (.of_calls (subset_append_left _ _))) (fun _ hmem => hmem)
      (fun _ hmem => hmem)
  exec hvector hF _ h he := h.exec hvector (each_cons.mp hF).1 he
  answer opRet opErrno hacked _ hcall h := h.answer hcall opRet opErrno hacked

theorem create (conf : Conf) (disabled noWindow : Bool) :
    Progressing (.create conf disabled noWindow) (pending (State.create conf disabled noWindow).threads) where
  base := .create conf disabled noWindow
  ready _ hr := nomatch hr
  busy _ hr := nomatch hr
  acks _ hmem := nomatch hmem
  head := .inr fun ⟨_, ho, _⟩ => nomatch ho

/-- **When nothing is left to be done**, only writes are in the queue. -/
theorem idle (h : Progressing s []) (hcalls : s.calls = []) : ∀ r ∈ s.queue, r.fop.isWrite = true := by
  intro o ho
  by_contra hother
  have hhead := h.head.resolve_left fun ⟨_, hmem⟩ => nomatch hmem
  obtain ⟨r, rest, hqueue, hmoves⟩ := hhead ⟨o, ho, Bool.eq_false_iff.mpr hother⟩
  have hr : r ∈ s.queue := hqueue ▸ mem_cons_self
  rcases hmoves with ⟨hw, hs⟩ | ⟨-, hm⟩
  · -- the child would have it
    have hready := h.ready r hr
    have haway := h.base.queue.away r hr hw hs (hready.reply hw) (hready.vector hw)
    rw [hcalls] at haway
    cases haway
  rcases h.busy r hr hm with hmem | ⟨_, _, hmem⟩ | hmem | ⟨_, hmem⟩
  · cases hmem
  · cases hmem
  · cases hmem
  rw [hcalls] at hmem
  cases hmem

end Progressing

/-! ## Runs -/

/-- **No request is stuck.** In every state without outstanding calls and without a pass, every write the child has
    answered is acknowledged if every pass that found room in the window could acknowledge all writes; and no operation
    is left in the queue if no write was answered before its acknowledgement was complete. -/
theorem no_request_stuck (conf : Conf) (disabled noWindow : Bool) (actions : List Action) (s : State)
    (hrun : runFrom conf disabled noWindow actions = .ok s) (hidle : pending s.threads = []) (hcalls : s.calls = []) :
    (Transition.Along (step conf) (StepMeets Fits fun _ _ _ => True) (.create conf disabled noWindow) actions →
      ∀ w, Answered s.log w → ∃ opRet, Event.acked w opRet ∈ s.log) ∧
    (Transition.Along (step conf) (StepMeets HasVector AckedBefore) (.create conf disabled noWindow) actions →
      ∀ r ∈ s.queue, r.fop.isWrite = true) := by
  constructor
  · intro hfits w hw
    have hend := (Preserved.run (follows_true conf _ _) (Acknowledging.preserved conf)
      ⟨fun _ _ => trivial, Acknowledging.create conf disabled noWindow⟩ hfits hrun).2
    rw [hidle] at hend
    exact hend.idle hcalls hw
  intro hacked
  have hend := (Preserved.run (follows_leads conf _ _) (Progressing.preserved conf) (s := .create conf disabled noWindow)
    ⟨fun _ ht => (nomatch ht), Progressing.create conf disabled noWindow⟩ hacked hrun).2
  rw [hidle] at hend
  exact hend.idle hcalls

/-- A write of ten bytes and a read behind it, until both are done. -/
def writeThenRead : List Action :=
  [.writev 0 [10], .run 0, .run 0, .run 0, .run 0, .run 0, .other .readv, .run 1, .run 1, .reply 0 10 0, .run 2, .run 2,
    .run 2, .reply 0 0 0, .run 3, .run 3]

/-- The write is acknowledged, and the read is no longer in the queue. -/
theorem write_then_read_done :
    ∃ s, runFrom smallConf false false writeThenRead = .ok s ∧ Answered s.log 0 ∧
      (∃ opRet, Event.acked 0 opRet ∈ s.log) ∧ s.issued[1]? = some (.other .readv) ∧
      ∀ r ∈ s.queue, r.fop.isWrite = true := by
  obtain ⟨s, hs, hdata⟩ := Transition.map_eq_ok
    (show (runFrom smallConf false false writeThenRead).map
        (fun s => (s.log, s.issued[1]?, pending s.threads, s.calls)) =
      .ok ([.left 1, .resumed 1, .answered [0] 10 10, .sent [0], .acked 0 10, .checked .writev false],
        some (.other .readv), [], []) by decide +kernel)
  simp only [Prod.mk.injEq] at hdata
  obtain ⟨hlog, hissued, hidle, hcalls⟩ := hdata
  obtain ⟨hacked, hqueue⟩ := no_request_stuck smallConf false false writeThenRead s hs hidle.symm hcalls.symm
  have hanswered : Answered s.log 0 := by
    rw [← hlog]
    exact ⟨[0], 10, 10, by simp, by simp⟩
  exact ⟨s, hs, hanswered, hacked (by decide +kernel) 0 hanswered, hissued.symm, hqueue (by decide +kernel)⟩

/-- Six writes of the size of the window, and a read. The child answers the last four writes first. -/
def sixWritesAndRead : List Action :=
  [.writev 0 [131072], .run 0, .run 0, .run 0, .run 0, .run 0, .writev 131072 [131072], .run 1, .run 1, .run 1, .run 1,
    .run 1, .writev 262144 [131072], .run 2, .run 2, .run 2, .writev 393216 [131072], .run 3, .run 3, .run 3,
    .writev 524288 [131072], .run 4, .run 4, .run 4, .writev 655360 [131072], .run 5, .run 5, .run 5, .other .readv,
    .run 6, .run 6, .reply 2 131072 0, .run 7, .reply 2 131072 0, .run 8, .reply 2 131072 0, .run 9,
    .reply 2 131072 0, .run 10, .reply 0 131072 0, .run 11, .run 11, .run 11, .reply 0 131072 0, .run 12, .run 12,
    .run 12, .run 12, .run 12]

/-- The last write is answered and never acknowledged, and the read behind it is never resumed. -/
theorem write_and_read_stuck :
    ∃ s, runFrom smallConf false false sixWritesAndRead = .ok s ∧ pending s.threads = [] ∧ s.calls = [] ∧
      Answered s.log 5 ∧ (¬ ∃ opRet, Event.acked 5 opRet ∈ s.log) ∧
      (∃ r ∈ s.queue, r.fop = .other .readv) ∧ Event.resumed 6 ∉ s.log := by
  obtain ⟨s, hs, hdata⟩ := Transition.map_eq_ok
    (show (runFrom smallConf false false sixWritesAndRead).map
        (fun s => (s.log, s.queue.map Request.fop, pending s.threads, s.calls)) =
      .ok ([.acked 4 131072, .acked 3 131072, .answered [1] 131072 131072, .acked 2 131072,
        .answered [0] 131072 131072, .answered [5] 131072 131072, .answered [4] 131072 131072,
        .answered [3] 131072 131072, .answered [2] 131072 131072, .sent [5], .checked .writev false, .sent [4],
        .checked .writev false, .sent [3], .checked .writev false, .sent [2], .checked .writev false, .sent [1],
        .acked 1 131072, .checked .writev false, .sent [0], .acked 0 131072, .checked .writev false],
        [.write 655360 [131072], .other .readv], [], []) by decide +kernel)
  simp only [Prod.mk.injEq] at hdata
  obtain ⟨hlog, hqueue, hidle, hcalls⟩ := hdata
  refine ⟨s, hs, hidle.symm, hcalls.symm, ?_, ?_, ?_, ?_⟩
  · rw [← hlog]
    exact ⟨[5], 131072, 131072, by simp, by simp⟩
  · rw [← hlog]
    rintro ⟨opRet, hmem⟩
    simp at hmem
  · have hmem : Fop.other .readv ∈ s.queue.map Request.fop := by
      rw [← hqueue]
      simp
    exact mem_map.mp hmem
  rw [← hlog]
  simp

end GlusterFS.WriteBehind
