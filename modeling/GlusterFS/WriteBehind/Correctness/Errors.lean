import GlusterFS.WriteBehind.Correctness.Ordering

/-!
# `WriteBehind.Correctness.Errors` — which errors the application is told

A write that fails after it was acknowledged leaves its error in `file->op_ret`, and the next writev, fsync or flush
returns it. For every interleaving: the next of them after a failed child write returns an error (`Reporting`). What
the child writes short is no error for `wb_sync_cbk`, which looks at `op_ret == -1` only.

A write that fails *before* it is acknowledged gets the error as its own answer, and `file->op_ret` is set all the
same. So the second half, that no error is told twice, needs that a child write that fails has a write in it that was
acknowledged (`BehindFails`).
-/

namespace GlusterFS.WriteBehind

open History Scan Threads List

/-! ## The error that waits -/

/-- A child write has failed since the last check. -/
def errorWaits : List Event → Bool
  | [] => false
  | .checked _ _ :: _ => false
  | .answered _ _ opRet :: earlier => decide (opRet = -1) || errorWaits earlier
  | _ :: earlier => errorWaits earlier

/-- The event is no check. -/
def Event.NoCheck (e : Event) : Prop := ∀ who error, e ≠ .checked who error

/-- An event that neither checks nor brings an error. -/
def Event.Neutral : Event → Prop
  | .checked _ _ => False
  | .answered _ _ _ => False
  | _ => True

theorem errorWaits_neutral {e : Event} (he : e.Neutral) (log : List Event) : errorWaits (e :: log) = errorWaits log := by
  cases e with
  | checked _ _ | answered _ _ _ => exact he.elim
  | sent _ | acked _ _ | resumed _ | left _ => rfl

theorem errorWaits_append {between log : List Event} (hbetween : ∀ e ∈ between, Event.NoCheck e)
    (h : errorWaits log = true) : errorWaits (between ++ log) = true := by
  induction between with
  | nil => exact h
  | cons e between ih =>
    have hrest := ih fun x hx => hbetween x (mem_cons_of_mem e hx)
    cases e with
    | checked who error => exact absurd rfl (hbetween _ mem_cons_self who error)
    | answered writes size opRet => simp [errorWaits, hrest]
    | sent _ | acked _ _ | resumed _ | left _ => exact hrest

theorem exists_of_errorWaits {log : List Event} (h : errorWaits log = true) :
    ∃ between writes size rest, log = between ++ .answered writes size (-1) :: rest ∧
      ∀ e ∈ between, Event.NoCheck e := by
  induction log with
  | nil => cases h
  | cons e log ih =>
    -- an event that is no check, in front of what is found further back
    have hfurther : e.NoCheck → errorWaits log = true → ∃ between writes size rest,
        e :: log = between ++ .answered writes size (-1) :: rest ∧ ∀ x ∈ between, Event.NoCheck x := by
      intro hcheck hlog
      obtain ⟨between, writes, size, rest, rfl, hbetween⟩ := ih hlog
      exact ⟨e :: between, writes, size, rest, rfl, forall_mem_cons.mpr ⟨hcheck, hbetween⟩⟩
    cases e with
    | checked who error => cases h
    | answered writes size opRet =>
      by_cases hret : opRet = -1
      · subst hret
        exact ⟨[], writes, size, log, rfl, nofun⟩
      · exact hfurther (fun _ _ heq => nomatch heq) (by simpa [errorWaits, hret] using h)
    | sent _ | acked _ _ | resumed _ | left _ => exact hfurther (fun _ _ heq => nomatch heq) h

/-- A check returns the error that waits. -/
def Reported : Event → List Event → Prop
  | .checked _ error, earlier => error = errorWaits earlier
  | _, _ => True

theorem Event.Neutral.reported {e : Event} (he : e.Neutral) (earlier : List Event) : Reported e earlier := by
  cases e with
  | checked _ _ | answered _ _ _ => exact he.elim
  | sent _ | acked _ _ | resumed _ | left _ => trivial

/-- `file->op_ret` is the error that waits, and every check has returned it. -/
structure Reporting (s : State) : Prop where
  waits : s.opRet = -1 ↔ errorWaits s.log = true
  reported : Each Reported s.log

namespace Reporting

variable {conf : Conf} {s s' : State} {new : List Op}

/-- A step that does not look at `file->op_ret`. -/
theorem of_neutral (h : Reporting s) (hret : s'.opRet = s.opRet) {es : List Event} (hes : ∀ e ∈ es, Event.Neutral e)
    (hlog : s'.log = es ++ s.log) : Reporting s' := by
  have hsame : errorWaits (es ++ s.log) = errorWaits s.log := by
    clear hlog
    induction es with
    | nil => rfl
    | cons e es ih =>
      rw [cons_append, errorWaits_neutral (hes e mem_cons_self)]
      exact ih fun x hx => hes x (mem_cons_of_mem e hx)
  constructor
  · rw [hlog, hsame, hret]
    exact h.waits
  rw [hlog]
  exact h.reported.append fun e he earlier => (hes e he).reported earlier

theorem check (h : Reporting s) (who : Checker) : Reporting (s.check who) := by
  constructor
  · show (0 : Int) = -1 ↔ errorWaits (.checked who _ :: s.log) = true
    simp [errorWaits]
  refine each_cons.mpr ⟨?_, h.reported⟩
  show decide (s.opRet = -1) = errorWaits s.log
  have hwaits := h.waits
  cases herr : errorWaits s.log with
  | true =>
    rw [herr] at hwaits
    exact decide_eq_true (hwaits.mpr rfl)
  | false =>
    rw [herr] at hwaits
    exact decide_eq_false fun hret => nomatch hwaits.mp hret

theorem ffrCbk (h : Reporting s) (conf : Conf) (id : Nat) : Reporting (wbFfrCbk conf s id).1 := by
  unfold wbFfrCbk
  split
  · exact h.check (.flush id)
  · exact ⟨h.waits, h.reported⟩

/-- **One operation of a thread.** -/
theorem exec {op : Op} (h : Reporting s) (he : exec conf s op = .ok (s', new)) : Reporting s' := by
  have hnone : ∀ e ∈ ([] : List Event), Event.Neutral e := nofun
  have hone : ∀ {e : Event}, e.Neutral → ∀ x ∈ [e], Event.Neutral x := by
    intro e he x hx
    rw [mem_singleton.mp hx]
    exact he
  cases op with
  | enqueue fop =>
    cases he
    exact h.of_neutral rfl hnone rfl
  | mark flushAll =>
    obtain ⟨collapsed, -, rfl, -⟩ := wbProcessQueue_cases he
    exact h.of_neutral rfl hnone rfl
  | unwind id =>
    obtain ⟨r, -, rfl, -⟩ := exec_unwind he
    exact h.of_neutral rfl (hone (e := .acked id r.opRet) trivial) rfl
  | unref id acked =>
    cases he
    by_cases hleaves : leaves id s.queue = true
    · exact h.of_neutral rfl (hone (e := .left id) trivial) (if_pos hleaves)
    · exact h.of_neutral rfl hnone (if_neg hleaves)
  | send wind =>
    obtain ⟨rfl, -⟩ := exec_send he
    exact h.of_neutral rfl (hone (e := .sent (carriedBy wind.ids s.queue)) trivial) rfl
  | detach id =>
    cases he
    exact h.of_neutral rfl hnone rfl
  | resume id fop =>
    have hresumed : Reporting { s with log := .resumed id :: s.log } :=
      h.of_neutral rfl (hone (e := .resumed id) trivial) rfl
    rcases exec_resume he with ⟨-, rfl, -⟩ | ⟨-, heq⟩
    · exact ⟨hresumed.waits, hresumed.reported⟩
    have hffr := hresumed.ffrCbk conf id
    rwa [heq] at hffr
  | flush id behind =>
    cases he
    exact h.of_neutral rfl hnone rfl

/-- **One answer of the child.** -/
theorem answer (h : Reporting s) (conf : Conf) (opRet opErrno : Int) (call : Call) :
    Reporting (answer conf s opRet opErrno call).1 := by
  cases call with
  | write wind =>
    refine ⟨?_, each_cons.mpr ⟨trivial, h.reported⟩⟩
    show (if opRet = -1 then -1 else s.opRet) = -1 ↔
      errorWaits (.answered (carriedBy wind.ids s.queue) wind.size opRet :: s.log) = true
    by_cases hret : opRet = -1
    · simp [errorWaits, hret]
    · simpa [errorWaits, hret] using h.waits
  | other id fop =>
    cases fop with
    | fsync => exact h.check (.fsync id)
    | stat | fstat | truncate | ftruncate | setattr | readv | flush behind => exact h
  | flush id behind =>
    cases behind with
    | true => exact h
    | false => exact h.ffrCbk conf id
  | direct size => exact h

theorem preserved (conf : Conf) :
    Preserved conf (fun _ => True) (fun _ _ => True) (fun _ _ _ => True) fun s _ => Reporting s where
  perm _ h := h
  threads _ h := ⟨h.waits, h.reported⟩
  enter _ h := h
  check h := h.check .writev
  direct _ _ h := ⟨h.waits, h.reported⟩
  exec _ _ _ h he := h.exec he
  answer {s _ j call} opRet opErrno _ _ _ h :=
    answer (s := { s with calls := s.calls.eraseIdx j }) ⟨h.waits, h.reported⟩ conf opRet opErrno call

theorem create (conf : Conf) (disabled noWindow : Bool) : Reporting (.create conf disabled noWindow) :=
  ⟨by simp [State.create, errorWaits], each_nil⟩

end Reporting

/-! ## Errors that are a write's own answer -/

/-- A child write that fails has a write in it that was acknowledged. -/
def BehindFails (s : State) (opRet : Int) : Call → Prop
  | .write wind => opRet = -1 → ∃ r ∈ s.queue, r.id ∈ wind.ids ∧ r.writeBehind = true
  | _ => True

instance decidableBehindFails (s : State) (opRet : Int) : ∀ call, Decidable (BehindFails s opRet call)
  | .write _ => inferInstanceAs (Decidable (_ → ∃ _ ∈ _, _))
  | .other _ _ | .flush _ _ | .direct _ => isTrue trivial

/-- The write is not answered with an error, now or later. -/
structure NotOwn (s : State) (w : Nat) : Prop where
  lt : w < s.issued.length
  log : Event.acked w (-1) ∉ s.log
  queue : ∀ r ∈ s.queue, r.id = w → r.writeBehind = true ∧ r.opRet ≠ -1

/-- The invariant of a run in which no error is told twice. -/
structure OwnErrors (s : State) (ops : List Op) : Prop where
  base : Consistent s ops
  clean : ∀ r ∈ s.queue, r.gotReply = false → r.opRet ≠ -1
  passive : ∀ r ∈ s.passive, r.opRet ≠ -1
  told : ∀ w, Event.acked w (-1) ∈ s.log → w < s.issued.length ∧ ∀ r ∈ s.queue, r.id = w → r.gotReply = true
  failed : ∀ writes size, Event.answered writes size (-1) ∈ s.log → ∃ w ∈ writes, NotOwn s w

namespace OwnErrors

variable {conf : Conf} {s s' : State} {ops ops' new : List Op}

/-- A step after which every request is one from before, with the same answer. -/
theorem of_requests (h : OwnErrors s ops) (hbase : Consistent s' ops') (hissued : s.issued.length ≤ s'.issued.length)
    (hqueue : ∀ b ∈ s'.queue, (b.id = s.issued.length ∧ b.opRet ≠ -1) ∨ ∃ a ∈ s.queue, b.id = a.id ∧
      b.opRet = a.opRet ∧ (a.writeBehind = true → b.writeBehind = true) ∧ (b.gotReply = false → a.gotReply = false))
    (hpassive : ∀ r ∈ s'.passive, r.opRet ≠ -1)
    (hlog : ∀ e ∈ s'.log, e ∈ s.log ∨ (∀ w, e ≠ .acked w (-1)) ∧ ∀ writes size, e ≠ .answered writes size (-1)) :
    OwnErrors s' ops' := by
  refine ⟨hbase, ?_, hpassive, ?_, ?_⟩
  · intro b hb hg
    rcases hqueue b hb with ⟨-, hret⟩ | ⟨a, ha, -, hret, -, hrep⟩
    · exact hret
    rw [hret]
    exact h.clean a ha (hrep hg)
  · intro w hacked
    obtain ⟨hlt, htold⟩ := h.told w ((hlog _ hacked).resolve_right fun hnew => hnew.1 w rfl)
    refine ⟨lt_of_lt_of_le hlt hissued, ?_⟩
    intro b hb hid
    rcases hqueue b hb with ⟨hnew, -⟩ | ⟨a, ha, hab, -, -, hrep⟩
    · exact absurd (hid ▸ hnew) (ne_of_lt hlt)
    by_contra hg
    have := hrep (Bool.eq_false_iff.mpr hg)
    rw [htold a ha (hab ▸ hid)] at this
    cases this
  intro writes size hmem
  have hold : Event.answered writes size (-1) ∈ s.log :=
    (hlog _ hmem).resolve_right fun hnew => hnew.2 writes size rfl
  obtain ⟨w, hw, hnot⟩ := h.failed writes size hold
  refine ⟨w, hw, lt_of_lt_of_le hnot.lt hissued, ?_, ?_⟩
  · intro hacked
    rcases hlog _ hacked with hin | hnew
    · exact hnot.log hin
    · exact hnew.1 w rfl
  intro b hb hid
  rcases hqueue b hb with ⟨hnew, -⟩ | ⟨a, ha, hab, hret, hbeh, -⟩
  · exact absurd (hid ▸ hnew) (ne_of_lt hnot.lt)
  obtain ⟨hwb, hok⟩ := hnot.queue a ha (hab ▸ hid)
  exact ⟨hbeh hwb, hret ▸ hok⟩

theorem requests_same {q q' : List Request} (h : q' = q) (n : Nat) :
    ∀ b ∈ q', (b.id = n ∧ b.opRet ≠ -1) ∨ ∃ a ∈ q, b.id = a.id ∧ b.opRet = a.opRet ∧
      (a.writeBehind = true → b.writeBehind = true) ∧ (b.gotReply = false → a.gotReply = false) := by
  subst h
  exact fun b hb => .inr ⟨b, hb, rfl, rfl, fun hx => hx, fun hx => hx⟩

theorem of_queue_eq (h : OwnErrors s ops) (hbase : Consistent s' ops') (hissued : s'.issued = s.issued)
    (hqueue : s'.queue = s.queue) (hpassive : s'.passive = s.passive)
    (hlog : ∀ e ∈ s'.log, e ∈ s.log ∨ (∀ w, e ≠ .acked w (-1)) ∧ ∀ writes size, e ≠ .answered writes size (-1)) :
    OwnErrors s' ops' :=
  h.of_requests hbase (le_of_eq (by rw [hissued])) (requests_same hqueue _) (hpassive ▸ h.passive) hlog

theorem log_cons {e : Event} {log : List Event} (hacked : ∀ w, e ≠ .acked w (-1))
    (hans : ∀ writes size, e ≠ .answered writes size (-1)) :
    ∀ x ∈ e :: log, x ∈ log ∨ (∀ w, x ≠ .acked w (-1)) ∧ ∀ writes size, x ≠ .answered writes size (-1) := by
  intro x hx
  rcases mem_cons.mp hx with rfl | hx
  · exact .inr ⟨hacked, hans⟩
  · exact .inl hx

theorem ffrCbk_frame (conf : Conf) (s : State) (id : Nat) :
    (wbFfrCbk conf s id).1.passive = s.passive ∧ ∀ e ∈ (wbFfrCbk conf s id).1.log, e ∈ s.log ∨
      (∀ w, e ≠ .acked w (-1)) ∧ ∀ writes size, e ≠ .answered writes size (-1) := by
  unfold wbFfrCbk
  split
  · exact ⟨rfl, log_cons nofun (fun _ _ heq => nomatch heq)⟩
  · exact ⟨rfl, fun _ he => .inl he⟩

/-- **A pass** moves requests to `passive_requests` that have no answer. -/
theorem mark {flushAll : Bool} (h : OwnErrors s (.mark flushAll :: ops)) (hbase : Consistent s' (new ++ ops))
    (he : wbProcessQueue conf s flushAll = .ok (s', new)) : OwnErrors s' (new ++ ops) := by
  obtain ⟨collapsed, hcol, rfl, rfl⟩ := wbProcessQueue_cases he
  have hq := h.base.queue
  have hunw := s.unwinds_marks
  have hmerges := collapseWriteBufs_merges Packing.Sound.start hcol
  refine h.of_requests hbase le_rfl ?_ ?_ (fun _ he => .inl he)
  · refine fun b hb => .inr (scans_forall flushAll hcol (P := fun b => ∃ a ∈ s.queue, b.id = a.id ∧
      b.opRet = a.opRet ∧ (a.writeBehind = true → b.writeBehind = true) ∧ (b.gotReply = false → a.gotReply = false))
      (fun _ _ _ ha _ => ha) (fun _ ha => ha) (fun _ ha => ha) ?_ b hb)
    refine hunw.forall_mem ?_ fun a ha => ⟨a, ha, rfl, rfl, fun hx => hx, fun hx => hx⟩
    rintro b ⟨a, ha, hid, hret, -, hrep⟩
    exact ⟨a, ha, hid, hret, fun _ => rfl, hrep⟩
  intro r hr
  rcases mem_append.mp hr with hr | hr
  · exact h.passive r hr
  obtain ⟨b, hb, hbr⟩ := mem_filterMap.mp hr
  -- only requests that are not wound are copied, and those have no answer
  have hflags : (b.gotReply = true → b.stackWound = true) ∧ (b.gotReply = false → b.opRet ≠ -1) := by
    refine hmerges.forall_out (P := fun r : Request => (r.gotReply = true → r.stackWound = true) ∧
      (r.gotReply = false → r.opRet ≠ -1)) (fun _ _ _ ha _ => ha) ?_ b hb
    exact hunw.forall_mem (fun _ ha => ha) fun a ha => ⟨(hq.request a ha).reply, h.clean a ha⟩
  have hloose : b.Loose := (hmerges.mem_out hb).elim (fun ⟨_, hab⟩ => hab.2.1) (fun hdrop => hdrop.1)
  have hg : b.gotReply = false := by
    by_contra hg
    have := hflags.1 (Bool.not_eq_false _ ▸ hg)
    rw [hloose.2.2] at this
    cases this
  have hret : r.opRet = b.opRet := by
    obtain ⟨-, rfl⟩ := Sound.unref_eq_some hbr
    rfl
  rw [hret]
  exact hflags.2 hg

/-- **One operation of a thread.** -/
theorem exec {op : Op} (h : OwnErrors s (op :: ops)) (he : WriteBehind.exec conf s op = .ok (s', new)) :
    OwnErrors s' (new ++ ops) := by
  have hbase := h.base.exec he
  cases op with
  | mark flushAll => exact h.mark hbase he
  | enqueue fop =>
    cases he
    refine h.of_requests hbase ?_ ?_ h.passive (fun _ he => .inl he)
    · rw [length_append]
      exact Nat.le_add_right _ _
    intro b hb
    rcases mem_append.mp hb with hb | hb
    · exact requests_same rfl _ b hb
    rw [mem_singleton.mp hb]
    refine .inl ⟨rfl, ?_⟩
    show (if fop.isWrite then (fop.size : Int) else 0) ≠ -1
    split <;> omega
  | unwind id =>
    obtain ⟨r, hr, rfl, rfl⟩ := exec_unwind he
    have hmem := mem_of_find?_eq_some hr
    have hrid : r.id = id := by simpa using find?_some hr
    -- an error is taken from a request of the queue that has its answer
    have herror : r.opRet = -1 → r ∈ s.queue ∧ r.gotReply = true := by
      intro hret
      have hin := (mem_append.mp hmem).resolve_right fun hin => h.passive r hin hret
      refine ⟨hin, ?_⟩
      by_contra hg
      exact h.clean r hin (Bool.eq_false_iff.mpr hg) hret
    refine ⟨hbase, h.clean, h.passive, ?_, ?_⟩
    · intro w hacked
      rcases mem_cons.mp hacked with heq | hacked
      · obtain ⟨rfl, hret⟩ := Event.acked.inj heq
        obtain ⟨hin, hg⟩ := herror hret.symm
        refine ⟨hrid ▸ (h.base.queue.request r hin).id_lt, ?_⟩
        intro b hb hid
        rw [h.base.queue.unique hb hin (hid.trans hrid.symm)]
        exact hg
      · exact h.told w hacked
    intro writes size hin
    obtain ⟨w, hw, hnot⟩ := h.failed writes size ((mem_cons.mp hin).resolve_left nofun)
    refine ⟨w, hw, hnot.lt, ?_, hnot.queue⟩
    intro hacked
    rcases mem_cons.mp hacked with heq | hacked
    · obtain ⟨rfl, hret⟩ := Event.acked.inj heq
      exact (hnot.queue r (herror hret.symm).1 hrid).2 hret.symm
    · exact hnot.log hacked
  | unref id acked =>
    cases he
    have hunref : ∀ {a b : Request}, (if a.id = id then a.unref else some a) = some b →
        b.opRet = a.opRet ∧ b.writeBehind = a.writeBehind ∧ b.gotReply = a.gotReply := by
      intro a b hab
      rcases Sound.unref_cases hab with ⟨-, rfl⟩ | ⟨-, -, rfl⟩
      all_goals exact ⟨rfl, rfl, rfl⟩
    refine h.of_requests hbase le_rfl ?_ ?_ ?_
    · intro b hb
      obtain ⟨a, ha, hab⟩ := mem_filterMap.mp hb
      obtain ⟨hret, hbeh, hrep⟩ := hunref hab
      exact .inr ⟨a, ha, (Sound.unref_shape hab).id, hret, fun hx => hbeh ▸ hx, fun hx => hrep ▸ hx⟩
    · intro b hb
      obtain ⟨a, ha, hab⟩ := mem_filterMap.mp hb
      rw [(hunref hab).1]
      exact h.passive a ha
    show ∀ e ∈ (if leaves id s.queue then Event.left id :: s.log else s.log), _
    split
    · exact log_cons nofun (fun _ _ heq => nomatch heq)
    · exact fun _ he => .inl he
  | send wind =>
    obtain ⟨rfl, rfl⟩ := exec_send he
    exact h.of_queue_eq hbase rfl rfl rfl (log_cons nofun (fun _ _ heq => nomatch heq))
  | detach id =>
    cases he
    refine h.of_requests hbase le_rfl ?_ h.passive (fun _ he => .inl he)
    intro b hb
    obtain ⟨a, ha, rfl⟩ := mem_map.mp hb
    refine .inr ⟨a, ha, (Sound.detach_shape id a).id, ?_⟩
    rcases Sound.detach_cases id a with ⟨-, heq⟩ | ⟨-, heq⟩ <;>
      · rw [heq]
        exact ⟨rfl, fun hx => hx, fun hx => hx⟩
  | resume id fop =>
    have hresumed : ∀ e ∈ Event.resumed id :: s.log, e ∈ s.log ∨ (∀ w, e ≠ .acked w (-1)) ∧
        ∀ writes size, e ≠ .answered writes size (-1) :=
      log_cons nofun (fun _ _ heq => nomatch heq)
    rcases exec_resume he with ⟨-, rfl, rfl⟩ | ⟨-, heq⟩
    · exact h.of_queue_eq hbase rfl rfl rfl hresumed
    have haside := wbFfrCbk_aside conf { s with log := .resumed id :: s.log } id
    have hfr := ffrCbk_frame conf { s with log := .resumed id :: s.log } id
    rw [heq] at haside hfr
    exact h.of_queue_eq hbase haside.issued haside.queue hfr.1
      fun e he => (hfr.2 e he).elim (hresumed e) .inr
  | flush id behind =>
    cases he
    exact h.of_queue_eq hbase rfl rfl rfl (fun _ he => .inl he)

/-- **A child write is answered.** If it fails, a write in it was acknowledged before, and keeps that answer. -/
theorem answer_write {wind : Wind} {j : Nat} (h : OwnErrors s ops) (hcall : s.calls[j]? = some (.write wind))
    (opRet opErrno : Int) (hfails : BehindFails s opRet (.write wind)) :
    OwnErrors (s.answered conf j opRet opErrno (.write wind)).1
      ((s.answered conf j opRet opErrno (.write wind)).2 ++ ops) := by
  have hbase := h.base.answer conf hcall opRet opErrno
  have hq := h.base.queue
  have hmem : Call.write wind ∈ s.calls := mem_of_getElem? hcall
  -- an answer changes only requests that were not acknowledged
  have hback : ∀ b ∈ s.queue.filterMap (fun r => if r.id ∈ wind.ids then r.replied opRet opErrno else some r),
      ∃ a ∈ s.queue, b.id = a.id ∧ (a.writeBehind = true → b.writeBehind = true ∧ b.opRet = a.opRet) ∧
        (b.gotReply = false → b = a) := by
    intro b hb
    obtain ⟨a, ha, hab⟩ := mem_filterMap.mp hb
    refine ⟨a, ha, (Sound.answered_shape hab).id, ?_⟩
    rcases Sound.answered_cases hab with ⟨-, hr⟩ | ⟨-, rfl⟩
    · obtain ⟨-, -, hg, -, -, hbeh⟩ := Sound.replied_cases hr
      refine ⟨fun hwb => ⟨by rw [hbeh, hwb], ?_⟩, fun hg' => ?_⟩
      · unfold Request.replied at hr
        simp only [hwb, Bool.not_true, Bool.false_and, Bool.false_eq_true, if_false] at hr
        obtain ⟨-, rfl⟩ := Sound.unref_eq_some hr
        rfl
      rw [hg] at hg'
      cases hg'
    · exact ⟨fun hwb => ⟨hwb, rfl⟩, fun _ => rfl⟩
  have hkeep : ∀ w, NotOwn s w → NotOwn (s.answered conf j opRet opErrno (.write wind)).1 w := by
    intro w hnot
    refine ⟨hnot.lt, ?_, ?_⟩
    · intro hacked
      exact hnot.log ((mem_cons.mp hacked).resolve_left nofun)
    intro b hb hid
    obtain ⟨a, ha, hab, hbeh, -⟩ := hback b hb
    obtain ⟨hwb, hret⟩ := hnot.queue a ha (hab ▸ hid)
    exact ⟨(hbeh hwb).1, (hbeh hwb).2 ▸ hret⟩
  refine ⟨hbase, ?_, h.passive, ?_, ?_⟩
  · intro b hb hg
    obtain ⟨a, ha, -, -, hsame⟩ := hback b hb
    obtain rfl := hsame hg
    exact h.clean b ha hg
  · intro w hacked
    obtain ⟨hlt, htold⟩ := h.told w ((mem_cons.mp hacked).resolve_left nofun)
    refine ⟨hlt, ?_⟩
    intro b hb hid
    by_contra hg
    obtain ⟨a, ha, -, -, hsame⟩ := hback b hb
    obtain rfl := hsame (Bool.eq_false_iff.mpr hg)
    exact hg (htold b ha hid)
  intro writes size hin
  rcases mem_cons.mp hin with heq | hin
  · obtain ⟨rfl, -, hret⟩ := Event.answered.inj heq
    obtain ⟨r, hr, hid, hwb⟩ := hfails hret.symm
    have honWay : r.id ∈ ops.flatMap Op.winds ++ s.calls.flatMap Call.winds :=
      mem_append_right _ (mem_flatMap.mpr ⟨.write wind, hmem, hid⟩)
    obtain ⟨x, hx, hxid, -, -, hg⟩ := hq.sent r.id honWay
    obtain rfl := hq.unique hx hr hxid
    refine ⟨x.id, ?_, hkeep x.id ⟨(hq.request x hx).id_lt, ?_, ?_⟩⟩
    · exact mem_flatMap.mpr ⟨x, mem_filter.mpr ⟨hx, by simpa using hid⟩, (hq.request x hx).self⟩
    · intro hacked
      rw [(h.told x.id hacked).2 x hx rfl] at hg
      cases hg
    intro b hb hbid
    rw [hq.unique hb hx hbid]
    exact ⟨hwb, h.clean x hx hg⟩
  obtain ⟨w, hw, hnot⟩ := h.failed writes size hin
  exact ⟨w, hw, hkeep w hnot⟩

/-- **One answer of the child.** -/
theorem answer {j : Nat} {call : Call} (h : OwnErrors s ops) (hcall : s.calls[j]? = some call) (opRet opErrno : Int)
    (hfails : BehindFails s opRet call) : OwnErrors (s.answered conf j opRet opErrno call).1
      ((s.answered conf j opRet opErrno call).2 ++ ops) := by
  have hbase := h.base.answer conf hcall opRet opErrno
  cases call with
  | write wind => exact h.answer_write hcall opRet opErrno hfails
  | other id fop =>
    have hsame : ∀ e ∈ s.log, e ∈ s.log ∨ (∀ w, e ≠ .acked w (-1)) ∧ ∀ writes size, e ≠ .answered writes size (-1) :=
      fun _ he => .inl he
    cases fop with
    | fsync =>
      exact h.of_queue_eq hbase rfl rfl rfl (log_cons nofun (fun _ _ heq => nomatch heq))
    | stat | fstat | truncate | ftruncate | setattr | readv | flush behind =>
      exact h.of_queue_eq hbase rfl rfl rfl hsame
  | flush id behind =>
    cases behind with
    | true => exact h.of_queue_eq hbase rfl rfl rfl (fun _ he => .inl he)
    | false =>
      have haside := wbFfrCbk_aside conf { s with calls := s.calls.eraseIdx j } id
      have hfr := ffrCbk_frame conf { s with calls := s.calls.eraseIdx j } id
      exact h.of_queue_eq hbase haside.issued haside.queue hfr.1 hfr.2
  | direct size => exact h.of_queue_eq hbase rfl rfl rfl (fun _ he => .inl he)

theorem preserved (conf : Conf) : Preserved conf (fun _ => True) (fun _ _ => True) BehindFails OwnErrors where
  perm hperm h := { h with base := h.base.perm hperm }
  threads ts h :=
    have hbase := h.base.threads ts
    h.of_queue_eq hbase rfl rfl rfl fun _ he => .inl he
  enter fop h := { h with base := h.base.enter fop }
  check h :=
    h.of_queue_eq (h.base.check .writev) rfl rfl rfl (log_cons nofun (fun _ _ heq => nomatch heq))
  direct till size h :=
    have hbase := h.base.direct till size
    h.of_queue_eq hbase rfl rfl rfl fun _ he => .inl he
  exec _ _ _ h he := h.exec he
  answer opRet opErrno hfails _ hcall h := h.answer hcall opRet opErrno hfails

theorem create (conf : Conf) (disabled noWindow : Bool) :
    OwnErrors (.create conf disabled noWindow) (pending (State.create conf disabled noWindow).threads) :=
  ⟨.create conf disabled noWindow, fun _ hr => (nomatch hr), fun _ hr => (nomatch hr), fun _ hr => (nomatch hr),
    fun _ _ hr => (nomatch hr)⟩

end OwnErrors

/-! ## Runs -/

/-- **Lost writes are reported.** The first writev, fsync or flush that checks after a failed child write returns an
    error. If a child write only fails when a write in it was acknowledged, every error that is returned comes from a
    failed child write since the last check that has a write in it which did not get the error as its own answer. -/
theorem lost_writes_reported (conf : Conf) (disabled noWindow : Bool) (actions : List Action) (s : State)
    (hrun : runFrom conf disabled noWindow actions = .ok s) : (∀ later who error between writes size earlier,
      s.log = later ++ .checked who error :: (between ++ .answered writes size (-1) :: earlier) →
        (∀ e ∈ between, Event.NoCheck e) → error = true) ∧
    (Transition.Along (step conf) (StepMeets (fun _ _ => True) BehindFails) (.create conf disabled noWindow) actions →
      ∀ later who earlier, s.log = later ++ .checked who true :: earlier →
        ∃ between writes size rest, earlier = between ++ .answered writes size (-1) :: rest ∧
          (∀ e ∈ between, Event.NoCheck e) ∧ ∃ w ∈ writes, Event.acked w (-1) ∉ s.log) := by
  have hreporting := (Reporting.preserved conf).run_all (Reporting.create conf disabled noWindow) hrun
  constructor
  · intro later who error between writes size earlier hsplit hbetween
    have hcheck : error = errorWaits (between ++ .answered writes size (-1) :: earlier) :=
      hreporting.reported later _ _ hsplit
    rw [hcheck]
    exact errorWaits_append hbetween (by simp [errorWaits])
  intro hfails later who earlier hsplit
  have hcheck : true = errorWaits earlier := hreporting.reported later _ _ hsplit
  obtain ⟨between, writes, size, rest, heq, hbetween⟩ := exists_of_errorWaits hcheck.symm
  have hend := (Preserved.run (follows_true conf _ _) (OwnErrors.preserved conf)
    ⟨fun _ _ => trivial, OwnErrors.create conf disabled noWindow⟩ hfails hrun).2
  have hmem : Event.answered writes size (-1) ∈ s.log := by
    rw [hsplit, heq]
    simp
  obtain ⟨w, hw, hnot⟩ := hend.failed writes size hmem
  exact ⟨between, writes, size, rest, heq, hbetween, w, hw, hnot.log⟩

/-- A write that is acknowledged and fails, and an fsync. -/
def failedWriteThenFsync : List Action :=
  [.writev 0 [10], .run 0, .run 0, .run 0, .run 0, .run 0, .reply 0 (-1) 5, .run 1, .other .fsync, .run 2, .run 2,
    .run 2, .run 2, .reply 0 0 0, .run 3, .run 3]

/-- The fsync returns an error, and it is the error of a write that was answered without one. -/
theorem fsync_reports_failed_write : ∃ s, runFrom smallConf false false failedWriteThenFsync = .ok s ∧
      (∃ error rest, s.log = .left 1 :: .checked (.fsync 1) error :: rest ∧ error = true) ∧
      ∃ writes size, Event.answered writes size (-1) ∈ s.log ∧ ∃ w ∈ writes, Event.acked w (-1) ∉ s.log := by
  obtain ⟨s, hs, hlog⟩ := Transition.map_eq_ok
    (show (runFrom smallConf false false failedWriteThenFsync).map State.log =
      .ok [.left 1, .checked (.fsync 1) true, .resumed 1, .answered [0] 10 (-1), .sent [0], .acked 0 10,
        .checked .writev false] by decide +kernel)
  obtain ⟨hreports, hown⟩ := lost_writes_reported smallConf false false failedWriteThenFsync s hs
  have herror := hreports [.left 1] (.fsync 1) _ [.resumed 1] [0] 10 _ hlog.symm (by simp [Event.NoCheck])
  obtain ⟨between, writes, size, rest, heq, -, hacked⟩ := hown (by decide +kernel) [.left 1] (.fsync 1) _ hlog.symm
  refine ⟨s, hs, ⟨_, _, hlog.symm, herror⟩, writes, size, ?_, hacked⟩
  have hmem : Event.answered writes size (-1) ∈ between ++ Event.answered writes size (-1) :: rest := by simp
  rw [← heq] at hmem
  rw [← hlog]
  exact mem_cons_of_mem _ (mem_cons_of_mem _ hmem)

/-- A write that is acknowledged, of which the child writes four bytes of ten, and an fsync. -/
def shortWriteThenFsync : List Action :=
  [.writev 0 [10], .run 0, .run 0, .run 0, .run 0, .run 0, .reply 0 4 0, .run 1, .other .fsync, .run 2, .run 2, .run 2,
    .run 2, .reply 0 0 0, .run 3, .run 3]

/-- Three writes of the size of the window. The third is not acknowledged when it fails, and there is one more. -/
def failureToldTwice : List Action :=
  [.writev 0 [131072], .run 0, .run 0, .run 0, .run 0, .run 0, .writev 131072 [131072], .run 1, .run 1, .run 1, .run 1,
    .run 1, .writev 262144 [131072], .run 2, .run 2, .run 2, .reply 2 (-1) 5, .run 3, .reply 1 131072 0, .run 4, .run 4,
    .run 4, .reply 0 131072 0, .run 5, .writev 0 [10]]

/-- The write that was cut short is not reported to the fsync after it, nor to anyone later. The only write that fails
    has the error as its own answer, and the next writev gets it too. -/
theorem short_write_lost_and_error_told_twice : (∃ s, runFrom smallConf false false shortWriteThenFsync = .ok s ∧
      s.log = [.left 1, .checked (.fsync 1) false, .resumed 1, .answered [0] 10 4, .sent [0], .acked 0 10,
        .checked .writev false] ∧ s.opRet = 0) ∧ ∃ s, runFrom smallConf false false failureToldTwice = .ok s ∧
      ∃ earlier, s.log = .checked .writev true :: earlier ∧ Event.acked 2 (-1) ∈ earlier ∧
        ∀ writes size, Event.answered writes size (-1) ∈ earlier → writes = [2] := by
  constructor
  · obtain ⟨s, hs, hdata⟩ := Transition.map_eq_ok
      (show (runFrom smallConf false false shortWriteThenFsync).map (fun s => (s.log, s.opRet)) =
        .ok ([.left 1, .checked (.fsync 1) false, .resumed 1, .answered [0] 10 4, .sent [0], .acked 0 10,
          .checked .writev false], 0) by decide +kernel)
    obtain ⟨hlog, hret⟩ := Prod.mk.inj hdata
    exact ⟨s, hs, hlog.symm, hret.symm⟩
  obtain ⟨s, hs, hlog⟩ := Transition.map_eq_ok
    (show (runFrom smallConf false false failureToldTwice).map State.log =
      .ok [.checked .writev true, .answered [0] 131072 131072, .acked 2 (-1), .answered [1] 131072 131072,
        .answered [2] 131072 (-1), .sent [2], .checked .writev false, .sent [1], .acked 1 131072,
        .checked .writev false, .sent [0], .acked 0 131072, .checked .writev false] by decide +kernel)
  refine ⟨s, hs, _, hlog.symm, by simp, ?_⟩
  intro writes size hmem
  have := by simpa using hmem
  exact this.1

end GlusterFS.WriteBehind
