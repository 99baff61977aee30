import GlusterFS.WriteBehind.Correctness.Ordering

/-!
# `WriteBehind.Correctness.Acknowledged` — a write that was answered is acknowledged

A write can be sent, and answered, while the window has no room to acknowledge it; it is acknowledged by a later pass.
If no such pass comes, the application waits for ever. Here: when nothing is left to be done, every answered write has
been acknowledged, as long as every pass that finds room in the window can acknowledge all writes (`Fits`).

The argument is about the window. Writes are acknowledged front to back, so a write that is answered and not
acknowledged has only acknowledged ones before it that count in the window (`inWindow`). If there is no room, one of
those is still with the child, and its answer brings the next pass.
-/

namespace GlusterFS.WriteBehind

open Scan Threads Request
open List

variable {w : Nat} {collapsed : Collapsed} {op : Op}

/-! ## The window -/

/-- The sizes of the writes that wait to be acknowledged. -/
def unackedSizes (q : List Request) : List Nat := (q.filter fun r => r.isWrite && !r.writeBehind).map writeSize

/-- A pass that finds room in the window can acknowledge all writes: all but the last one fit in. -/
def Fits (s : State) : Op → Prop
  | .mark _ => s.windowCurrent ≤ s.windowConf → s.windowCurrent + (unackedSizes s.queue).dropLast.sum ≤ s.windowConf
  | _ => True

instance decidableFits (s : State) : ∀ op, Decidable (Fits s op)
  | .mark _ => inferInstanceAs (Decidable (_ → _))
  | .enqueue _ | .unwind _ | .unref _ _ | .send _ | .detach _ | .resume _ _ | .flush _ _ => isTrue trivial

variable {r : Request}

theorem unackedSizes_skip (h : r.isWrite = false ∨ r.writeBehind = true) (rs : List Request) :
    unackedSizes (r :: rs) = unackedSizes rs := by
  have hnot : (r.isWrite && !r.writeBehind) = false := by
    rcases h with h | h <;> simp [h]
  simp [unackedSizes, hnot]

theorem unackedSizes_take (hw : r.isWrite = true) (hb : r.writeBehind = false) (rs : List Request) :
    unackedSizes (r :: rs) = r.writeSize :: unackedSizes rs := by
  simp [unackedSizes, hw, hb]

/-- All writes are acknowledged. -/
def AllBehind (q : List Request) : Prop := ∀ r ∈ q, r.isWrite = true → r.writeBehind = true

variable {q : List Request}

theorem allBehind_of_unackedSizes (h : unackedSizes q = []) : AllBehind q := by
  intro r hr hw
  have hnone := filter_eq_nil_iff.mp (map_eq_nil_iff.mp h) r hr
  simpa [hw] using hnone

/-- **`__wb_mark_unwind_till`** with enough room acknowledges every write. -/
theorem markUnwindTill_allBehind (size : Nat) (q : List Request) : ∀ written,
    written + (unackedSizes q).dropLast.sum ≤ size → AllBehind (markUnwindTill size written q).queue := by
  induction q with
  | nil => exact fun _ _ r hr => nomatch hr
  | cons r rs ih =>
    intro written hfits
    rw [markUnwindTill]
    by_cases hw : r.isWrite = true
    · have hle : written ≤ size := le_trans (Nat.le_add_right _ _) hfits
      rw [if_neg (not_not_intro hw), if_pos hle]
      by_cases hb : r.writeBehind = true
      · rw [if_pos hb]
        rw [unackedSizes_skip (.inr hb)] at hfits
        exact forall_mem_cons.mpr ⟨fun _ => hb, ih written hfits⟩
      rw [if_neg hb]
      rw [unackedSizes_take hw (Bool.eq_false_iff.mpr hb)] at hfits
      refine forall_mem_cons.mpr ⟨fun _ => rfl, ?_⟩
      -- behind the last write that waits there is no room needed
      cases hrest : unackedSizes rs with
      | nil =>
        exact (markUnwindTill_marks size rs (written + r.writeSize) []).forall_mem (fun _ _ _ => rfl)
          (allBehind_of_unackedSizes hrest)
      | cons x xs =>
        apply ih
        rw [hrest] at hfits ⊢
        rw [dropLast_cons_cons, sum_cons] at hfits
        omega
    rw [if_pos hw]
    rw [unackedSizes_skip (.inl (Bool.eq_false_iff.mpr hw))] at hfits
    exact forall_mem_cons.mpr ⟨fun h => absurd h hw, ih written hfits⟩

theorem markUnwinds_allBehind {windowConf windowCurrent : Nat} (hroom : windowCurrent ≤ windowConf)
    (hfits : windowCurrent + (unackedSizes q).dropLast.sum ≤ windowConf) :
    AllBehind (markUnwinds windowConf windowCurrent q).queue := by
  rw [markUnwinds, if_pos hroom]
  exact markUnwindTill_allBehind _ q 0 (by omega)

/-- Writes are acknowledged front to back. -/
def BehindFirst (a b : Request) : Prop :=
  b.isWrite = true → b.writeBehind = true → a.isWrite = true → a.writeBehind = true

theorem markUnwindTill_behindFirst (size : Nat) (q : List Request) : ∀ written, q.Pairwise BehindFirst →
    (markUnwindTill size written q).queue.Pairwise BehindFirst := by
  induction q with
  | nil => exact fun _ h => h
  | cons r rs ih =>
    intro written h
    obtain ⟨-, hrest⟩ := pairwise_cons.mp h
    rw [markUnwindTill]
    by_cases hw : r.isWrite = true
    · rw [if_neg (not_not_intro hw)]
      by_cases hle : written ≤ size
      · rw [if_pos hle]
        by_cases hb : r.writeBehind = true
        · rw [if_pos hb]
          exact pairwise_cons.mpr ⟨fun _ _ _ _ _ => hb, ih written hrest⟩
        rw [if_neg hb]
        exact pairwise_cons.mpr ⟨fun _ _ _ _ _ => rfl, ih (written + r.writeSize) hrest⟩
      rw [if_neg hle]
      exact h
    rw [if_pos hw]
    exact pairwise_cons.mpr ⟨fun _ _ _ _ hr => absurd hr hw, ih written hrest⟩

theorem markUnwinds_behindFirst (windowConf windowCurrent : Nat) (h : q.Pairwise BehindFirst) :
    (markUnwinds windowConf windowCurrent q).queue.Pairwise BehindFirst := by
  unfold markUnwinds
  split
  · exact markUnwindTill_behindFirst _ q 0 h
  · exact h

def Request.inWindow (r : Request) : Nat :=
  if r.fop.isWrite = true ∧ r.writeBehind = true ∧ r.gotReply = false then r.writeSize else 0

def inWindow (q : List Request) : Nat := (q.map Request.inWindow).sum

theorem inWindow_append (q q' : List Request) : inWindow (q ++ q') = inWindow q + inWindow q' := by
  simp [inWindow]

theorem inWindow_cons (r : Request) (q : List Request) : inWindow (r :: q) = r.inWindow + inWindow q := by
  simp [inWindow]

theorem exists_of_inWindow (h : 0 < inWindow q) :
    ∃ r ∈ q, r.fop.isWrite = true ∧ r.writeBehind = true ∧ r.gotReply = false ∧ 0 < r.writeSize := by
  induction q with
  | nil => exact absurd h (lt_irrefl 0)
  | cons r rs ih =>
    rw [inWindow_cons] at h
    by_cases hr : 0 < r.inWindow
    · unfold Request.inWindow at hr
      split at hr
      next hflags => exact ⟨r, mem_cons_self, hflags.1, hflags.2.1, hflags.2.2, hr⟩
      · exact absurd hr (lt_irrefl 0)
    obtain ⟨x, hx, hflags⟩ := ih (by omega)
    exact ⟨x, mem_cons_of_mem r hx, hflags⟩

theorem inWindow_behind {pre : List Request} (h : Unacked pre r) :
    r.inWindow = 0 ∧ r.behind.inWindow = if r.gotReply then 0 else r.writeSize := by
  have hw := (isWrite_iff.mp h.1).2
  have hb := h.2
  cases hg : r.gotReply <;> simp [Request.inWindow, Request.behind, hw, hb, hg]

/-- **`window_current`** grows by what is acknowledged. -/
theorem inWindow_unwinds {q' unwinds : List Request} (h : Marks Unacked Request.behind [] q q' unwinds) :
    inWindow q' = inWindow q + windowAdded unwinds := by
  refine h.rule (P := fun x taken => inWindow x = inWindow q + windowAdded taken) ?_ [] rfl
  intro pre r post taken hr hP
  obtain ⟨hzero, hadd⟩ := inWindow_behind hr
  rw [inWindow_append, inWindow_cons] at hP ⊢
  have htaken : windowAdded (taken ++ [r.behind]) = windowAdded taken + if r.gotReply then 0 else r.writeSize := by
    simp [windowAdded, Request.behind]
  rw [htaken, hadd]
  omega

/-- Joining two writes, or dropping an empty one, leaves the window as it is. -/
theorem inWindow_collapse {q' packed : List Request} (h : Merges Joins Drops absorb q q' packed)
    (hrep : ∀ r ∈ q, r.gotReply = true → r.stackWound = true) : inWindow q' = inWindow q := by
  refine (h.rule (P := fun x : List Request => (∀ r ∈ x, r.gotReply = true → r.stackWound = true) ∧ inWindow x = inWindow q)
    ?_ ?_ [] ⟨hrep, rfl⟩).2
  · rintro pre a b post hab ⟨hr, hP⟩
    -- neither of the two has an answer: they are not wound
    have hnone : ∀ x ∈ pre ++ a :: b :: post, x.stackWound = false → x.gotReply = false := by
      intro x hx hs
      cases hg : x.gotReply with
      | false => rfl
      | true =>
        rw [hr x hx hg] at hs
        cases hs
    have hga := hnone a (by simp) hab.1.2.2
    have hgb := hnone b (by simp) hab.2.1.2.2
    have hwa := (isWrite_iff.mp hab.1.1).2
    have hwb := (isWrite_iff.mp hab.2.1.1).2
    constructor
    · intro x hx
      rcases mem_append.mp hx with hx | hx
      · exact hr x (mem_append_left _ hx)
      rcases mem_cons.mp hx with rfl | hx
      · exact hr a (by simp)
      · exact hr x (by simp [hx])
    have hjoin : (a.absorb b).inWindow = a.inWindow + b.inWindow := by
      unfold Request.inWindow
      rw [if_pos ⟨by rw [absorb_isWrite, hwa], hab.1.2.1, hga⟩, if_pos ⟨hwa, hab.1.2.1, hga⟩,
        if_pos ⟨hwb, hab.2.1.2.1, hgb⟩]
      rfl
    rw [inWindow_append, inWindow_cons] at hP ⊢
    rw [inWindow_cons] at hP
    omega
  rintro pre b post hb ⟨hr, hP⟩
  constructor
  · intro x hx
    refine hr x ?_
    rcases mem_append.mp hx with hx | hx
    · exact mem_append_left _ hx
    · exact mem_append_right _ (mem_cons_of_mem b hx)
  have hzero : b.inWindow = 0 := by
    unfold Request.inWindow
    split
    · exact hb.2
    · rfl
  rw [inWindow_append, inWindow_cons, hzero, zero_add] at hP
  rw [inWindow_append]
  exact hP

theorem inWindow_filterMap {f : Request → Option Request} {g : Request → Nat}
    (h : ∀ r ∈ q, (f r).elim 0 Request.inWindow = g r) : inWindow (q.filterMap f) = (q.map g).sum := by
  induction q with
  | nil => rfl
  | cons r rs ih =>
    have hrest := ih fun x hx => h x (mem_cons_of_mem r hx)
    have hr := h r mem_cons_self
    rw [map_cons, sum_cons, ← hrest, ← hr, filterMap_cons]
    cases f r with
    | none => simp
    | some r' => exact inWindow_cons r' _

theorem inWindow_split (ids : List Nat) (h : ∀ r ∈ q, r.id ∈ ids → r.fop.isWrite = true ∧ r.gotReply = false) :
    inWindow q = (q.map fun r => if r.id ∈ ids then 0 else r.inWindow).sum + windowTaken ids q := by
  induction q with
  | nil => rfl
  | cons r rs ih =>
    have hrest := ih fun x hx => h x (mem_cons_of_mem r hx)
    rw [inWindow_cons, map_cons, sum_cons, hrest]
    by_cases hid : r.id ∈ ids
    · obtain ⟨hw, hg⟩ := h r mem_cons_self hid
      cases hb : r.writeBehind with
      | true =>
        have htaken : windowTaken ids (r :: rs) = r.writeSize + windowTaken ids rs := by
          simp [windowTaken, hid, hb]
        rw [if_pos hid, htaken, Request.inWindow, if_pos ⟨hw, hb, hg⟩]
        omega
      | false =>
        have htaken : windowTaken ids (r :: rs) = windowTaken ids rs := by simp [windowTaken, hb]
        rw [if_pos hid, htaken, Request.inWindow, if_neg (by simp [hb])]
        omega
    have htaken : windowTaken ids (r :: rs) = windowTaken ids rs := by simp [windowTaken, hid]
    rw [if_neg hid, htaken]
    omega

/-! ## The invariant -/

/-- The application has the answer to this write, or a thread is about to give it. -/
def AckDue (log : List Event) (ops : List Op) (w : Nat) : Prop :=
  (∃ opRet, Event.acked w opRet ∈ log) ∨ Op.unwind w ∈ ops

theorem AckDue.mono {log log' : List Event} {ops ops' : List Op} (hlog : log ⊆ log')
    (hops : Op.unwind w ∈ ops → Op.unwind w ∈ ops') (h : AckDue log ops w) : AckDue log' ops' w := by
  rcases h with ⟨opRet, hmem⟩ | hmem
  · exact .inl ⟨opRet, hlog hmem⟩
  · exact .inr (hops hmem)

/-- Another pass will come: a thread has it to do, or the child has a write to answer. -/
def PassDue (s : State) (ops : List Op) : Prop :=
  (∃ flushAll, Op.mark flushAll ∈ ops) ∨ ∃ id, id ∈ ops.flatMap Op.winds ++ s.calls.flatMap Call.winds

/-- A write that was answered and waits to be acknowledged. -/
def Request.Waits (r : Request) : Prop := r.isWrite = true ∧ r.gotReply = true ∧ r.writeBehind = false

/-- The invariant of a run in which every pass fits. -/
structure Acknowledging (s : State) (ops : List Op) : Prop where
  base : Consistent s ops
  first : s.queue.Pairwise BehindFirst
  window : s.windowCurrent ≤ inWindow s.queue
  single : ∀ r ∈ s.queue, r.writeBehind = false → r.carried = [r.id]
  behind : ∀ r ∈ s.queue, r.writeBehind = true → ∀ w ∈ r.carried, AckDue s.log ops w
  answered : ∀ w, Answered s.log w → AckDue s.log ops w ∨ ∃ r ∈ s.queue, r.Waits ∧ r.id = w
  passes : PassDue s ops ∨ ∀ r ∈ s.queue, ¬ r.Waits

namespace Acknowledging

variable {conf : Conf} {s s' : State} {ops ops' new : List Op}

theorem of_queue_eq (h : Acknowledging s ops) (hbase : Consistent s' ops') (hqueue : s'.queue = s.queue)
    (hwindow : s'.windowCurrent = s.windowCurrent) (hans : ∀ w, Answered s'.log w → Answered s.log w)
    (hdue : ∀ w, AckDue s.log ops w → AckDue s'.log ops' w) (hpass : PassDue s ops → PassDue s' ops') :
    Acknowledging s' ops' where
  base := hbase
  first := hqueue ▸ h.first
  window := by
    rw [hqueue, hwindow]
    exact h.window
  single := hqueue ▸ h.single
  behind := by
    rw [hqueue]
    exact fun r hr hb w hw => hdue w (h.behind r hr hb w hw)
  answered := by
    rw [hqueue]
    exact fun w hw => (h.answered w (hans w hw)).imp_left (hdue w)
  passes := by
    rw [hqueue]
    exact h.passes.imp_left hpass

theorem of_filterMap (h : Acknowledging s ops) (hbase : Consistent s' ops') {f : Request → Option Request}
    (hqueue : s'.queue = s.queue.filterMap f)
    (hf : ∀ a b, f a = some b → a.SameShape b ∧ b.writeBehind = a.writeBehind ∧ (b.isWrite = true → a.isWrite = true))
    (hwindow : s'.windowCurrent ≤ inWindow s'.queue) (hdue : ∀ w, AckDue s.log ops w → AckDue s'.log ops' w)
    (hans : ∀ w, Answered s'.log w → AckDue s.log ops w ∨ ∃ r ∈ s'.queue, r.Waits ∧ r.id = w)
    (hpasses : PassDue s' ops' ∨ ∀ r ∈ s'.queue, ¬ r.Waits) : Acknowledging s' ops' := by
  have hold : ∀ b ∈ s'.queue, ∃ a ∈ s.queue, a.SameShape b ∧ b.writeBehind = a.writeBehind := by
    intro b hb
    rw [hqueue] at hb
    obtain ⟨a, ha, hab⟩ := mem_filterMap.mp hb
    exact ⟨a, ha, (hf a b hab).1, (hf a b hab).2.1⟩
  refine
    { base := hbase
      first := ?_
      window := hwindow
      single := ?_
      behind := ?_
      answered := fun w hw => (hans w hw).imp_left (hdue w)
      passes := hpasses }
  · rw [hqueue]
    refine h.first.filterMap f ?_
    intro a a' hR b hb b' hb' hw' hbeh hw
    obtain ⟨-, hba, hwa⟩ := hf a b hb
    obtain ⟨-, hba', hwa'⟩ := hf a' b' hb'
    rw [hba'] at hbeh
    rw [hba]
    exact hR (hwa' hw') hbeh (hwa hw)
  · intro b hb hbeh
    obtain ⟨a, ha, hshape, hba⟩ := hold b hb
    rw [hba] at hbeh
    rw [hshape.carried, hshape.id]
    exact h.single a ha hbeh
  intro b hb hbeh w hw
  obtain ⟨a, ha, hshape, hba⟩ := hold b hb
  rw [hba] at hbeh
  rw [hshape.carried] at hw
  exact hdue w (h.behind a ha hbeh w hw)

/-! ## A pass -/

theorem waits_through (flushAll : Bool) (hcol : collapseWriteBufs conf.pageSize .start s.unwinds.queue =
      .ok collapsed) (hr : r ∈ s.queue) (hwaits : r.Waits) (hwound : r.stackWound = true) :
    r ∈ (s.winds conf flushAll collapsed).queue ∨ r.behind ∈ s.unwinds.marked := by
  rcases s.unwinds_marks.mem_or hr with hr | ⟨hmark, -⟩
  · refine .inl ?_
    have hloose : ∀ x : Request, x.Loose → r ≠ x := by
      rintro x hx rfl
      rw [hx.2.2] at hwound
      cases hwound
    have hmerge : r ∈ collapsed.queue :=
      (collapseWriteBufs_merges Packing.Sound.start hcol).mem hr
        (fun a b hab => ⟨hloose a hab.1, hloose b hab.2.1⟩) (fun hdrop => hloose r hdrop.1 rfl)
    have hothers : r ∈ (getOtherRequests collapsed.queue).queue := by
      refine ((others_marks collapsed.queue).mem_or hmerge).resolve_right ?_
      rintro ⟨-, before, -, hnot, -⟩
      rw [(isWrite_iff.mp hwaits.1).2] at hnot
      cases hnot
    refine ((s.winds_marks conf flushAll collapsed).mem_or hothers).resolve_right ?_
    rintro ⟨-, before, -, hnot, -⟩
    rw [hwound] at hnot
    cases hnot
  · exact .inr hmark

theorem first_through (flushAll : Bool) (hcol : collapseWriteBufs conf.pageSize .start s.unwinds.queue =
      .ok collapsed) (h : s.queue.Pairwise BehindFirst) :
    (s.winds conf flushAll collapsed).queue.Pairwise BehindFirst := by
  have hunw := markUnwinds_behindFirst s.windowConf s.windowCurrent h
  have hmerge : collapsed.queue.Pairwise BehindFirst := by
    refine (collapseWriteBufs_merges Packing.Sound.start hcol).rule (P := fun q => q.Pairwise BehindFirst)
      ?_ ?_ [] hunw
    · intro pre a b post hab hP
      have hkeep : (pre ++ a :: post).Sublist (pre ++ a :: b :: post) :=
        (List.Sublist.refl pre).append ((sublist_cons_self b post).cons_cons a)
      exact pairwise_update (hP.sublist hkeep) (fun _ _ hx _ _ hxw => hx hab.1.1 hab.1.2.1 hxw)
        (fun _ _ _ _ _ _ => hab.1.2.1)
    intro pre b post _ hP
    exact hP.sublist ((List.Sublist.refl pre).append (sublist_cons_self b post))
  have hothers : (getOtherRequests collapsed.queue).queue.Pairwise BehindFirst := by
    refine (others_marks collapsed.queue).rule
      (P := fun q _ => q.Pairwise BehindFirst) ?_ [] hmerge
    intro pre r post _ _ hP
    exact pairwise_update hP (fun _ _ hx => hx) (fun _ _ hx => hx)
  refine (s.winds_marks conf flushAll collapsed).rule
    (P := fun q _ => q.Pairwise BehindFirst) ?_ [] hothers
  intro pre r post _ _ hP
  exact pairwise_update hP (fun _ _ hx => hx) (fun _ _ hx => hx)

theorem window_through (flushAll : Bool) (hcol : collapseWriteBufs conf.pageSize .start s.unwinds.queue =
      .ok collapsed) (hrep : ∀ r ∈ s.queue, r.gotReply = true → r.stackWound = true) :
    inWindow (s.winds conf flushAll collapsed).queue = inWindow s.queue + windowAdded s.unwinds.marked := by
  have hunw := s.unwinds_marks
  have hwinds := (s.winds_marks conf flushAll collapsed).map_eq
    (f := Request.inWindow) (fun _ => rfl)
  have hothers := (others_marks collapsed.queue).map_eq
    (f := Request.inWindow) (fun _ => rfl)
  have hmerge := inWindow_collapse (collapseWriteBufs_merges Packing.Sound.start hcol)
    (hunw.forall_mem (P := fun r : Request => r.gotReply = true → r.stackWound = true) (fun _ hx => hx) hrep)
  show ((s.winds conf flushAll collapsed).queue.map Request.inWindow).sum = _
  rw [hwinds, hothers]
  exact hmerge.trans (inWindow_unwinds hunw)

/-- **If there is no room**, a write that waits has one before it that the child has still to answer. -/
theorem exists_onWay (h : Acknowledging s ops) (hfull : s.windowConf < s.windowCurrent)
    (hr : r ∈ s.queue) (hwaits : r.Waits) : ∃ id, id ∈ ops.flatMap Op.winds ++ s.calls.flatMap Call.winds := by
  have hq := h.base.queue
  have hwindow := h.window
  obtain ⟨x, hx, hxw, hxb, hxg, hpos⟩ := exists_of_inWindow (q := s.queue) (by omega)
  have hxstub : x.isWrite = true := isWrite_iff.mpr ⟨(hq.request x hx).stub hxw, hxw⟩
  have hrw := (isWrite_iff.mp hwaits.1).2
  have hrs := (hq.request r hr).reply hwaits.2.1
  -- `x` is before `r`: otherwise `r` would be acknowledged
  have hlt : x.id < r.id := by
    rcases Nat.lt_trichotomy x.id r.id with hlt | heq | hgt
    · exact hlt
    · have := hq.unique hx hr heq
      rw [this, hwaits.2.2] at hxb
      cases hxb
    have := rel_of_id_lt hq.ids_rising h.first hr hx hgt hxstub hxb hwaits.1
    rw [hwaits.2.2] at this
    cases this
  have hwound := rel_of_id_lt hq.ids_rising hq.wound hx hr hlt hrw hrs
  exact ⟨x.id, hq.away x hx hxw hwound.2 hxg ((hq.request x hx).vector_ne_nil hpos)⟩

/-- **A pass.** -/
theorem mark {flushAll : Bool} (h : Acknowledging s (.mark flushAll :: ops)) (hbase : Consistent s' (new ++ ops))
    (hfits : Fits s (.mark flushAll)) (he : wbProcessQueue conf s flushAll = .ok (s', new)) :
    Acknowledging s' (new ++ ops) := by
  obtain ⟨collapsed, hcol, rfl, rfl⟩ := wbProcessQueue_cases he
  have hq := h.base.queue
  have hunw := s.unwinds_marks
  -- who is acknowledged now gets an answer from this thread
  have hnow : ∀ r ∈ s.queue, r.behind ∈ s.unwinds.marked →
      ∀ rest, Op.unwind r.id ∈ unwindOps s.unwinds.marked ++ rest := by
    intro r _ hr rest
    refine mem_append_left _ (mem_flatMap.mpr ⟨r.behind, hr, ?_⟩)
    exact mem_cons_self
  have hdue : ∀ w, AckDue s.log (.mark flushAll :: ops) w → ∀ front, AckDue s.log (front ++ ops) w := by
    intro w hw front
    refine hw.mono (List.Subset.refl _) fun hmem => mem_append_right _ ?_
    exact (mem_cons.mp hmem).resolve_left nofun
  refine
    { base := hbase
      first := first_through flushAll hcol h.first
      window := ?_
      single := ?_
      behind := ?_
      answered := ?_
      passes := ?_ }
  · show s.windowCurrent + _ ≤ _
    rw [window_through flushAll hcol fun r hr => (hq.request r hr).reply]
    exact Nat.add_le_add_right h.window _
  · refine scans_forall flushAll hcol (P := fun r => r.writeBehind = false → r.carried = [r.id]) ?_
      (fun _ hx => hx) (fun _ hx => hx) ?_
    · intro a b hab _ _ hb
      rw [show (a.absorb b).writeBehind = a.writeBehind from rfl, hab.1.2.1] at hb
      cases hb
    intro r hr hb
    rcases hunw.mem_cases hr with hr | hmark
    · exact h.single r hr hb
    obtain ⟨a, -, -, rfl⟩ := hunw.mem_marked hmark
    cases hb
  · refine scans_forall flushAll hcol (P := fun r => r.writeBehind = true → ∀ w ∈ r.carried, AckDue _ _ w) ?_
      (fun _ hx => hx) (fun _ hx => hx) ?_
    · intro a b hab ha hb _ w hw
      rcases mem_append.mp hw with hw | hw
      · exact ha hab.1.2.1 w hw
      · exact hb hab.2.1.2.1 w hw
    intro r hr hb w hw
    rcases hunw.mem_cases hr with hr | hmark
    · exact hdue w (h.behind r hr hb w hw) _
    obtain ⟨a, ha, ⟨before, hunacked⟩, rfl⟩ := hunw.mem_marked hmark
    rw [show a.behind.carried = a.carried from rfl, h.single a ha hunacked.2, mem_singleton] at hw
    subst hw
    rw [append_assoc, append_assoc]
    exact .inr (hnow a ha hmark _)
  · intro w hw
    rcases h.answered w hw with hacked | ⟨r, hr, hwaits, rfl⟩
    · exact .inl (hdue w hacked _)
    rcases waits_through flushAll hcol hr hwaits ((hq.request r hr).reply hwaits.2.1) with hstays | hmark
    · exact .inr ⟨r, hstays, hwaits, rfl⟩
    rw [append_assoc, append_assoc]
    exact .inl (.inr (hnow r hr hmark _))
  -- no write waits after the pass, unless there was no room
  have hkeep : (∀ r ∈ s.unwinds.queue, ¬ r.Waits) → ∀ r ∈ (s.winds conf flushAll collapsed).queue, ¬ r.Waits := by
    refine scans_forall flushAll hcol (P := fun r => ¬ r.Waits) ?_ (fun _ hx => hx) (fun _ hx => hx)
    intro a b hab _ _ hwaits
    rw [Request.Waits, show (a.absorb b).writeBehind = a.writeBehind from rfl, hab.1.2.1] at hwaits
    exact absurd hwaits.2.2 (by decide)
  by_cases hroom : s.windowCurrent ≤ s.windowConf
  · refine .inr (hkeep ?_)
    intro r hr hwaits
    have := markUnwinds_allBehind hroom (hfits hroom) r hr hwaits.1
    rw [hwaits.2.2] at this
    cases this
  by_cases hwait : ∃ r ∈ s.queue, r.Waits
  · obtain ⟨r, hr, hwaits⟩ := hwait
    obtain ⟨id, hid⟩ := h.exists_onWay (Nat.lt_of_not_le hroom) hr hwaits
    refine .inl (.inr ⟨id, ?_⟩)
    rw [flatMap_append, append_assoc]
    exact mem_append_right _ hid
  refine .inr (hkeep ?_)
  intro r hr hwaits
  rcases hunw.mem_cases hr with hr | hmark
  · exact hwait ⟨r, hr, hwaits⟩
  obtain ⟨a, -, -, rfl⟩ := hunw.mem_marked hmark
  exact absurd hwaits.2.2 (by simp [Request.behind])

/-! ## The other operations -/

theorem enqueue {fop : Fop} (h : Acknowledging s (.enqueue fop :: ops)) (hbase : Consistent s' (new ++ ops))
    (he : WriteBehind.exec conf s (.enqueue fop) = .ok (s', new)) : Acknowledging s' (new ++ ops) := by
  cases he
  have hdue : ∀ w, AckDue s.log (.enqueue fop :: ops) w → AckDue s.log (afterEnqueue s.issued.length fop ++ ops) w := by
    intro w hw
    refine hw.mono (List.Subset.refl _) fun hmem => mem_append_right _ ?_
    exact (mem_cons.mp hmem).resolve_left nofun
  have hpass : ∃ flushAll, Op.mark flushAll ∈ afterEnqueue s.issued.length fop := by
    cases fop with
    | write off vector => exact ⟨false, mem_cons_self⟩
    | other fop => cases fop <;> exact ⟨true, mem_cons_self⟩
  refine
    { base := hbase
      first := ?_
      window := ?_
      single := ?_
      behind := ?_
      answered := ?_
      passes := ?_ }
  · refine pairwise_append.mpr ⟨h.first, pairwise_singleton _ _, ?_⟩
    intro a _ b hb _ hbeh
    rw [mem_singleton.mp hb] at hbeh
    cases hbeh
  · show s.windowCurrent ≤ inWindow (s.queue ++ [.new s.issued.length fop])
    rw [inWindow_append]
    exact le_trans h.window (Nat.le_add_right _ _)
  · intro r hr hb
    rcases mem_append.mp hr with hr | hr
    · exact h.single r hr hb
    rw [mem_singleton.mp hr]
    rfl
  · intro r hr hb w hw
    rcases mem_append.mp hr with hr | hr
    · exact hdue w (h.behind r hr hb w hw)
    rw [mem_singleton.mp hr] at hb
    cases hb
  · intro w hw
    rcases h.answered w hw with hacked | ⟨r, hr, hwaits⟩
    · exact .inl (hdue w hacked)
    · exact .inr ⟨r, mem_append_left _ hr, hwaits⟩
  obtain ⟨flushAll, hmem⟩ := hpass
  exact .inl (.inl ⟨flushAll, mem_append_left _ hmem⟩)

theorem passDue_tail (h : PassDue s (op :: ops)) (hmark : ∀ flushAll, op ≠ .mark flushAll)
    (hwinds : op.winds = []) (hcalls : s'.calls.flatMap Call.winds = s.calls.flatMap Call.winds) :
    PassDue s' (new ++ ops) := by
  rcases h with ⟨flushAll, hmem⟩ | ⟨id, hid⟩
  · have htail := (mem_cons.mp hmem).resolve_left fun heq => hmark flushAll heq.symm
    exact .inl ⟨flushAll, mem_append_right _ htail⟩
  rw [flatMap_cons, hwinds, nil_append] at hid
  refine .inr ⟨id, ?_⟩
  rw [hcalls, flatMap_append, append_assoc]
  exact mem_append_right _ hid

theorem ackDue_tail {log log' : List Event} (h : AckDue log (op :: ops) w) (hlog : log ⊆ log')
    (hop : ∀ id, op ≠ .unwind id) : AckDue log' (new ++ ops) w :=
  h.mono hlog fun hmem =>
    mem_append_right _ ((mem_cons.mp hmem).resolve_left fun heq => hop w heq.symm)

/-- A reference is given back: the write it belongs to counts in the window only as long as it stays. -/
theorem unref {id : Nat} {acked : Bool} (h : Acknowledging s (.unref id acked :: ops))
    (hbase : Consistent s' (new ++ ops)) (he : WriteBehind.exec conf s (.unref id acked) = .ok (s', new)) :
    Acknowledging s' (new ++ ops) := by
  cases he
  have hq := h.base.queue
  have howed : id ∈ (Op.unref id acked :: ops).flatMap Op.unrefs := mem_append_left _ mem_cons_self
  have hlog : QuietLog s.log (if leaves id s.queue then .left id :: s.log else s.log) := by
    split
    · exact .cons trivial (.refl _)
    · exact .refl _
  -- a write that is not acknowledged has no reference to give back
  have hstays : ∀ r ∈ s.queue, r.Waits → r ∈ unrefIn id s.queue := by
    intro r hr hwaits
    refine mem_filterMap.mpr ⟨r, hr, if_neg ?_⟩
    rintro rfl
    exact (hq.request r hr).unacked (isWrite_iff.mp hwaits.1).2 hwaits.2.2 howed
  refine h.of_filterMap hbase (f := fun r => if r.id = id then r.unref else some r) rfl ?_ ?_
    (fun w hw => ackDue_tail hw hlog.subset fun _ heq => by cases heq) ?_ ?_
  · intro a b hab
    refine ⟨Sound.unref_shape hab, ?_⟩
    rcases Sound.unref_cases hab with ⟨-, rfl⟩ | ⟨-, -, rfl⟩
    all_goals exact ⟨rfl, fun hw => hw⟩
  · show s.windowCurrent ≤ inWindow (s.queue.filterMap fun r => if r.id = id then r.unref else some r)
    rw [inWindow_filterMap (g := Request.inWindow)]
    · exact h.window
    intro r hr
    by_cases hid : r.id = id
    · rw [if_pos hid, Request.unref]
      by_cases hle : r.refcount ≤ 1
      · -- one reference is for the child's answer, and one for this unref
        rw [if_pos hle]
        show 0 = r.inWindow
        refine (if_neg ?_).symm
        rintro ⟨hw, hb, hg⟩
        have hrefs := (hq.request r hr).refs hw
        have hcnt : 0 < List.count r.id ((Op.unref id acked :: ops).flatMap Op.unrefs) :=
          count_pos_iff.mpr (hid ▸ howed)
        simp only [hb, hg, Bool.false_eq_true, if_false, if_true] at hrefs
        omega
      rw [if_neg hle]
      rfl
    rw [if_neg hid]
    rfl
  · intro w hw
    rcases h.answered w (hlog.answered hw) with hacked | ⟨r, hr, hwaits, hrid⟩
    · exact .inl hacked
    · exact .inr ⟨r, hstays r hr hwaits, hwaits, hrid⟩
  rcases h.passes with hpass | hnone
  · exact .inl (passDue_tail hpass (fun _ heq => by cases heq) rfl rfl)
  refine .inr ?_
  intro b hb hwaits
  obtain ⟨a, ha, hab⟩ := mem_filterMap.mp hb
  rcases Sound.unref_cases hab with ⟨-, rfl⟩ | ⟨-, -, rfl⟩
  · exact hnone b ha hwaits
  · exact hnone a ha hwaits

theorem detach {id : Nat} (h : Acknowledging s (.detach id :: ops)) (hbase : Consistent s' (new ++ ops))
    (he : WriteBehind.exec conf s (.detach id) = .ok (s', new)) : Acknowledging s' (new ++ ops) := by
  cases he
  have hq := h.base.queue
  have hother := (hq.next id (mem_append_left _ mem_cons_self)).1
  -- the stub of a write is left alone
  have hkeep : ∀ r ∈ s.queue, r.isWrite = true → r.detach id = r := by
    intro r hr hw
    refine if_neg ?_
    rintro rfl
    exact (hq.request r hr).not_isOther (isWrite_iff.mp hw).2 hother
  have hback : ∀ a : Request, (a.detach id).isWrite = true → a.isWrite = true ∧ a.detach id = a := by
    intro a hw
    rcases Sound.detach_cases id a with ⟨-, heq⟩ | ⟨-, heq⟩
    · rw [heq] at hw
      exact absurd hw (by simp [isWrite])
    rw [heq] at hw
    exact ⟨hw, heq⟩
  have hqueue : s.queue.map (Request.detach id) = s.queue.filterMap fun r => some (r.detach id) :=
    filterMap_eq_map.symm ▸ rfl
  refine h.of_filterMap hbase hqueue ?_ ?_
    (fun w hw => ackDue_tail hw (List.Subset.refl _) fun _ heq => by cases heq) ?_ ?_
  · intro a b hab
    cases hab
    refine ⟨Sound.detach_shape id a, ?_, fun hw => (hback a hw).1⟩
    rcases Sound.detach_cases id a with ⟨-, heq⟩ | ⟨-, heq⟩ <;> rw [heq]
  · show s.windowCurrent ≤ inWindow (s.queue.map (Request.detach id))
    have hsame : inWindow (s.queue.map (Request.detach id)) = inWindow s.queue := by
      unfold inWindow
      rw [map_map]
      congr 1
      refine map_congr_left ?_
      intro r _
      rcases Sound.detach_cases id r with ⟨-, heq⟩ | ⟨-, heq⟩ <;> simp [heq, Request.inWindow]
    rw [hsame]
    exact h.window
  · intro w hw
    rcases h.answered w hw with hacked | ⟨r, hr, hwaits, hrid⟩
    · exact .inl hacked
    refine .inr ⟨r, ?_, hwaits, hrid⟩
    have hmem := mem_map_of_mem (f := Request.detach id) hr
    rwa [hkeep r hr hwaits.1] at hmem
  rcases h.passes with hpass | hnone
  · exact .inl (passDue_tail hpass (fun _ heq => by cases heq) rfl rfl)
  refine .inr ?_
  intro b hb hwaits
  obtain ⟨a, ha, rfl⟩ := mem_map.mp hb
  rw [(hback a hwaits.1).2] at hwaits
  exact hnone a ha hwaits

/-- **One operation of a thread.** -/
theorem exec (h : Acknowledging s (op :: ops)) (hfits : Fits s op)
    (he : WriteBehind.exec conf s op = .ok (s', new)) : Acknowledging s' (new ++ ops) := by
  have hbase := h.base.exec he
  cases op with
  | enqueue fop => exact h.enqueue hbase he
  | mark flushAll => exact h.mark hbase hfits he
  | unref id acked => exact h.unref hbase he
  | detach id => exact h.detach hbase he
  | unwind id =>
    obtain ⟨r, -, rfl, rfl⟩ := exec_unwind he
    refine h.of_queue_eq hbase rfl rfl (fun w hw => ?_) (fun w hw => ?_)
      (fun hp => passDue_tail hp nofun rfl rfl)
    · exact (QuietLog.cons (e := .acked id r.opRet) trivial (.refl s.log)).answered hw
    rcases hw with ⟨opRet, hmem⟩ | hmem
    · exact .inl ⟨opRet, mem_cons_of_mem _ hmem⟩
    rcases mem_cons.mp hmem with heq | hmem
    · cases heq
      exact .inl ⟨r.opRet, mem_cons_self⟩
    · exact .inr hmem
  | send wind =>
    obtain ⟨rfl, rfl⟩ := exec_send he
    refine h.of_queue_eq hbase rfl rfl (fun w hw => ?_)
      (fun w hw => ackDue_tail hw (subset_cons_self _ _) nofun) (fun hp => ?_)
    · obtain ⟨writes, size, opRet, hmem, hw⟩ := hw
      exact ⟨writes, size, opRet, (mem_cons.mp hmem).resolve_left nofun, hw⟩
    -- what is sent is now a call
    rcases hp with ⟨flushAll, hmem⟩ | ⟨id, hid⟩
    · exact .inl ⟨flushAll, (mem_cons.mp hmem).resolve_left nofun⟩
    refine .inr ⟨id, ?_⟩
    simp only [flatMap_cons, flatMap_append, flatMap_nil, mem_append, nil_append, append_nil] at hid ⊢
    rcases hid with (hid | hid) | hid
    · exact .inr (.inr hid)
    · exact .inl hid
    · exact .inr (.inl hid)
  | resume id fop =>
    rcases exec_resume he with ⟨-, rfl, rfl⟩ | ⟨-, heq⟩
    · refine h.of_queue_eq hbase rfl rfl
        (fun w hw => (QuietLog.cons (e := .resumed id) trivial (.refl s.log)).answered hw)
        (fun w hw => ackDue_tail hw (subset_cons_self _ _) nofun)
        (fun hp => passDue_tail hp nofun rfl ?_)
      simp [Call.winds]
    have haside := wbFfrCbk_aside conf { s with log := .resumed id :: s.log } id
    rw [heq] at haside
    have hlog := QuietLog.trans (.cons (e := .resumed id) trivial (.refl s.log)) haside.log
    exact h.of_queue_eq hbase haside.queue haside.window (fun w hw => hlog.answered hw)
      (fun w hw => ackDue_tail hw hlog.subset nofun)
      (fun hp => passDue_tail hp nofun rfl (by rw [haside.calls]))
  | flush id behind =>
    cases he
    refine h.of_queue_eq hbase rfl rfl (fun w hw => hw)
      (fun w hw => ackDue_tail hw (List.Subset.refl _) nofun)
      (fun hp => passDue_tail hp nofun rfl ?_)
    simp [Call.winds]

/-- **One answer of the child.** -/
theorem answer (h : Acknowledging s ops) {j : Nat} {call : Call} (hcall : s.calls[j]? = some call)
    (opRet opErrno : Int) : Acknowledging (s.answered conf j opRet opErrno call).1
      ((s.answered conf j opRet opErrno call).2 ++ ops) := by
  have hbase := h.base.answer conf hcall opRet opErrno
  have hmem : call ∈ s.calls := mem_of_getElem? hcall
  have hq := h.base.queue
  -- an answer that is not to a write of the queue
  have hrest (hnot : ∀ wind, call ≠ .write wind) : Acknowledging (s.answered conf j opRet opErrno call).1
        ((s.answered conf j opRet opErrno call).2 ++ ops) := by
    have haside := answer_aside conf { s with calls := s.calls.eraseIdx j } opRet opErrno hnot
    refine h.of_queue_eq hbase haside.queue haside.window (fun w hw => haside.log.answered hw)
      (fun w hw => hw.mono haside.log.subset (mem_append_right _)) ?_
    rintro (⟨flushAll, hin⟩ | ⟨id, hid⟩)
    · exact .inl ⟨flushAll, mem_append_right _ hin⟩
    refine .inr ⟨id, ?_⟩
    rw [haside.calls, flatMap_append, append_assoc]
    refine mem_append_right _ ?_
    rcases mem_append.mp hid with hid | hid
    · exact mem_append_left _ hid
    refine mem_append_right _ ?_
    obtain ⟨c, hc, hid⟩ := mem_flatMap.mp hid
    refine mem_flatMap.mpr ⟨c, mem_eraseIdx_of_ne hcall hc ?_, hid⟩
    rintro rfl
    cases c with
    | write wind => exact hnot wind rfl
    | other _ _ | flush _ _ | direct _ => cases hid
  cases call with
  | write wind =>
    -- the requests of the child write are wound writes without an answer
    have hsent : ∀ r ∈ s.queue, r.id ∈ wind.ids → r.fop.isWrite = true ∧ r.stackWound = true ∧ r.gotReply = false := by
      intro r hr hid
      have honWay : r.id ∈ ops.flatMap Op.winds ++ s.calls.flatMap Call.winds :=
        mem_append_right _ (mem_flatMap.mpr ⟨.write wind, hmem, hid⟩)
      obtain ⟨x, hx, hxid, hP⟩ := hq.sent r.id honWay
      rw [← hq.unique hx hr hxid]
      exact hP
    refine h.of_filterMap hbase (f := fun r => if r.id ∈ wind.ids then r.replied opRet opErrno else some r) rfl ?_ ?_
      (fun w hw => hw.mono (subset_cons_self _ _) (mem_append_right _)) ?_
      (.inl (.inl ⟨false, mem_append_left _ mem_cons_self⟩))
    · intro a b hab
      rcases Sound.answered_cases hab with ⟨-, hr⟩ | ⟨-, rfl⟩
      · obtain ⟨-, hshape, -, -, hstub, hbeh⟩ := Sound.replied_cases hr
        refine ⟨hshape, hbeh, ?_⟩
        rw [isWrite, isWrite, hstub, hshape.fop]
        exact fun hw => hw
      · exact ⟨⟨rfl, rfl, rfl, rfl, rfl, rfl⟩, rfl, fun hw => hw⟩
    · show s.windowCurrent - windowTaken wind.ids s.queue ≤
        inWindow (s.queue.filterMap fun r => if r.id ∈ wind.ids then r.replied opRet opErrno else some r)
      rw [inWindow_filterMap (g := fun r => if r.id ∈ wind.ids then 0 else r.inWindow)]
      · have hsplit := inWindow_split wind.ids (q := s.queue) fun r hr hid =>
          ⟨(hsent r hr hid).1, (hsent r hr hid).2.2⟩
        have hwindow := h.window
        omega
      intro r _
      by_cases hid : r.id ∈ wind.ids
      · rw [if_pos hid, if_pos hid]
        cases hr : r.replied opRet opErrno with
        | none => rfl
        | some r' =>
          obtain ⟨-, -, hg, -⟩ := Sound.replied_cases hr
          exact if_neg fun hflags => absurd hflags.2.2 (by simp [hg])
      rw [if_neg hid, if_neg hid]
      rfl
    intro w hw
    obtain ⟨writes, size, ret, hin, hwin⟩ := hw
    rcases mem_cons.mp hin with heq | hin
    · cases heq
      obtain ⟨r, hr, hwr⟩ := mem_flatMap.mp hwin
      obtain ⟨hrq, hid⟩ := mem_filter.mp hr
      have hid : r.id ∈ wind.ids := by simpa using hid
      obtain ⟨hrw, -, hrg⟩ := hsent r hrq hid
      cases hb : r.writeBehind with
      | true => exact .inl (h.behind r hrq hb w hwr)
      | false =>
        -- the second reference is for the acknowledgement: the request stays
        rw [h.single r hrq hb, mem_singleton] at hwr
        subst hwr
        have hval := hq.request r hrq
        have hrefs := hval.refs hrw
        simp only [hb, hrg, Bool.false_eq_true, if_false] at hrefs
        obtain ⟨r', hr'⟩ : ∃ r', r.replied opRet opErrno = some r' := by
          unfold replied
          split <;>
            · rw [Request.unref, if_neg (by show ¬ r.refcount ≤ 1; omega)]
              exact ⟨_, rfl⟩
        obtain ⟨-, hshape, hg, -, hstub, hbeh⟩ := Sound.replied_cases hr'
        refine .inr ⟨r', ?_, ⟨?_, hg, by rw [hbeh, hb]⟩, hshape.id⟩
        · exact mem_filterMap.mpr ⟨r, hrq, by rw [if_pos hid, hr']⟩
        rw [isWrite, hstub, hshape.fop, hval.stub hrw, hrw]
        rfl
    rcases h.answered w ⟨writes, size, ret, hin, hwin⟩ with hacked | ⟨r, hr, hwaits, hrid⟩
    · exact .inl hacked
    refine .inr ⟨r, mem_filterMap.mpr ⟨r, hr, if_neg ?_⟩, hwaits, hrid⟩
    intro hid
    have := (hsent r hr hid).2.2
    rw [hwaits.2.1] at this
    cases this
  | other id fop | flush id behind | direct size => exact hrest fun _ heq => by cases heq

theorem preserved (conf : Conf) : Preserved conf (fun _ => True) Fits (fun _ _ _ => True) Acknowledging where
  perm hperm h := by
    refine h.of_queue_eq (h.base.perm hperm) rfl rfl
      (fun _ hw => hw) (fun w hw => hw.mono (List.Subset.refl _) hperm.mem_iff.mp) ?_
    rintro (⟨flushAll, hin⟩ | ⟨id, hid⟩)
    · exact .inl ⟨flushAll, hperm.mem_iff.mp hin⟩
    · exact .inr ⟨id, ((hperm.flatMap_right Op.winds).append_right _).mem_iff.mp hid⟩
  threads ts h :=
    { h with base := h.base.threads ts }
  enter fop h := by
    refine h.of_queue_eq (h.base.enter fop) rfl rfl
      (fun _ hw => hw) (fun w hw => hw.mono (List.Subset.refl _) (mem_cons_of_mem _)) ?_
    rintro (⟨flushAll, hin⟩ | ⟨id, hid⟩)
    · exact .inl ⟨flushAll, mem_cons_of_mem _ hin⟩
    · exact .inr ⟨id, hid⟩
  check {s ops} h :=
    have hlog : QuietLog s.log (s.check .writev).log := .cons trivial (.refl _)
    h.of_queue_eq (h.base.check .writev) rfl rfl (fun _ hw => hlog.answered hw)
      (fun _ hw => hw.mono hlog.subset fun hmem => hmem) (fun hp => hp)
  direct till size h := by
    refine h.of_queue_eq
      (h.base.direct till size) rfl rfl
      (fun _ hw => hw) (fun _ hw => hw) ?_
    rintro (hin | ⟨id, hid⟩)
    · exact .inl hin
    refine .inr ⟨id, ?_⟩
    simpa [Call.winds] using hid
  exec hfits _ _ h he := h.exec hfits he
  answer opRet opErrno _ _ hcall h := h.answer hcall opRet opErrno

theorem create (conf : Conf) (disabled noWindow : Bool) :
    Acknowledging (.create conf disabled noWindow) (pending (State.create conf disabled noWindow).threads) where
  base := .create conf disabled noWindow
  first := .nil
  window := Nat.zero_le _
  single _ hr := nomatch hr
  behind _ hr := nomatch hr
  answered _ hw := by
    obtain ⟨_, _, _, hmem, _⟩ := hw
    cases hmem
  passes := .inr nofun

/-- **When nothing is left to be done**, every answered write has been acknowledged. -/
theorem idle (h : Acknowledging s []) (hcalls : s.calls = []) (hw : Answered s.log w) :
    ∃ opRet, Event.acked w opRet ∈ s.log := by
  have hnone : ∀ r ∈ s.queue, ¬ r.Waits := by
    refine h.passes.resolve_left ?_
    rintro (⟨flushAll, hin⟩ | ⟨id, hid⟩)
    · cases hin
    rw [hcalls] at hid
    cases hid
  rcases h.answered w hw with (hacked | hin) | ⟨r, hr, hwaits, -⟩
  · exact hacked
  · cases hin
  · exact absurd hwaits (hnone r hr)

end Acknowledging

end GlusterFS.WriteBehind
