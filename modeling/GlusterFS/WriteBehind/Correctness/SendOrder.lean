import GlusterFS.WriteBehind.Correctness.Ordering

/-!
# `WriteBehind.Correctness.SendOrder` — overlapping writes reach the child in order

A pass marks the writes it winds under the file's lock, and sends them after it has released it. As long as no pass
marks requests while another one has still to send what it has marked (`Alone`), of two writes that overlap the child
receives the earlier one first. Without that condition it does not: the pass of a second write can mark and send it
before the first pass sends the first write.

Two facts carry the proof. The sends of one thread are in the order of the queue (`Rising`), and at most one thread
has sends (`Threads.Sole`). Writes that are sent in one child write are next to each other in the file, so they do not
overlap: their bytes tile the buffer of a request (`Request.Tiled`), and the requests of a child write are contiguous.
-/

namespace GlusterFS.WriteBehind

open History Scan Threads
open List

def Sent (log : List Event) (w : Nat) : Prop := ∃ writes, Event.sent writes ∈ log ∧ w ∈ writes

theorem Sent.mono {log log' : List Event} (hsub : log ⊆ log') {w : Nat} (h : Sent log w) : Sent log' w := by
  obtain ⟨writes, hmem, hw⟩ := h
  exact ⟨writes, hsub hmem, hw⟩

/-- Two writes have a byte in common. -/
def Overlap (issued : List Fop) (w v : Nat) : Prop :=
  ∃ f g x, issued[w]? = some f ∧ issued[v]? = some g ∧ f.isWrite = true ∧ g.isWrite = true ∧
    f.off ≤ x ∧ x < f.off + f.size ∧ g.off ≤ x ∧ x < g.off + g.size

theorem Overlap.of_append {issued : List Fop} {fop : Fop} {w v : Nat} (hw : w < issued.length)
    (hv : v < issued.length) (h : Overlap (issued ++ [fop]) w v) : Overlap issued w v := by
  obtain ⟨f, g, x, hf, hg, hrest⟩ := h
  rw [getElem?_append_left hw] at hf
  rw [getElem?_append_left hv] at hg
  exact ⟨f, g, x, hf, hg, hrest⟩

/-- No pass marks requests while another one has to send what it has marked. -/
def Alone (s : State) : Op → Prop
  | .mark _ => (pending s.threads).flatMap Op.winds = []
  | _ => True

instance decidableAlone (s : State) : ∀ op, Decidable (Alone s op)
  | .mark _ => inferInstanceAs (Decidable (_ = []))
  | .enqueue _ | .unwind _ | .unref _ _ | .send _ | .detach _ | .resume _ _ | .flush _ _ => isTrue trivial

/-! ## Bytes of a request -/

/-- The writes a request carries lie side by side in its buffer. -/
structure Request.Tiled (issued : List Fop) (r : Request) : Prop where
  within : ∀ w ∈ r.carried, ∀ f, issued[w]? = some f → r.fop.off ≤ f.off ∧ f.off + f.size ≤ r.fop.off + r.writeSize
  apart : r.carried.Pairwise fun w v => ∀ f g, issued[w]? = some f → issued[v]? = some g → f.off + f.size ≤ g.off

namespace Request.Tiled

variable {issued : List Fop} {r : Request}

theorem not_overlap (h : r.Tiled issued) {w v : Nat} (hw : w ∈ r.carried) (hv : v ∈ r.carried) (hne : w ≠ v) :
    ¬ Overlap issued w v := by
  have hsymm : Std.Symm fun w v : Nat => ¬ Overlap issued w v := by
    refine ⟨?_⟩
    rintro w v hnot ⟨f, g, x, hf, hg, hfw, hgw, h1, h2, h3, h4⟩
    exact hnot ⟨g, f, x, hg, hf, hgw, hfw, h3, h4, h1, h2⟩
  have hpair : r.carried.Pairwise fun w v => ¬ Overlap issued w v := by
    refine h.apart.imp ?_
    rintro w v hapart ⟨f, g, x, hf, hg, -, -, h1, h2, h3, h4⟩
    have := hapart f g hf hg
    omega
  exact hpair.forall hw hv hne

theorem of_shape {r' : Request} (h : r.Tiled issued) (hs : r.SameShape r') : r'.Tiled issued := by
  constructor
  · rw [hs.carried, hs.fop, hs.writeSize]
    exact h.within
  rw [hs.carried]
  exact h.apart

theorem append {unrefs : List Nat} (h : r.Tiled issued) (hv : r.Valid issued unrefs) (fop : Fop) :
    r.Tiled (issued ++ [fop]) := by
  -- the writes a request carries have their numbers already
  have hold : ∀ w ∈ r.carried, ∀ f, (issued ++ [fop])[w]? = some f → issued[w]? = some f := by
    intro w hw f hf
    obtain ⟨-, g, hg, -⟩ := hv.carried w hw
    rwa [List.getElem?_append_left (List.getElem?_eq_some_iff.mp hg).1] at hf
  constructor
  · intro w hw f hf
    exact h.within w hw f (hold w hw f hf)
  refine h.apart.imp_of_mem ?_
  intro w v hw hv' hapart f g hf hg
  exact hapart f g (hold w hw f hf) (hold v hv' g hg)

theorem new (issued : List Fop) (fop : Fop) : (Request.new issued.length fop).Tiled (issued ++ [fop]) := by
  constructor
  · intro w hw f hf
    rw [mem_singleton.mp hw, getElem?_concat_length] at hf
    cases hf
    exact ⟨le_rfl, le_rfl⟩
  · exact pairwise_singleton _ _

theorem absorb {a b : Request} (ha : a.Tiled issued) (hb : b.Tiled issued) (hab : Joins a b) :
    (a.absorb b).Tiled issued := by
  have hoff : (a.absorb b).fop.off = a.fop.off := Request.absorb_off hab.2.2.2
  have hnext := hab.2.2.1
  constructor
  · intro w hw f hf
    rw [hoff]
    show a.fop.off ≤ f.off ∧ f.off + f.size ≤ a.fop.off + (a.writeSize + b.writeSize)
    rcases mem_append.mp hw with hw | hw
    · have := ha.within w hw f hf
      omega
    have := hb.within w hw f hf
    omega
  refine pairwise_append.mpr ⟨ha.apart, hb.apart, ?_⟩
  intro w hw v hv f g hf hg
  have hleft := ha.within w hw f hf
  have hright := hb.within v hv g hg
  omega

end Request.Tiled

/-- The requests of a child write follow each other in the file. -/
def Contiguous (q : List Request) (ids : List Nat) : Prop :=
  ∀ a ∈ q, ∀ b ∈ q, a.id ∈ ids → b.id ∈ ids → a.id < b.id → a.fop.off + a.writeSize ≤ b.fop.off

/-- Every request of the second queue was one of the first. -/
def Shrinks (q q' : List Request) : Prop := ∀ x' ∈ q', ∃ x ∈ q, x.SameShape x'

theorem shrinks_filterMap {f : Request → Option Request} (hf : ∀ a b, f a = some b → a.SameShape b)
    (q : List Request) : Shrinks q (q.filterMap f) := by
  intro x' hx'
  obtain ⟨x, hx, hxx'⟩ := mem_filterMap.mp hx'
  exact ⟨x, hx, hf x x' hxx'⟩

variable {q q' : List Request} {conf : Conf} {unrefs onWay resumes : List Nat}

theorem Contiguous.shrinks {ids : List Nat} (h : Contiguous q ids) (hs : Shrinks q q') : Contiguous q' ids := by
  intro a' ha' b' hb' haid hbid hlt
  obtain ⟨a, ha, hsa⟩ := hs a' ha'
  obtain ⟨b, hb, hsb⟩ := hs b' hb'
  rw [hsa.id] at haid hlt
  rw [hsb.id] at hbid hlt
  rw [hsa.fop, hsa.writeSize, hsb.fop]
  exact h a ha b hb haid hbid hlt

theorem mem_carriedBy {ids : List Nat} {q : List Request} {w : Nat} :
    w ∈ carriedBy ids q ↔ ∃ r ∈ q, r.id ∈ ids ∧ w ∈ r.carried := by
  simp only [carriedBy, mem_flatMap, mem_filter, decide_eq_true_eq, and_assoc]

theorem carriedBy_shrinks (hs : Shrinks q q') (ids : List Nat) : carriedBy ids q' ⊆ carriedBy ids q := by
  intro w hw
  obtain ⟨r', hr', hid, hwr⟩ := mem_carriedBy.mp hw
  obtain ⟨r, hr, hshape⟩ := hs r' hr'
  rw [hshape.id] at hid
  rw [hshape.carried] at hwr
  exact mem_carriedBy.mpr ⟨r, hr, hid, hwr⟩

/-! ## What a pass winds -/

/-- The marked requests follow each other in the file. -/
theorem markWindAll_contiguous (q : List Request) : ∀ expected,
    (markWindAll expected q).marked.Pairwise (fun a b => a.fop.off + a.writeSize ≤ b.fop.off) ∧
      ∀ b ∈ (markWindAll expected q).marked, ∀ x, expected = some x → x ≤ b.fop.off := by
  induction q with
  | nil => exact fun _ => ⟨.nil, fun _ hb => by cases hb⟩
  | cons r rs ih =>
    intro expected
    rw [markWindAll]
    split
    · exact ⟨.nil, fun _ hb => by cases hb⟩
    split
    · exact ih expected
    split
    · exact ⟨.nil, fun _ hb => by cases hb⟩
    next hoff =>
      obtain ⟨hpair, hfrom⟩ := ih (some (r.fop.off + r.writeSize))
      have hlater : ∀ b ∈ (markWindAll (some (r.fop.off + r.writeSize)) rs).marked,
          r.fop.off + r.writeSize ≤ b.fop.off := fun b hb => hfrom b hb _ rfl
      refine ⟨pairwise_cons.mpr ⟨hlater, hpair⟩, ?_⟩
      intro b hb x hx
      subst hx
      have hr : r.fop.off = x := by simpa using hoff
      rcases mem_cons.mp hb with rfl | hb
      · exact le_of_eq hr.symm
      have := hlater b hb
      omega

theorem windsAfter_contiguous (conf : Conf) (s : State) (flushAll : Bool) (others : Marked) :
    (windsAfter conf s flushAll others).marked.Pairwise (fun a b => a.fop.off + a.writeSize ≤ b.fop.off) := by
  unfold windsAfter
  split
  · unfold markWinds
    generalize (if !flushAll && decide (s.aggregateCurrent < conf.aggregateSize) then canWind none others.queue
      else none) = why
    dsimp only
    split
    · exact (markWindAll_contiguous _ none).1
    · exact .nil
  · exact .nil

theorem sync_subset {aggregateSize : Nat} {rs : List Request} {w : Wind} (hw : w ∈ sync aggregateSize rs) {id : Nat}
    (hid : id ∈ w.ids) : id ∈ rs.map Request.id := by
  have hmem : id ∈ (sync aggregateSize rs).flatMap Wind.ids := mem_flatMap.mpr ⟨w, hw, hid⟩
  rcases sync_ids aggregateSize rs with hids | ⟨hnone, -⟩
  · rwa [hids] at hmem
  rw [hnone] at hw
  cases hw

theorem Sound.scans_carried {s : State} {collapsed : Collapsed}
    (h : Sound s.issued s.queue s.log unrefs onWay resumes) (flushAll : Bool)
    (hcol : collapseWriteBufs conf.pageSize .start s.unwinds.queue = .ok collapsed) :
    ∀ x ∈ (s.winds conf flushAll collapsed).queue, x.id ∈ onWay →
      ∃ y ∈ s.queue, y.id = x.id ∧ y.carried = x.carried := by
  have hunw := s.unwinds_marks
  have h1 : ∀ x ∈ s.unwinds.queue, x.id ∈ onWay → ∃ y ∈ s.queue, y.id = x.id ∧ y.carried = x.carried :=
    hunw.forall_mem (fun _ hx => hx) fun x hx _ => ⟨x, hx, rfl, rfl⟩
  -- only requests that are not wound are joined
  have h2 := (collapseWriteBufs_merges Packing.Sound.start hcol).rule
    (P := fun q => Sound s.issued q s.log (s.unwinds.marked.map Request.id
      ++ unrefs) onWay resumes ∧ ∀ x ∈ q, x.id ∈ onWay → ∃ y ∈ s.queue, y.id = x.id ∧ y.carried = x.carried)
    (by
      rintro pre a b post hab ⟨hs, hP⟩
      refine ⟨hs.join hab, ?_⟩
      intro x hx hid
      rcases mem_append.mp hx with hx | hx
      · exact hP x (mem_append_left _ hx) hid
      rcases mem_cons.mp hx with rfl | hx
      · obtain ⟨r, hr, hrid, -, hrs, -⟩ := hs.sent a.id hid
        have hsame := hs.unique hr (mem_append_right _ mem_cons_self) hrid
        rw [hsame, hab.1.2.2] at hrs
        cases hrs
      · exact hP x (mem_append_right _ (mem_cons_of_mem a (mem_cons_of_mem b hx))) hid)
    (by
      rintro pre b post hb ⟨hs, hP⟩
      refine ⟨hs.drop hb, ?_⟩
      intro x hx
      refine hP x ?_
      rcases mem_append.mp hx with hx | hx
      · exact mem_append_left _ hx
      · exact mem_append_right _ (mem_cons_of_mem b hx))
    [] ⟨h.unwindAll hunw, h1⟩
  have h3 := (others_marks collapsed.queue).forall_mem (fun _ hx => hx) h2.2
  exact (s.winds_marks conf flushAll collapsed).forall_mem (fun _ hx => hx) h3

theorem scans_tiled {s : State} {collapsed : Collapsed} (flushAll : Bool) (h : ∀ r ∈ s.queue, r.Tiled s.issued)
    (hcol : collapseWriteBufs conf.pageSize .start s.unwinds.queue = .ok collapsed) :
    ∀ r ∈ (s.winds conf flushAll collapsed).queue, r.Tiled s.issued := by
  refine scans_forall flushAll hcol (fun _ _ hab ha hb => ha.absorb hb hab) (fun _ hr => ⟨hr.within, hr.apart⟩)
    (fun _ hr => ⟨hr.within, hr.apart⟩) ?_
  exact s.unwinds_marks.forall_mem (fun _ hr => ⟨hr.within, hr.apart⟩) h

/-! ## The invariant -/

/-- Writes that overlap a write that is sent, and were put on the queue before it, have been sent. -/
def InSequence (issued : List Fop) : Event → List Event → Prop
  | .sent writes, earlier => ∀ v ∈ writes, v < issued.length ∧ ∀ w < v, Overlap issued w v → Sent earlier w
  | _, _ => True

theorem InSequence.append {issued : List Fop} {e : Event} {earlier : List Event} (h : InSequence issued e earlier)
    (fop : Fop) : InSequence (issued ++ [fop]) e earlier := by
  cases e with
  | sent writes =>
    intro v hv
    obtain ⟨hlt, hseq⟩ := h v hv
    refine ⟨by rw [length_append]; exact Nat.lt_add_right _ hlt, ?_⟩
    intro w hw hover
    exact hseq w hw (hover.of_append (lt_trans hw hlt) hlt)
  | resumed _ | answered _ _ _ | acked _ _ | left _ | checked _ _ => trivial

theorem Event.Quiet.inSequence {e : Event} (h : e.Quiet) (issued : List Fop) (earlier : List Event) :
    InSequence issued e earlier := by
  cases e with
  | sent _ => exact h.elim
  | resumed _ | answered _ _ _ | acked _ _ | left _ | checked _ _ => trivial

/-- The invariant of a run in which passes are alone. -/
structure Streaming (s : State) (ops : List Op) : Prop where
  base : Consistent s ops
  tiled : ∀ r ∈ s.queue, r.Tiled s.issued
  batch : ∀ wind, Op.send wind ∈ ops → Contiguous s.queue wind.ids
  calls : ∀ wind, Call.write wind ∈ s.calls → ∀ w ∈ carriedBy wind.ids s.queue, Sent s.log w
  answered : ∀ w, Answered s.log w → Sent s.log w
  ordered : Each (InSequence s.issued) s.log

/-- A pass is alone, and a thread that sends has the first of all sends. -/
def SendsFirst (s : State) (op : Op) : Prop :=
  Alone s op ∧ ∀ wind, op = .send wind → ∀ id ∈ (pending s.threads).flatMap Op.winds,
    id ∈ wind.ids ∨ ∀ x ∈ wind.ids, x < id

namespace Streaming

variable {conf : Conf} {s s' : State} {ops ops' new : List Op}

/-- A step after which there is no more in the queue and no more to send. -/
theorem of_shrinks (h : Streaming s ops) (hbase : Consistent s' ops') (hissued : s'.issued = s.issued)
    (hqueue : Shrinks s.queue s'.queue) (hops : ∀ wind, Op.send wind ∈ ops' → Op.send wind ∈ ops)
    (hcalls : ∀ wind, Call.write wind ∈ s'.calls → Call.write wind ∈ s.calls)
    (hlog : QuietLog s.log s'.log) : Streaming s' ops' := by
  refine
    { base := hbase
      tiled := ?_
      batch := fun wind hw => (h.batch wind (hops wind hw)).shrinks hqueue
      calls := ?_
      answered := fun w hw => (h.answered w (hlog.answered hw)).mono hlog.subset
      ordered := ?_ }
  · intro r' hr'
    obtain ⟨r, hr, hshape⟩ := hqueue r' hr'
    rw [hissued]
    exact (h.tiled r hr).of_shape hshape
  · intro wind hw w hwc
    exact (h.calls wind (hcalls wind hw) w (carriedBy_shrinks hqueue wind.ids hwc)).mono hlog.subset
  obtain ⟨es, hquiet, hes⟩ := hlog
  rw [hes, hissued]
  exact h.ordered.append fun e he earlier => (hquiet e he).inSequence _ earlier

theorem shrinks_of_eq (h : q' = q) : Shrinks q q' := by
  subst h
  exact fun x hx => ⟨x, hx, ⟨rfl, rfl, rfl, rfl, rfl, rfl⟩⟩

/-- **What is sent first**: overlapping writes before it have been sent. -/
theorem inSequence_sent {wind : Wind} (h : Streaming s (.send wind :: ops))
    (hfst : ∀ id ∈ (Op.send wind :: ops).flatMap Op.winds, id ∈ wind.ids ∨ ∀ x ∈ wind.ids, x < id) :
    InSequence s.issued (.sent (carriedBy wind.ids s.queue)) s.log := by
  have hq := h.base.queue
  intro v hv
  obtain ⟨b, hb, hbid, hvb⟩ := mem_carriedBy.mp hv
  obtain ⟨-, g, hg, -⟩ := (hq.request b hb).carried v hvb
  refine ⟨(List.getElem?_eq_some_iff.mp hg).1, ?_⟩
  intro w hlt hover
  obtain ⟨f, g', x, hf, hg', hfw, -, h1, h2, h3, h4⟩ := id hover
  have hwrite : IsWrite s.issued w := ⟨f, hf, hfw, by omega⟩
  rcases hq.writes w hwrite with hans | ⟨a, ha, haw, hag, hwa⟩
  · exact h.answered w hans
  -- the request of `w` is before the one of `v`
  have hab : a ≠ b := by
    rintro rfl
    exact (h.tiled a ha).not_overlap hwa hvb (ne_of_lt hlt) hover
  have hale := ((hq.request a ha).carried w hwa).1
  have hidlt : a.id < b.id := by
    rcases Nat.lt_trichotomy a.id b.id with hlt' | heq | hgt
    · exact hlt'
    · exact absurd (hq.unique ha hb heq) hab
    have := rel_of_id_lt hq.ids_rising hq.order hb ha hgt v hvb
    omega
  obtain ⟨b', hb', hb'id, hbw, hbs, -⟩ := hq.sent b.id
    (mem_append_left _ (mem_append_left _ hbid))
  have hsame := hq.unique hb' hb hb'id
  subst hsame
  have hwound := rel_of_id_lt hq.ids_rising hq.wound ha hb hidlt hbw hbs
  have hpos : 0 < a.writeSize := by
    obtain ⟨-, f', hf', -, hsize⟩ := (hq.request a ha).carried w hwa
    rw [hf] at hf'
    cases hf'
    omega
  rcases mem_append.mp (hq.away a ha haw hwound.2 hag ((hq.request a ha).vector_ne_nil hpos)) with hsend | hcall
  · rcases hfst a.id hsend with haid | hlater
    · -- in one child write, side by side
      have hnext := h.batch wind mem_cons_self a ha b' hb haid hbid hidlt
      have hleft := (h.tiled a ha).within w hwa f hf
      have hright := (h.tiled b' hb).within v hvb g' hg'
      omega
    have := hlater b'.id hbid
    omega
  obtain ⟨call, hcall, haid⟩ := mem_flatMap.mp hcall
  cases call with
  | write wind' => exact h.calls wind' hcall w (mem_carriedBy.mpr ⟨a, ha, haid, hwa⟩)
  | other _ _ | flush _ _ | direct _ => cases haid

theorem mark {flushAll : Bool} (h : Streaming s (.mark flushAll :: ops)) (hbase : Consistent s' (new ++ ops))
    (halone : ops.flatMap Op.winds = []) (he : wbProcessQueue conf s flushAll = .ok (s', new)) :
    Streaming s' (new ++ ops) := by
  obtain ⟨collapsed, hcol, rfl, rfl⟩ := wbProcessQueue_cases he
  have hq := h.base.queue
  have hscans := hq.scans flushAll hcol
  have hmarks := s.winds_marks conf flushAll collapsed
  refine
    { base := hbase
      tiled := scans_tiled flushAll h.tiled hcol
      batch := ?_
      calls := ?_
      answered := h.answered
      ordered := h.ordered }
  · intro wind hw
    rcases mem_append.mp hw with hw | hw
    · -- what this pass sends: it has marked the requests, in the order of the queue
      have hsync : wind ∈ sync conf.aggregateSize
          (s.winds conf flushAll collapsed).marked := by
        rcases mem_append.mp hw with hw | hw
        · rcases mem_append.mp hw with hw | hw
          · obtain ⟨r, -, hr⟩ := mem_flatMap.mp hw
            simp at hr
          obtain ⟨wind', hwind', heq⟩ := mem_map.mp hw
          cases heq
          exact hwind'
        · obtain ⟨r, -, fop, -, heq | heq | ⟨-, heq | heq⟩⟩ := mem_resumeOps hw <;> cases heq
      have hrising := hscans.ids_rising.sublist hmarks.marked_sublist
      have hcontig := windsAfter_contiguous conf s flushAll (getOtherRequests collapsed.queue)
      -- a request of the queue with a marked number is the marked one
      have hmark : ∀ x ∈ (s.winds conf flushAll collapsed).queue, x.id ∈ wind.ids →
          x ∈ (s.winds conf flushAll collapsed).marked := by
        intro x hx hid
        obtain ⟨y, hy, hyid⟩ := mem_map.mp (sync_subset hsync hid)
        rw [← hscans.unique (hmarks.marked_sublist.subset hy) hx hyid]
        exact hy
      intro a ha b hb haid hbid hlt
      exact rel_of_id_lt hrising hcontig (hmark a ha haid) (hmark b hb hbid) hlt
    intro a _ b _ haid
    have hempty := flatMap_eq_nil_iff.mp halone _ hw
    rw [show wind.ids = [] from hempty] at haid
    cases haid
  intro wind hwind w hw
  refine h.calls wind hwind w ?_
  obtain ⟨x, hx, hid, hwx⟩ := mem_carriedBy.mp hw
  have honWay : x.id ∈ (Op.mark flushAll :: ops).flatMap Op.winds ++ s.calls.flatMap Call.winds :=
    mem_append_right _ (mem_flatMap.mpr ⟨.write wind, hwind, hid⟩)
  obtain ⟨y, hy, hyid, hyc⟩ := hq.scans_carried flushAll hcol x hx honWay
  exact mem_carriedBy.mpr ⟨y, hy, hyid ▸ hid, hyc ▸ hwx⟩

theorem enqueue {fop : Fop} (h : Streaming s (.enqueue fop :: ops)) (hbase : Consistent s' (new ++ ops))
    (he : WriteBehind.exec conf s (.enqueue fop) = .ok (s', new)) : Streaming s' (new ++ ops) := by
  cases he
  have hq := h.base.queue
  -- the new number is not on its way
  have hfresh : ∀ id ∈ (Op.enqueue fop :: ops).flatMap Op.winds ++ s.calls.flatMap Call.winds,
      id ≠ s.issued.length := by
    intro id hid
    obtain ⟨r, hr, rfl, -⟩ := hq.sent id hid
    exact ne_of_lt (hq.request r hr).id_lt
  have hold : ∀ {ids : List Nat}, (∀ id ∈ ids, id ≠ s.issued.length) →
      ∀ x ∈ s.queue ++ [Request.new s.issued.length fop], x.id ∈ ids → x ∈ s.queue := by
    intro ids hids x hx hid
    rcases mem_append.mp hx with hx | hx
    · exact hx
    rw [mem_singleton.mp hx] at hid
    exact absurd rfl (hids _ hid)
  have hsends : ∀ wind, Op.send wind ∈ afterEnqueue s.issued.length fop ++ ops → Op.send wind ∈ ops := by
    intro wind hw
    refine (mem_append.mp hw).resolve_left ?_
    cases fop with
    | write off vector => simp [afterEnqueue]
    | other fop => cases fop <;> simp [afterEnqueue]
  refine
    { base := hbase
      tiled := ?_
      batch := ?_
      calls := ?_
      answered := h.answered
      ordered := h.ordered.mono fun _ _ he => he.append fop }
  · intro r hr
    rcases mem_append.mp hr with hr | hr
    · exact (h.tiled r hr).append (hq.request r hr) fop
    rw [mem_singleton.mp hr]
    exact .new s.issued fop
  · intro wind hw a ha b hb haid hbid hlt
    have hmem := hsends wind hw
    have hids : ∀ id ∈ wind.ids, id ≠ s.issued.length := by
      intro id hid
      refine hfresh id (mem_append_left _ ?_)
      exact mem_flatMap.mpr ⟨.send wind, mem_cons_of_mem _ hmem, hid⟩
    exact h.batch wind (mem_cons_of_mem _ hmem) a (hold hids a ha haid) b (hold hids b hb hbid) haid hbid hlt
  intro wind hwind w hw
  obtain ⟨x, hx, hid, hwx⟩ := mem_carriedBy.mp hw
  have hids : ∀ id ∈ wind.ids, id ≠ s.issued.length := by
    intro id hid
    exact hfresh id (mem_append_right _ (mem_flatMap.mpr ⟨.write wind, hwind, hid⟩))
  exact h.calls wind hwind w (mem_carriedBy.mpr ⟨x, hold hids x hx hid, hid, hwx⟩)

/-- **One operation of a thread.** -/
theorem exec {op : Op} (h : Streaming s (op :: ops)) (hfst : SendsFirst s op)
    (hpend : (pending s.threads).Perm (op :: ops)) (he : WriteBehind.exec conf s op = .ok (s', new)) :
    Streaming s' (new ++ ops) := by
  have hbase := h.base.exec he
  cases op with
  | enqueue fop => exact h.enqueue hbase he
  | mark flushAll =>
    refine h.mark hbase ?_ he
    have hnone : (pending s.threads).flatMap Op.winds = [] := hfst.1
    exact List.Perm.nil_eq (hnone ▸ hpend.flatMap_right Op.winds) ▸ rfl
  | unwind id =>
    obtain ⟨r, -, rfl, rfl⟩ := exec_unwind he
    exact h.of_shrinks hbase rfl (shrinks_of_eq rfl) (fun _ hw => mem_cons_of_mem _ hw) (fun _ hw => hw)
      (.cons trivial (.refl _))
  | unref id acked =>
    cases he
    refine h.of_shrinks hbase rfl (shrinks_filterMap (fun _ _ hab => Sound.unref_shape hab) _)
      (fun _ hw => mem_cons_of_mem _ hw) (fun _ hw => hw) ?_
    show QuietLog s.log (if leaves id s.queue then .left id :: s.log else s.log)
    split
    · exact .cons trivial (.refl _)
    · exact .refl _
  | send wind =>
    have hsent : ∀ id ∈ (Op.send wind :: ops).flatMap Op.winds, id ∈ wind.ids ∨ ∀ x ∈ wind.ids, x < id := by
      intro id hid
      exact hfst.2 wind rfl id ((hpend.flatMap_right Op.winds).mem_iff.mpr hid)
    have hseq := h.inSequence_sent hsent
    obtain ⟨rfl, rfl⟩ := exec_send he
    refine
      { base := hbase
        tiled := h.tiled
        batch := fun wind' hw => h.batch wind' (mem_cons_of_mem _ hw)
        calls := ?_
        answered := ?_
        ordered := each_cons.mpr ⟨hseq, h.ordered⟩ }
    · intro wind' hwind' w hw
      rcases mem_append.mp hwind' with hwind' | hwind'
      · exact (h.calls wind' hwind' w hw).mono (subset_cons_self _ _)
      cases mem_singleton.mp hwind'
      exact ⟨_, mem_cons_self, hw⟩
    rintro w ⟨writes, size, opRet, hmem, hw⟩
    have hmem := (mem_cons.mp hmem).resolve_left nofun
    exact (h.answered w ⟨writes, size, opRet, hmem, hw⟩).mono (subset_cons_self _ _)
  | detach id =>
    cases he
    refine h.of_shrinks hbase rfl ?_ (fun _ hw => mem_cons_of_mem _ hw) (fun _ hw => hw) (.refl _)
    intro x' hx'
    obtain ⟨x, hx, rfl⟩ := mem_map.mp hx'
    exact ⟨x, hx, Sound.detach_shape id x⟩
  | resume id fop =>
    rcases exec_resume he with ⟨-, rfl, rfl⟩ | ⟨-, heq⟩
    · refine h.of_shrinks hbase rfl (shrinks_of_eq rfl) (fun _ hw => mem_cons_of_mem _ hw) ?_
        (.cons trivial (.refl _))
      intro wind hw
      exact (mem_append.mp hw).resolve_right (by simp)
    have haside := wbFfrCbk_aside conf { s with log := .resumed id :: s.log } id
    rw [heq] at haside
    refine h.of_shrinks hbase haside.issued (shrinks_of_eq haside.queue) ?_ (fun _ hw => haside.calls ▸ hw)
      (QuietLog.trans (.cons (e := .resumed id) trivial (.refl s.log)) haside.log)
    intro wind hw
    exact mem_cons_of_mem _
      ((mem_append.mp hw).resolve_left fun hnew => haside.silent _ hnew wind rfl)
  | flush id behind =>
    cases he
    refine h.of_shrinks hbase rfl (shrinks_of_eq rfl) (fun _ hw => mem_cons_of_mem _ hw) ?_ (.refl _)
    intro wind hw
    exact (mem_append.mp hw).resolve_right (by simp)

/-- **One answer of the child.** -/
theorem answer (h : Streaming s ops) {j : Nat} {call : Call} (hcall : s.calls[j]? = some call) (opRet opErrno : Int) :
    Streaming (s.answered conf j opRet opErrno call).1 ((s.answered conf j opRet opErrno call).2 ++ ops) := by
  have hbase := h.base.answer conf hcall opRet opErrno
  have hmem : call ∈ s.calls := mem_of_getElem? hcall
  have hcalls : ∀ wind, Call.write wind ∈ s.calls.eraseIdx j → Call.write wind ∈ s.calls :=
    fun _ hin => mem_of_mem_eraseIdx hin
  -- an answer that is not to a write of the queue
  have hrest (hnot : ∀ wind, call ≠ .write wind) : Streaming (s.answered conf j opRet opErrno call).1
        ((s.answered conf j opRet opErrno call).2 ++ ops) := by
    have haside := answer_aside conf { s with calls := s.calls.eraseIdx j } opRet opErrno hnot
    refine h.of_shrinks hbase haside.issued (shrinks_of_eq haside.queue) ?_ ?_ haside.log
    · intro wind hw
      exact (mem_append.mp hw).resolve_left fun hnew => haside.silent _ hnew wind rfl
    intro wind hw
    rw [haside.calls] at hw
    exact hcalls wind hw
  cases call with
  | write wind =>
    have hshrinks : Shrinks s.queue
        (s.queue.filterMap fun r => if r.id ∈ wind.ids then r.replied opRet opErrno else some r) :=
      shrinks_filterMap (fun _ _ hab => Sound.answered_shape hab) _
    refine
      { base := hbase
        tiled := ?_
        batch := ?_
        calls := ?_
        answered := ?_
        ordered := each_cons.mpr ⟨trivial, h.ordered⟩ }
    · intro r' hr'
      obtain ⟨r, hr, hshape⟩ := hshrinks r' hr'
      exact (h.tiled r hr).of_shape hshape
    · intro wind' hw
      have hw := (mem_append.mp hw).resolve_left (by simp [WriteBehind.answer])
      exact (h.batch wind' hw).shrinks hshrinks
    · intro wind' hw w hwc
      exact (h.calls wind' (hcalls wind' hw) w (carriedBy_shrinks hshrinks _ hwc)).mono (subset_cons_self _ _)
    rintro w ⟨writes, size, ret, hin, hw⟩
    rcases mem_cons.mp hin with heq | hin
    · cases heq
      exact (h.calls wind hmem w hw).mono (subset_cons_self _ _)
    · exact (h.answered w ⟨writes, size, ret, hin, hw⟩).mono (subset_cons_self _ _)
  | other id fop | flush id behind | direct size => exact hrest nofun

theorem preserved (conf : Conf) (F : List Op → Prop) (A : State → Int → Call → Prop) :
    Preserved conf F SendsFirst A Streaming where
  perm hperm h :=
    { h with
      base := h.base.perm hperm
      batch := fun wind hw => h.batch wind (hperm.mem_iff.mpr hw) }
  threads ts h := { h with base := h.base.threads ts }
  enter fop h :=
    { h with
      base := h.base.enter fop
      batch := fun wind hw => h.batch wind ((mem_cons.mp hw).resolve_left nofun) }
  check h :=
    h.of_shrinks (h.base.check .writev) rfl (shrinks_of_eq rfl) (fun _ hw => hw) (fun _ hw => hw)
      (.cons trivial (.refl _))
  direct till size h := by
    refine h.of_shrinks (h.base.direct till size) rfl (shrinks_of_eq rfl)
      (fun _ hw => hw) ?_ (.refl _)
    intro wind hw
    exact (mem_append.mp hw).resolve_right (by simp)
  exec hfst _ hpend h he := h.exec hfst hpend he
  answer opRet opErrno _ _ hcall h := h.answer hcall opRet opErrno

end Streaming

/-! ## Threads -/

/-- The thread sends in the order of the queue. -/
def Rising (t : List Op) : Prop := (t.flatMap Op.winds).Pairwise (· < ·)

theorem exec_winds {s s' : State} {op : Op} {new : List Op} (he : exec conf s op = .ok (s', new))
    (hop : ∀ flushAll, op ≠ .mark flushAll) : new.flatMap Op.winds = [] := by
  cases op with
  | mark flushAll => exact absurd rfl (hop flushAll)
  | enqueue fop =>
    cases he
    exact (afterEnqueue_quiet _ fop).2.1
  | unwind id =>
    obtain ⟨-, -, -, rfl⟩ := exec_unwind he
    rfl
  | unref id acked =>
    cases he
    rfl
  | send wind =>
    obtain ⟨-, rfl⟩ := exec_send he
    rfl
  | detach id =>
    cases he
    rfl
  | resume id fop =>
    rcases exec_resume he with ⟨-, -, rfl⟩ | ⟨-, heq⟩
    · rfl
    rw [wbFfrCbk] at heq
    split at heq <;>
      · cases heq
        rfl
  | flush id behind =>
    cases he
    rfl

theorem answer_winds (conf : Conf) (s : State) (opRet opErrno : Int) (call : Call) :
    (answer conf s opRet opErrno call).2.flatMap Op.winds = [] := by
  cases call with
  | write wind => rfl
  | other id fop => cases fop <;> rfl
  | flush id behind =>
    cases behind with
    | true => rfl
    | false =>
      rw [answer, if_neg Bool.false_ne_true, wbFfrCbk]
      split <;> rfl
  | direct size => rfl

theorem Sound.processQueue_rising {s s' : State} {flushAll : Bool} {new : List Op}
    (h : Sound s.issued s.queue s.log unrefs onWay resumes)
    (hp : wbProcessQueue conf s flushAll = .ok (s', new)) : Rising new := by
  obtain ⟨collapsed, hcol, rfl, rfl⟩ := wbProcessQueue_cases hp
  have hrising := (h.scans flushAll hcol).ids_rising.sublist
    (s.winds_marks conf flushAll collapsed).marked_sublist
  unfold Rising
  simp only [flatMap_append, unwindOps_winds, sends_winds, resumeOps_winds, nil_append, append_nil]
  rcases sync_ids conf.aggregateSize (s.winds conf flushAll collapsed).marked with
    hids | ⟨hnone, -⟩
  · rw [hids, pairwise_map]
    exact hrising
  rw [hnone]
  exact .nil

theorem follows_rising (conf : Conf) : Follows conf Rising SendsFirst Streaming where
  enter _ := .nil
  exec := by
    intro s s' op new rest hfst hmem hinv he hF
    have hsuffix : (rest.flatMap Op.winds).Pairwise (· < ·) := by
      unfold Rising at hF
      rw [flatMap_cons] at hF
      exact (pairwise_append.mp hF).2.1
    show ((new ++ rest).flatMap Op.winds).Pairwise (· < ·)
    rw [flatMap_append]
    by_cases hop : ∃ flushAll, op = .mark flushAll
    · obtain ⟨flushAll, rfl⟩ := hop
      -- nothing is left to be sent, in this thread neither
      have hnone : rest.flatMap Op.winds = [] := by
        rw [flatMap_eq_nil_iff]
        intro x hx
        refine flatMap_eq_nil_iff.mp hfst.1 x ?_
        exact mem_flatten.mpr ⟨_, hmem, mem_cons_of_mem _ hx⟩
      rw [hnone, append_nil]
      exact hinv.base.queue.processQueue_rising he
    rw [exec_winds he (fun flushAll heq => hop ⟨flushAll, heq⟩), nil_append]
    exact hsuffix
  answer s opRet opErrno call := by
    show ((answer conf s opRet opErrno call).2.flatMap Op.winds).Pairwise (· < ·)
    rw [answer_winds]
    exact .nil

theorem sole_step {s s' : State} {a : Action} (h : Sole (fun op => op.winds ≠ []) s.threads)
    (hmeets : StepMeets Alone (fun _ _ _ => True) s a) (hs : step conf s a = .ok s') :
    Sole (fun op => op.winds ≠ []) s'.threads := by
  rcases step_threads hs with heq | ⟨fop, heq⟩ | ⟨s1, opRet, opErrno, call, heq⟩ |
    ⟨i, op, rest, s1, new, rfl, hnext, hexec, heq⟩
  · rw [heq]
    exact h
  · rw [heq]
    refine sole_start h ?_
    intro op hop
    rw [mem_singleton.mp hop]
    exact fun hne => hne rfl
  · rw [heq]
    refine sole_start h ?_
    intro op hop hne
    exact hne (flatMap_eq_nil_iff.mp (answer_winds conf s1 opRet opErrno call) op hop)
  rw [heq]
  by_cases hop : ∃ flushAll, op = .mark flushAll
  · obtain ⟨flushAll, rfl⟩ := hop
    refine sole_of_none ?_ i new rest
    intro x hx hne
    exact hne (flatMap_eq_nil_iff.mp (hmeets _ rest hnext) x hx)
  refine sole_advance h hnext ?_
  intro x hx hne
  exact hne (flatMap_eq_nil_iff.mp (exec_winds hexec fun flushAll heq => hop ⟨flushAll, heq⟩) x hx)

/-- In a thread that sends, what it sends is the first of all sends. -/
theorem sendsFirst_of_sole {s : State} {a : Action} (h : Sole (fun op => op.winds ≠ []) s.threads)
    (hrising : ∀ t ∈ s.threads, Rising t) (hmeets : StepMeets Alone (fun _ _ _ => True) s a) :
    StepMeets SendsFirst (fun _ _ _ => True) s a := by
  cases a with
  | run i =>
    intro op rest hnext
    refine ⟨hmeets op rest hnext, ?_⟩
    rintro wind rfl id hid
    obtain ⟨op', hop', hid⟩ := mem_flatMap.mp hid
    rcases mem_cons.mp ((pending_next hnext).mem_iff.mp hop') with rfl | hop'
    · exact .inl hid
    refine .inr ?_
    intro x hx
    have hin := sole_next h hnext (ne_nil_of_mem hx) hop' (ne_nil_of_mem hid)
    have hthread := hrising _ (mem_of_getElem? (next?_eq_some.mp hnext))
    unfold Rising at hthread
    rw [flatMap_cons] at hthread
    exact (pairwise_append.mp hthread).2.2 x hx id (mem_flatMap.mpr ⟨op', hin, hid⟩)
  | writev _ _ | other _ | flush => trivial
  | reply _ _ _ => exact fun _ _ => trivial

/-! ## Runs -/

/-- **Overlapping writes are in order**: if every pass is alone, the child receives the earlier of two writes that
    overlap before the later one, under every interleaving. -/
theorem overlapping_writes_in_order (conf : Conf) (disabled noWindow : Bool) (actions : List Action) (s : State)
    (halone : Transition.Along (step conf) (StepMeets Alone fun _ _ _ => True) (.create conf disabled noWindow) actions)
    (hrun : runFrom conf disabled noWindow actions = .ok s) :
    ∀ later writes earlier, s.log = later ++ .sent writes :: earlier →
      ∀ v ∈ writes, ∀ w < v, Overlap s.issued w v → Sent earlier w := by
  have hinit : Holds Rising Streaming (.create conf disabled noWindow) ∧
      Sole (fun op => op.winds ≠ []) (State.create conf disabled noWindow).threads := by
    refine ⟨⟨fun _ ht => (nomatch ht), ?_⟩, sole_nil⟩
    exact ⟨Consistent.create conf disabled noWindow, fun _ hr => (nomatch hr), fun _ hw => (nomatch hw),
      fun _ hw => (nomatch hw), fun _ ⟨_, _, _, hmem, _⟩ => (nomatch hmem), each_nil⟩
  have hend := Transition.run_invariant (C := StepMeets Alone fun _ _ _ => True)
    (I := fun s => Holds Rising Streaming s ∧ Sole (fun op => op.winds ≠ []) s.threads)
    (by
      rintro s a s' ⟨hholds, hsole⟩ hmeets hs
      have hfirst := sendsFirst_of_sole hsole hholds.1 hmeets
      exact ⟨Preserved.step (follows_rising conf) (Streaming.preserved conf _ _) hholds hfirst hs,
        sole_step hsole hmeets hs⟩)
    hinit halone hrun
  intro later writes earlier hsplit v hv
  exact (hend.1.2.ordered later _ earlier hsplit v hv).2

/-- Two writes of the first ten bytes, one after the other. -/
def writeTwice : List Action :=
  [.writev 0 [10], .run 0, .run 0, .run 0, .run 0, .run 0, .writev 0 [10], .run 1, .run 1, .run 1, .run 1,
    .reply 0 10 0, .run 2, .run 2]

/-- The second is sent after the first. -/
theorem second_write_sent_after_first : ∃ s, runFrom smallConf false false writeTwice = .ok s ∧
      ∃ earlier, s.log = .sent [1] :: earlier ∧ Sent earlier 0 := by
  obtain ⟨s, hs, hdata⟩ := Transition.map_eq_ok
    (show (runFrom smallConf false false writeTwice).map (fun s => (s.log, s.issued)) =
      .ok ([.sent [1], .answered [0] 10 10, .acked 1 10, .checked .writev false, .sent [0], .acked 0 10,
        .checked .writev false], [.write 0 [10], .write 0 [10]]) by decide +kernel)
  obtain ⟨hlog, hissued⟩ := Prod.mk.inj hdata
  refine ⟨s, hs, _, hlog.symm, ?_⟩
  refine overlapping_writes_in_order smallConf false false writeTwice s (by decide +kernel) hs [] [1] _ hlog.symm 1
    (by decide) 0 (by decide) ?_
  rw [← hissued]
  exact ⟨.write 0 [10], .write 0 [10], 0, rfl, rfl, rfl, rfl, by decide, by decide, by decide, by decide⟩

/-- The thread of the first write has marked it and not sent it when the one of the second marks. -/
def writeRace : List Action :=
  [.writev 0 [10], .run 0, .run 0, .writev 0 [131072], .run 1, .run 1, .run 1, .run 1, .run 1, .run 0, .run 0, .run 0]

/-- The child receives the second write, and then the first. -/
theorem overlapping_write_overtakes : ∃ s, runFrom smallConf false false writeRace = .ok s ∧
      ∃ later earlier, s.log = later ++ .sent [1] :: earlier ∧ Overlap s.issued 0 1 ∧ ¬ Sent earlier 0 ∧
        Event.sent [0] ∈ later := by
  obtain ⟨s, hs, hdata⟩ := Transition.map_eq_ok
    (show (runFrom smallConf false false writeRace).map (fun s => (s.log, s.issued)) =
      .ok ([.sent [0], .acked 0 10, .sent [1], .acked 1 131072, .checked .writev false, .checked .writev false],
        [.write 0 [10], .write 0 [131072]]) by decide +kernel)
  obtain ⟨hlog, hissued⟩ := Prod.mk.inj hdata
  refine ⟨s, hs, [.sent [0], .acked 0 10], _, hlog.symm, ?_, ?_, mem_cons_self⟩
  · rw [← hissued]
    exact ⟨.write 0 [10], .write 0 [131072], 0, rfl, rfl, rfl, rfl, by decide, by decide, by decide, by decide⟩
  rintro ⟨writes, hmem, -⟩
  simp at hmem

end GlusterFS.WriteBehind
