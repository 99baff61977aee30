import GlusterFS.Lib.Run
import GlusterFS.Lib.Scan
import GlusterFS.WriteBehind.Queue

/-!
# `WriteBehind.Correctness.Marking` — which single changes a pass is made of

Each scan of `wb_process_queue` is a `Scan.Marks` or a `Scan.Merges`: it selects requests one after the other, and
what it selects is said here once, with the requests in front. How far a scan goes (the window, the aggregate, the
offsets) does not matter for what it may do.
-/

namespace GlusterFS.WriteBehind

open Scan List

/-! ## Acknowledging -/

/-- A write that is not acknowledged yet. -/
def Unacked (_ : List Request) (r : Request) : Prop := r.isWrite = true ∧ r.writeBehind = false

def Request.behind (r : Request) : Request := { r with writeBehind := true }

theorem markUnwindTill_marks (size : Nat) (q : List Request) : ∀ written pre,
    Marks Unacked Request.behind pre q (markUnwindTill size written q).queue
      (markUnwindTill size written q).marked := by
  induction q with
  | nil => exact fun _ pre => .stop pre []
  | cons r rs ih =>
    intro written pre
    rw [markUnwindTill]
    by_cases hw : r.isWrite = true
    · rw [if_neg (not_not_intro hw)]
      by_cases hle : written ≤ size
      · rw [if_pos hle]
        by_cases hb : r.writeBehind = true
        · rw [if_pos hb]
          exact .skip (ih written _)
        rw [if_neg hb]
        exact .take ⟨hw, Bool.eq_false_iff.mpr hb⟩ (ih (written + r.writeSize) _)
      rw [if_neg hle]
      exact .stop pre (r :: rs)
    rw [if_pos hw]
    exact .skip (ih written _)

theorem markUnwinds_marks (windowConf windowCurrent : Nat) (q : List Request) :
    Marks Unacked Request.behind [] q (markUnwinds windowConf windowCurrent q).queue
      (markUnwinds windowConf windowCurrent q).marked := by
  unfold markUnwinds
  split
  · exact markUnwindTill_marks _ q 0 []
  · exact .stop [] q

/-! ## Collapsing -/

/-- A write that is acknowledged and not wound: its buffer may still change. -/
def Request.Loose (r : Request) : Prop := r.isWrite = true ∧ r.writeBehind = true ∧ r.stackWound = false

/-- The bytes of `b` are copied behind those of `a`. -/
def Joins (a b : Request) : Prop := a.Loose ∧ b.Loose ∧ b.fop.off = a.fop.off + a.writeSize ∧ a.fop.vector ≠ []

/-- An empty write that is taken off the queue although its bytes, none, were copied nowhere. -/
def Drops (b : Request) : Prop := b.Loose ∧ b.writeSize = 0

/-- Between two requests of the scan. -/
structure Packing.Sound (c : Packing) : Prop where
  carrier : ∀ a, c.carrier = some a →
    a.Loose ∧ c.firstRequest = false ∧ c.offsetExpected = a.fop.off + a.writeSize
  space : c.carrier = none → c.spaceLeft = 0

theorem Packing.Sound.start : Packing.start.Sound := ⟨fun _ h => (nomatch h), fun _ => rfl⟩

theorem Packing.Sound.reset (c : Packing) : c.reset.Sound := ⟨fun _ h => (nomatch h), fun _ => rfl⟩

theorem Packing.Sound.carry (pageSize : Nat) {r : Request} (h : r.Loose) : (Packing.carry pageSize r).Sound := by
  refine ⟨?_, nofun⟩
  intro a ha
  cases ha
  exact ⟨h, rfl, rfl⟩

theorem Request.absorb_off {a b : Request} (h : a.fop.vector ≠ []) : (a.absorb b).fop.off = a.fop.off := by
  unfold Request.absorb
  cases hf : a.fop with
  | other f => rfl
  | write off vector =>
    cases vector with
    | nil => exact absurd (by rw [hf]; rfl) h
    | cons len lens => rfl

theorem Request.absorb_isWrite (a b : Request) : (a.absorb b).fop.isWrite = a.fop.isWrite := by
  unfold Request.absorb
  cases hf : a.fop with
  | other f => rfl
  | write off vector => cases vector <;> rfl

theorem Request.absorb_size {a b : Request} (h : a.fop.vector ≠ []) :
    (a.absorb b).fop.size = a.fop.size + b.writeSize := by
  unfold Request.absorb
  cases hf : a.fop with
  | other f => exact absurd (by rw [hf]; rfl) h
  | write off vector =>
    cases vector with
    | nil => exact absurd (by rw [hf]; rfl) h
    | cons len lens =>
      simp only [Fop.size, Fop.vector, sum_cons]
      omega

theorem Request.Loose.absorb {a : Request} (h : a.Loose) (b : Request) : (a.absorb b).Loose := by
  obtain ⟨hw, hb, hs⟩ := h
  refine ⟨?_, hb, hs⟩
  rw [Request.isWrite, Request.absorb_isWrite]
  exact hw

theorem copyBehind_cases {pageSize : Nat} {c c' : Packing} {r : Request} (h : copyBehind pageSize c r = .ok c') :
    (c.carrier = none ∧ c' = c) ∨
      ∃ a, c.carrier = some a ∧ a.fop.vector ≠ [] ∧ c' = { c with carrier := some (a.absorb r) } := by
  unfold copyBehind at h
  split at h
  next hc =>
    split at h
    · cases h
      exact .inl ⟨hc, rfl⟩
    · cases h
  next a hc =>
    split at h
    · cases h
    next hv =>
      split at h
      · cases h
      cases h
      exact .inr ⟨a, hc, hv, rfl⟩

/-- **`__wb_collapse_write_bufs`** only joins neighbours and drops empty writes. -/
theorem collapseWriteBufs_merges {pageSize : Nat} : ∀ {rs : List Request} {c : Packing} {d : Collapsed}, c.Sound →
    collapseWriteBufs pageSize c rs = .ok d →
      Merges Joins Drops Request.absorb (c.carrier.toList ++ rs) d.queue d.packed := by
  intro rs
  induction rs with
  | nil =>
    intro c d _ h
    cases h
    rw [append_nil]
    exact .done _
  | cons r rs ih =>
    intro c d hc h
    rw [collapseWriteBufs] at h
    by_cases hstop : (!r.isWrite || r.stackWound) = true
    · rw [if_pos hstop] at h
      obtain ⟨d', hd', rfl⟩ := Transition.map_eq_ok h
      have hrest := ih (Packing.Sound.reset c) hd'
      have hkept := Merges.skipAll (c.carrier.toList ++ [r]) hrest
      rw [append_assoc] at hkept
      exact hkept
    rw [if_neg hstop] at h
    have hflags : r.isWrite = true ∧ r.stackWound = false := by simpa using hstop
    by_cases hb : r.writeBehind = true
    · rw [if_pos hb] at h
      have hr : r.Loose := ⟨hflags.1, hb, hflags.2⟩
      by_cases hfit : r.fop.off = (if c.firstRequest then r.fop.off else c.offsetExpected) ∧
          r.writeSize ≤ c.spaceLeft
      · simp only [if_pos hfit] at h
        cases hcopy : copyBehind pageSize c r with
        | error e =>
          rw [hcopy] at h
          cases h
        | ok c' =>
          rw [hcopy] at h
          obtain ⟨d', hd', rfl⟩ := Transition.map_eq_ok h
          rcases copyBehind_cases hcopy with ⟨hnone, rfl⟩ | ⟨a, ha, hv, rfl⟩
          · -- nothing to copy behind: only an empty request fits in no space
            have hspace := hc.space hnone
            have hzero : r.writeSize = 0 := by
              have := hfit.2
              omega
            have hrest := ih ⟨by simp [hnone], by intro _; simp only [hspace]; omega⟩ hd'
            simp only [hnone] at hrest ⊢
            exact .drop ⟨hr, hzero⟩ hrest
          obtain ⟨hloose, hfst, hoff⟩ := hc.carrier a ha
          have hnext : r.fop.off = a.fop.off + a.writeSize := by
            have := hfit.1
            rw [hfst] at this
            rw [this]
            exact hoff
          have hsound : Packing.Sound
              { c with
                firstRequest := false
                offsetExpected := (if c.firstRequest then r.fop.off else c.offsetExpected) + r.writeSize
                spaceLeft := c.spaceLeft - r.writeSize
                carrier := some (a.absorb r) } := by
            refine ⟨?_, nofun⟩
            intro a' ha'
            cases ha'
            refine ⟨hloose.absorb r, rfl, ?_⟩
            rw [Request.absorb_off hv]
            show (if c.firstRequest then r.fop.off else c.offsetExpected) + r.writeSize
              = a.fop.off + (a.writeSize + r.writeSize)
            rw [hfst, if_neg Bool.false_ne_true, hoff]
            omega
          have hrest := ih hsound hd'
          rw [ha]
          exact .join ⟨hloose, hr, hnext, hv⟩ hrest
      simp only [if_neg hfit] at h
      obtain ⟨d', hd', rfl⟩ := Transition.map_eq_ok h
      exact Merges.skipAll _ (ih (Packing.Sound.carry pageSize hr) hd')
    rw [if_neg hb] at h
    cases h
    exact .done _

/-! ## The next operation -/

/-- An operation that is next: nothing before it is a write. -/
def Next (pre : List Request) (r : Request) : Prop :=
  r.stub = true ∧ r.fop.isWrite = false ∧ r.markedForResume = false ∧ ∀ x ∈ pre, x.fop.isWrite = false

def Request.marked (r : Request) : Request := { r with markedForResume := true }

theorem getOtherRequests_marks (q : List Request) : ∀ pre, (∀ x ∈ pre, x.fop.isWrite = false) →
    Marks Next Request.marked pre q (getOtherRequests q).queue (getOtherRequests q).marked := by
  induction q with
  | nil => exact fun pre _ => .stop pre []
  | cons r rs ih =>
    intro pre hpre
    rw [getOtherRequests]
    by_cases hstop : (!r.stub || r.fop.isWrite) = true
    · rw [if_pos hstop]
      exact .stop pre (r :: rs)
    rw [if_neg hstop]
    have hflags : r.stub = true ∧ r.fop.isWrite = false := by simpa using hstop
    by_cases hm : r.markedForResume = true
    · rw [if_pos hm]
      apply Marks.skip
      apply ih
      exact forall_mem_append.mpr ⟨hpre, forall_mem_singleton.mpr hflags.2⟩
    rw [if_neg hm]
    exact .take ⟨hflags.1, hflags.2, Bool.eq_false_iff.mpr hm, hpre⟩ (.stop _ rs)

theorem others_marks (q : List Request) :
    Marks Next Request.marked [] q (getOtherRequests q).queue (getOtherRequests q).marked :=
  getOtherRequests_marks q [] nofun

/-! ## Winding -/

/-- A write that is next to be wound: before it there are only wound writes. -/
def Windable (pre : List Request) (r : Request) : Prop :=
  r.isWrite = true ∧ r.stackWound = false ∧ ∀ x ∈ pre, x.isWrite = true ∧ x.stackWound = true

def Request.wound (r : Request) : Request := { r with stackWound := true }

theorem markWindAll_marks (q : List Request) : ∀ expected pre, (∀ x ∈ pre, x.isWrite = true ∧ x.stackWound = true) →
    Marks Windable Request.wound pre q (markWindAll expected q).queue (markWindAll expected q).marked := by
  induction q with
  | nil => exact fun _ pre _ => .stop pre []
  | cons r rs ih =>
    intro expected pre hpre
    -- past a wound write, or one that is marked now
    have hpast : ∀ x : Request, x.isWrite = true → x.stackWound = true →
        ∀ y ∈ pre ++ [x], y.isWrite = true ∧ y.stackWound = true := by
      intro x hw hs y hy
      rcases mem_append.mp hy with hy | hy
      · exact hpre y hy
      rw [mem_singleton.mp hy]
      exact ⟨hw, hs⟩
    rw [markWindAll]
    by_cases hw : r.isWrite = true
    · rw [if_neg (by simp [hw])]
      by_cases hs : r.stackWound = true
      · rw [if_pos hs]
        exact .skip (ih expected _ (hpast r hw hs))
      rw [if_neg hs]
      by_cases hoff : r.fop.off ≠ expected.getD r.fop.off
      · rw [if_pos hoff]
        exact .stop pre (r :: rs)
      rw [if_neg hoff]
      exact .take ⟨hw, Bool.eq_false_iff.mpr hs, hpre⟩ (ih _ _ (hpast r.wound hw rfl))
    rw [if_pos (by simpa using hw)]
    exact .stop pre (r :: rs)

theorem markWinds_marks (aggregateConf aggregateCurrent : Nat) (windAll trickling : Bool) (q : List Request) :
    Marks Windable Request.wound [] q (markWinds aggregateConf aggregateCurrent windAll trickling q).queue
      (markWinds aggregateConf aggregateCurrent windAll trickling q).marked := by
  unfold markWinds
  generalize (if !windAll && decide (aggregateCurrent < aggregateConf) then canWind none q else none) = why
  dsimp only
  split
  · exact markWindAll_marks q none [] nofun
  · exact .stop [] q

/-! ## Joining to child writes -/

theorem syncFrom_ids (aggregateSize : Nat) : ∀ (rs : List Request) (w : Wind),
    (syncFrom aggregateSize w rs).flatMap Wind.ids = w.ids ++ rs.map Request.id := by
  intro rs
  induction rs with
  | nil =>
    intro w
    simp [syncFrom]
  | cons r rs ih =>
    intro w
    rw [syncFrom]
    split
    · rw [flatMap_cons, ih]
      rfl
    rw [ih]
    simp [Wind.add]

/-- **`wb_sync`** sends every request once and in order, unless all vectors are empty. -/
theorem sync_ids (aggregateSize : Nat) (rs : List Request) :
    (sync aggregateSize rs).flatMap Wind.ids = rs.map Request.id ∨
      (sync aggregateSize rs = [] ∧ ∀ r ∈ rs, r.fop.vector = []) := by
  cases rs with
  | nil => exact .inl rfl
  | cons r rs =>
    rw [sync]
    by_cases hall : ((r :: rs).all fun x => x.fop.vector.isEmpty) = true
    · rw [if_pos hall]
      refine .inr ⟨rfl, ?_⟩
      intro x hx
      exact isEmpty_iff.mp (all_eq_true.mp hall x hx)
    rw [if_neg hall]
    exact .inl (syncFrom_ids aggregateSize rs (.ofRequest r))

end GlusterFS.WriteBehind
