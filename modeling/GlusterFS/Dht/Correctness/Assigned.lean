import GlusterFS.Dht.SelfHeal
import GlusterFS.Dht.Correctness.Accepted

/-!
# `Dht.Correctness.Assigned` — layouts made by `dht_selfheal_layout_new_directory`

The two loops are one loop over the array from the starting place around (`assignLoop_append`). It gives the
eligible subvolumes a chain of ranges from zero to the greatest hash value, each at least a chunk long
(`Spread`), and that is two values because the number of subvolumes is an `int`.

The search goes through the array from its front, and there an entry that got nothing still has the range
from 0 to 0. So the hash zero is found where it belongs exactly if no such entry stands ahead of the first
eligible one (`newDirectory_placed_iff`).
-/

namespace GlusterFS.Dht

open Ranges
open List hiding Chain

variable {ξ : Type}

/-! ## Who gets a range -/

variable (list : List (Entry ξ))

variable (e : Entry ξ)

/-- **Who gets a range**: a subvolume that has the directory, or if there is none, one without space. -/
def eligible : Bool :=
  (e.err == -1 || e.err == 0) || (e.err == enospc && !list.any fun e' => e'.err == -1 || e'.err == 0)

/-- The entry before the ranges are assigned. -/
def mark : Entry ξ := if eligible list e then { e with err := -1 } else e

/-- The entry gets a range, or got one. -/
def Entry.marked : Bool := e.err == -1

@[simp] theorem mark_xlator : (mark list e).xlator = e.xlator := by
  unfold mark
  split <;> rfl

@[simp] theorem mark_marked : (mark list e).marked = eligible list e := by
  unfold mark
  split
  next h => simp [Entry.marked, h]
  next h =>
    have hnot : e.err ≠ -1 := by
      intro herr
      simp [eligible, herr] at h
    simp [Entry.marked, hnot, h]

/-- **The first two loops mark and count the eligible entries.** -/
theorem countEligible_eq : countEligible list = (list.countP (eligible list), list.map (mark list)) := by
  by_cases hany : list.any (fun e => e.err == -1 || e.err == 0) = true
  · have heligible : ∀ e, eligible list e = (e.err == -1 || e.err == 0) := by
      intro e
      simp [eligible, hany]
    have hcnt : list.countP (fun e => e.err == -1 || e.err == 0) ≠ 0 := by
      obtain ⟨e, he, herr⟩ := any_eq_true.mp hany
      exact (countP_pos_iff.mpr ⟨e, he, herr⟩).ne'
    have hmark : markPresent list = list.map (mark list) := by
      unfold markPresent
      apply map_congr_left
      intro e _
      simp [mark, heligible]
    simp only [countEligible, if_neg hcnt, hmark, funext heligible]
  -- nothing is marked at first
  have hnone : ∀ e ∈ list, ¬ (e.err = -1 ∨ e.err = 0) := by
    intro e he herr
    exact hany (any_eq_true.mpr ⟨e, he, by simpa using herr⟩)
  have hcnt : list.countP (fun e => e.err == -1 || e.err == 0) = 0 := by
    rw [countP_eq_zero]
    intro e he
    simpa using hnone e he
  have hpresent : markPresent list = list := by
    unfold markPresent
    conv_rhs => rw [← map_id list]
    apply map_congr_left
    intro e he
    exact if_neg (hnone e he)
  have heligible : ∀ e ∈ list, eligible list e = (e.err == enospc) := by
    intro e he
    have herr := not_or.mp (hnone e he)
    simp [eligible, herr, hany]
  have hcount : list.countP (fun e => e.err == enospc) = list.countP (eligible list) := by
    apply countP_congr
    intro e he
    rw [heligible e he]
  have hmark : markFull list = list.map (mark list) := by
    unfold markFull
    apply map_congr_left
    intro e he
    simp [mark, heligible e he]
  simp only [countEligible, if_pos hcnt, hpresent, hcount, hmark]

/-! ## The loop -/

theorem assignLoop_none (chunk : BitVec 32) : ∀ {l : List (Entry ξ)} (start : BitVec 32) (cnt : Int),
    l.countP Entry.marked = 0 → assignLoop chunk l start cnt = (l, start, cnt)
  | [], _, _, _ => rfl
  | e :: es, start, cnt, h => by
    rw [countP_eq_zero] at h
    obtain ⟨he, hes⟩ := forall_mem_cons.mp h
    have herr : e.err ≠ -1 := by simpa [Entry.marked] using he
    simp [assignLoop, herr, assignLoop_none chunk start cnt (countP_eq_zero.mpr hes)]

/-- **Two loops, one behind the other, are one loop**: after the last marked entry there is nothing to do. -/
theorem assignLoop_append (chunk : BitVec 32) (b : List (Entry ξ)) :
    ∀ (a : List (Entry ξ)) (start : BitVec 32) (cnt : Int), ((a ++ b).countP Entry.marked : Int) ≤ cnt →
      let r := assignLoop chunk a start cnt
      let r' := assignLoop chunk b r.2.1 r.2.2
      assignLoop chunk (a ++ b) start cnt = (r.1 ++ r'.1, r'.2)
  | [], _, _, _ => rfl
  | e :: es, start, cnt, h => by
    by_cases herr : e.err = -1
    · have hcnt : ((es ++ b).countP Entry.marked : Int) ≤ cnt - 1 := by
        have hcons : (e :: es ++ b).countP Entry.marked = (es ++ b).countP Entry.marked + 1 :=
          countP_cons_of_pos (by simp [Entry.marked, herr])
        omega
      by_cases hlast : cnt - 1 = 0
      · have hnone : b.countP Entry.marked = 0 := by
          rw [countP_append] at hcnt
          omega
        simp [assignLoop, herr, hlast, assignLoop_none chunk (start + chunk) 0 hnone]
      have ih := assignLoop_append chunk b es (start + chunk) (cnt - 1) hcnt
      simp [assignLoop, herr, hlast, ih]
    have hcnt : ((es ++ b).countP Entry.marked : Int) ≤ cnt := by
      have hcons : (e :: es ++ b).countP Entry.marked = (es ++ b).countP Entry.marked :=
        countP_cons_of_neg (by simp [Entry.marked, herr])
      omega
    have ih := assignLoop_append chunk b es start cnt hcnt
    simp [assignLoop, herr, ih]

/-- What the loop does not change. -/
def Entry.view : Option ξ × Bool := (e.xlator, e.marked)

theorem assignLoop_view (chunk : BitVec 32) : ∀ (l : List (Entry ξ)) (start : BitVec 32) (cnt : Int),
    (assignLoop chunk l start cnt).1.map Entry.view = l.map Entry.view
  | [], _, _ => rfl
  | e :: es, start, cnt => by
    unfold assignLoop
    split
    · split
      · rfl
      · simp [Entry.view, Entry.marked, assignLoop_view chunk es]
    · simp [assignLoop_view chunk es]

theorem assignLoop_unmarked (chunk : BitVec 32) {e : Entry ξ} (hnot : e.marked = false) :
    ∀ (l : List (Entry ξ)) (start : BitVec 32) (cnt : Int), e ∈ (assignLoop chunk l start cnt).1 → e ∈ l
  | [], _, _, he => he
  | x :: xs, start, cnt, he => by
    unfold assignLoop at he
    split at he
    next herr =>
      have hne : ∀ stop, e ≠ { x with start := start, stop := stop } := by
        rintro stop rfl
        simp [Entry.marked, herr] at hnot
      split at he
      · exact mem_cons_of_mem x ((mem_cons.mp he).resolve_left (hne _))
      have htail := (mem_cons.mp he).resolve_left (hne _)
      exact mem_cons_of_mem x (assignLoop_unmarked chunk hnot xs _ _ htail)
    · rcases mem_cons.mp he with rfl | he
      · exact mem_cons_self
      · exact mem_cons_of_mem x (assignLoop_unmarked chunk hnot xs _ _ he)

/-! ## The ranges it hands out -/

/-- The ranges that were assigned, in the order of the array. -/
def markedRanges : List (Range 32) := (list.filter Entry.marked).map Entry.range

/-- **Everything from `start` on is handed out**, in ranges of `n` values at least that follow one another and
    never go around. -/
structure Spread (n : Nat) (start : BitVec 32) (list : List (Entry ξ)) : Prop where
  nonempty : markedRanges list ≠ []
  chain : Chain start (markedRanges list) 0
  increasing : (list.filter Entry.marked).Pairwise fun x y => x.start < y.start
  behind : ∀ e ∈ list.filter Entry.marked, start ≤ e.start
  long : ∀ e ∈ list.filter Entry.marked, e.start.toNat + n ≤ e.stop.toNat + 1

namespace Spread

variable {n : Nat} {e : Entry ξ} {es : List (Entry ξ)}

theorem mono {k : Nat} (hk : k ≤ n) {start : BitVec 32} (h : Spread n start es) : Spread k start es where
  __ := h
  long := fun e he => (Nat.add_le_add_left hk _).trans (h.long e he)

theorem cons_unmarked {start : BitVec 32} (h : Spread n start es) (he : e.marked = false) :
    Spread n start (e :: es) := by
  have hfilter : (e :: es).filter Entry.marked = es.filter Entry.marked := by simp [he]
  constructor <;> simp only [markedRanges, hfilter]
  exacts [h.nonempty, h.chain, h.increasing, h.behind, h.long]

theorem cons_marked (h : Spread n (e.stop + 1) es) (he : e.marked = true)
    (hlong : e.start.toNat + n ≤ e.stop.toNat + 1) (hlt : e.start < e.stop + 1) : Spread n e.start (e :: es) := by
  have hbeh : ∀ e' ∈ es.filter Entry.marked, e.start < e'.start := by
    intro e' he'
    have hle := h.behind e' he'
    rw [BitVec.lt_def, BitVec.le_def] at *
    omega
  have hfilter : (e :: es).filter Entry.marked = e :: es.filter Entry.marked := by simp [he]
  constructor <;> simp only [markedRanges, hfilter]
  · simp
  · exact ⟨rfl, h.chain⟩
  · exact .cons hbeh h.increasing
  · exact forall_mem_cons.mpr ⟨BitVec.le_refl _, fun e' he' => BitVec.le_of_lt (hbeh e' he')⟩
  · exact forall_mem_cons.mpr ⟨hlong, h.long⟩

theorem cons_last (he : e.marked = true) (hstop : e.stop = BitVec.allOnes 32)
    (hlong : e.start.toNat + n ≤ 2 ^ 32) (hnone : es.countP Entry.marked = 0) : Spread n e.start (e :: es) := by
  have hfilter : (e :: es).filter Entry.marked = [e] := by
    rw [filter_cons_of_pos he, filter_eq_nil_iff.mpr (countP_eq_zero.mp hnone)]
  constructor <;> simp only [markedRanges, hfilter, forall_mem_singleton]
  · simp
  · simp [Chain, Entry.range, hstop]
  · simp
  · exact BitVec.le_refl _
  rw [hstop]
  exact hlong

end Spread

/-- **The loop spreads the rest**: there is room for all chunks, and the last one takes what remains. -/
theorem assignLoop_spread {chunk : BitVec 32} (hchunk : 1 ≤ chunk.toNat) :
    ∀ (l : List (Entry ξ)) (start : BitVec 32) (cnt : Nat), l.countP Entry.marked = cnt → 0 < cnt →
      start.toNat + cnt * chunk.toNat ≤ 0xffffffff → Spread chunk.toNat start (assignLoop chunk l start cnt).1
  | [], _, _, hcnt, hpos, _ => by
    simp at hcnt
    omega
  | e :: es, start, cnt, hcnt, hpos, hroom => by
    by_cases herr : e.err = -1
    · have hmark : e.marked = true := by simp [Entry.marked, herr]
      rw [countP_cons_of_pos hmark] at hcnt
      by_cases hlast : (cnt : Int) - 1 = 0
      · simp only [assignLoop, herr, if_true, hlast]
        have hnone : es.countP Entry.marked = 0 := by omega
        obtain rfl : cnt = 1 := by omega
        exact Spread.cons_last (e := ⟨-1, start, BitVec.allOnes 32, e.xlator⟩) rfl rfl (by dsimp only; omega) hnone
      obtain ⟨k, rfl⟩ : ∃ k, cnt = k + 1 := ⟨cnt - 1, by omega⟩
      rw [Nat.succ_mul] at hroom
      have hge : chunk.toNat ≤ k * chunk.toNat := Nat.le_mul_of_pos_left _ (by omega)
      have hnext : (start + chunk).toNat = start.toNat + chunk.toNat := by
        rw [BitVec.toNat_add]
        exact Nat.mod_eq_of_lt (by omega)
      have ih := assignLoop_spread hchunk es (start + chunk) k (by omega) (by omega) (by omega)
      have hcast : ((k + 1 : Nat) : Int) - 1 = k := by omega
      have hk : (k : Int) ≠ 0 := by omega
      have hbeh : start + chunk - 1 + 1 = start + chunk := BitVec.sub_add_cancel _ _
      simp only [assignLoop, herr, if_true, hcast, if_neg hk]
      apply Spread.cons_marked (e := ⟨-1, start, start + chunk - 1, e.xlator⟩)
      · rw [hbeh]
        exact ih
      · rfl
      · -- behind the chunk there is another one, so its end is not the greatest value
        have hlast := toNat_succ (x := start + chunk - 1) (by
          rw [hbeh]
          intro hzero
          rw [hzero] at hnext
          simp at hnext
          omega)
        rw [hbeh, hnext] at hlast
        exact hlast.le
      show start < start + chunk - 1 + 1
      rw [hbeh, BitVec.lt_def]
      omega
    have hmark : e.marked = false := by simp [Entry.marked, herr]
    rw [countP_cons_of_neg (by simp [hmark])] at hcnt
    simp only [assignLoop, if_neg herr]
    exact (assignLoop_spread hchunk es start cnt hcnt hpos hroom).cons_unmarked hmark

namespace Spread

variable {n : Nat} {list : List (Entry ξ)} {hash : BitVec 32}

theorem first (h : Spread n 0 list) : ∃ o, list.find? Entry.marked = some o ∧ o.start = 0 ∧
    ∀ e ∈ list, e.marked = true → e.start = 0 → e = o := by
  obtain ⟨hne, hch, hincreasing, -, -⟩ := h
  rw [← head?_filter]
  unfold markedRanges at hne hch
  match hfilter : list.filter Entry.marked with
  | [] => simp [hfilter] at hne
  | o :: rest =>
    rw [hfilter] at hch hincreasing
    refine ⟨o, rfl, hch.1, ?_⟩
    intro e he hmark hzero
    have hmem : e ∈ o :: rest := hfilter ▸ mem_filter.mpr ⟨he, hmark⟩
    rcases mem_cons.mp hmem with rfl | hrest
    · rfl
    have hlt := (pairwise_cons.mp hincreasing).1 e hrest
    rw [hzero] at hlt
    exact absurd (zero_le o.start) (BitVec.not_le.mpr hlt)

theorem covered (h : Spread n 0 list) (hash : BitVec 32) :
    ∃ e ∈ list, e.marked = true ∧ e.range.contains hash = true := by
  obtain ⟨r, hr, hhas⟩ := h.chain.covers h.nonempty (zero_le hash)
  obtain ⟨e, he, rfl⟩ := mem_map.mp hr
  obtain ⟨hmem, hmark⟩ := mem_filter.mp he
  exact ⟨e, hmem, hmark, hhas⟩

theorem unique (h : Spread n 0 list) {e e' : Entry ξ} (he : e ∈ list) (hmark : e.marked = true)
    (hhas : e.range.contains hash = true) (he' : e' ∈ list) (hmarked' : e'.marked = true)
    (hcontains' : e'.range.contains hash = true) : e = e' := by
  have hordered : (list.filter Entry.marked).Pairwise fun x y =>
      x.range.start ≤ y.range.start ∧ ¬ (x.range.Whole ∧ y.range.start = 0) := by
    apply h.increasing.imp
    intro x y hlt
    refine ⟨BitVec.le_of_lt hlt, ?_⟩
    rintro ⟨-, hzero⟩
    rw [show y.start = 0 from hzero] at hlt
    exact absurd (zero_le x.start) (BitVec.not_le.mpr hlt)
  exact Chain.unique h.chain hordered (mem_filter.mpr ⟨he, hmark⟩) (mem_filter.mpr ⟨he', hmarked'⟩)
    hhas hcontains'

end Spread

/-! ## The new layout -/

/-- An array of answers, in any order; the ranges may have been assigned before. -/
structure Answered (list : List (Entry ξ)) : Prop where
  named : ∀ e ∈ list, e.xlator.isSome = true
  distinct : (list.map Entry.xlator).Nodup
  blank : ∀ e ∈ list, e.err ≠ 0 → e.err ≠ -1 → e.start = 0 ∧ e.stop = 0

theorem Merged.answered {list : List (Entry ξ)} (h : Merged list) : Answered list where
  named := h.named
  distinct := h.distinct
  blank := fun e he herr _ => h.blank e he herr

/-- **What the two loops leave**: `front` ahead of the starting place, and `back` from there on. -/
structure Assigned (n : Nat) (list : List (Entry ξ)) (startSubvol : Nat) (front back : List (Entry ξ)) : Prop where
  viewFront : front.map Entry.view = (list.take startSubvol).map fun e => (e.xlator, eligible list e)
  viewBack : back.map Entry.view = (list.drop startSubvol).map fun e => (e.xlator, eligible list e)
  unmarked : ∀ e ∈ front ++ back, e.marked = false → e ∈ list ∧ eligible list e = false
  spread : Spread n 0 (back ++ front)

theorem view_mark (list l : List (Entry ξ)) :
    (l.map (mark list)).map Entry.view = l.map fun e => (e.xlator, eligible list e) := by
  simp [Entry.view, Function.comp_def]

section

variable (dmHashfn : Name → BitVec 32)

/-- **`dht_selfheal_layout_new_directory` assigns the ranges**, if there are no more subvolumes than hash values. -/
theorem newDirectory_loops {layout : Layout ξ} (path : Name) (hlen : layout.list.length < 2 ^ 32)
    (hzero : layout.list.countP (eligible layout.list) ≠ 0) : ∃ front back,
      dhtSelfhealLayoutNewDirectory dmHashfn layout path = some ⟨layout.type, front ++ back⟩ ∧
        Assigned (0xffffffff / layout.list.countP (eligible layout.list)) layout.list
          (allocStart dmHashfn layout path) front back := by
  set st := allocStart dmHashfn layout path
  set list := layout.list
  set cnt := list.countP (eligible list)
  set chunk := BitVec.ofNat 32 (0xffffffff / cnt) with hchunk
  set r := assignLoop chunk ((list.map (mark list)).drop st) 0 cnt
  set r' := assignLoop chunk ((list.map (mark list)).take st) r.2.1 r.2.2
  have hhealed : dhtSelfhealLayoutNewDirectory dmHashfn layout path = some ⟨layout.type, r'.1 ++ r.1⟩ := by
    simp only [dhtSelfhealLayoutNewDirectory, countEligible_eq]
    exact if_neg hzero
  -- there is room for `cnt` chunks, and they are not empty
  have hle : cnt ≤ list.length := countP_le_length
  have hdiv : 1 ≤ 0xffffffff / cnt := by
    rw [Nat.le_div_iff_mul_le (by omega)]
    omega
  have hmul : cnt * (0xffffffff / cnt) ≤ 0xffffffff := Nat.mul_div_le _ _
  have hchunkNat : chunk.toNat = 0xffffffff / cnt := by
    rw [hchunk, BitVec.toNat_ofNat]
    apply Nat.mod_eq_of_lt
    exact lt_of_le_of_lt (Nat.div_le_self _ _) (by decide)
  -- the loops go through the whole array once
  have hcnt : ((list.map (mark list)).drop st ++ (list.map (mark list)).take st).countP Entry.marked = cnt := by
    rw [countP_append, add_comm, ← countP_append, take_append_drop, countP_map]
    apply countP_congr
    intro e _
    simp
  have happend := assignLoop_append chunk _ _ 0 (cnt : Int) (by rw [hcnt])
  have hlarge : 1 ≤ chunk.toNat := by omega
  have hspread := assignLoop_spread hlarge _ 0 cnt hcnt (by omega) (by rw [hchunkNat]; simpa using hmul)
  rw [happend, hchunkNat] at hspread
  refine ⟨r'.1, r.1, hhealed, ?_, ?_, ?_, hspread⟩
  · rw [assignLoop_view, ← map_take, view_mark]
  · rw [assignLoop_view, ← map_drop, view_mark]
  intro e he hnot
  have hmem : e ∈ list.map (mark list) := by
    rcases mem_append.mp he with he | he
    · exact mem_of_mem_take (assignLoop_unmarked chunk hnot _ _ _ he)
    · exact mem_of_mem_drop (assignLoop_unmarked chunk hnot _ _ _ he)
  obtain ⟨e', he', rfl⟩ := mem_map.mp hmem
  rw [mark_marked] at hnot
  have hsame : mark list e' = e' := by simp [mark, hnot]
  rw [hsame]
  exact ⟨he', hnot⟩

theorem allocStart_le {layout : Layout ξ} (hne : layout.list ≠ []) (path : Name) :
    allocStart dmHashfn layout path ≤ layout.list.length := by
  unfold allocStart
  split
  · exact Nat.zero_le _
  · exact (Nat.mod_lt _ (length_pos_iff.mpr hne)).le

/-- Of an `int` number of subvolumes each gets two values at least. -/
theorem newDirectory_assigned {layout healed : Layout ξ} {path : Name} (hlen : layout.list.length < 2 ^ 31)
    (h : dhtSelfhealLayoutNewDirectory dmHashfn layout path = some healed) :
    ∃ front back, healed = ⟨layout.type, front ++ back⟩ ∧
      Assigned 2 layout.list (allocStart dmHashfn layout path) front back := by
  have hzero : layout.list.countP (eligible layout.list) ≠ 0 := by
    intro hzero
    simp [dhtSelfhealLayoutNewDirectory, countEligible_eq, hzero] at h
  obtain ⟨front, back, hloops, hasgn⟩ := newDirectory_loops dmHashfn path (by omega) hzero
  refine ⟨front, back, Option.some.inj (h.symm.trans hloops), { hasgn with spread := hasgn.spread.mono ?_ }⟩
  have hle : layout.list.countP (eligible layout.list) ≤ layout.list.length := countP_le_length
  rw [Nat.le_div_iff_mul_le (by omega)]
  omega

/-- **The ranges a new directory gets are a partition of the hash values.** From the starting subvolume around
    the starts increase, and no range has fewer values than a chunk, so no bound went around. -/
theorem newDirectory_partition {layout : Layout ξ} (path : Name) (hlen : layout.list.length < 2 ^ 32)
    (hany : ∃ e ∈ layout.list, eligible layout.list e = true) : ∃ front back,
      dhtSelfhealLayoutNewDirectory dmHashfn layout path = some ⟨layout.type, front ++ back⟩ ∧
      front.length = allocStart dmHashfn layout path ∧
      (∀ hash, ∃ e ∈ back ++ front, e.marked = true ∧ e.range.contains hash = true) ∧
      ((back ++ front).filter Entry.marked).Pairwise (fun x y =>
        x.start < y.start ∧ ∀ hash, ¬ (x.range.contains hash = true ∧ y.range.contains hash = true)) ∧
      ∀ e ∈ (back ++ front).filter Entry.marked,
        e.start.toNat + 0xffffffff / layout.list.countP (eligible layout.list) ≤ e.stop.toNat + 1 := by
  have hzero := (countP_pos_iff.mpr hany).ne'
  obtain ⟨front, back, hloops, hassigned⟩ := newDirectory_loops dmHashfn path hlen hzero
  have hspread := hassigned.spread
  refine ⟨front, back, hloops, ?_, hspread.covered, ?_, hspread.long⟩
  · obtain ⟨e, he, -⟩ := hany
    have hfront := congrArg List.length hassigned.viewFront
    rw [length_map, length_map, length_take] at hfront
    rw [hfront, Nat.min_eq_left (allocStart_le dmHashfn (ne_nil_of_mem he) path)]
  apply hspread.increasing.imp_of_mem
  intro x y hx hy hlt
  refine ⟨hlt, ?_⟩
  rintro hash ⟨hxh, hyh⟩
  rw [mem_filter] at hx hy
  rw [hspread.unique hx.1 hx.2 hxh hy.1 hy.2 hyh] at hlt
  exact absurd hlt (BitVec.lt_irrefl _)

end

/-- The second of three subvolumes has failed. -/
def threeAnswers : Layout Nat := ⟨0, [⟨0, 0, 0, some 0⟩, ⟨5, 0, 0, some 1⟩, ⟨-1, 0, 0, some 2⟩]⟩

theorem three_partitioned : ∃ front back,
    dhtSelfhealLayoutNewDirectory (fun _ => 2) threeAnswers [] = some ⟨0, front ++ back⟩ ∧ front.length = 2 ∧
      ∀ hash, ∃ e ∈ back ++ front, e.marked = true ∧ e.range.contains hash = true := by
  obtain ⟨front, back, hloops, hfront, hcovered, -⟩ :=
    newDirectory_partition (fun _ => 2) [] (show threeAnswers.list.length < 2 ^ 32 by decide) (by decide)
  exact ⟨front, back, hloops, hfront, hcovered⟩

end GlusterFS.Dht
