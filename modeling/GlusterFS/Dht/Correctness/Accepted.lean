import GlusterFS.Dht.Layout

/-!
# `Dht.Correctness.Accepted` — layouts that `dht_layout_normalize` accepts

The answers may come in any order; the array then has one entry for each of them, and only an entry whose
range was read has a range (`Merged`). The sort brings the directories without a layout to the front, then the
ranges by their starts, then the failures. If no anomaly is found the ranges are a chain that goes around in
the arithmetic of 32 bits, from the start of the *first entry* back to it.

That is less than a partition (`accepted_placed_iff`): a chain that does not start at zero leaves the hash values
behind its last start to nobody; a range over all values may stand beside others; and an entry without a
layout has the range from 0 to 0 as far as the search can see.
-/

namespace GlusterFS.Dht

open Ranges Entry
open List hiding Chain

variable {ξ : Type}

variable {l : List (Entry ξ)} {e g : Entry ξ}

/-! ## Merging -/

/-- An entry before its answer. -/
def blank : Entry ξ := ⟨0, 0, 0, none⟩

variable (x : ξ × LookupReply)

def entryOf : Entry ξ := mergeEntry blank x.1 x.2

/-- **The answers fill the array in the order they come.** -/
theorem mergeList_next {x : ξ} {reply : LookupReply} {k : Nat} :
    ∀ {done : List (Entry ξ)}, (∀ e ∈ done, e.xlator.isSome = true) →
      mergeList (done ++ List.replicate (k + 1) blank) x reply =
        some (done ++ entryOf (x, reply) :: List.replicate k blank) := by
  intro done
  induction done with
  | nil =>
    intro _
    rfl
  | cons e es ih =>
    intro hdone
    obtain ⟨he, hes⟩ := forall_mem_cons.mp hdone
    have hnone : e.xlator.isNone = false := by simpa using he
    simp [mergeList, hnone, ih hes]

/-- **What an answer leaves in its entry.** -/
theorem entryOf_cases : (∃ errno pos, x.2 = .failed errno pos ∧ entryOf x = ⟨errno, 0, 0, some x.1⟩) ∨
    entryOf x = ⟨-1, 0, 0, some x.1⟩ ∨ ∃ disk, x.2 = .found (some disk) ∧ hton32 disk.cnt = 1 ∧
      entryOf x = ⟨0, hton32 disk.start, hton32 disk.stop, some x.1⟩ := by
  obtain ⟨subvol, reply⟩ := x
  match reply with
  | .failed errno pos => exact .inl ⟨errno, pos, rfl, rfl⟩
  | .found none => exact .inr (.inl rfl)
  | .found (some disk) =>
    by_cases hcnt : hton32 disk.cnt = 1
    · exact .inr (.inr ⟨disk, rfl, hcnt, by simp [entryOf, mergeEntry, dhtDiskLayoutMerge, hcnt]⟩)
    have hmerge : dhtDiskLayoutMerge ⟨-1, 0, 0, some subvol⟩ disk = none := if_pos hcnt
    exact .inr (.inl (by simp only [entryOf, mergeEntry, blank, LookupReply.err, hmerge]))

@[simp] theorem entryOf_xlator : (entryOf x).xlator = some x.1 := by
  rcases entryOf_cases x with ⟨_, _, -, h⟩ | h | ⟨_, -, -, h⟩ <;> rw [h]

theorem mergeReplies_go (type : Int) : ∀ (rs : List (ξ × LookupReply)) (done : List (Entry ξ)),
    (∀ e ∈ done, e.xlator.isSome = true) → mergeReplies ⟨type, done ++ List.replicate rs.length blank⟩ rs =
        some ⟨type, done ++ rs.map entryOf⟩ := by
  intro rs
  induction rs with
  | nil =>
    intro done _
    rfl
  | cons r rs ih =>
    intro done hdone
    have hdone' : ∀ e ∈ done ++ [entryOf r], e.xlator.isSome = true := by
      intro e he
      rcases mem_append.mp he with he | he
      · exact hdone e he
      · simp [mem_singleton.mp he]
    have hgo := ih _ hdone'
    simp only [mergeReplies, dhtLayoutMerge, length_cons, mergeList_next hdone, Option.map_some, Option.bind_some]
    simpa using hgo

/-- **The array after all answers.** -/
theorem mergeReplies_eq (rs : List (ξ × LookupReply)) :
    mergeReplies (dhtLayoutNew rs.length) rs = some ⟨hashTypeDm, rs.map entryOf⟩ := by
  exact mergeReplies_go hashTypeDm rs [] (by simp)

/-- An array of answers, in any order: one entry for each subvolume, and no range without a layout. -/
structure Merged (list : List (Entry ξ)) : Prop where
  named : ∀ e ∈ list, e.xlator.isSome = true
  distinct : (list.map xlator).Nodup
  err : ∀ e ∈ list, e.err = -1 ∨ 0 ≤ e.err
  blank : ∀ e ∈ list, e.err ≠ 0 → e.start = 0 ∧ e.stop = 0

theorem Merged.perm {l' : List (Entry ξ)} (h : Merged l) (hperm : l'.Perm l) : Merged l' where
  named := fun e he => h.named e (hperm.mem_iff.mp he)
  distinct := (hperm.map xlator).nodup_iff.mpr h.distinct
  err := fun e he => h.err e (hperm.mem_iff.mp he)
  blank := fun e he => h.blank e (hperm.mem_iff.mp he)

theorem Merged.eq_of_xlator (h : Merged l) {e' : Entry ξ} (he : e ∈ l) (he' : e' ∈ l)
    (hx : e.xlator = e'.xlator) : e = e' := inj_on_of_nodup_map h.distinct he he' hx

theorem merged_replies {rs : List (ξ × LookupReply)} (hrs : (rs.map Prod.fst).Nodup) : Merged (rs.map entryOf) where
  named := by
    intro e he
    obtain ⟨x, -, rfl⟩ := mem_map.mp he
    simp
  distinct := by
    have hmap : (rs.map entryOf).map xlator = (rs.map Prod.fst).map some := by simp
    rw [hmap]
    exact hrs.map (Option.some_injective ξ)
  err := by
    intro e he
    obtain ⟨x, -, rfl⟩ := mem_map.mp he
    rcases entryOf_cases x with ⟨errno, _, -, h⟩ | h | ⟨_, -, -, h⟩ <;> simp [h]
  blank := by
    intro e he
    obtain ⟨x, -, rfl⟩ := mem_map.mp he
    rcases entryOf_cases x with ⟨errno, _, -, h⟩ | h | ⟨_, -, -, h⟩ <;> simp [h]

theorem Merged.missing (h : Merged l) (e : Entry ξ) (he : e ∈ l) (herr : e.err < 0) : e.start = 0 :=
  (h.blank e he (by omega)).1

/-! ## The order of the array -/

/-- `dht_layout_sort` exchanges two entries. -/
def entryGt (x y : Entry ξ) : Bool := decide (0 < dhtLayoutEntryCmp x y)

theorem entryGt_eq_false {x y : Entry ξ} : entryGt x y = false ↔
    x.err < y.err ∨ x.err = y.err ∧ (x.err = 0 → x.start ≤ y.start) := by
  unfold entryGt dhtLayoutEntryCmp
  rw [decide_eq_false_iff_not, BitVec.le_def]
  split <;> omega

variable (layout : Layout ξ)

/-- **The sorted array**: the errors in their order, and the ranges in the order of their starts. -/
theorem dhtLayoutSort_sorted : (dhtLayoutSort layout).list.Pairwise fun x y => entryGt x y = false := by
  apply Exchange.sort_sorted
  · intro a b c hab hbc
    change entryGt a b = false at hab
    change entryGt b c = false at hbc
    rw [entryGt_eq_false] at *
    simp only [BitVec.le_def] at *
    omega
  intro a b hab
  have hnot : ¬ entryGt a b = false := by simpa [entryGt] using hab
  change entryGt b a = false
  rw [entryGt_eq_false] at *
  simp only [BitVec.le_def] at *
  omega

theorem dhtLayoutSort_perm : (dhtLayoutSort layout).list.Perm layout.list := Exchange.sort_perm _

/-! ## Anomalies -/

variable (list : List (Entry ξ))

/-- The ranges that were read, in the order of the array. -/
def goodRanges : List (Range 32) := (list.filter good).map Entry.range

theorem goodRanges_cons_good {es : List (Entry ξ)} (he : e.err = 0) :
    goodRanges (e :: es) = e.range :: goodRanges es := by
  simp [goodRanges, good, he]

theorem goodRanges_cons_err {es : List (Entry ξ)} (he : e.err ≠ 0) : goodRanges (e :: es) = goodRanges es := by
  simp [goodRanges, good, he]

theorem countErr_holes (a : Anomalies) (err : Int) :
    (countErr a err).holes = a.holes ∧ (countErr a err).overlaps = a.overlaps := by
  unfold countErr
  split
  · exact ⟨rfl, rfl⟩
  · split <;> exact ⟨rfl, rfl⟩

theorem countGap_cases (a : Anomalies) (p start : BitVec 32) : start = p + 1 ∧ countGap a p start = a ∨
    start ≠ p + 1 ∧ (countGap a p start).holes = a.holes + 1 ∧ (countGap a p start).overlaps = a.overlaps ∨
    start ≠ p + 1 ∧ (countGap a p start).holes = a.holes ∧ (countGap a p start).overlaps = a.overlaps + 1 := by
  unfold countGap
  by_cases hlt : p + 1 < start
  · have hnot : ¬ start < p + 1 := BitVec.not_lt.mpr (BitVec.le_of_lt hlt)
    simp only [if_pos hlt, if_neg hnot]
    exact .inr (.inl ⟨(BitVec.ne_of_lt hlt).symm, trivial, trivial⟩)
  by_cases hgt : start < p + 1
  · simp only [if_neg hlt, if_pos hgt]
    exact .inr (.inr ⟨BitVec.ne_of_lt hgt, trivial, trivial⟩)
  simp only [if_neg hlt, if_neg hgt]
  exact .inl ⟨BitVec.le_antisymm (BitVec.not_lt.mp hlt) (BitVec.not_lt.mp hgt), trivial⟩

theorem anomaliesLoop_le : ∀ (l : List (Entry ξ)) (p : BitVec 32) (v : Bool) (a : Anomalies),
    a.holes ≤ (anomaliesLoop l (p, v, a)).2.2.holes ∧ a.overlaps ≤ (anomaliesLoop l (p, v, a)).2.2.overlaps
  | [], _, _, _ => ⟨le_rfl, le_rfl⟩
  | e :: es, p, v, a => by
    unfold anomaliesLoop
    split
    · have hsame := countErr_holes a e.err
      have ih := anomaliesLoop_le es p v (countErr a e.err)
      omega
    have hgap := countGap_cases a p e.start
    have ih := anomaliesLoop_le es e.stop false (countGap a p e.start)
    rcases hgap with ⟨-, heq⟩ | ⟨-, hgap⟩ | ⟨-, hgap⟩
    · rw [heq] at ih ⊢
      exact ih
    · omega
    · omega

/-- **The loop counts nothing exactly if the ranges follow one another.** -/
theorem anomaliesLoop_none_iff : ∀ (l : List (Entry ξ)) (p : BitVec 32) (v : Bool) (a : Anomalies),
    let r := anomaliesLoop l (p, v, a)
    r.2.2.holes = a.holes ∧ r.2.2.overlaps = a.overlaps ↔ Chain (p + 1) (goodRanges l) (r.1 + 1)
  | [], p, v, a => by simp [anomaliesLoop, goodRanges, Chain]
  | e :: es, p, v, a => by
    intro r
    by_cases he : e.err = 0
    · have hr : r = anomaliesLoop es (e.stop, false, countGap a p e.start) := by
        simp [r, anomaliesLoop, he]
      have ih := anomaliesLoop_none_iff es e.stop false (countGap a p e.start)
      have hle := anomaliesLoop_le es e.stop false (countGap a p e.start)
      rw [goodRanges_cons_good he, hr]
      show _ ↔ e.start = p + 1 ∧ _
      rcases countGap_cases a p e.start with ⟨hstart, heq⟩ | ⟨hstart, hgap⟩ | ⟨hstart, hgap⟩
      · rw [heq] at ih ⊢
        exact ih.trans (and_iff_right hstart).symm
      -- a hole or an overlap is counted, and stays counted
      all_goals exact iff_of_false (by omega) fun h => hstart h.1
    have hr : r = anomaliesLoop es (p, v, countErr a e.err) := by
      simp [r, anomaliesLoop, he]
    have ih := anomaliesLoop_none_iff es p v (countErr a e.err)
    rw [(countErr_holes a e.err).1, (countErr_holes a e.err).2] at ih
    rw [goodRanges_cons_err he, hr]
    exact ih

theorem anomaliesLoop_end : ∀ (l : List (Entry ξ)) (p : BitVec 32) (v : Bool) (a : Anomalies) (b : BitVec 32),
    Chain (p + 1) (goodRanges l) b → b = (anomaliesLoop l (p, v, a)).1 + 1
  | [], p, v, a, b, h => h.symm
  | e :: es, p, v, a, b, h => by
    by_cases he : e.err = 0
    · rw [goodRanges_cons_good he] at h
      have ih := anomaliesLoop_end es e.stop false (countGap a p e.start) b h.2
      simpa [anomaliesLoop, he] using ih
    rw [goodRanges_cons_err he] at h
    have ih := anomaliesLoop_end es p v (countErr a e.err) b h
    simpa [anomaliesLoop, he] using ih

theorem anomaliesLoop_virgin : ∀ (l : List (Entry ξ)) (p : BitVec 32) (v : Bool) (a : Anomalies),
    (anomaliesLoop l (p, v, a)).2.1 = true ↔ v = true ∧ goodRanges l = []
  | [], p, v, a => by simp [anomaliesLoop, goodRanges]
  | e :: es, p, v, a => by
    by_cases he : e.err = 0
    · have ih := anomaliesLoop_virgin es e.stop false (countGap a p e.start)
      simpa [anomaliesLoop, he, goodRanges_cons_good] using ih
    have ih := anomaliesLoop_virgin es p v (countErr a e.err)
    simpa [anomaliesLoop, he, goodRanges_cons_err] using ih

/-- The start of the first entry, whatever its error. -/
def firstStart : BitVec 32 := (list.head?.map Entry.start).getD 0

/-- **No anomaly is found exactly if the ranges go around once or more from the start of the first entry.** -/
theorem dhtLayoutAnomalies_none_iff : (dhtLayoutAnomalies layout).holes = 0 ∧ (dhtLayoutAnomalies layout).overlaps = 0 ↔
    Chain (firstStart layout.list) (goodRanges layout.list) (firstStart layout.list) ∧ goodRanges layout.list ≠ [] := by
  set list := layout.list with hlist
  have hfst : lastStop list + 1 = firstStart list := BitVec.sub_add_cancel _ _
  have hch := anomaliesLoop_none_iff list (lastStop list) true ⟨0, 0, 0, 0, 0⟩
  have hvirgin := anomaliesLoop_virgin list (lastStop list) true ⟨0, 0, 0, 0, 0⟩
  have hend := anomaliesLoop_end list (lastStop list) true ⟨0, 0, 0, 0, 0⟩ (firstStart list)
  simp only [dhtLayoutAnomalies, ← hlist]
  set r := anomaliesLoop list (lastStop list, true, ⟨0, 0, 0, 0, 0⟩)
  simp only [hfst, true_and] at hch hvirgin hend
  have hcancel : firstStart list = r.1 + 1 ↔ lastStop list = r.1 := by
    rw [← hfst]
    exact BitVec.add_left_inj 1
  by_cases hextra : lastStop list - r.1 ≠ 0 ∨ r.2.1 = true
  · rw [if_pos hextra]
    apply iff_of_false
    · simp
    rintro ⟨hgo, hne⟩
    rcases hextra with hdiff | hnone
    · apply hdiff
      rw [hcancel.mp (hend hgo)]
      exact BitVec.sub_self _
    · exact hne (hvirgin.mp hnone)
  rw [if_neg hextra]
  obtain ⟨hsame, hseen⟩ := not_or.mp hextra
  have hlast : lastStop list = r.1 := sub_eq_zero.mp (not_not.mp hsame)
  have hne : goodRanges list ≠ [] := fun h => hseen (hvirgin.mpr h)
  rw [← hcancel.mpr hlast] at hch
  rw [hch, and_iff_left hne]

/-- **What `dht_layout_normalize` accepts**: there is no anomaly, and no subvolume lacks the directory. -/
theorem dhtLayoutNormalize_eq_zero_iff : let list := (dhtLayoutSort layout).list
    (dhtLayoutNormalize layout).1 = 0 ↔ Chain (firstStart list) (goodRanges list) (firstStart list) ∧
      goodRanges list ≠ [] ∧ ∀ e ∈ list, e.err ≠ enoent := by
  intro list
  rw [← and_assoc, ← dhtLayoutAnomalies_none_iff (dhtLayoutSort layout)]
  simp [dhtLayoutNormalize, list]

/-! ## Placement -/

/-- **A name is placed**: the search gives the one subvolume of those that `own` their ranges whose range
    contains the hash. -/
def Placed (own : Entry ξ → Bool) (list : List (Entry ξ)) (hash : BitVec 32) : Prop :=
  ∃ x, searchHash list hash = some x ∧ (∃ e ∈ list, own e = true ∧ e.range.contains hash = true ∧ e.xlator = some x) ∧
    ∀ e ∈ list, own e = true → e.range.contains hash = true → e.xlator = some x

/-- The search finds the subvolume of the first entry that contains the hash. -/
theorem searchHash_split {pre post : List (Entry ξ)} {hash : BitVec 32}
    (hpre : ∀ e' ∈ pre, e'.range.contains hash = false) (he : e.range.contains hash = true) :
    searchHash (pre ++ e :: post) hash = e.xlator := by
  have hfind : (pre ++ e :: post).find? (fun e => e.range.contains hash) = some e := by
    rw [find?_append, find?_eq_none.mpr (by simpa using hpre)]
    simp [he]
  simp [searchHash, hfind]

theorem exists_first {p : Entry ξ → Bool} (he : e ∈ l)
    (hp : p e = true) : ∃ pre x post, l = pre ++ x :: post ∧ (∀ y ∈ pre, p y = false) ∧ p x = true := by
  obtain ⟨x, hx⟩ := Option.isSome_iff_exists.mp (find?_isSome.mpr ⟨e, he, hp⟩)
  obtain ⟨hpx, pre, post, hl, hpre⟩ := find?_eq_some_iff_append.mp hx
  exact ⟨pre, x, post, hl, by simpa using hpre, hpx⟩

theorem blank_contains (h : e.start = 0 ∧ e.stop = 0) (hash : BitVec 32) : e.range.contains hash = true ↔ hash = 0 := by
  rw [Range.contains_iff]
  simp only [Entry.range, h.1, h.2]
  exact ⟨fun h => BitVec.le_zero_iff.mp h.2, fun h => by simp [h]⟩

/-- **The condition under which an accepted layout places a hash.** A range starts at zero, or the hash lies
    between the starts of two ranges; a range over all values stands alone; and for the hash zero every
    directory has its layout. -/
def WellSpread (hash : BitVec 32) : Prop :=
  ((∃ e ∈ list, e.good = true ∧ e.start = 0) ∨
    ∃ e ∈ list, ∃ e' ∈ list, e.good = true ∧ e'.good = true ∧ e.start ≤ hash ∧ hash < e'.start) ∧
  (∀ e ∈ list, e.good = true → e.range.Whole → ∀ e' ∈ list, e'.good = true → e'.xlator = e.xlator) ∧
  (hash = 0 → ∀ e ∈ list, e.err ≠ -1)

theorem WellSpread.perm {l' : List (Entry ξ)} {hash : BitVec 32} (hperm : l'.Perm l) :
    WellSpread l' hash ↔ WellSpread l hash := by
  unfold WellSpread
  simp only [hperm.mem_iff]

section

variable {list : List (Entry ξ)} {hash : BitVec 32}

theorem mem_goodRanges {r : Range 32} : r ∈ goodRanges list ↔ ∃ e ∈ list, e.good = true ∧ e.range = r := by
  simp [goodRanges, and_assoc]

theorem goodRanges_sorted (hsort : list.Pairwise fun x y => entryGt x y = false) :
    (list.filter good).Pairwise fun x y => x.start ≤ y.start := by
  apply List.Pairwise.imp_of_mem _ (hsort.filter good)
  intro x y hx hy hxy
  have hxerr : x.err = 0 := by simpa [good] using (mem_filter.mp hx).2
  have hyerr : y.err = 0 := by simpa [good] using (mem_filter.mp hy).2
  rcases entryGt_eq_false.mp hxy with hlt | ⟨-, hle⟩
  · omega
  · exact hle hxerr

/-- **In a sorted array a good entry is found before the failures.** -/
theorem searchHash_good (hsort : list.Pairwise fun x y => entryGt x y = false)
    (hg : g ∈ list) (hgood : g.good = true) (hhas : g.range.contains hash = true)
    (hmiss : ∀ e ∈ list, e.err < 0 → e.range.contains hash = false) :
    ∃ e ∈ list, e.good = true ∧ e.range.contains hash = true ∧ searchHash list hash = e.xlator := by
  obtain ⟨pre, x, post, rfl, hpre, hx⟩ := exists_first (p := fun e => e.range.contains hash) hg hhas
  have hxmem : x ∈ pre ++ x :: post := by simp
  refine ⟨x, hxmem, ?_, hx, searchHash_split hpre hx⟩
  have hgerr : g.err = 0 := by simpa [good] using hgood
  -- `x` has no error below zero, and no error above: `g` would stand before it
  have hle : x.err ≤ 0 := by
    have hg' : g = x ∨ g ∈ post := by
      rcases mem_append.mp hg with hgpre | hg
      · rw [hpre g hgpre] at hhas
        cases hhas
      · exact mem_cons.mp hg
    rcases hg' with rfl | hgpost
    · omega
    have hxg := (pairwise_cons.mp (pairwise_append.mp hsort).2.1).1 g hgpost
    rcases entryGt_eq_false.mp hxg with h | h <;> omega
  have hge : ¬ x.err < 0 := by
    intro hlt
    rw [hmiss x hxmem hlt] at hx
    cases hx
  simp [good]
  omega

theorem head_missing (hmerge : Merged list) (hsort : list.Pairwise fun x y => entryGt x y = false) (he : e ∈ list) (herr : e.err = -1) : ∃ e0 rest, list = e0 :: rest ∧ e0.err = -1 := by
  match list, hmerge, hsort, he with
  | e0 :: rest, hmerge, hsort, he =>
    refine ⟨e0, rest, rfl, ?_⟩
    rcases mem_cons.mp he with rfl | he
    · exact herr
    have hmin := (pairwise_cons.mp hsort).1 e he
    have herr0 := hmerge.err e0 mem_cons_self
    rcases entryGt_eq_false.mp hmin with h | h <;> omega

theorem firstStart_le (hmiss : ∀ e ∈ list, e.err < 0 → e.start = 0)
    (hsort : list.Pairwise fun x y => entryGt x y = false) (hg : g ∈ list) (hgood : g.good = true) :
    firstStart list ≤ g.start := by
  match list, hmiss, hsort, hg with
  | e0 :: rest, hmiss, hsort, hg =>
    show e0.start ≤ g.start
    have hgerr : g.err = 0 := by simpa [good] using hgood
    rcases mem_cons.mp hg with rfl | hg
    · exact BitVec.le_refl _
    rcases entryGt_eq_false.mp ((pairwise_cons.mp hsort).1 g hg) with hlt | ⟨heq, hle⟩
    · rw [hmiss e0 mem_cons_self (by omega)]
      exact zero_le _
    · exact hle (heq.trans hgerr)

/-- **Beside a range over all values the others contain every hash as well.** -/
theorem whole_beside (hmerge : Merged list) (hsort : list.Pairwise fun x y => entryGt x y = false)
    (hch : Chain (firstStart list) (goodRanges list) (firstStart list)) {w : Entry ξ} (hw : w ∈ list)
    (hwgood : w.good = true) (hwhole : w.range.Whole) (hg : g ∈ list) (hggood : g.good = true)
    (hne : g ≠ w) (hash : BitVec 32) : ∃ c ∈ list, c.good = true ∧ c.range.contains hash = true ∧ c ≠ w := by
  have hfst : firstStart list = 0 := by
    have hle := firstStart_le hmerge.missing hsort hw hwgood
    rw [show w.start = 0 from hwhole.1] at hle
    exact BitVec.le_zero_iff.mp hle
  have hnd : (list.filter good).Nodup := (List.Nodup.of_map _ hmerge.distinct).filter _
  obtain ⟨pre, post, hsplit⟩ := append_of_mem (mem_filter.mpr ⟨hw, hwgood⟩)
  have hranges : goodRanges list = pre.map Entry.range ++ w.range :: post.map Entry.range := by
    simp [goodRanges, hsplit]
  rw [hranges, hfst] at hch
  obtain ⟨hpre, hpost⟩ := hch.split
  rw [show w.range.start = 0 from hwhole.1] at hpre
  rw [hwhole.2] at hpost
  rw [hsplit] at hnd
  -- the ranges in front of it and those behind it are chains from zero to zero
  have hcover : ∀ part : List (Entry ξ), Chain 0 (part.map Entry.range) 0 → part ≠ [] →
      (∀ c ∈ part, c ∈ pre ++ w :: post ∧ c ≠ w) →
      ∃ c ∈ list, c.good = true ∧ c.range.contains hash = true ∧ c ≠ w := by
    intro part hpart hpartne hin
    obtain ⟨r, hr, hhas⟩ := hpart.covers (by simpa using hpartne) (zero_le hash)
    obtain ⟨c, hc, rfl⟩ := mem_map.mp hr
    obtain ⟨hcin, hcw⟩ := hin c hc
    rw [← hsplit] at hcin
    obtain ⟨hclist, hcgood⟩ := mem_filter.mp hcin
    exact ⟨c, hclist, hcgood, hhas, hcw⟩
  have hwnot : w ∉ pre ∧ w ∉ post := by
    rw [nodup_append] at hnd
    exact ⟨fun h => hnd.2.2 w h w mem_cons_self rfl, (nodup_cons.mp hnd.2.1).1⟩
  by_cases hprene : pre = []
  · apply hcover post hpost
    · rintro rfl
      have hgin := mem_filter.mpr ⟨hg, hggood⟩
      rw [hsplit, hprene] at hgin
      exact hne (by simpa using hgin)
    intro c hc
    exact ⟨by simp [hc], fun h => hwnot.2 (h ▸ hc)⟩
  apply hcover pre hpre hprene
  intro c hc
  exact ⟨by simp [hc], fun h => hwnot.1 (h ▸ hc)⟩

theorem WellSpread.covered (hspread : WellSpread list hash) (hmerge : Merged list)
    (hsort : list.Pairwise fun x y => entryGt x y = false)
    (hch : Chain (firstStart list) (goodRanges list) (firstStart list)) (hne : goodRanges list ≠ []) :
    ∃ e ∈ list, e.good = true ∧ e.range.contains hash = true := by
  have hcover : ∃ r ∈ goodRanges list, r.contains hash = true := by
    rcases hspread.1 with ⟨e, he, hgood, hzero⟩ | ⟨e, he, e', he', hgood, hgood', hle, hlt⟩
    · have hfst := firstStart_le hmerge.missing hsort he hgood
      rw [hzero] at hfst
      rw [BitVec.le_zero_iff.mp hfst] at hch
      exact hch.covers hne (zero_le hash)
    apply hch.covers_below _ (mem_goodRanges.mpr ⟨e', he', hgood', rfl⟩) hlt
    exact BitVec.le_trans (firstStart_le hmerge.missing hsort he hgood) hle
  obtain ⟨r, hr, hhas⟩ := hcover
  obtain ⟨e, he, hgood, rfl⟩ := mem_goodRanges.mp hr
  exact ⟨e, he, hgood, hhas⟩

theorem WellSpread.unique (hspread : WellSpread list hash) (hmerge : Merged list)
    (hsort : list.Pairwise fun x y => entryGt x y = false)
    (hch : Chain (firstStart list) (goodRanges list) (firstStart list)) {e' : Entry ξ}
    (he : e ∈ list) (hgood : e.good = true) (hhas : e.range.contains hash = true)
    (he' : e' ∈ list) (hgood' : e'.good = true) (hcontains' : e'.range.contains hash = true) : e = e' := by
  have hdist : (list.filter good).Pairwise fun x y => x.xlator ≠ y.xlator := by
    have hnd := hmerge.distinct
    rw [List.Nodup, pairwise_map] at hnd
    exact hnd.filter _
  have hordered : (list.filter good).Pairwise fun x y =>
      x.range.start ≤ y.range.start ∧ ¬ (x.range.Whole ∧ y.range.start = 0) := by
    apply List.Pairwise.imp_of_mem _ ((goodRanges_sorted hsort).and hdist)
    rintro x y hx hy ⟨hle, hne⟩
    refine ⟨hle, ?_⟩
    rintro ⟨hwhole, -⟩
    obtain ⟨hx, hxgood⟩ := mem_filter.mp hx
    obtain ⟨hy, hygood⟩ := mem_filter.mp hy
    exact hne (hspread.2.1 x hx hxgood hwhole y hy hygood).symm
  exact Chain.unique hch hordered (mem_filter.mpr ⟨he, hgood⟩) (mem_filter.mpr ⟨he', hgood'⟩)
    hhas hcontains'

end

/-- **When an accepted layout places a hash.** -/
theorem accepted_placed_iff (layout : Layout ξ) (hmerge : Merged layout.list)
    (haccepted : (dhtLayoutNormalize layout).1 = 0) (hash : BitVec 32) :
    Placed good (dhtLayoutNormalize layout).2.list hash ↔ WellSpread layout.list hash := by
  have hsort := dhtLayoutSort_sorted layout
  have hperm := dhtLayoutSort_perm layout
  obtain ⟨hch, hne, -⟩ := (dhtLayoutNormalize_eq_zero_iff layout).mp haccepted
  rw [← WellSpread.perm hperm]
  show Placed good (dhtLayoutSort layout).list hash ↔ _
  replace hmerge := hmerge.perm hperm
  generalize (dhtLayoutSort layout).list = list at *
  constructor
  · rintro ⟨x, hsearch, ⟨e, he, hgood, hhas, hx⟩, hunique⟩
    refine ⟨?_, ?_, ?_⟩
    · -- otherwise the chain ends behind `e`, or goes on behind the hash
      by_contra hnot
      obtain ⟨hnozero, hnopair⟩ := not_or.mp hnot
      obtain ⟨hlow, hhigh⟩ := Range.contains_iff.mp hhas
      have hfst := firstStart_le hmerge.missing hsort he hgood
      have hstarts : ∀ g ∈ list, g.good = true → g.start ≠ 0 ∧ g.start ≤ hash := by
        intro g hg hggood
        refine ⟨fun hzero => hnozero ⟨g, hg, hggood, hzero⟩, ?_⟩
        apply BitVec.not_lt.mp
        intro hlt
        exact hnopair ⟨e, he, g, hg, hgood, hggood, hlow, hlt⟩
      have hbeh : ∃ y, e.stop + 1 = y ∧ y ≠ 0 ∧ y ≤ hash := by
        rcases hch.next (mem_goodRanges.mpr ⟨e, he, hgood, rfl⟩) with hend | ⟨r, hr, hstart⟩
        · refine ⟨_, hend, ?_, BitVec.le_trans hfst hlow⟩
          intro hzero
          match hranges : goodRanges list, hch with
          | [], _ => exact hne hranges
          | r :: rs, hch =>
            obtain ⟨g, hg, hggood, hgr⟩ := mem_goodRanges.mp (hranges ▸ mem_cons_self : r ∈ goodRanges list)
            apply (hstarts g hg hggood).1
            rw [show g.start = r.start by rw [← hgr]; rfl, hch.1, hzero]
        obtain ⟨g, hg, hggood, rfl⟩ := mem_goodRanges.mp hr
        exact ⟨_, hstart.symm, hstarts g hg hggood⟩
      obtain ⟨y, hy, hy0, hyhash⟩ := hbeh
      have hsucc := toNat_succ (x := e.stop) (by rw [hy]; exact hy0)
      rw [hy] at hsucc
      simp only [BitVec.le_def, Entry.range] at hhigh hyhash
      omega
    · intro w hw hwgood hwhole g hg hggood
      have hwx : w.xlator = some x := by
        apply hunique w hw hwgood
        apply Range.contains_iff.mpr
        exact hwhole.bounds hash
      by_contra hne'
      obtain ⟨c, hc, hcgood, hccontains, hcw⟩ :=
        whole_beside hmerge hsort hch hw hwgood hwhole hg hggood (fun h => hne' (h ▸ rfl)) hash
      exact hcw (hmerge.eq_of_xlator hc hw ((hunique c hc hcgood hccontains).trans hwx.symm))
    rintro rfl m hm hmerr
    obtain ⟨e0, rest, rfl, herr0⟩ := head_missing hmerge hsort hm hmerr
    have he0 : e0 ∈ e0 :: rest := mem_cons_self
    have hzero := hmerge.blank e0 he0 (by omega)
    have hfound : searchHash ([] ++ e0 :: rest) 0 = e0.xlator :=
      searchHash_split (by simp) ((blank_contains hzero 0).mpr rfl)
    have hsame := hmerge.eq_of_xlator he0 he ((hfound.symm.trans hsearch).trans hx.symm)
    rw [hsame] at herr0
    simp [good, herr0] at hgood
  intro hspread
  obtain ⟨g, hg, hggood, hgcontains⟩ := hspread.covered hmerge hsort hch hne
  have hmiss : ∀ e ∈ list, e.err < 0 → e.range.contains hash = false := by
    intro e he hlt
    have herr := hmerge.err e he
    apply Bool.eq_false_iff.mpr
    intro hhas
    have hzero := (blank_contains (hmerge.blank e he (by omega)) hash).mp hhas
    exact hspread.2.2 hzero e he (by omega)
  obtain ⟨e, he, hgood, hhas, hsearch⟩ := searchHash_good hsort hg hggood hgcontains hmiss
  obtain ⟨x, hx⟩ := Option.isSome_iff_exists.mp (hmerge.named e he)
  refine ⟨x, hsearch.trans hx, ⟨e, he, hgood, hhas, hx⟩, ?_⟩
  intro e' he' hgood' hcontains'
  rw [← hspread.unique hmerge hsort hch he hgood hhas he' hgood' hcontains']
  exact hx

end GlusterFS.Dht
