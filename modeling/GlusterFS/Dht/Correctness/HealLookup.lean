import GlusterFS.Dht.Correctness.Placement

/-!
# `Dht.Correctness.HealLookup` — a lookup after the self-heal

The ranges are written to the subvolumes that got one, and a fresh lookup reads them back in any order. The
sorted array then has the same ranges (`goodRanges_fresh`), and no subvolume is told that its layout differs.

What may differ is the rest. A subvolume without a range that still lacks the directory makes
`dht_layout_normalize` ask for another heal. One that has the directory now is sorted to the front and takes the
hash zero, whatever stood first in the healed array (`heal_lookup_iff`).
-/

namespace GlusterFS.Dht

open Ranges List Entry

variable {ξ : Type}

variable {x : ξ}

/-! ## The answers of a fresh lookup -/

def LookupReply.xattr : LookupReply → Option (Option DiskLayout)
  | .failed _ _ => none
  | .found disk => some disk

/-- The first subvolume, in the order of the answers, that has the directory but no layout for it. -/
def firstUnlabelled (rs : List (ξ × LookupReply)) : Option ξ := (rs.find? fun r => r.2 == .found none).map Prod.fst

/-- **A fresh lookup after the layout was written**: every subvolume answers, in any order, with the layout on
    its disk. One that got none may have the directory, or may fail. -/
structure FreshLookup [DecidableEq ξ] (healed : Layout ξ) (rs : List (ξ × LookupReply)) : Prop where
  all : (rs.map fun r => some r.1).Perm (healed.list.map xlator)
  onDisk : ∀ r ∈ rs, r.2.disk = dhtSelfhealDirXattr healed r.1

def Entry.read (e : Entry ξ) : Entry ξ := { e with err := 0 }

variable {e : Entry ξ}

/-- **What is written is read back.** -/
theorem entryOf_extract (type : Int) (hx : e.xlator = some x) :
    entryOf (x, .found (some (dhtDiskLayoutExtract type e))) = e.read := by
  simp [entryOf, mergeEntry, dhtDiskLayoutMerge, dhtDiskLayoutExtract, Entry.read, hx]

theorem LookupReply.eq_found {reply : LookupReply} {disk : DiskLayout} (h : reply.disk = some disk) :
    reply = .found (some disk) := by
  match reply, h with
  | .found (some _), h => rw [Option.some.inj h]

variable {r : ξ × LookupReply}

theorem entryOf_disk_none (h : r.2.disk = none) :
    (entryOf r).err ≠ 0 ∧ (entryOf r).start = 0 ∧ (entryOf r).stop = 0 := by
  obtain ⟨x, reply⟩ := r
  match reply, h with
  | .failed errno pos, _ => exact ⟨by simp [entryOf, mergeEntry, LookupReply.err]; omega, rfl, rfl⟩
  | .found none, _ => exact ⟨by simp [entryOf, mergeEntry], rfl, rfl⟩

section

variable [DecidableEq ξ] {list front back : List (Entry ξ)} {st : Nat} {type : Int}
  {rs : List (ξ × LookupReply)}

theorem find?_xlator {l : List (Entry ξ)} (hdist : (l.map xlator).Nodup)
    (he : e ∈ l) (hx : e.xlator = some x) : l.find? (fun e => e.xlator == some x) = some e := by
  have hsome : (l.find? fun e => e.xlator == some x).isSome = true :=
    find?_isSome.mpr ⟨e, he, beq_iff_eq.mpr hx⟩
  obtain ⟨e', he'⟩ := Option.isSome_iff_exists.mp hsome
  have hx' : e'.xlator = some x := by simpa using find?_some he'
  rw [he', inj_on_of_nodup_map hdist (mem_of_find?_eq_some he') he (hx'.trans hx.symm)]

theorem dirMismatch_none {layout : Layout ξ} (hdist : (layout.list.map xlator).Nodup) (he : e ∈ layout.list) (hx : e.xlator = some r.1) (herr : e.err ≠ 0)
    (hdisk : r.2.disk = none) : dhtLayoutDirMismatch layout r.1 r.2.xattr = 0 := by
  have hxattr : r.2.xattr.getD none = none := by
    obtain ⟨x, reply⟩ := r
    match reply, hdisk with
    | .failed _ _, _ => rfl
    | .found none, _ => rfl
  simp [dhtLayoutDirMismatch, find?_xlator hdist he hx, hxattr, herr]

/-- A layout that was written does not differ from its entry, nor from what is read of it. -/
theorem dirMismatch_extract {layout : Layout ξ} (hdist : (layout.list.map xlator).Nodup) (type : Int)
    {e' : Entry ξ} (he : e ∈ layout.list) (hx : e.xlator = some x) (hsame : e.read = e'.read) :
    dhtLayoutDirMismatch layout x (some (some (dhtDiskLayoutExtract type e'))) = 0 := by
  obtain ⟨hstart, hstop, -⟩ : e.start = e'.start ∧ e.stop = e'.stop ∧ e.xlator = e'.xlator := by
    simpa [Entry.read] using hsame
  simp [dhtLayoutDirMismatch, find?_xlator hdist he hx, dhtDiskLayoutExtract, hstart, hstop]

/-- What the disk of a subvolume has: the range of its entry, if it got one. -/
theorem Assigned.dirXattr (h : Assigned 2 list st front back) (hanswered : Answered list) (type : Int) (he : e ∈ front ++ back) (hx : e.xlator = some x) :
    dhtSelfhealDirXattr ⟨type, front ++ back⟩ x = if e.marked then some (dhtDiskLayoutExtract type e) else none := by
  have honly : ∀ e' ∈ front ++ back, e'.xlator = some x → e' = e := by
    intro e' he' hx'
    exact h.eq_of_xlator hanswered he' he (hx'.trans hx.symm)
  unfold dhtSelfhealDirXattr
  by_cases hmark : e.marked = true
  · have hwritten : e.written = true := by
      have hlong := h.spread.long e (mem_filter.mpr ⟨by simpa [or_comm] using he, hmark⟩)
      have hstop : e.stop ≠ 0 := by
        intro hzero
        simp [hzero] at hlong
      have herr : e.err = -1 := by simpa [marked] using hmark
      simpa [written, herr] using hstop
    have hsome : ((front ++ back).find? fun e => e.xlator == some x && e.written).isSome = true :=
      find?_isSome.mpr ⟨e, he, by simp [hx, hwritten]⟩
    obtain ⟨e', he'⟩ := Option.isSome_iff_exists.mp hsome
    have hcond := find?_some he'
    simp only [Bool.and_eq_true, beq_iff_eq] at hcond
    rw [he', honly e' (mem_of_find?_eq_some he') hcond.1, if_pos hmark]
    rfl
  have hnone : ((front ++ back).find? fun e => e.xlator == some x && e.written) = none := by
    rw [find?_eq_none]
    intro e' he' hcond
    simp only [Bool.and_eq_true, beq_iff_eq] at hcond
    rw [honly e' he' hcond.1] at hcond
    simp only [written, Bool.and_eq_true] at hcond
    exact hmark hcond.2.1
  rw [hnone, if_neg hmark]
  rfl

abbrev freshList (rs : List (ξ × LookupReply)) : List (Entry ξ) := (dhtLayoutSort ⟨hashTypeDm, rs.map entryOf⟩).list

namespace FreshLookup

variable (hlookup : FreshLookup ⟨type, front ++ back⟩ rs) (h : Assigned 2 list st front back)
  (hanswered : Answered list)

include hlookup h hanswered

theorem entry (hr : r ∈ rs) : ∃ e ∈ front ++ back, e.xlator = some r.1 ∧
    (e.marked = true ∧ r.2 = .found (some (dhtDiskLayoutExtract type e)) ∧ entryOf r = e.read ∨
      e.marked = false ∧ r.2.disk = none) := by
  have hmem : some r.1 ∈ (front ++ back).map xlator :=
    hlookup.all.mem_iff.mp (mem_map_of_mem (f := fun r => some r.1) hr)
  obtain ⟨e, he, hx⟩ := mem_map.mp hmem
  have hdisk := hlookup.onDisk r hr
  rw [h.dirXattr hanswered type he hx] at hdisk
  refine ⟨e, he, hx, ?_⟩
  by_cases hmark : e.marked = true
  · rw [if_pos hmark] at hdisk
    have hrep := LookupReply.eq_found hdisk
    refine Or.inl ⟨hmark, hrep, ?_⟩
    rw [← entryOf_extract type hx, ← hrep]
  rw [if_neg hmark] at hdisk
  exact Or.inr ⟨by simpa using hmark, hdisk⟩

omit h hanswered in
theorem reply (he : e ∈ front ++ back) : ∃ r ∈ rs, e.xlator = some r.1 := by
  have hmem := hlookup.all.mem_iff.mpr (mem_map_of_mem (f := xlator) he)
  obtain ⟨r, hr, hx⟩ := mem_map.mp hmem
  exact ⟨r, hr, hx.symm⟩

theorem distinct : (rs.map Prod.fst).Nodup := by
  have hnd : (rs.map fun r => some r.1).Nodup := by
    rw [hlookup.all.nodup_iff]
    show ((front ++ back).map xlator).Nodup
    rw [h.xlators]
    exact hanswered.distinct
  have hmap : (rs.map fun r => some r.1) = (rs.map Prod.fst).map some := by simp
  rw [hmap] at hnd
  exact List.Nodup.of_map some hnd

theorem good_iff {e' : Entry ξ} : e' ∈ (rs.map entryOf).filter good ↔
    e' ∈ ((front ++ back).filter marked).map Entry.read := by
  simp only [mem_filter, mem_map]
  constructor
  · rintro ⟨⟨r, hr, rfl⟩, hgood⟩
    obtain ⟨e, he, -, ⟨hmark, -, hread⟩ | ⟨-, hnone⟩⟩ := hlookup.entry h hanswered hr
    · exact ⟨e, ⟨he, hmark⟩, hread.symm⟩
    have herr := (entryOf_disk_none hnone).1
    simp [good, herr] at hgood
  rintro ⟨e, ⟨he, hmark⟩, rfl⟩
  obtain ⟨r, hr, hx⟩ := hlookup.reply he
  obtain ⟨e', he', hx', hcases⟩ := hlookup.entry h hanswered hr
  obtain rfl := h.eq_of_xlator hanswered he he' (hx.trans hx'.symm)
  rcases hcases with ⟨-, -, hread⟩ | ⟨hnot, -⟩
  · exact ⟨⟨r, hr, hread⟩, rfl⟩
  · simp [hmark] at hnot

/-- **The lookup reads the ranges that were assigned.** -/
theorem good_perm : ((rs.map entryOf).filter good).Perm
    (((back ++ front).filter marked).map Entry.read) := by
  have hmerge := merged_replies (hlookup.distinct h hanswered)
  have hnd : ((rs.map entryOf).filter good).Nodup := (List.Nodup.of_map _ hmerge.distinct).filter _
  have hnodup' : (((front ++ back).filter marked).map Entry.read).Nodup := by
    apply List.Nodup.of_map xlator
    have hmap : (((front ++ back).filter marked).map Entry.read).map xlator =
        ((front ++ back).filter marked).map xlator := by
      rw [map_map]
      rfl
    have hall : ((front ++ back).map xlator).Nodup := by
      rw [h.xlators]
      exact hanswered.distinct
    rw [hmap]
    exact hall.sublist (filter_sublist.map xlator)
  have hperm := (perm_ext_iff_of_nodup hnd hnodup').mpr fun _ => hlookup.good_iff h hanswered
  exact hperm.trans ((perm_append_comm.filter marked).map Entry.read)

/-- **The sorted array has the ranges of the healed one, in the order they were handed out.** -/
theorem goodRanges_fresh : goodRanges (freshList rs) = markedRanges (back ++ front) := by
  set S := freshList rs with hS
  have hsort : S.Pairwise fun x y => entryGt x y = false := dhtLayoutSort_sorted _
  have hpermS : S.Perm (rs.map entryOf) := dhtLayoutSort_perm _
  have hincreasing : (markedRanges (back ++ front)).Pairwise fun r s => r.start < s.start := by
    unfold markedRanges
    rw [pairwise_map]
    exact h.spread.increasing
  have hperm : (goodRanges S).Perm (markedRanges (back ++ front)) := by
    have hgood := (hpermS.filter good).trans (hlookup.good_perm h hanswered)
    have hranges := hgood.map Entry.range
    rw [map_map] at hranges
    exact hranges
  have hle : (goodRanges S).Pairwise fun r s => r.start ≤ s.start := by
    unfold goodRanges
    rw [pairwise_map]
    exact goodRanges_sorted hsort
  apply List.Perm.eq_of_pairwise _ hle _ hperm
  · intro r s hr hs hrs hsr
    have hstarts : ((markedRanges (back ++ front)).map Range.start).Nodup := by
      rw [List.Nodup, pairwise_map]
      exact hincreasing.imp fun hlt => BitVec.ne_of_lt hlt
    exact inj_on_of_nodup_map hstarts (hperm.mem_iff.mp hr) hs (BitVec.le_antisymm hrs hsr)
  · exact hincreasing.imp fun hlt => BitVec.le_of_lt hlt

/-! ## What the lookup finds -/

theorem sorted_merged : Merged (freshList rs) :=
  (merged_replies (hlookup.distinct h hanswered)).perm (dhtLayoutSort_perm _)

/-- **The lookup is satisfied unless a subvolume lacks the directory.** -/
theorem normalize_eq_zero_iff : (dhtLayoutNormalize ⟨hashTypeDm, rs.map entryOf⟩).1 = 0 ↔
    ∀ r ∈ rs, (entryOf r).err ≠ enoent := by
  have hranges := hlookup.goodRanges_fresh h hanswered
  have hmerge := hlookup.sorted_merged h hanswered
  have hsort := dhtLayoutSort_sorted (⟨hashTypeDm, rs.map entryOf⟩ : Layout ξ)
  have hperm := dhtLayoutSort_perm (⟨hashTypeDm, rs.map entryOf⟩ : Layout ξ)
  apply (dhtLayoutNormalize_eq_zero_iff _).trans
  simp only [hperm.mem_iff, forall_mem_map]
  set S := (dhtLayoutSort ⟨hashTypeDm, rs.map entryOf⟩).list
  -- the range that starts at zero is the first one
  have hfst : firstStart S = 0 := by
    obtain ⟨r, hr, hhas⟩ := h.spread.chain.covers h.spread.nonempty (Ranges.zero_le 0)
    rw [← hranges] at hr
    obtain ⟨g, hg, hgood, rfl⟩ := mem_goodRanges.mp hr
    have hle := firstStart_le hmerge.missing hsort hg hgood
    have hzero : g.start = 0 := BitVec.le_zero_iff.mp (Range.contains_iff.mp hhas).1
    rw [hzero] at hle
    exact BitVec.le_zero_iff.mp hle
  have hne : goodRanges S ≠ [] := hranges ▸ h.spread.nonempty
  have hch : Chain (firstStart S) (goodRanges S) (firstStart S) := by
    rw [hfst, hranges]
    exact h.spread.chain
  simp [hch, hne]

/-- **No layout differs**, neither from what was read nor from what was written. -/
theorem dirMismatch_eq_zero (hr : r ∈ rs) :
    dhtLayoutDirMismatch (dhtLayoutNormalize ⟨hashTypeDm, rs.map entryOf⟩).2 r.1 r.2.xattr = 0 ∧
      dhtLayoutDirMismatch ⟨type, front ++ back⟩ r.1 r.2.xattr = 0 := by
  have hfresh := (hlookup.sorted_merged h hanswered).distinct
  have hhealed : ((front ++ back).map xlator).Nodup := h.xlators ▸ hanswered.distinct
  have hentry : entryOf r ∈ freshList rs :=
    (dhtLayoutSort_perm _).mem_iff.mpr (mem_map_of_mem hr)
  obtain ⟨e, he, hx, ⟨-, hrep, hread⟩ | ⟨hnot, hdisk⟩⟩ := hlookup.entry h hanswered hr
  · rw [hrep]
    refine ⟨?_, dirMismatch_extract hhealed type he hx rfl⟩
    have hsame : (entryOf r).read = e.read := by
      rw [hread]
      rfl
    exact dirMismatch_extract hfresh type hentry (entryOf_xlator r) hsame
  have herr : e.err ≠ 0 := by
    intro hzero
    have hineligible := (h.unmarked e he hnot).2
    simp [eligible, hzero] at hineligible
  refine ⟨?_, dirMismatch_none hhealed he hx herr hdisk⟩
  exact dirMismatch_none hfresh hentry (entryOf_xlator r) (entryOf_disk_none hdisk).1 hdisk

/-- A hash is found with the range that contains it, if no entry without a layout does. -/
theorem searchHash_marked {hash : BitVec 32} (he : e ∈ front ++ back)
    (hmark : e.marked = true) (hhas : e.range.contains hash = true)
    (hmiss : ∀ e ∈ freshList rs, e.err < 0 → e.range.contains hash = false) :
    searchHash (freshList rs) hash = e.xlator := by
  have hsort := dhtLayoutSort_sorted (⟨hashTypeDm, rs.map entryOf⟩ : Layout ξ)
  have hperm := dhtLayoutSort_perm (⟨hashTypeDm, rs.map entryOf⟩ : Layout ξ)
  have hread : e.read ∈ (rs.map entryOf).filter good := by
    rw [hlookup.good_iff h hanswered]
    exact mem_map_of_mem (mem_filter.mpr ⟨he, hmark⟩)
  obtain ⟨g, hg, hgood, hgcontains, hsearch⟩ :=
    searchHash_good hsort (hperm.mem_iff.mpr (mem_filter.mp hread).1) rfl hhas hmiss
  -- what was found is the range of one entry, and there it is unique
  have hgmem := (hlookup.good_iff h hanswered).mp (mem_filter.mpr ⟨hperm.mem_iff.mp hg, hgood⟩)
  obtain ⟨e', he', rfl⟩ := mem_map.mp hgmem
  obtain ⟨he', hmarked'⟩ := mem_filter.mp he'
  have hsame : e = e' := by
    apply h.spread.unique _ hmark hhas _ hmarked' hgcontains
    · simpa [or_comm] using he
    · simpa [or_comm] using he'
  rw [hsearch, hsame]
  rfl

theorem searchHash_same {hash : BitVec 32} (hne : hash ≠ 0) :
    searchHash (freshList rs) hash = searchHash (front ++ back) hash := by
  obtain ⟨e, he, hmark, hhas⟩ := h.spread.covered hash
  have he' : e ∈ front ++ back := by simpa [or_comm] using he
  rw [h.searchHash_ne_zero hanswered hne he' hmark hhas]
  apply hlookup.searchHash_marked h hanswered he' hmark hhas
  intro m hm hneg
  apply Bool.eq_false_iff.mpr
  intro hzero
  have hblank := (hlookup.sorted_merged h hanswered).blank m hm (by omega)
  exact hne ((blank_contains hblank hash).mp hzero)

theorem err_neg_iff (hr : r ∈ rs) : (entryOf r).err = -1 ↔ r.2 = .found none := by
  obtain ⟨e, -, -, ⟨-, hrep, hread⟩ | ⟨-, hdisk⟩⟩ := hlookup.entry h hanswered hr
  · simp [hread, hrep, Entry.read]
  obtain ⟨x, reply⟩ := r
  match reply, hdisk with
  | .failed errno pos, _ =>
    simp [entryOf, mergeEntry, LookupReply.err]
  | .found none, _ => simp [entryOf, mergeEntry]

/-- **Where the lookup has the hash zero.** -/
theorem searchHash_fresh_zero : searchHash (freshList rs) 0 = (firstUnlabelled rs).or
      (((list.drop st ++ list.take st).find? (eligible list)).bind xlator) := by
  have hmerge := merged_replies (hlookup.distinct h hanswered)
  match hfind : rs.find? fun r => r.2 == .found none with
  | some r =>
    obtain ⟨hfound, pre, post, hsplit, hpre⟩ := find?_eq_some_iff_append.mp hfind
    have hr : r ∈ rs := by simp [hsplit]
    have herr : (entryOf r).err = -1 := (hlookup.err_neg_iff h hanswered hr).mpr (by simpa using hfound)
    -- it is sorted to the front, ahead of the others of its kind
    have hhead : (freshList rs).head? = some (entryOf r) := by
      rw [hsplit, freshList, map_append, map_cons]
      apply Exchange.head?_sort
      · intro y hy
        obtain ⟨r', hr', rfl⟩ := mem_map.mp hy
        have hmem : r' ∈ rs := by simp [hsplit, hr']
        have hneg := hlookup.err_neg_iff h hanswered hmem
        have hlow := hmerge.err (entryOf r') (mem_map_of_mem hmem)
        have hnot : r'.2 ≠ .found none := by simpa using hpre r' hr'
        have hne : (entryOf r').err ≠ -1 := fun h => hnot (hneg.mp h)
        simp [dhtLayoutEntryCmp, herr]
        omega
      intro y hy
      obtain ⟨r', hr', rfl⟩ := mem_map.mp hy
      have hlow := hmerge.err (entryOf r') (mem_map_of_mem (by simp [hsplit, hr']))
      apply entryGt_eq_false.mpr
      omega
    obtain ⟨rest, hlist⟩ := head?_eq_some_iff.mp hhead
    have hblank := hmerge.blank (entryOf r) (mem_map_of_mem hr) (by omega)
    have hsearch : searchHash ([] ++ entryOf r :: rest) 0 = (entryOf r).xlator :=
      searchHash_split (by simp) ((blank_contains hblank 0).mpr rfl)
    rw [hlist]
    simpa [firstUnlabelled, hfind] using hsearch
  | none =>
    obtain ⟨e, he, hmark, hhas⟩ := h.spread.covered 0
    have he' : e ∈ front ++ back := by simpa [or_comm] using he
    have howner := (h.contains_zero hanswered he').mp hhas
    simp only [hmark, Bool.true_eq_false, false_or] at howner
    rw [firstUnlabelled, hfind, ← howner]
    apply hlookup.searchHash_marked h hanswered he' hmark hhas
    intro m hm hneg
    obtain ⟨r, hr, rfl⟩ := mem_map.mp ((dhtLayoutSort_perm _).mem_iff.mp hm)
    have hlow := hmerge.err (entryOf r) (mem_map_of_mem hr)
    have hunlabelled := (hlookup.err_neg_iff h hanswered hr).mp (by omega)
    have hno := find?_eq_none.mp hfind r hr
    simp [hunlabelled] at hno

theorem unlabelled_ne (hx : firstUnlabelled rs = some x) :
    some x ≠ ((list.drop st ++ list.take st).find? (eligible list)).bind xlator := by
  obtain ⟨r, hfind, rfl⟩ := Option.map_eq_some_iff.mp hx
  have hr := mem_of_find?_eq_some hfind
  have hfound : r.2 = .found none := by simpa using find?_some hfind
  obtain ⟨e, he, hex, ⟨-, hrep, -⟩ | ⟨hnot, -⟩⟩ := hlookup.entry h hanswered hr
  · simp [hfound] at hrep
  -- the owner of zero has a range
  intro howner
  obtain ⟨o, ho, hmark, hhas⟩ := h.spread.covered 0
  have ho' : o ∈ front ++ back := by simpa [or_comm] using ho
  have hox := (h.contains_zero hanswered ho').mp hhas
  simp only [hmark, Bool.true_eq_false, false_or] at hox
  have hsame := h.eq_of_xlator hanswered he ho' ((hex.trans howner).trans hox.symm)
  rw [hsame, hmark] at hnot
  cases hnot

end FreshLookup

end

/-! ## Stability -/

theorem entryOf_enoent_iff (r : ξ × LookupReply) : (entryOf r).err = enoent ↔ r.2.err = enoent := by
  obtain ⟨x, reply⟩ := r
  match reply with
  | .failed errno pos => rfl
  | .found disk =>
    rcases entryOf_cases (x, .found disk) with ⟨_, _, h, -⟩ | h | ⟨_, -, -, h⟩
    · cases h
    all_goals simp [h, LookupReply.err, enoent]

/-- **A lookup after the heal.** It is satisfied, finds no layout that differs, and places every name as the
    healed layout does, exactly if no subvolume lacks the directory and, should some name have the hash zero,
    the subvolume without a range that takes it is the same before and after. -/
theorem heal_lookup_iff [DecidableEq ξ] (dmHashfn : Name → BitVec 32) (layout healed fresh : Layout ξ)
    (path : Name) (rs : List (ξ × LookupReply)) (htype : layout.type = hashTypeDm)
    (hlen : layout.list.length < 2 ^ 31) (hanswered : Answered layout.list)
    (hhealed : dhtSelfhealLayoutNewDirectory dmHashfn layout path = some healed)
    (hlookup : FreshLookup healed rs) (hfresh : mergeReplies (dhtLayoutNew rs.length) rs = some fresh) :
    ((dhtLayoutNormalize fresh).1 = 0 ∧ (∀ r ∈ rs, dhtLayoutDirMismatch (dhtLayoutNormalize fresh).2 r.1 r.2.xattr = 0 ∧
        dhtLayoutDirMismatch healed r.1 r.2.xattr = 0) ∧
      ∀ name, dhtLayoutSearch dmHashfn (dhtLayoutNormalize fresh).2 name = dhtLayoutSearch dmHashfn healed name) ↔
    (∀ r ∈ rs, r.2.err ≠ enoent) ∧
      ∀ name, nameHash dmHashfn name = 0 → (ahead dmHashfn layout path).head? = firstUnlabelled rs := by
  rw [mergeReplies_eq] at hfresh
  obtain rfl := Option.some.inj hfresh
  have hzero := searchHash_zero dmHashfn hlen hanswered hhealed
  obtain ⟨front, back, rfl, hassigned⟩ := newDirectory_assigned dmHashfn hlen hhealed
  have hfreshZero : searchHash (freshList rs) 0 =
      (firstUnlabelled rs).or (zeroOwner dmHashfn layout path) :=
    hlookup.searchHash_fresh_zero hassigned hanswered
  have hnormalize := hlookup.normalize_eq_zero_iff hassigned hanswered
  simp only [ne_eq, entryOf_enoent_iff] at hnormalize
  -- neither the subvolumes ahead nor those without a layout are the owner of zero
  have hsame : (firstUnlabelled rs).or (zeroOwner dmHashfn layout path) =
      (ahead dmHashfn layout path).head?.or (zeroOwner dmHashfn layout path) ↔
        (ahead dmHashfn layout path).head? = firstUnlabelled rs := by
    have hunlabelled : ∀ x, firstUnlabelled rs = some x → some x ≠ zeroOwner dmHashfn layout path :=
      fun _ hx => hlookup.unlabelled_ne hassigned hanswered hx
    have hahead := fun x (hx : (ahead dmHashfn layout path).head? = some x) =>
      ahead_ne dmHashfn (mem_of_head? hx)
    generalize (ahead dmHashfn layout path).head? = a at *
    generalize firstUnlabelled rs = b at *
    cases a with
    | none =>
      cases b with
      | none => simp
      | some y => simpa using hunlabelled y rfl
    | some x =>
      cases b with
      | none => simpa using fun h => hahead x rfl h.symm
      | some y => simp [eq_comm]
  rw [hnormalize, and_iff_right (fun r hr => hlookup.dirMismatch_eq_zero hassigned hanswered hr)]
  apply and_congr_right
  intro _
  apply forall_congr'
  intro name
  have htype' : (⟨layout.type, front ++ back⟩ : Layout ξ).type = hashTypeDm := htype
  rw [dhtLayoutSearch_eq dmHashfn (by rfl), dhtLayoutSearch_eq dmHashfn htype']
  show searchHash (freshList rs) _ = _ ↔ _
  by_cases hname : nameHash dmHashfn name = 0
  · rw [hname, hfreshZero, hzero]
    simpa using hsame
  · exact iff_of_true (hlookup.searchHash_same hassigned hanswered hname) fun hzero => absurd hzero hname

/-- Two subvolumes get one half each; they answer in the other order. -/
theorem heal_lookup_iff_halves : let healed : Layout Bool :=
      ⟨hashTypeDm, [⟨-1, 0, 0x7ffffffe, some true⟩, ⟨-1, 0x7fffffff, 0xffffffff, some false⟩]⟩
    let rs := [(false, answer 0x7fffffff 0xffffffff), (true, answer 0 0x7ffffffe)]
    let fresh : Layout Bool := ⟨hashTypeDm, rs.map entryOf⟩
    (dhtLayoutNormalize fresh).1 = 0 ∧ ∀ name, dhtLayoutSearch (fun _ => 0) (dhtLayoutNormalize fresh).2 name =
        dhtLayoutSearch (fun _ => 0) healed name := by
  intro healed rs fresh
  let layout : Layout Bool := ⟨hashTypeDm, [⟨-1, 0, 0, some true⟩, ⟨-1, 0, 0, some false⟩]⟩
  have hanswered : Answered layout.list := ⟨by decide, by decide, by decide⟩
  have hlookup : FreshLookup healed rs := ⟨by decide, by decide +kernel⟩
  have hiff := heal_lookup_iff (fun _ => 0) layout healed fresh [47] rs rfl (by decide) hanswered
    (by decide +kernel) hlookup (mergeReplies_eq rs)
  obtain ⟨hzero, -, hsearch⟩ := hiff.mpr ⟨by decide, fun _ _ => by decide +kernel⟩
  exact ⟨hzero, hsearch⟩

/-- **A lookup after the heal may differ.** The second of two subvolumes lacked the directory and got no range. If
    it was created there, a lookup puts a name with the hash zero on it; the healed layout has that name on the
    first. If it was not, the lookup asks for another heal. -/
theorem heal_lookup_differs : let layout : Layout Bool := ⟨hashTypeDm, [⟨-1, 0, 0, some true⟩, ⟨2, 0, 0, some false⟩]⟩
    let healed : Layout Bool := ⟨hashTypeDm, [⟨-1, 0, 0xffffffff, some true⟩, ⟨2, 0, 0, some false⟩]⟩
    let created := [(true, answer 0 0xffffffff), (false, .found none)]
    let absent := [(true, answer 0 0xffffffff), (false, .failed 2 (by decide))]
    Answered layout.list ∧ dhtSelfhealLayoutNewDirectory (fun _ => 0) layout [47] = some healed ∧
      (FreshLookup healed created ∧ dhtLayoutSearch (fun _ => 0) healed [97] = some true ∧
        dhtLayoutSearch (fun _ => 0) (dhtLayoutNormalize ⟨hashTypeDm, created.map entryOf⟩).2 [97] = some false) ∧
      FreshLookup healed absent ∧ (dhtLayoutNormalize (⟨hashTypeDm, absent.map entryOf⟩ : Layout Bool)).1 = 1 := by
  intro layout healed created absent
  refine ⟨⟨by decide, by decide, by decide⟩, by decide +kernel, ⟨⟨by decide, by decide +kernel⟩, ?_, ?_⟩, ?_, ?_⟩
  · decide +kernel
  · decide +kernel
  · exact ⟨by decide, by decide +kernel⟩
  · decide +kernel

end GlusterFS.Dht
