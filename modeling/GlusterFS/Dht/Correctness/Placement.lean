import GlusterFS.Common.Utils
import GlusterFS.Dht.Correctness.Assigned

/-!
# `Dht.Correctness.Placement` — on which subvolume a name is

A name is placed if `dht_layout_search` gives the one subvolume whose range contains its hash
(`NamePlaced`). `placement_iff` says when that is so, for the two kinds of layouts that are searched: those
that `dht_layout_normalize` accepted, and those that `dht_selfheal_layout_new_directory` made.

`rsync` writes a file under a temporary name and then renames it. `dht_hash_compute` takes the temporary name for the
real one, but takes every name that looks like one for it, also if it is the real one.
-/

namespace GlusterFS.Dht

open Ranges List Entry

variable {ξ : Type}

section

variable (dmHashfn : Name → BitVec 32)

/-- The hash of a name, in a layout of the only type there is. -/
def nameHash (name : Name) : BitVec 32 := dmHashfn (rsyncFriendlyName name)

/-- **A name is placed**: it is on the one subvolume, of those that `own` their ranges, whose range contains
    its hash. -/
def NamePlaced (own : Entry ξ → Bool) (layout : Layout ξ) (name : Name) : Prop :=
  ∃ x, dhtLayoutSearch dmHashfn layout name = some x ∧
    (∃ e ∈ layout.list, own e = true ∧ e.range.contains (nameHash dmHashfn name) = true ∧ e.xlator = some x) ∧
    ∀ e ∈ layout.list, own e = true → e.range.contains (nameHash dmHashfn name) = true → e.xlator = some x

theorem dhtLayoutSearch_eq {layout : Layout ξ} (htype : layout.type = hashTypeDm) (name : Name) :
    dhtLayoutSearch dmHashfn layout name = searchHash layout.list (nameHash dmHashfn name) := by
  simp [dhtLayoutSearch, dhtHashCompute, htype, nameHash]

theorem namePlaced_iff {own : Entry ξ → Bool} {layout : Layout ξ} (htype : layout.type = hashTypeDm) (name : Name) :
    NamePlaced dmHashfn own layout name ↔ Placed own layout.list (nameHash dmHashfn name) := by
  unfold NamePlaced Placed
  rw [dhtLayoutSearch_eq dmHashfn htype]

/-! ## Temporary names -/

/-- The subvolume that gets the first range: the first eligible one from the starting place around. -/
def zeroOwner (layout : Layout ξ) (path : Name) : Option ξ :=
  let st := allocStart dmHashfn layout path
  ((layout.list.drop st ++ layout.list.take st).find? (eligible layout.list)).bind xlator

variable [DecidableEq ξ]

/-- The subvolumes without a range that stand ahead of it in the array. -/
def ahead (layout : Layout ξ) (path : Name) : List ξ :=
  ((layout.list.takeWhile fun e => e.xlator != zeroOwner dmHashfn layout path).filter fun e =>
    !eligible layout.list e).filterMap xlator

end

/-- The first of `p` and `q` in a list: one of `p` ahead of the first `q`, or that. -/
theorem find?_or {α β : Type} (p q : α → Bool) (f : α → Option β) : ∀ (l : List α), (∀ a ∈ l, (f a).isSome = true) →
      (l.find? fun a => p a || q a).bind f =
        (((l.takeWhile fun a => !q a).filter p).filterMap f).head?.or ((l.find? q).bind f)
  | [], _ => rfl
  | a :: l, h => by
    obtain ⟨ha, hl⟩ := forall_mem_cons.mp h
    obtain ⟨b, hb⟩ := Option.isSome_iff_exists.mp ha
    have ih := find?_or p q f l hl
    by_cases hq : q a = true
    · simp [hq, hb]
    by_cases hp : p a = true
    · simp [hq, hp, hb]
    · simpa [hq, hp] using ih

namespace Assigned

variable {list front back : List (Entry ξ)} {st : Nat}

section

variable (h : Assigned 2 list st front back)
include h

theorem view : (front ++ back).map Entry.view = list.map fun e => (e.xlator, eligible list e) := by
  rw [map_append, h.viewFront, h.viewBack, ← map_append, take_append_drop]

theorem xlators : (front ++ back).map xlator = list.map xlator := by
  have hfst := congrArg (List.map Prod.fst) h.view
  simpa [Entry.view, Function.comp_def] using hfst

section

variable (hanswered : Answered list)
include hanswered

theorem named : ∀ e ∈ front ++ back, e.xlator.isSome = true := by
  intro e he
  have hmem : e.xlator ∈ list.map xlator := h.xlators ▸ mem_map_of_mem he
  obtain ⟨e', he', hx⟩ := mem_map.mp hmem
  rw [← hx]
  exact hanswered.named e' he'

theorem eq_of_xlator {e e' : Entry ξ}
    (he : e ∈ front ++ back) (he' : e' ∈ front ++ back) (hx : e.xlator = e'.xlator) : e = e' := by
  have hdist : ((front ++ back).map xlator).Nodup := h.xlators ▸ hanswered.distinct
  exact inj_on_of_nodup_map hdist he he' hx

variable {e : Entry ξ}

theorem contains_unmarked (he : e ∈ front ++ back) (hnot : e.marked = false) (hash : BitVec 32) :
    e.range.contains hash = true ↔ hash = 0 := by
  obtain ⟨hmem, hineligible⟩ := h.unmarked e he hnot
  apply blank_contains
  apply hanswered.blank e hmem
  all_goals
    intro herr
    simp [eligible, herr] at hineligible

/-- The first range is the one of the first eligible subvolume from the starting place around. -/
theorem start_zero_iff (he : e ∈ front ++ back) (hmark : e.marked = true) :
    e.start = 0 ↔ e.xlator = ((list.drop st ++ list.take st).find? (eligible list)).bind xlator := by
  have hmem : ∀ e, e ∈ back ++ front ↔ e ∈ front ++ back := by
    intro e
    simp [or_comm]
  obtain ⟨o, hfind, hzero, honly⟩ := h.spread.first
  -- the same search, in what the loops do not change
  have howner : o.xlator = ((list.drop st ++ list.take st).find? (eligible list)).bind xlator := by
    have hview : (back ++ front).map Entry.view =
        (list.drop st ++ list.take st).map fun e => (e.xlator, eligible list e) := by
      rw [map_append, map_append, h.viewBack, h.viewFront]
    have hsearch := congrArg (fun l => (l.find? Prod.snd).bind Prod.fst) hview
    simp only [find?_map, Function.comp_def, Entry.view, Option.bind_map] at hsearch
    rw [show (fun e : Entry ξ => e.marked) = marked from rfl, hfind] at hsearch
    exact hsearch
  rw [← howner]
  constructor
  · intro hstart
    rw [honly e ((hmem e).mpr he) hmark hstart]
  intro hx
  have ho : o ∈ front ++ back := (hmem o).mp (mem_of_find?_eq_some hfind)
  rw [h.eq_of_xlator hanswered he ho hx]
  exact hzero

theorem contains_zero (he : e ∈ front ++ back) : e.range.contains 0 = true ↔ e.marked = false ∨
      e.xlator = ((list.drop st ++ list.take st).find? (eligible list)).bind xlator := by
  by_cases hmark : e.marked = true
  · rw [← h.start_zero_iff hanswered he hmark, Range.contains_iff]
    simp only [hmark, Entry.range, Bool.true_eq_false, false_or]
    constructor
    · intro h
      exact BitVec.le_zero_iff.mp h.1
    intro h
    rw [h]
    exact ⟨BitVec.le_refl _, Ranges.zero_le _⟩
  have hnot : e.marked = false := by simpa using hmark
  simp [h.contains_unmarked hanswered he hnot, hnot]

theorem searchHash_ne_zero {hash : BitVec 32} (hne : hash ≠ 0) (he : e ∈ front ++ back) (hmark : e.marked = true)
    (hhas : e.range.contains hash = true) : searchHash (front ++ back) hash = e.xlator := by
  obtain ⟨pre, x, post, hsplit, hpre, hx⟩ :=
    exists_first (p := fun e => e.range.contains hash) he hhas
  have hxmem : x ∈ front ++ back := by simp [hsplit]
  have hxmarked : x.marked = true := by
    by_contra hnot
    exact hne ((h.contains_unmarked hanswered hxmem (by simpa using hnot) hash).mp hx)
  have hsame : e = x := by
    apply h.spread.unique _ hmark hhas _ hxmarked hx
    · simpa [or_comm] using he
    · simpa [or_comm] using hxmem
  rw [hsplit, searchHash_split hpre hx, hsame]

end

end

end Assigned

section

variable (dmHashfn : Name → BitVec 32) [DecidableEq ξ] {layout healed : Layout ξ} {path : Name}

theorem ahead_ne {x : ξ} (hx : x ∈ ahead dmHashfn layout path) : some x ≠ zeroOwner dmHashfn layout path := by
  obtain ⟨e, he, hex⟩ := mem_filterMap.mp hx
  have htake := mem_takeWhile_imp (mem_filter.mp he).1
  rw [← hex]
  simpa using htake

theorem ahead_view (list : List (Entry ξ)) (m : Entry ξ → Bool) (owner : Option ξ) :
    ((list.takeWhile fun e => e.xlator != owner).filter fun e => !m e).filterMap xlator =
      (((list.map fun e => (e.xlator, m e)).takeWhile fun v => v.1 != owner).filter fun v => !v.2).filterMap
        Prod.fst := by
  simp [takeWhile_map, filter_map, filterMap_map, Function.comp_def]

/-- **Where a new layout has the hash zero.** -/
theorem searchHash_zero (hlen : layout.list.length < 2 ^ 31) (hanswered : Answered layout.list)
    (h : dhtSelfhealLayoutNewDirectory dmHashfn layout path = some healed) : searchHash healed.list 0 =
      (ahead dmHashfn layout path).head?.or (zeroOwner dmHashfn layout path) := by
  obtain ⟨front, back, rfl, hasgn⟩ := newDirectory_assigned dmHashfn hlen h
  set owner := zeroOwner dmHashfn layout path with howner
  have hfst : (front ++ back).find? (fun e => e.range.contains 0) =
      (front ++ back).find? fun e => !e.marked || e.xlator == owner := by
    apply find?_congr
    intro e he
    have hzero : e.range.contains 0 = true ↔ e.marked = false ∨ e.xlator = owner :=
      hasgn.contains_zero hanswered he
    rw [Bool.eq_iff_iff, hzero]
    simp
  have howns : ((front ++ back).find? fun e => e.xlator == owner).bind xlator = owner := by
    obtain ⟨o, hfind, hstart, -⟩ := hasgn.spread.first
    have ho : o ∈ front ++ back := by simpa [or_comm] using mem_of_find?_eq_some hfind
    have hox := (hasgn.start_zero_iff hanswered ho (find?_some hfind)).mp hstart
    have hsome : ((front ++ back).find? fun e => e.xlator == owner).isSome = true :=
      find?_isSome.mpr ⟨o, ho, beq_iff_eq.mpr hox⟩
    obtain ⟨e, he⟩ := Option.isSome_iff_exists.mp hsome
    have hx := find?_some he
    rw [he]
    simpa using hx
  have hahead : (((front ++ back).takeWhile fun e => e.xlator != owner).filter fun e => !e.marked).filterMap
      xlator = ahead dmHashfn layout path := by
    rw [ahead, ahead_view, ahead_view, ← howner, ← hasgn.view]
    rfl
  have hor := find?_or (fun e : Entry ξ => !e.marked) (fun e => e.xlator == owner) xlator _
    (hasgn.named hanswered)
  rw [howns] at hor
  rw [searchHash, hfst, hor, ← hahead]
  rfl

/-- **When a new layout places a hash.** -/
theorem newDirectory_placed_iff (hlen : layout.list.length < 2 ^ 31) (hanswered : Answered layout.list)
    (h : dhtSelfhealLayoutNewDirectory dmHashfn layout path = some healed) (hash : BitVec 32) :
    Placed marked healed.list hash ↔ (hash = 0 → ahead dmHashfn layout path = []) := by
  have hzero := searchHash_zero dmHashfn hlen hanswered h
  obtain ⟨front, back, rfl, hasgn⟩ := newDirectory_assigned dmHashfn hlen h
  constructor
  · rintro ⟨x, hsearch, ⟨e, he, hmark, hhas, hx⟩, -⟩ rfl
    have howner : some x = zeroOwner dmHashfn layout path := by
      rcases (hasgn.contains_zero hanswered he).mp hhas with hnot | hown
      · simp [hmark] at hnot
      · exact hx.symm.trans hown
    match hahead : ahead dmHashfn layout path with
    | [] => rfl
    | a :: rest =>
      have hane : some a ≠ zeroOwner dmHashfn layout path := ahead_ne dmHashfn (by simp [hahead])
      rw [hahead, hsearch] at hzero
      exact absurd (hzero.symm.trans howner) hane
  intro hcond
  obtain ⟨e, he, hmark, hhas⟩ := hasgn.spread.covered hash
  have he' : e ∈ front ++ back := by simpa [or_comm] using he
  obtain ⟨x, hx⟩ := Option.isSome_iff_exists.mp (hasgn.named hanswered e he')
  have hsearch : searchHash (front ++ back) hash = e.xlator := by
    by_cases hne : hash = 0
    · subst hne
      rcases (hasgn.contains_zero hanswered he').mp hhas with hnot | hown
      · simp [hmark] at hnot
      rw [hzero, hcond rfl, hown]
      rfl
    · exact hasgn.searchHash_ne_zero hanswered hne he' hmark hhas
  refine ⟨x, hsearch.trans hx, ⟨e, he', hmark, hhas, hx⟩, ?_⟩
  intro e' hmem hmarked' hcontains'
  rw [← hasgn.spread.unique he hmark hhas (by simpa [or_comm] using hmem) hmarked' hcontains']
  exact hx

end

/-! ## Names -/

/-- **Where names are placed.** In an accepted layout, merged from answers in any order: exactly if the
    ranges are well spread as far as the hash is concerned. In a layout that was made for a directory:
    exactly if the hash is not zero or no subvolume without a range stands ahead of the owner of zero. -/
theorem placement_iff [DecidableEq ξ] (dmHashfn : Name → BitVec 32) :
    (∀ (rs : List (ξ × LookupReply)) (layout : Layout ξ), (rs.map Prod.fst).Nodup →
      mergeReplies (dhtLayoutNew rs.length) rs = some layout → (dhtLayoutNormalize layout).1 = 0 →
        ∀ name, NamePlaced dmHashfn Entry.good (dhtLayoutNormalize layout).2 name ↔
          WellSpread layout.list (nameHash dmHashfn name)) ∧
    ∀ (layout healed : Layout ξ) (path : Name), layout.type = hashTypeDm → layout.list.length < 2 ^ 31 →
      Answered layout.list → dhtSelfhealLayoutNewDirectory dmHashfn layout path = some healed →
        ∀ name, NamePlaced dmHashfn Entry.marked healed name ↔
          (nameHash dmHashfn name = 0 → ahead dmHashfn layout path = []) := by
  constructor
  · intro rs layout hnodup hmerge haccepted name
    rw [mergeReplies_eq] at hmerge
    obtain rfl := Option.some.inj hmerge
    rw [namePlaced_iff dmHashfn (by rfl)]
    exact accepted_placed_iff _ (merged_replies hnodup) haccepted _
  intro layout healed path htype hlen hanswered h name
  have hhealed : healed.type = hashTypeDm := by
    obtain ⟨_, _, rfl, -⟩ := newDirectory_assigned dmHashfn hlen h
    exact htype
  rw [namePlaced_iff dmHashfn hhealed]
  exact newDirectory_placed_iff dmHashfn hlen hanswered h _

/-- An answer with the range from `start` to `stop`. -/
def answer (start stop : BitVec 32) : LookupReply := .found (some ⟨hton32 1, 0, hton32 start, hton32 stop⟩)

/-- Two subvolumes with one half of the values each; the second answers first. -/
theorem placement_iff_halves : let dm : Name → BitVec 32 := fun _ => 0x80000000
    let rs := [(true, answer 0x80000000 0xffffffff), (false, answer 0 0x7fffffff)]
    let layout : Layout Bool := ⟨hashTypeDm, rs.map entryOf⟩
    let healed : Layout Bool := ⟨hashTypeDm, [⟨-1, 0, 0x7ffffffe, some true⟩, ⟨-1, 0x7fffffff, 0xffffffff, some false⟩]⟩
    NamePlaced dm Entry.good (dhtLayoutNormalize layout).2 [97] ∧ NamePlaced dm Entry.marked healed [97] := by
  intro dm rs layout healed
  have hboth := placement_iff (ξ := Bool) dm
  have hmerged : Merged (rs.map entryOf) := merged_replies (by decide)
  constructor
  · apply (hboth.1 rs layout (by decide) (mergeReplies_eq rs) (by decide +kernel) [97]).mpr
    unfold WellSpread Range.Whole
    decide +kernel
  apply (hboth.2 layout healed [97] rfl (by decide) hmerged.answered (by decide +kernel) [97]).mpr
  intro hzero
  exact absurd hzero (by decide)

/-- **Not every name is placed.** One subvolume has a range that starts behind its end: the layout is accepted,
    and no name is found. And in a layout that is made while the first subvolume is down, a name with the
    hash zero is on that subvolume, which has no range. -/
theorem names_not_placed : (let rs := [(true, answer 5 4)]
     let layout : Layout Bool := ⟨hashTypeDm, rs.map entryOf⟩
     mergeReplies (dhtLayoutNew 1) rs = some layout ∧ (dhtLayoutNormalize layout).1 = 0 ∧
       ∀ dm name, dhtLayoutSearch dm (dhtLayoutNormalize layout).2 name = none) ∧
    (let layout : Layout Bool := ⟨hashTypeDm, [⟨107, 0, 0, some true⟩, ⟨-1, 0, 0, some false⟩]⟩
     let healed : Layout Bool := ⟨hashTypeDm, [⟨107, 0, 0, some true⟩, ⟨-1, 0, 0xffffffff, some false⟩]⟩
     dhtSelfhealLayoutNewDirectory (fun _ => 0) layout [47] = some healed ∧
       dhtLayoutSearch (fun _ => 0) healed [97] = some true ∧ ¬ NamePlaced (fun _ => 0) Entry.marked healed [97]) := by
  constructor
  · refine ⟨mergeReplies_eq [(true, answer 5 4)], by decide +kernel, ?_⟩
    intro dm name
    have hlist : (dhtLayoutNormalize (⟨hashTypeDm, [(true, answer 5 4)].map entryOf⟩ : Layout Bool)).2.list =
        [⟨0, 5, 4, some true⟩] := by decide +kernel
    rw [dhtLayoutSearch_eq dm (by rfl), hlist]
    have hnot : Range.contains ⟨5#32, 4#32⟩ (nameHash dm name) = false := by
      simp [Range.contains, BitVec.le_def]
      omega
    simp [searchHash, Entry.range, hnot]
  refine ⟨by decide +kernel, by decide +kernel, ?_⟩
  rintro ⟨x, hsearch, ⟨e, he, hmarked, -, hx⟩, -⟩
  have hfound : x = true := by
    have hsome : some true = some x := hsearch
    exact (Option.some.inj hsome).symm
  -- the only entry with a range is the other one
  rcases mem_cons.mp he with rfl | he
  · simp [Entry.marked] at hmarked
  rw [mem_singleton.mp he, hfound] at hx
  simp at hx

end GlusterFS.Dht
