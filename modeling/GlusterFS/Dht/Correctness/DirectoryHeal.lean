import GlusterFS.Lib.Run
import GlusterFS.Dht.Directory
import GlusterFS.Dht.Correctness.Assigned

/-!
# `Dht.Correctness.DirectoryHeal` — when the healing of a directory divides by zero

`dht_selfheal_layout_new_directory` divides the hash values by the number of entries that can get a range.
Creation never gets there without one: the hashed subvolume has made the directory. A lookup gets there if
`op_ret` is zero, and that says that *some* directory lookup of this operation found the directory, not that
the last one did: nothing sets it back when the lookup goes on to `dht_lookup_everywhere` and from there to
another `dht_lookup_directory`. If by then the directory is gone from all subvolumes, the divisor is zero.

The invariant goes by the phase of the operation (`DirPhase`): which callbacks can be waiting, that the counter
counts them, and that the layout has an empty entry for each answer that will be merged into it.
-/

namespace GlusterFS.Dht

open Transition List Entry

variable {ξ : Type}

/-! ## Empty entries of a layout -/

/-- The number of entries that have no subvolume yet. -/
def emptyEntries (list : List (Entry ξ)) : Nat := list.countP fun e => e.xlator.isNone

@[simp] theorem emptyEntries_new (cnt : Nat) : emptyEntries (dhtLayoutNew cnt : Layout ξ).list = cnt := by
  simp [emptyEntries, dhtLayoutNew, countP_replicate]

@[simp] theorem emptyEntries_append (l l' : List (Entry ξ)) :
    emptyEntries (l ++ l') = emptyEntries l + emptyEntries l' := countP_append

variable (e : Entry ξ)

@[simp] theorem emptyEntries_cons (l : List (Entry ξ)) :
    emptyEntries (e :: l) = emptyEntries l + if e.xlator.isNone then 1 else 0 := countP_cons

theorem xlator_ne_none {list : List (Entry ξ)} (h : emptyEntries list = 0) {e : Entry ξ} (he : e ∈ list) :
    e.xlator ≠ none := by
  have hnot := countP_eq_zero.mp h e he
  simpa using hnot

@[simp] theorem mergeEntry_xlator (x : ξ) (reply : LookupReply) : (mergeEntry e x reply).xlator = some x := by
  match reply with
  | .failed _ _ => rfl
  | .found none => rfl
  | .found (some disk) =>
    by_cases hcnt : hton32 disk.cnt ≠ 1
    · simp only [mergeEntry, dhtDiskLayoutMerge, if_pos hcnt]
    · simp only [mergeEntry, dhtDiskLayoutMerge, if_neg hcnt]

/-- The error of an entry is the one of its answer, or zero if a range came with it. -/
theorem mergeEntry_err (x : ξ) (reply : LookupReply) :
    (mergeEntry e x reply).err = reply.err ∨ reply.err = -1 ∧ (mergeEntry e x reply).err = 0 := by
  match reply with
  | .failed _ _ => exact .inl rfl
  | .found none => exact .inl rfl
  | .found (some disk) =>
    by_cases hcnt : hton32 disk.cnt ≠ 1
    · exact .inl (by simp only [mergeEntry, dhtDiskLayoutMerge, if_pos hcnt])
    · exact .inr ⟨rfl, by simp only [mergeEntry, dhtDiskLayoutMerge, if_neg hcnt]⟩

theorem mergeEntry_err_eq_enoent {e : Entry ξ} {x : ξ} {reply : LookupReply} :
    (mergeEntry e x reply).err = enoent ↔ reply.err = enoent := by
  rcases mergeEntry_err e x reply with h | ⟨hrep, h⟩
  · rw [h]
  rw [h, hrep]
  decide

/-- **An answer goes into an empty entry, and leaves the others alone.** -/
theorem mergeList_ok {x : ξ} {reply : LookupReply} : ∀ {list : List (Entry ξ)}, emptyEntries list ≠ 0 →
    ∃ pre e post, list = pre ++ e :: post ∧ e.xlator = none ∧
      mergeList list x reply = some (pre ++ mergeEntry e x reply :: post) := by
  intro list
  induction list with
  | nil =>
    intro hempty
    exact absurd rfl hempty
  | cons e es ih =>
    intro hempty
    cases he : e.xlator with
    | none => exact ⟨[], e, es, rfl, he, by simp [mergeList, he]⟩
    | some y =>
      have hes : emptyEntries es ≠ 0 := by simpa [emptyEntries, he] using hempty
      obtain ⟨pre, e', post, rfl, he', hmerge⟩ := ih hes
      exact ⟨e :: pre, e', post, rfl, he', by simp [mergeList, he, hmerge]⟩

/-! ## Who can get a range -/

/-- The entry can get a range, in the first round or in the second. -/
def Entry.candidate : Prop := e.err = -1 ∨ e.err = 0 ∨ e.err = enospc

theorem countEligible_eq_zero {list : List (Entry ξ)} : (countEligible list).1 = 0 ↔ ∀ e ∈ list, ¬ e.candidate := by
  rw [countEligible_eq, countP_eq_zero]
  constructor
  · intro hnone e he hcand
    by_cases hany : list.any (fun e' => e'.err == -1 || e'.err == 0) = true
    · obtain ⟨e', he', herr⟩ := any_eq_true.mp hany
      exact hnone e' he' (by simp only [eligible, herr, Bool.true_or])
    have hfree : e.err ≠ -1 ∧ e.err ≠ 0 := by
      constructor <;> intro herr <;> exact hany (any_eq_true.mpr ⟨e, he, by simp [herr]⟩)
    have hspace : e.err = enospc := (hcand.resolve_left hfree.1).resolve_left hfree.2
    exact hnone e he (by simp [eligible, hspace, hany])
  intro hnone e he helig
  apply hnone e he
  simp only [eligible, Bool.or_eq_true, Bool.and_eq_true, beq_iff_eq] at helig
  rcases helig with (herr | herr) | ⟨herr, -⟩
  · exact .inl herr
  · exact .inr (.inl herr)
  · exact .inr (.inr herr)

theorem countP_assignLoop (chunk : BitVec 32) (l : List (Entry ξ)) (start : BitVec 32) (cnt : Int) :
    (assignLoop chunk l start cnt).1.countP marked = l.countP marked := by
  have hview : ∀ l : List (Entry ξ), l.countP marked = (l.map view).countP Prod.snd := by
    intro l
    rw [countP_map]
    rfl
  rw [hview, hview, assignLoop_view]

/-- If the assignment goes through, somebody has a range to be written. -/
theorem newDirectory_marked {dmHashfn : Name → BitVec 32} {layout healed : Layout ξ} {path : Name}
    (h : dhtSelfhealLayoutNewDirectory dmHashfn layout path = some healed) : ∃ e ∈ healed.list, e.err = -1 := by
  simp only [dhtSelfhealLayoutNewDirectory] at h
  split at h
  · cases h
  next hcnt =>
  have hcount : healed.list.countP marked = (countEligible layout.list).1 := by
    rw [← Option.some.inj h, countP_append, countP_assignLoop, countP_assignLoop, ← countP_append,
      take_append_drop, countEligible_eq, countP_map]
    apply countP_congr
    intro e _
    simp
  rw [← hcount] at hcnt
  obtain ⟨e, he, hmark⟩ := countP_pos_iff.mp (Nat.pos_of_ne_zero hcnt)
  exact ⟨e, he, by simpa [marked] using hmark⟩

section

variable (env : DirEnv ξ)

variable {s : DirLocal ξ}

/-- **The division fails exactly if no entry can get a range.** -/
theorem layoutNewDirectory_error (h : ∀ e ∈ s.layout.list, ¬ e.candidate) :
    layoutNewDirectory env s = .error .divisionByZero := by
  simp [layoutNewDirectory, dhtSelfhealLayoutNewDirectory, countEligible_eq_zero.mpr h]

theorem layoutNewDirectory_ok (h : ∃ e ∈ s.layout.list, e.candidate) :
    ∃ layout, layoutNewDirectory env s = .ok { s with layout := layout } ∧ ∃ e ∈ layout.list, e.candidate := by
  obtain ⟨e, he, hcand⟩ := h
  have hcnt : (countEligible s.layout.list).1 ≠ 0 := by
    intro hzero
    exact countEligible_eq_zero.mp hzero e he hcand
  unfold layoutNewDirectory
  cases hnew : dhtSelfhealLayoutNewDirectory env.dmHashfn s.layout env.path with
  | none => simp [dhtSelfhealLayoutNewDirectory, hcnt] at hnew
  | some layout =>
    obtain ⟨e, he, herr⟩ := newDirectory_marked hnew
    exact ⟨layout, rfl, e, he, .inl herr⟩

/-! ## Anomalies -/

omit env in
/-- An error that `dht_selfheal_directory` leaves alone. -/
def Entry.unhealed (e : Entry ξ) : Bool := e.err != 0 && e.err != -1 && e.err != enoent

theorem countErr_unhealed (a : Anomalies) {e : Entry ξ} (he : e.err ≠ 0) :
    (countErr a e.err).down + (countErr a e.err).misc = a.down + a.misc + if e.unhealed then 1 else 0 := by
  unfold countErr Entry.unhealed
  by_cases hmiss : e.err = -1 ∨ e.err = enoent
  · rcases hmiss with h | h <;> simp [h]
  obtain ⟨h1, h2⟩ := not_or.mp hmiss
  rw [if_neg hmiss]
  split
  all_goals
    simp [he, h1, h2]
    omega

theorem countGap_unhealed (a : Anomalies) (p start : BitVec 32) :
    (countGap a p start).down = a.down ∧ (countGap a p start).misc = a.misc := by
  unfold countGap
  constructor <;> split <;> split <;> rfl

theorem anomaliesLoop_unhealed : ∀ (l : List (Entry ξ)) (p : BitVec 32) (v : Bool) (a : Anomalies),
    (anomaliesLoop l (p, v, a)).2.2.down + (anomaliesLoop l (p, v, a)).2.2.misc =
      a.down + a.misc + l.countP Entry.unhealed := by
  intro l
  induction l with
  | nil =>
    intro p v a
    rfl
  | cons e es ih =>
    intro p v a
    rw [countP_cons]
    by_cases he : e.err = 0
    · have hgap := countGap_unhealed a p e.start
      have hnot : e.unhealed = false := by simp [Entry.unhealed, he]
      simp only [anomaliesLoop, he, ne_eq, not_true_eq_false, if_false, ih, hgap.1, hgap.2, hnot]
      simp
    have herr := countErr_unhealed a he
    simp only [anomaliesLoop, he, ne_eq, not_false_eq_true, if_true, ih, herr]
    omega

/-- Nothing is down and nothing else is wrong, if all errors can be healed. -/
theorem dhtLayoutAnomalies_unhealed (layout : Layout ξ) :
    (dhtLayoutAnomalies layout).down = 0 ∧ (dhtLayoutAnomalies layout).misc = 0 ↔
      ∀ e ∈ layout.list, e.unhealed = false := by
  have hloop := anomaliesLoop_unhealed layout.list (lastStop layout.list) true ⟨0, 0, 0, 0, 0⟩
  have hcnt : (∀ e ∈ layout.list, e.unhealed = false) ↔ layout.list.countP Entry.unhealed = 0 := by
    simp [countP_eq_zero]
  have hsame : (dhtLayoutAnomalies layout).down + (dhtLayoutAnomalies layout).misc =
      layout.list.countP Entry.unhealed := by
    unfold dhtLayoutAnomalies
    dsimp only
    split <;> simpa using hloop
  rw [hcnt]
  omega

theorem dhtLayoutAnomalies_holes {layout : Layout ξ} (h : ∀ e ∈ layout.list, e.err ≠ 0) :
    (dhtLayoutAnomalies layout).holes ≠ 0 := by
  have hgood : goodRanges layout.list = [] := by
    simp only [goodRanges, map_eq_nil_iff, filter_eq_nil_iff]
    intro e he
    simpa [good] using h e he
  have hvirgin := (anomaliesLoop_virgin layout.list (lastStop layout.list) true ⟨0, 0, 0, 0, 0⟩).mpr
    ⟨rfl, hgood⟩
  unfold dhtLayoutAnomalies
  rw [if_pos (.inr hvirgin)]
  exact Nat.succ_ne_zero _

/-! ## Healing -/

theorem getafix_error {a : Anomalies} (hnone : ∀ e ∈ s.layout.list, ¬ e.candidate)
    (hholes : a.holes ≠ 0) : selfhealDirGetafix env a s = .error .divisionByZero := by
  have herror := layoutNewDirectory_error env hnone
  unfold selfhealDirGetafix
  by_cases hall : a.missing + a.down = env.conf.subvolumeCnt
  · simp only [if_pos hall, herror]
    rfl
  simp only [if_neg hall, if_pos (show a.holes ≠ 0 ∨ _ from .inl hholes), pure_bind, herror]
  rfl

theorem getafix_ok {a : Anomalies} (hsome : ∃ e ∈ s.layout.list, e.candidate) :
    ∃ ret layout, selfhealDirGetafix env a s = .ok (ret, { s with layout := layout }) := by
  obtain ⟨layout, hnew, hsome'⟩ := layoutNewDirectory_ok env hsome
  obtain ⟨layout', hnew', -⟩ := layoutNewDirectory_ok env (s := { s with layout := layout }) hsome'
  unfold selfhealDirGetafix
  by_cases hall : a.missing + a.down = env.conf.subvolumeCnt
  · by_cases hanom : a.holes ≠ 0 ∨ a.missing ≠ 0 ∨ a.overlaps ≠ 0
    · simp only [if_pos hall, if_pos hanom, hnew]
      exact ⟨_, layout', by simp only [Except.map, bind, Except.bind, hnew']; rfl⟩
    simp only [if_pos hall, if_neg hanom, hnew]
    exact ⟨_, layout, rfl⟩
  by_cases hanom : a.holes ≠ 0 ∨ a.missing ≠ 0 ∨ a.overlaps ≠ 0
  · simp only [if_neg hall, if_pos hanom, pure_bind, hnew]
    exact ⟨_, layout, rfl⟩
  simp only [if_neg hall, if_neg hanom, pure_bind]
  exact ⟨_, s.layout, rfl⟩

omit env in
/-- Callbacks that go on to nothing else than themselves and one another. -/
def DirCall.closing : DirCall → Bool
  | .revalidate | .linkfileMknod | .linkfileSetxattr | .healMkdir | .healSetxattr => true
  | _ => false

/-- The frame goes on to wait for such callbacks at most. -/
structure Closes (s s' : DirLocal ξ) : Prop where
  pending : ∃ calls, s'.pending = s.pending ++ calls ∧ ∀ q ∈ calls, q.2.closing = true
  hashed : s'.hashedSubvol = s.hashedSubvol

namespace Closes

omit env

variable (s : DirLocal ξ)

theorem unwind (ret : Int) : Closes s (s.unwind ret) := ⟨⟨[], by simp [DirLocal.unwind]⟩, rfl⟩

theorem wind (n : Nat) (xs : List ξ) {call : DirCall} (hcall : call.closing = true) :
    Closes s ({ s with callCnt := n }.wind xs call) := by
  refine ⟨⟨_, rfl, ?_⟩, rfl⟩
  intro q hq
  obtain ⟨x, -, rfl⟩ := mem_map.mp hq
  exact hcall

theorem selfhealDirXattr : Closes s (selfhealDirXattr s) := by
  unfold Dht.selfhealDirXattr
  dsimp only
  split
  · exact unwind s 0
  · exact wind s _ _ rfl

theorem selfhealDirMkdir : Closes s (selfhealDirMkdir s) := by
  unfold Dht.selfhealDirMkdir
  dsimp only
  split
  · exact selfhealDirXattr s
  · exact wind s _ _ rfl

end Closes

theorem dhtLayoutSortVolname_perm (layout : Layout ξ) :
    (dhtLayoutSortVolname env layout).list.Perm layout.list := Exchange.sort_perm _

/-- **Healing a directory that no subvolume has divides by zero.** -/
theorem dhtSelfhealDirectory_error (hgone : ∀ e ∈ s.layout.list, e.err = enoent) :
    dhtSelfhealDirectory env s = .error .divisionByZero := by
  have hnot : ∀ e ∈ s.layout.list, e.unhealed = false := by
    intro e he
    simp [Entry.unhealed, hgone e he]
  obtain ⟨hdown, hmisc⟩ := (dhtLayoutAnomalies_unhealed s.layout).mpr hnot
  have hholes : (dhtLayoutAnomalies s.layout).holes ≠ 0 := by
    apply dhtLayoutAnomalies_holes
    intro e he
    rw [hgone e he]
    decide
  have hnone : ∀ e ∈ (dhtLayoutSortVolname env s.layout).list, ¬ e.candidate := by
    intro e he hcand
    have herr := hgone e ((dhtLayoutSortVolname_perm env s.layout).mem_iff.mp he)
    rw [Entry.candidate, herr] at hcand
    exact absurd hcand (by decide)
  have hfix : selfhealDirGetafix env (dhtLayoutAnomalies s.layout)
      { s with layout := dhtLayoutSortVolname env s.layout } = .error .divisionByZero :=
    getafix_error env hnone hholes
  simp [dhtSelfhealDirectory, hdown, hmisc, hfix]

/-- **Healing a directory that some subvolume has does not.** -/
theorem dhtSelfhealDirectory_ok (hthere : ∃ e ∈ s.layout.list, e.err ≠ enoent) :
    ∃ s', dhtSelfhealDirectory env s = .ok s' ∧ Closes s s' := by
  unfold dhtSelfhealDirectory
  dsimp only
  split
  · exact ⟨_, rfl, .unwind s 0⟩
  next hdown =>
  split
  · exact ⟨_, rfl, .unwind s 0⟩
  next hmisc =>
  have hnot := (dhtLayoutAnomalies_unhealed s.layout).mp ⟨not_not.mp hdown, not_not.mp hmisc⟩
  have hsome : ∃ e ∈ (dhtLayoutSortVolname env s.layout).list, e.candidate := by
    obtain ⟨e, he, herr⟩ := hthere
    refine ⟨e, (dhtLayoutSortVolname_perm env s.layout).mem_iff.mpr he, ?_⟩
    have hhealed := hnot e he
    simp only [Entry.unhealed, Bool.and_eq_false_iff, bne_eq_false_iff_eq] at hhealed
    rcases hhealed with (h | h) | h
    · exact .inr (.inl h)
    · exact .inl h
    · exact absurd h herr
  have hfix : ∃ ret layout, selfhealDirGetafix env (dhtLayoutAnomalies s.layout)
      { s with layout := dhtLayoutSortVolname env s.layout } = .ok (ret, { s with layout := layout }) :=
    getafix_ok env hsome
  obtain ⟨ret, layout, hfix⟩ := hfix
  rw [hfix]
  dsimp only
  split
  · have hcloses := Closes.unwind { s with layout := layout } (-1)
    exact ⟨_, rfl, hcloses.pending, hcloses.hashed⟩
  have hcloses := Closes.selfhealDirMkdir { s with layout := layout }
  exact ⟨_, rfl, hcloses.pending, hcloses.hashed⟩

end

/-! ## The phases of an operation -/

/-- All answers that are missing are for one callback, and they are counted. -/
structure Waiting (s : DirLocal ξ) (call : DirCall) : Prop where
  calls : ∀ q ∈ s.pending, q.2 = call
  count : s.callCnt = s.pending.length

/-- **Where an operation can be.** `looking` says that it is a lookup that did not start from a layout. -/
inductive DirPhase (env : DirEnv ξ) (looking : Prop) (s : DirLocal ξ) : Prop where
  | asked (hlooking : looking) (x : ξ) (call : DirCall) (hcall : call = .lookup ∨ call = .linkfile)
      (hpending : s.pending = [(x, call)])
  | everywhere (hlooking : looking) (hwaiting : Waiting s .everywhere)
  | directory (hlooking : looking) (hwaiting : Waiting s .directory)
      (hempty : emptyEntries s.layout.list = s.pending.length)
  | mkdirHashed (x : ξ) (hx : x ∈ env.conf.subvolumes) (hpending : s.pending = [(x, .mkdirHashed)])
      (hhashed : s.hashedSubvol = some x) (hlayout : s.layout = dhtLayoutNew env.conf.subvolumeCnt)
  | mkdir (hwaiting : Waiting s .mkdir) (hempty : emptyEntries s.layout.list = s.pending.length)
      (hmade : ∃ e ∈ s.layout.list, e.xlator ≠ none ∧ e.candidate)
  | closing (hcalls : ∀ q ∈ s.pending, q.2.closing = true)

section

variable {env : DirEnv ξ} {looking : Prop} {s s' : DirLocal ξ}

theorem DirPhase.unwound (h : s.pending = []) (ret : Int) : DirPhase env looking (s.unwind ret) := by
  apply DirPhase.closing
  intro q hq
  have hnil : (s.unwind ret).pending = [] := h
  rw [hnil] at hq
  exact nomatch hq

theorem DirPhase.closed (hcalls : ∀ q ∈ s.pending, q.2.closing = true) (h : Closes s s') : DirPhase env looking s' := by
  apply DirPhase.closing
  obtain ⟨calls, hpend, hclosing⟩ := h.pending
  intro q hq
  rw [hpend] at hq
  rcases mem_append.mp hq with hq | hq
  · exact hcalls q hq
  · exact hclosing q hq

theorem Waiting.wind (hpend : s.pending = []) (xs : List ξ) (call : DirCall) (hcnt : s.callCnt = xs.length) :
    Waiting (s.wind xs call) call := by
  constructor
  · intro q hq
    simp only [DirLocal.wind, hpend, nil_append, mem_map] at hq
    obtain ⟨x, -, rfl⟩ := hq
    rfl
  · simp [DirLocal.wind, hpend, hcnt]

theorem DirPhase.lookupEverywhere (hlook : looking) (hpend : s.pending = []) :
    DirPhase env looking (dhtLookupEverywhere env s) := by
  refine .everywhere hlook ?_
  apply Waiting.wind
  · exact hpend
  · rfl

theorem DirPhase.lookupDirectory (hlook : looking) (hpend : s.pending = []) :
    DirPhase env looking (dhtLookupDirectory env s) := by
  refine .directory hlook ?_ ?_
  · apply Waiting.wind
    · exact hpend
    · rfl
  · simp [dhtLookupDirectory, DirLocal.wind, hpend, Conf.subvolumeCnt]

/-! ## Steps -/

theorem dhtLookupCbk_phase (hlook : looking) (hpend : s.pending = []) (reply : DirReply) :
    DirPhase env looking (dhtLookupCbk env s reply) := by
  cases reply with
  | failed errno _ =>
    unfold dhtLookupCbk
    dsimp only
    split
    · exact .lookupEverywhere hlook hpend
    split
    · exact .lookupDirectory hlook hpend
    · exact .unwound hpend _
  | ok stat xattr =>
    unfold dhtLookupCbk
    dsimp only
    split
    · exact .lookupDirectory hlook hpend
    split
    · exact .unwound hpend _
    split
    · exact .lookupEverywhere hlook hpend
    next x _ => exact .asked hlook x .linkfile (.inr rfl) (by simp [DirLocal.wind, hpend])

theorem dhtLookupLinkfileCbk_phase (hlook : looking) (hpend : s.pending = []) (reply : DirReply) :
    DirPhase env looking (dhtLookupLinkfileCbk env s reply) := by
  cases reply with
  | failed errno _ => exact .lookupEverywhere hlook hpend
  | ok stat xattr =>
    unfold dhtLookupLinkfileCbk
    dsimp only
    split
    · exact .lookupEverywhere hlook hpend
    · exact .unwound hpend _

/-- What `dht_lookup_everywhere_cbk` notes does not touch the requests. -/
theorem noteFound_same (s : DirLocal ξ) (x : ξ) (reply : DirReply) :
    (noteFound s x reply).pending = s.pending ∧ (noteFound s x reply).callCnt = s.callCnt := by
  cases reply with
  | failed _ _ => exact ⟨rfl, rfl⟩
  | ok stat xattr =>
    unfold noteFound
    dsimp only
    split
    · exact ⟨rfl, rfl⟩
    split <;> exact ⟨rfl, rfl⟩

theorem dhtLookupEverywhereCbk_phase (hlook : looking) (hcalls : ∀ q ∈ s.pending, q.2 = .everywhere)
    (hcnt : s.callCnt = s.pending.length + 1) (x : ξ) (reply : DirReply) :
    DirPhase env looking (dhtLookupEverywhereCbk env s x reply) := by
  obtain ⟨hsame, hsameCnt⟩ := noteFound_same s x reply
  unfold dhtLookupEverywhereCbk
  set t := (noteFound s x reply).frameReturn with ht
  have htpending : t.pending = s.pending := hsame
  have htcnt : t.callCnt = s.pending.length := by
    have h : t.callCnt = (noteFound s x reply).callCnt - 1 := rfl
    omega
  dsimp only
  split
  next hlast =>
    have hnil : t.pending = [] := by
      rw [htpending]
      exact length_eq_zero_iff.mp (by omega)
    split
    · exact .unwound hnil _
    split
    · exact .lookupDirectory hlook hnil
    split
    · exact .unwound hnil _
    · exact DirPhase.unwound (s := { t with opRet := 0 }) hnil 0
    · exact .closed (by simp [hnil]) (.wind t t.callCnt _ rfl)
  · exact .everywhere hlook ⟨by rwa [htpending], by rw [htcnt, htpending]⟩

/-! ### The lookup of a directory -/

/-- A directory was found in the course of the operation, but nothing is left of it. -/
def Gone (s : DirLocal ξ) : Prop := s.needSelfheal = false ∧ s.opRet = 0 ∧ ∀ e ∈ s.layout.list, e.err = enoent

theorem dhtLayoutNormalize_gone {layout : Layout ξ} (h : ∀ e ∈ layout.list, e.err = enoent) :
    (dhtLayoutNormalize layout).1 ≠ 0 := by
  intro hzero
  obtain ⟨-, hgood, -⟩ := (dhtLayoutNormalize_eq_zero_iff layout).mp hzero
  apply hgood
  simp only [goodRanges, map_eq_nil_iff, filter_eq_nil_iff]
  intro e he
  have herr := h e ((dhtLayoutSort_perm layout).mem_iff.mp he)
  simp [good, herr, enoent]

theorem lookupDirDone_gone (hgone : Gone s) : lookupDirDone env s = .error .divisionByZero := by
  obtain ⟨hheal, hret, hall⟩ := hgone
  have hsort : ∀ e ∈ (dhtLayoutNormalize s.layout).2.list, e.err = enoent := by
    intro e he
    exact hall e ((dhtLayoutSort_perm s.layout).mem_iff.mp he)
  have hfix := dhtSelfhealDirectory_error env (s := { s with layout := (dhtLayoutNormalize s.layout).2 }) hsort
  unfold lookupDirDone
  rw [if_neg (by simp [hheal]), if_pos hret]
  rw [if_pos (dhtLayoutNormalize_gone hall), hfix]

theorem lookupDirDone_phase (hlook : looking) (hpend : s.pending = []) (hnot : ¬ Gone s) :
    ∃ s', lookupDirDone env s = .ok s' ∧ DirPhase env looking s' := by
  unfold lookupDirDone
  split
  · exact ⟨_, rfl, .lookupEverywhere hlook hpend⟩
  next hheal =>
  split
  next hret =>
    have hthere : ∃ e ∈ (dhtLayoutNormalize s.layout).2.list, e.err ≠ enoent := by
      by_contra hall
      refine hnot ⟨by simpa using hheal, hret, ?_⟩
      intro e he
      by_contra herr
      exact hall ⟨e, (dhtLayoutSort_perm s.layout).mem_iff.mpr he, herr⟩
    dsimp only
    split
    · obtain ⟨s', hfix, hcloses⟩ :=
        dhtSelfhealDirectory_ok env (s := { s with layout := (dhtLayoutNormalize s.layout).2 }) hthere
      exact ⟨s', hfix, .closed (by simp [hpend]) hcloses⟩
    · exact ⟨_, rfl, DirPhase.unwound (s := { s with layout := (dhtLayoutNormalize s.layout).2 }) hpend _⟩
  · exact ⟨_, rfl, .unwound hpend _⟩

/-- **The directory has vanished**: this is the last answer of a directory lookup, an earlier lookup of the same
    operation had found the directory, and now all subvolumes say that there is none. -/
def Vanished (s : DirLocal ξ) (a : DirAnswer ξ) : Prop :=
  (a.subvol, a.call) ∈ s.pending ∧ a.call = .directory ∧ s.callCnt = 1 ∧ s.needSelfheal = false ∧
    s.opRet = 0 ∧ a.reply.merged.err = enoent ∧ ∀ e ∈ s.layout.list, e.xlator ≠ none → e.err = enoent

end

section

variable [DecidableEq ξ] {env : DirEnv ξ} {looking : Prop} {s s' : DirLocal ξ} {a : DirAnswer ξ}

/-- **What a step may do**: go on in one of the phases, or divide by zero if the directory has vanished. -/
def Continues (env : DirEnv ξ) (looking vanished : Prop) : Except DirFault (DirLocal ξ) → Prop
  | .ok s' => DirPhase env looking s' ∧ ¬ vanished
  | .error .refused => ¬ vanished
  | .error .outOfBounds => False
  | .error .divisionByZero => looking ∧ vanished

theorem Waiting.answered {call : DirCall} (h : Waiting s call) {q : ξ × DirCall} (hq : q ∈ s.pending) :
    (∀ q' ∈ s.pending.erase q, q'.2 = call) ∧ s.callCnt = (s.pending.erase q).length + 1 := by
  constructor
  · intro q' hq'
    exact h.calls q' (mem_of_mem_erase hq')
  have hpos : 0 < s.pending.length := length_pos_of_mem hq
  rw [h.count, length_erase_of_mem hq]
  omega

section

omit [DecidableEq ξ]

theorem noteDir_enoent (t : DirLocal ξ) {reply : DirReply} (h : reply.merged.err = enoent) : noteDir t reply = t := by
  cases reply with
  | failed _ _ => rfl
  | ok stat xattr =>
    have herr : (DirReply.ok stat xattr).merged.err = -1 := rfl
    rw [herr] at h
    exact absurd h (by decide)

theorem noteDir_same (t : DirLocal ξ) (reply : DirReply) :
    (noteDir t reply).pending = t.pending ∧ (noteDir t reply).callCnt = t.callCnt ∧
      (noteDir t reply).layout = t.layout := by
  cases reply with
  | failed _ _ => exact ⟨rfl, rfl, rfl⟩
  | ok stat xattr =>
    unfold noteDir
    dsimp only
    split <;> exact ⟨rfl, rfl, rfl⟩

/-- **An answer goes into a layout that has room**, and takes one of the empty entries. -/
theorem merge_ok {t : DirLocal ξ} {n : Nat} (hempty : emptyEntries t.layout.list = n + 1) (x : ξ)
    (reply : LookupReply) : ∃ pre e post, t.layout.list = pre ++ e :: post ∧ e.xlator = none ∧
      emptyEntries pre + emptyEntries post = n ∧
      t.merge x reply = .ok { t with layout := ⟨t.layout.type, pre ++ mergeEntry e x reply :: post⟩ } := by
  have hne : emptyEntries t.layout.list ≠ 0 := by omega
  have hmerge : ∃ pre e post, t.layout.list = pre ++ e :: post ∧ e.xlator = none ∧
      mergeList t.layout.list x reply = some (pre ++ mergeEntry e x reply :: post) := mergeList_ok hne
  obtain ⟨pre, e, post, hlist, he, hmerge⟩ := hmerge
  refine ⟨pre, e, post, hlist, he, ?_, ?_⟩
  · rw [hlist] at hempty
    simp [he] at hempty
    omega
  · simp [DirLocal.merge, dhtLayoutMerge, hmerge]

end

theorem directory_continues (hlook : looking) (hwait : Waiting s .directory)
    (hempty : emptyEntries s.layout.list = s.pending.length) (hmem : (a.subvol, a.call) ∈ s.pending) :
    Continues env looking (Vanished s a)
      (dhtLookupDirCbk env { s with pending := s.pending.erase (a.subvol, a.call) } a.subvol a.reply) := by
  obtain ⟨hcalls, hcnt⟩ := hwait.answered hmem
  have hcall : a.call = .directory := hwait.calls _ hmem
  have hcount := hwait.count
  set rest := s.pending.erase (a.subvol, a.call) with hrest
  have hroom : emptyEntries ({ s with pending := rest } : DirLocal ξ).layout.list = rest.length + 1 := by
    dsimp only
    omega
  obtain ⟨pre, e, post, hlist, he, hothers, hmerge⟩ := merge_ok hroom a.subvol a.reply.merged
  set merged : DirLocal ξ :=
    { s with
      pending := rest
      layout := ⟨s.layout.type, pre ++ mergeEntry e a.subvol a.reply.merged :: post⟩ }
  have hlist : s.layout.list = pre ++ e :: post := hlist
  obtain ⟨hpend, hcallCnt, hlayout⟩ := noteDir_same merged a.reply
  set t := (noteDir merged a.reply).frameReturn with ht
  have htpending : t.pending = rest := hpend
  have htcnt : t.callCnt = rest.length := by
    have h : t.callCnt = (noteDir merged a.reply).callCnt - 1 := rfl
    have h' : merged.callCnt = s.callCnt := rfl
    omega
  have htlist : t.layout.list = pre ++ mergeEntry e a.subvol a.reply.merged :: post :=
    congrArg Layout.list hlayout
  have hcbk : dhtLookupDirCbk env { s with pending := rest } a.subvol a.reply =
      if t.callCnt = 0 then lookupDirDone env t else .ok t := by
    unfold dhtLookupDirCbk
    rw [hmerge]
    rfl
  rw [hcbk]
  by_cases hlast : t.callCnt = 0
  · have hnil : t.pending = [] := by
      rw [htpending]
      exact length_eq_zero_iff.mp (by omega)
    have hiff : Vanished s a ↔ Gone t := by
      constructor
      · rintro ⟨-, -, -, hheal, hret, hrep, hall⟩
        have hsame : t = merged.frameReturn := by rw [ht, noteDir_enoent merged hrep]
        refine ⟨by rw [hsame]; exact hheal, by rw [hsame]; exact hret, ?_⟩
        -- all entries but the one of this answer have a subvolume
        have hpre : emptyEntries pre = 0 := by omega
        have hpost : emptyEntries post = 0 := by omega
        intro e' he'
        rw [htlist] at he'
        rcases mem_append.mp he' with he' | he'
        · exact hall e' (by simp [hlist, he']) (xlator_ne_none hpre he')
        rcases mem_cons.mp he' with rfl | he'
        · exact mergeEntry_err_eq_enoent.mpr hrep
        · exact hall e' (by simp [hlist, he']) (xlator_ne_none hpost he')
      rintro ⟨hheal, hret, hall⟩
      rw [htlist] at hall
      have hentry : (mergeEntry e a.subvol a.reply.merged).err = enoent := hall _ (by simp)
      have hrep : a.reply.merged.err = enoent := mergeEntry_err_eq_enoent.mp hentry
      have hsame : t = merged.frameReturn := by rw [ht, noteDir_enoent merged hrep]
      rw [hsame] at hheal hret
      refine ⟨hmem, hcall, by omega, hheal, hret, hrep, ?_⟩
      intro e' he' hxlator
      rw [hlist] at he'
      rcases mem_append.mp he' with he' | he'
      · exact hall e' (by simp [he'])
      rcases mem_cons.mp he' with rfl | he'
      · exact absurd he hxlator
      · exact hall e' (by simp [he'])
    rw [if_pos hlast, hiff]
    by_cases hgone : Gone t
    · rw [lookupDirDone_gone hgone]
      exact ⟨hlook, hgone⟩
    have hdone : ∃ s', lookupDirDone env t = .ok s' ∧ DirPhase env looking s' :=
      lookupDirDone_phase hlook hnil hgone
    obtain ⟨s', hdone, hph⟩ := hdone
    rw [hdone]
    exact ⟨hph, hgone⟩
  rw [if_neg hlast]
  refine ⟨.directory hlook ⟨by rwa [htpending], by rw [htcnt, htpending]⟩ ?_, ?_⟩
  · rw [htlist, htpending]
    simpa using hothers
  intro hvanished
  have hone := hvanished.2.2.1
  omega

/-! ### Creation -/

theorem length_others (conf : Conf ξ) {x : ξ} (hx : x ∈ conf.subvolumes) :
    (conf.subvolumes.filter fun y => some y ≠ some x).length = conf.subvolumeCnt - 1 := by
  have hfilter : (conf.subvolumes.filter fun y => some y ≠ some x) = conf.subvolumes.erase x := by
    rw [conf.distinct.erase_eq_filter]
    apply filter_congr
    intro y _
    by_cases hy : y = x <;> simp [hy]
  rw [hfilter, length_erase_of_mem hx]
  rfl

omit [DecidableEq ξ] in
theorem created_candidate (e : Entry ξ) (x : ξ) (stat : Stat) (xattr : Option LookupXattr) (filled : Bool) :
    (mergeEntry e x (if filled then filledReply else (DirReply.ok stat xattr).created)).candidate ∧
      (mergeEntry e x (if filled then filledReply else (DirReply.ok stat xattr).created)).err ≠ enoent := by
  cases filled with
  | true => exact ⟨.inr (.inr rfl), by simp [mergeEntry, filledReply, LookupReply.err, enoent]⟩
  | false => exact ⟨.inl rfl, by simp [mergeEntry, DirReply.created, enoent]⟩

theorem mkdirHashed_continues {x : ξ} (hx : x ∈ env.conf.subvolumes) (hpend : s.pending = [])
    (hhashed : s.hashedSubvol = some x) (hlayout : s.layout = dhtLayoutNew env.conf.subvolumeCnt)
    (reply : DirReply) (filled : Bool) :
    ∃ s', dhtMkdirHashedCbk env s x reply filled = .ok s' ∧ DirPhase env looking s' := by
  have hpos := env.conf.subvolumeCnt_pos
  have hroom : emptyEntries s.layout.list = env.conf.subvolumeCnt - 1 + 1 := by
    rw [hlayout, emptyEntries_new]
    omega
  obtain ⟨pre, e, post, -, -, hothers, hmerge⟩ :=
    merge_ok hroom x (if filled then filledReply else reply.created)
  cases reply with
  | failed errno _ =>
    unfold dhtMkdirHashedCbk
    rw [hmerge]
    refine ⟨_, rfl, .closing ?_⟩
    simp [DirLocal.unwind, hpend]
  | ok stat xattr =>
    obtain ⟨hcand, hthere⟩ := created_candidate e x stat xattr filled
    set made := mergeEntry e x (if filled then filledReply else (DirReply.ok stat xattr).created) with hmade
    set t : DirLocal ξ :=
      { s with
        opRet := 0
        callCnt := env.conf.subvolumeCnt - 1
        layout := ⟨s.layout.type, pre ++ made :: post⟩ } with ht
    have hcbk : dhtMkdirHashedCbk env s x (.ok stat xattr) filled = if t.callCnt = 0 then do
          let s' ← dhtSelfhealDirectory env t
          pure (s'.wind (env.conf.subvolumes.filter fun y => some y ≠ s'.hashedSubvol) .mkdir)
        else .ok (t.wind (env.conf.subvolumes.filter fun y => some y ≠ t.hashedSubvol) .mkdir) := by
      unfold dhtMkdirHashedCbk
      rw [hmerge]
      rfl
    have hlen := length_others env.conf hx
    rw [hcbk]
    by_cases hlast : t.callCnt = 0
    · have hthere' : ∃ e' ∈ t.layout.list, e'.err ≠ enoent := ⟨made, by simp [ht], hthere⟩
      obtain ⟨s', hfix, hcloses⟩ := dhtSelfhealDirectory_ok env hthere'
      have hhashed' : s'.hashedSubvol = some x := hcloses.hashed.trans hhashed
      have hnone : (env.conf.subvolumes.filter fun y => some y ≠ s'.hashedSubvol) = [] := by
        rw [hhashed']
        apply length_eq_zero_iff.mp
        rw [hlen]
        exact hlast
      have hsame : s'.wind [] .mkdir = s' := by simp [DirLocal.wind]
      refine ⟨s', ?_, .closed (by simp [ht, hpend]) hcloses⟩
      rw [if_pos hlast, hfix]
      simp only [bind, Except.bind, pure, Except.pure, hnone, hsame]
    refine ⟨t.wind (env.conf.subvolumes.filter fun y => some y ≠ some x) .mkdir, ?_, ?_⟩
    · rw [if_neg hlast]
      simp only [ht, hhashed]
    have hwait : Waiting (t.wind (env.conf.subvolumes.filter fun y => some y ≠ some x) .mkdir) .mkdir := by
      apply Waiting.wind
      · exact hpend
      · exact hlen.symm
    refine .mkdir hwait ?_ ⟨made, by simp [DirLocal.wind, ht], by simp [hmade], hcand⟩
    rw [← hwait.count]
    simpa [DirLocal.wind, ht, hmade] using hothers

omit [DecidableEq ξ] in
theorem mkdir_continues (hcalls : ∀ q ∈ s.pending, q.2 = .mkdir) (hcnt : s.callCnt = s.pending.length + 1)
    (hempty : emptyEntries s.layout.list = s.pending.length + 1)
    (hmade : ∃ e ∈ s.layout.list, e.xlator ≠ none ∧ e.candidate) (x : ξ) (reply : DirReply) (filled : Bool) :
    ∃ s', dhtMkdirCbk env s x reply filled = .ok s' ∧ DirPhase env looking s' := by
  obtain ⟨pre, e, post, hlist, he, hothers, hmerge⟩ := merge_ok hempty x (reply.mkdirMerged filled)
  set t : DirLocal ξ :=
    { s with
      callCnt := s.callCnt - 1
      layout := ⟨s.layout.type, pre ++ mergeEntry e x (reply.mkdirMerged filled) :: post⟩ } with ht
  have hcbk : dhtMkdirCbk env s x reply filled = if t.callCnt = 0 then dhtSelfhealNewDirectory env t else .ok t := by
    unfold dhtMkdirCbk
    rw [hmerge]
    rfl
  -- the entry of the hashed subvolume is not the one that is filled now
  have hmade' : ∃ e' ∈ t.layout.list, e'.xlator ≠ none ∧ e'.candidate := by
    obtain ⟨e', he', hxlator, hcand⟩ := hmade
    refine ⟨e', ?_, hxlator, hcand⟩
    rw [hlist] at he'
    rcases mem_append.mp he' with he' | he'
    · simp [ht, he']
    rcases mem_cons.mp he' with rfl | he'
    · exact absurd he hxlator
    · simp [ht, he']
  have htcnt : t.callCnt = s.pending.length := by
    have h : t.callCnt = s.callCnt - 1 := rfl
    omega
  rw [hcbk]
  by_cases hlast : t.callCnt = 0
  · have hnil : s.pending = [] := length_eq_zero_iff.mp (by omega)
    have hsome : ∃ e' ∈ (dhtLayoutSortVolname env t.layout).list, e'.candidate := by
      obtain ⟨e', he', -, hcand⟩ := hmade'
      exact ⟨e', (dhtLayoutSortVolname_perm env t.layout).mem_iff.mpr he', hcand⟩
    obtain ⟨layout, hnew, -⟩ :=
      layoutNewDirectory_ok env (s := { t with layout := dhtLayoutSortVolname env t.layout }) hsome
    have hcloses := Closes.selfhealDirXattr { t with layout := layout }
    refine ⟨selfhealDirXattr { t with layout := layout }, ?_, .closed (by simp [ht, hnil]) hcloses⟩
    rw [if_pos hlast]
    unfold dhtSelfhealNewDirectory
    rw [hnew]
    rfl
  rw [if_neg hlast]
  refine ⟨t, rfl, .mkdir ⟨hcalls, htcnt⟩ ?_ hmade'⟩
  simpa [ht] using hothers

/-! ### The end of an operation -/

namespace Closes

theorem revalidate (s : DirLocal ξ) (x : ξ) (reply : DirReply) : Closes s (dhtRevalidateCbk s x reply) := by
  have hsame : (noteRevalidated s x reply).pending = s.pending ∧
      (noteRevalidated s x reply).hashedSubvol = s.hashedSubvol := by
    unfold noteRevalidated
    cases reply with
    | failed errno _ =>
      dsimp only
      split <;> exact ⟨rfl, rfl⟩
    | ok stat xattr =>
      dsimp only
      split
      · exact ⟨rfl, rfl⟩
      split
      · exact ⟨rfl, rfl⟩
      split <;> exact ⟨rfl, rfl⟩
  unfold dhtRevalidateCbk
  set t := (noteRevalidated s x reply).frameReturn
  have htpending : t.pending = s.pending := hsame.1
  refine ⟨⟨[], ?_, by simp⟩, ?_⟩
  · dsimp only
    split
    · split <;> simp [DirLocal.unwind, htpending]
    · simp [htpending]
  have hhashed : t.hashedSubvol = s.hashedSubvol := hsame.2
  dsimp only
  split
  · split <;> exact hhashed
  · exact hhashed

omit [DecidableEq ξ] in
theorem linkfileCreate (s : DirLocal ξ) (x : ξ) (reply : DirReply) : Closes s (dhtLinkfileCreateCbk s x reply) := by
  cases reply with
  | failed errno _ =>
    have hcloses := unwind { s with opRet := 0 } 0
    exact ⟨hcloses.pending, hcloses.hashed⟩
  | ok stat xattr => exact wind s s.callCnt [x] rfl

theorem healMkdir (s : DirLocal ξ) (x : ξ) (reply : DirReply) : Closes s (selfhealDirMkdirCbk s x reply) := by
  unfold selfhealDirMkdirCbk
  set list := if reply.made then setErr x (-1) s.layout.list else s.layout.list
  dsimp only
  split
  · have hcloses := Closes.selfhealDirXattr ({ s with layout.list := list } : DirLocal ξ).frameReturn
    exact ⟨hcloses.pending, hcloses.hashed⟩
  · exact ⟨⟨[], by simp [DirLocal.frameReturn]⟩, rfl⟩

theorem healSetxattr (s : DirLocal ξ) (x : ξ) (reply : DirReply) : Closes s (selfhealDirXattrCbk s x reply) := by
  unfold selfhealDirXattrCbk
  dsimp only
  split
  · exact ⟨⟨[], by simp [DirLocal.frameReturn, DirLocal.unwind]⟩, rfl⟩
  · exact ⟨⟨[], by simp [DirLocal.frameReturn]⟩, rfl⟩

end Closes

theorem closing_continues (hcalls : ∀ q ∈ s.pending, q.2.closing = true) (hcall : a.call.closing = true) :
    ∃ s', dirCallback env s a = .ok s' ∧ DirPhase env looking s' := by
  unfold dirCallback
  cases hkind : a.call with
  | revalidate => exact ⟨_, rfl, .closed hcalls (.revalidate s a.subvol a.reply)⟩
  | linkfileMknod => exact ⟨_, rfl, .closed hcalls (.linkfileCreate s a.subvol a.reply)⟩
  | linkfileSetxattr =>
    have hcloses := Closes.unwind { s with opRet := 0 } 0
    exact ⟨_, rfl, .closed hcalls ⟨hcloses.pending, hcloses.hashed⟩⟩
  | healMkdir => exact ⟨_, rfl, .closed hcalls (.healMkdir s a.subvol a.reply)⟩
  | healSetxattr => exact ⟨_, rfl, .closed hcalls (.healSetxattr s a.subvol a.reply)⟩
  | lookup | linkfile | everywhere | directory | mkdirHashed | mkdir =>
    rw [hkind] at hcall
    exact nomatch hcall

/-! ## Runs -/

omit [DecidableEq ξ] in
theorem Continues.of_ok {r : Except DirFault (DirLocal ξ)} (h : ∃ s', r = .ok s' ∧ DirPhase env looking s')
    (hcall : a.call ≠ .directory) : Continues env looking (Vanished s a) r := by
  obtain ⟨s', rfl, hph⟩ := h
  exact ⟨hph, fun hvanished => hcall hvanished.2.1⟩

/-- **Every step goes on in one of the phases, or the directory has vanished.** -/
theorem dirStep_continues (hph : DirPhase env looking s) (a : DirAnswer ξ) :
    Continues env looking (Vanished s a) (dirStep env s a) := by
  unfold dirStep
  split
  swap
  next hnot => exact fun hvanished => hnot hvanished.1
  next hmem =>
  set t : DirLocal ξ := { s with pending := s.pending.erase (a.subvol, a.call) } with ht
  cases hph with
  | asked hlook x call hcall hpend =>
    have hone : (a.subvol, a.call) = (x, call) := by simpa [hpend] using hmem
    have hnil : t.pending = [] := by simp [ht, hpend, hone]
    obtain ⟨-, hkind⟩ := Prod.mk.inj hone
    rcases hcall with rfl | rfl
    · refine .of_ok ⟨_, by unfold dirCallback; rw [hkind], ?_⟩ (by simp [hkind])
      exact dhtLookupCbk_phase hlook hnil a.reply
    refine .of_ok ⟨_, by unfold dirCallback; rw [hkind], ?_⟩ (by simp [hkind])
    exact dhtLookupLinkfileCbk_phase hlook hnil a.reply
  | everywhere hlook hwait =>
    have hkind : a.call = .everywhere := hwait.calls _ hmem
    obtain ⟨hcalls, hcnt⟩ := hwait.answered hmem
    refine .of_ok ⟨_, by unfold dirCallback; rw [hkind], ?_⟩ (by simp [hkind])
    exact dhtLookupEverywhereCbk_phase hlook hcalls hcnt a.subvol a.reply
  | directory hlook hwait hempty =>
    have hkind : a.call = .directory := hwait.calls _ hmem
    have hcbk : dirCallback env t a = dhtLookupDirCbk env t a.subvol a.reply := by
      unfold dirCallback
      rw [hkind]
    rw [hcbk]
    exact directory_continues hlook hwait hempty hmem
  | mkdirHashed x hx hpend hhashed hlayout =>
    have hone : (a.subvol, a.call) = (x, .mkdirHashed) := by simpa [hpend] using hmem
    have hnil : t.pending = [] := by simp [ht, hpend, hone]
    obtain ⟨hsubvol, hkind⟩ := Prod.mk.inj hone
    have hcbk : dirCallback env t a = dhtMkdirHashedCbk env t x a.reply a.filled := by
      unfold dirCallback
      rw [hkind, hsubvol]
    rw [hcbk]
    exact .of_ok (mkdirHashed_continues hx hnil hhashed hlayout a.reply a.filled) (by simp [hkind])
  | mkdir hwait hempty hmade =>
    have hkind : a.call = .mkdir := hwait.calls _ hmem
    obtain ⟨hcalls, hcnt⟩ := hwait.answered hmem
    have hroom : emptyEntries t.layout.list = t.pending.length + 1 :=
      hempty.trans (hwait.count.symm.trans hcnt)
    have hcbk : dirCallback env t a = dhtMkdirCbk env t a.subvol a.reply a.filled := by
      unfold dirCallback
      rw [hkind]
    rw [hcbk]
    exact .of_ok (mkdir_continues hcalls hcnt hroom hmade a.subvol a.reply a.filled) (by simp [hkind])
  | closing hcalls =>
    have hkind : a.call.closing = true := hcalls _ hmem
    have hne : a.call ≠ .directory := by
      intro h
      rw [h] at hkind
      exact nomatch hkind
    exact .of_ok (closing_continues (fun q hq => hcalls q (mem_of_mem_erase hq)) hkind) hne

/-- The operations a run starts with. -/
inductive DirStart (ξ : Type) where
  | mkdir (hashedSubvol : Option ξ)
  | lookup (hashedSubvol cachedSubvol : Option ξ)
  | revalidate (hashedSubvol cachedSubvol : Option ξ) (layout : Layout ξ) (inodeMode : BitVec 32)

namespace DirStart

omit [DecidableEq ξ]

def frame (env : DirEnv ξ) : DirStart ξ → DirLocal ξ
  | mkdir hashedSubvol => dhtMkdir env hashedSubvol
  | lookup hashedSubvol cachedSubvol => dhtLookup env hashedSubvol cachedSubvol
  | revalidate hashedSubvol cachedSubvol layout inodeMode =>
    dhtLookupRevalidate hashedSubvol cachedSubvol layout inodeMode

/-- A lookup that does not start from a layout. -/
def isLookup : DirStart ξ → Bool
  | lookup _ _ => true
  | _ => false

/-- The hashed subvolume is one of the volume's. -/
def Placed (env : DirEnv ξ) : DirStart ξ → Prop
  | mkdir (some x) => x ∈ env.conf.subvolumes
  | _ => True

theorem frame_phase {start : DirStart ξ} (hplaced : start.Placed env) :
    DirPhase env (start.isLookup = true) (start.frame env) := by
  match start with
  | mkdir none => exact .unwound rfl _
  | mkdir (some x) => exact .mkdirHashed x hplaced rfl rfl rfl
  | lookup none cachedSubvol => exact .lookupDirectory rfl rfl
  | lookup (some x) cachedSubvol => exact .asked rfl x .lookup (.inl rfl) rfl
  | revalidate hashedSubvol cachedSubvol layout inodeMode =>
    apply DirPhase.closing
    intro q hq
    have hmem : q ∈ (layout.list.filterMap xlator).map fun x => (x, DirCall.revalidate) := by
      simpa [frame, dhtLookupRevalidate, DirLocal.wind, DirLocal.init] using hq
    obtain ⟨x, -, rfl⟩ := mem_map.mp hmem
    rfl

end DirStart

/-- **When creating, finding or healing a directory divides by zero.** For every operation and all answers, in
    any order: no access goes behind the end of the layout, and the divisor is zero exactly in a lookup that
    meets an answer after which the directory has vanished. -/
theorem divides_by_zero_iff (env : DirEnv ξ) (start : DirStart ξ) (hplaced : start.Placed env)
    (as : List (DirAnswer ξ)) : run (dirStep env) (start.frame env) as ≠ .error .outOfBounds ∧
      (run (dirStep env) (start.frame env) as = .error .divisionByZero ↔
        start.isLookup = true ∧ ¬ Along (dirStep env) (fun s a => ¬ Vanished s a) (start.frame env) as) := by
  have hstart := start.frame_phase hplaced
  have hkeep : ∀ s a s', DirPhase env (start.isLookup = true) s → dirStep env s a = .ok s' →
      DirPhase env (start.isLookup = true) s' := by
    intro s a s' hphase hstep
    have hcont := dirStep_continues hphase a
    rw [hstep] at hcont
    exact hcont.1
  constructor
  · apply run_ne_error hkeep _ hstart
    intro s a hphase herror
    have hcont := dirStep_continues hphase a
    rw [herror] at hcont
    exact hcont
  have hdivides : ∀ s a, DirPhase env (start.isLookup = true) s →
      (dirStep env s a = .error .divisionByZero ↔ start.isLookup = true ∧ Vanished s a) := by
    intro s a hphase
    have hcont := dirStep_continues hphase a
    constructor
    · intro herror
      rw [herror] at hcont
      exact hcont
    rintro ⟨-, hvanished⟩
    match hstep : dirStep env s a, hcont with
    | .ok s', hcont => exact absurd hvanished hcont.2
    | .error .refused, hcont => exact absurd hvanished hcont
    | .error .outOfBounds, hcont => exact hcont.elim
    | .error .divisionByZero, _ => rfl
  rw [run_error_iff hkeep hdivides hstart]
  cases hlookup : start.isLookup with
  | true => simp
  | false => simpa using along_true as (start.frame env)

end

/-! ### Two subvolumes -/

def twoSubvolumes : DirEnv Bool where
  conf := ⟨[false, true], fun _ => true, by decide, by decide⟩
  searchUnhashed := true
  volname x := if x then [98] else [97]
  path := [47, 100]
  dmHashfn _ := 0

/-- The `struct stat` of a directory. -/
def dirStat : Stat := ⟨1, 0o040755, 4096⟩

/-- The `struct stat` of a link file. -/
def linkfileStat : Stat := ⟨2, 0o101000, 0⟩

/-- A `mkdir` that one subvolume refuses. -/
def mkdirAnswers : List (DirAnswer Bool) :=
  [⟨false, .mkdirHashed, .ok dirStat none, false⟩, ⟨true, .mkdir, .failed 2 (by decide), false⟩]

theorem mkdir_does_not_divide : (DirStart.mkdir (some false)).Placed twoSubvolumes ∧
      run (dirStep twoSubvolumes) ((DirStart.mkdir (some false)).frame twoSubvolumes) mkdirAnswers ≠
        .error .divisionByZero := by
  have hplaced : (DirStart.mkdir (some false)).Placed twoSubvolumes := mem_cons_self
  refine ⟨hplaced, fun hrun => ?_⟩
  exact nomatch ((divides_by_zero_iff twoSubvolumes _ hplaced mkdirAnswers).2.mp hrun).1

/-- One subvolume has the directory, the other a stale link file, so the lookup goes everywhere, and back to a
    directory lookup. Before that the directory is removed. -/
def vanishingAnswers : List (DirAnswer Bool) :=
  [⟨false, .lookup, .ok dirStat none, false⟩, ⟨false, .directory, .ok dirStat none, false⟩,
    ⟨true, .directory, .ok linkfileStat none, false⟩, ⟨false, .everywhere, .ok dirStat none, false⟩,
    ⟨true, .everywhere, .ok linkfileStat none, false⟩, ⟨false, .directory, .failed 2 (by decide), false⟩,
    ⟨true, .directory, .failed 2 (by decide), false⟩]

theorem vanished_directory_divides :
    run (dirStep twoSubvolumes) (dhtLookup twoSubvolumes (some false) none) vanishingAnswers =
      .error .divisionByZero := by
  rfl

end GlusterFS.Dht
