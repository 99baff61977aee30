import GlusterFS.Lib.Run
import GlusterFS.Dht.Readdir

/-!
# `Dht.Correctness.Listing` — every entry once

A listing is always at a position: some subvolumes are done, of one the first entries were seen, and the others
follow (`Position`). An answer moves it on, over entries that are not shown, over the entries the client gets, or
to the next subvolume (`answer_cases`). Every answer makes what is left shorter, so a listing ends
(`listing_bounded`), and the client has then got what is to be shown of each subvolume, in order
(`ListInv`).

The next subvolume is also asked when an answer is empty because nothing fits into the size. Then the rest of the
entries is lost; so the sizes must be large enough for one entry.
-/

namespace GlusterFS.Dht

open Transition List

variable {ξ : Type} [DecidableEq ξ]

variable {batch rest' : List Dirent} {e : Dirent} {s s' : Listing ξ}

/-! ## One answer -/

section

variable {conf : Conf ξ} {prev : ξ}

/-- What the client gets of some entries. -/
def shownOf (conf : Conf ξ) (prev : ξ) (es : List Dirent) : List Dirent :=
  (es.filter fun e => !skipped conf prev e).map (shownEntry conf prev)

@[simp] theorem shownOf_nil : shownOf conf prev [] = [] := rfl

@[simp] theorem shownOf_append (es es' : List Dirent) :
    shownOf conf prev (es ++ es') = shownOf conf prev es ++ shownOf conf prev es' := by
  simp [shownOf]

def lastOff (es : List Dirent) : BitVec 64 := (es.getLast?.map Dirent.off).getD 0

@[simp] theorem lastOff_concat (es : List Dirent) (e : Dirent) : lastOff (es ++ [e]) = e.off := by
  simp [lastOff]

theorem lastOff_append {es es' : List Dirent} (h : es' ≠ []) : lastOff (es ++ es') = lastOff es' := by
  simp [lastOff, getLast?_append_of_ne_nil _ h]

theorem readdirpLoop_eq : ∀ (es : List Dirent) (o : BitVec 64) (acc : List Dirent),
    readdirpLoop conf prev es (o, acc) = ((es.getLast?.map Dirent.off).getD o, acc ++ shownOf conf prev es)
  | [], o, acc => by simp [readdirpLoop]
  | e :: es, o, acc => by
    unfold readdirpLoop
    by_cases hskip : skipped conf prev e = true
    · rw [if_pos hskip, readdirpLoop_eq es]
      simp [shownOf, hskip, getLast?_cons]
    rw [if_neg hskip, readdirpLoop_eq es]
    simp [shownOf, hskip, getLast?_cons]

/-- The subvolume has nothing more: the next one is asked, or the listing ends. -/
def moveOn (next : Option ξ) : Outcome ξ :=
  match next with
  | none => .unwind []
  | some subvol => .wind subvol 0

theorem dhtReaddirpCbk_none : dhtReaddirpCbk conf prev none = moveOn (conf.dhtSubvolNext prev) := by
  unfold dhtReaddirpCbk moveOn
  cases conf.dhtSubvolNext prev <;> rfl

theorem dhtReaddirpCbk_nil : dhtReaddirpCbk conf prev (some []) = moveOn (conf.dhtSubvolNext prev) := by
  unfold dhtReaddirpCbk moveOn
  cases conf.dhtSubvolNext prev <;> rfl

theorem dhtReaddirpCbk_skipped (hoff : lastOff batch ≠ 0) (hnone : shownOf conf prev batch = []) :
    dhtReaddirpCbk conf prev (some batch) = .wind prev (lastOff batch) := by
  simp only [dhtReaddirpCbk, readdirpLoop_eq, hnone, append_nil, length_nil, if_true]
  rw [← lastOff, if_neg hoff]

theorem dhtReaddirpCbk_shown (hsome : shownOf conf prev batch ≠ []) :
    dhtReaddirpCbk conf prev (some batch) = .unwind (shownOf conf prev batch) := by
  have hlen : ¬ (shownOf conf prev batch).length = 0 := by simpa using hsome
  simp only [dhtReaddirpCbk, readdirpLoop_eq, nil_append, if_neg hlen]

theorem shownOf_last : ∀ {batch : List Dirent}, shownOf conf prev batch ≠ [] → ∃ b e b', batch = b ++ e :: b' ∧
      shownOf conf prev batch = shownOf conf prev b ++ [shownEntry conf prev e] ∧
      shownOf conf prev [e] = [shownEntry conf prev e] := by
  intro batch
  induction batch using List.reverseRecOn with
  | nil =>
    intro h
    exact absurd rfl h
  | append_singleton es a ih =>
    intro h
    by_cases hskip : skipped conf prev a = true
    · have hnone : shownOf conf prev [a] = [] := by simp [shownOf, hskip]
      rw [shownOf_append, hnone, append_nil] at h ⊢
      obtain ⟨b, e, b', rfl, hshown, he⟩ := ih h
      exact ⟨b, e, b' ++ [a], by simp, hshown, he⟩
    have hone : shownOf conf prev [a] = [shownEntry conf prev a] := by simp [shownOf, hskip]
    exact ⟨es, a, [], rfl, by rw [shownOf_append, hone], hone⟩

omit [DecidableEq ξ] in
theorem take_unwind (s : Listing ξ) (es : List Dirent) (e : Dirent) : s.take (.unwind (es ++ [e])) =
    { s with request := none, cursor := e.off, listed := s.listed ++ (es ++ [e]) } := by
  cases es with
  | nil => rfl
  | cons a es => simp [Listing.take]

end

/-! ## The answers of `posix_do_readdir` -/

section

variable (direntSize : Dirent → Nat) (size : Nat)

theorem posixFill_eq_take : ∀ (filled : Nat) (rest : List Dirent),
    posixFill direntSize size filled rest = rest.take (posixFill direntSize size filled rest).length
  | _, [] => rfl
  | filled, e :: es => by
    unfold posixFill
    split
    · split
      · rfl
      · simp [← posixFill_eq_take (filled + direntSize e) es]
    · rfl

theorem posixFill_sum : ∀ (filled : Nat) (rest : List Dirent), filled ≤ size →
    ((posixFill direntSize size filled rest).map direntSize).sum + filled ≤ size
  | _, [], h => by simpa [posixFill] using h
  | filled, e :: es, h => by
    unfold posixFill
    rw [if_pos h]
    split
    · simpa using h
    have ih := posixFill_sum (filled + direntSize e) es (by omega)
    simp only [map_cons, sum_cons]
    omega

/-- **`posix_do_readdir` is one of the ways to answer.** -/
theorem posixFill_answers (rest : List Dirent) :
    Answers direntSize size rest (posixFill direntSize size 0 rest).length := by
  have htake := posixFill_eq_take direntSize size 0 rest
  have hsum := posixFill_sum direntSize size 0 rest (Nat.zero_le _)
  refine ⟨?_, ?_, ?_⟩
  · rw [htake]
    simp
  · rw [← htake]
    omega
  intro hzero e he
  match rest, he with
  | e :: es, rfl =>
    by_contra hfits
    simp [posixFill, show ¬ direntSize e > size by omega] at hzero

end

/-! ## Positions -/

section

variable {vol : Volume ξ}

/-- **Where a listing is**: `pre` is done, of `x` the entries `seen` are, and `off` is the offset behind
    them. -/
structure Position (vol : Volume ξ) (x : ξ) (off : BitVec 64) (pre post : List ξ) (seen rest : List Dirent) : Prop where
  split : vol.conf.subvolumes = pre ++ x :: post
  contents : vol.contents x = seen ++ rest
  off : off = lastOff seen
  down : vol.conf.subvolumeStatus x = false → seen = []

namespace Position

variable {x : ξ} {off : BitVec 64} {pre post : List ξ} {seen rest : List Dirent}

theorem mem (h : Position vol x off pre post seen rest) : x ∈ vol.conf.subvolumes := by
  simp [h.split]

theorem beginning (h : vol.conf.subvolumes = pre ++ x :: post) : Position vol x 0 pre post [] (vol.contents x) :=
  ⟨h, rfl, rfl, fun _ => rfl⟩

theorem next {y : ξ} (h : Position vol x off pre (y :: post) seen rest) :
    Position vol y 0 (pre ++ [x]) post [] (vol.contents y) := beginning (by simp [h.split])

theorem advance (h : Position vol x off pre post seen (batch ++ rest')) (hup : vol.conf.subvolumeStatus x = true) :
    Position vol x (lastOff (seen ++ batch)) pre post (seen ++ batch) rest' where
  split := h.split
  contents := by rw [h.contents, append_assoc]
  off := rfl
  down := by
    intro hdown
    rw [hup] at hdown
    cases hdown

theorem behind (h : Position vol x off pre post seen rest) : behind (vol.contents x) off = rest := by
  have hoffsets := vol.offsets x h.mem
  rw [h.contents] at hoffsets ⊢
  rw [h.off]
  match hseen : seen.reverse with
  | [] =>
    obtain rfl := reverse_eq_nil_iff.mp hseen
    rfl
  | e :: es =>
    obtain rfl : seen = es.reverse ++ [e] := by
      rw [← reverse_reverse seen, hseen, reverse_cons]
    rw [nodup_cons] at hoffsets
    obtain ⟨hzero, hnd⟩ := hoffsets
    have hne : e.off ≠ 0 := by
      intro he
      apply hzero
      simp [← he]
    -- the entries in front of `e` have other offsets
    have hfront : ∀ a ∈ es.reverse, decide (a.off ≠ e.off) = true := by
      intro a ha
      simp only [map_append, append_assoc, nodup_append] at hnd
      have hdiffer := hnd.2.2 a.off (mem_map_of_mem ha) e.off (by simp)
      simpa using hdiffer
    rw [lastOff_concat, Dht.behind, if_neg hne, append_assoc, dropWhile_append_of_pos hfront]
    simp

theorem lastOff_ne_zero (h : Position vol x off pre post seen (batch ++ rest'))
    (hne : batch ≠ []) : lastOff batch ≠ 0 := by
  have hoffsets := vol.offsets x h.mem
  rw [h.contents, nodup_cons] at hoffsets
  intro hzero
  apply hoffsets.1
  have hlast : batch.getLast? = some (batch.getLast hne) := getLast?_eq_getLast_of_ne_nil hne
  rw [lastOff, hlast] at hzero
  rw [← hzero]
  apply mem_map_of_mem
  simp

theorem cursor (h : Position vol x off pre post seen rest) (he : e ∈ rest) :
    vol.conf.dhtDeitransform (vol.conf.dhtItransform x e.off) = (x, e.off) := by
  apply dhtDeitransform_dhtItransform h.mem
  apply vol.small x h.mem
  simp [h.contents, he]

/-- The cursor of the last entry that the client gets leads behind what it got. -/
theorem resume {b : List Dirent} (h : Position vol x off pre post seen (b ++ e :: rest'))
    (hup : vol.conf.subvolumeStatus x = true) : vol.conf.dhtDeitransform (vol.conf.dhtItransform x e.off) = (x, e.off) ∧
      Position vol x e.off pre post (seen ++ (b ++ [e])) rest' := by
  refine ⟨h.cursor (by simp), ?_⟩
  have hsplit : Position vol x off pre post seen ((b ++ [e]) ++ rest') := by simpa using h
  have hadvance := hsplit.advance hup
  rw [← append_assoc, lastOff_concat, append_assoc] at hadvance
  exact hadvance

end Position

/-- **What a call does.** The client was not waiting and goes on at its cursor. -/
theorem readdirp_ok {size : Nat} (h : listStep vol s (.readdirp size) = .ok s') : s.request = none ∧ s.ended = false ∧
      s' = { s with request := some (vol.conf.dhtDeitransform s.cursor), size := size } := by
  simp only [listStep] at h
  split at h
  next hidle => exact ⟨Option.isNone_iff_eq_none.mp hidle.1, hidle.2.1, (Except.ok.inj h).symm⟩
  · cases h

/-- **What an answer does.** The listing moves on to the next subvolume, because this one is down, has nothing
    more, or its next entry does not fit; or it goes on behind entries that are not shown; or the client gets
    some. -/
theorem answer_cases {x : ξ} {off : BitVec 64} {pre post : List ξ} {seen rest : List Dirent}
    {n : Nat} (hpos : Position vol x off pre post seen rest) (hreq : s.request = some (x, off))
    (h : listStep vol s (.answer n) = .ok s') : (s' = s.take (moveOn post.head?) ∧
      (vol.conf.subvolumeStatus x = true → ∀ e ∈ rest.head?, s.size < vol.direntSize e)) ∨
    (∃ batch rest', rest = batch ++ rest' ∧ batch ≠ [] ∧ vol.conf.subvolumeStatus x = true ∧
      shownOf vol.conf x batch = [] ∧ s' = { s with request := some (x, lastOff (seen ++ batch)) }) ∨
    ∃ b e rest', rest = b ++ e :: rest' ∧ vol.conf.subvolumeStatus x = true ∧ s' = { s with
        request := none
        cursor := vol.conf.dhtItransform x e.off
        listed := s.listed ++ shownOf vol.conf x (b ++ [e]) } := by
  simp only [listStep, hreq] at h
  by_cases hup : vol.conf.subvolumeStatus x = true
  · rw [if_pos hup, hpos.behind] at h
    split at h
    next hallowed =>
      obtain rfl := (Except.ok.inj h).symm
      by_cases hbatch : rest.take n = []
      · -- nothing was left, or nothing fits
        refine Or.inl ⟨?_, ?_⟩
        · rw [hbatch, dhtReaddirpCbk_nil, dhtSubvolNext_split hpos.split]
        intro _ e he
        apply hallowed.2.2 _ e he
        rcases take_eq_nil_iff.mp hbatch with hn | hrest
        · exact hn
        rw [hrest] at he
        cases he
      have hsplit := (take_append_drop n rest).symm
      have hoff : lastOff (rest.take n) ≠ 0 := (hsplit ▸ hpos).lastOff_ne_zero hbatch
      by_cases hshown : shownOf vol.conf x (rest.take n) = []
      · refine Or.inr (Or.inl ⟨rest.take n, rest.drop n, hsplit, hbatch, hup, hshown, ?_⟩)
        rw [dhtReaddirpCbk_skipped hoff hshown, lastOff_append hbatch]
        rfl
      obtain ⟨b, e, b', hb, hlist, he⟩ := shownOf_last hshown
      refine Or.inr (Or.inr ⟨b, e, b' ++ rest.drop n, ?_, hup, ?_⟩)
      · calc
          rest = rest.take n ++ rest.drop n := hsplit
          _ = b ++ e :: (b' ++ rest.drop n) := by simp [hb]
      rw [dhtReaddirpCbk_shown hshown, hlist, shownOf_append, he, take_unwind]
      rfl
    · cases h
  rw [if_neg hup] at h
  obtain rfl := (Except.ok.inj h).symm
  refine Or.inl ⟨?_, fun h => absurd h hup⟩
  rw [dhtReaddirpCbk_none, dhtSubvolNext_split hpos.split]

/-! ## The end of a listing -/

/-- What is left to do at a position: entries, and subvolumes. -/
def remaining (vol : Volume ξ) (post : List ξ) (rest : List Dirent) : Nat :=
  (post.map fun y => (vol.contents y).length + 1).sum + rest.length + 1

def Volume.total (vol : Volume ξ) : Nat := (vol.conf.subvolumes.map fun y => (vol.contents y).length + 1).sum

/-- After `k` steps: a step has been paid for by an entry or a subvolume, and so has the next one if an answer
    is awaited. -/
structure Budget (vol : Volume ξ) (k : Nat) (s : Listing ξ) : Prop where
  idle : s.request = none → s.ended = false → ∃ pre post seen rest,
    Position vol (vol.conf.dhtDeitransform s.cursor).1 (vol.conf.dhtDeitransform s.cursor).2 pre post seen rest ∧
      k + 2 * remaining vol post rest ≤ 2 * vol.total
  waiting : ∀ x off, s.request = some (x, off) → ∃ pre post seen rest,
    Position vol x off pre post seen rest ∧ k + 2 * remaining vol post rest ≤ 2 * vol.total + 1
  ended : s.ended = true → s.request = none ∧ k ≤ 2 * vol.total

theorem start_position (vol : Volume ξ) : ∃ x post, vol.conf.subvolumes = x :: post ∧
    vol.conf.dhtDeitransform (Listing.start (ξ := ξ)).cursor = (x, 0) := by
  match hsubvolumes : vol.conf.subvolumes with
  | [] => exact absurd hsubvolumes vol.conf.nonempty
  | x :: post =>
    refine ⟨x, post, rfl, ?_⟩
    simp [Conf.dhtDeitransform, Listing.start, hsubvolumes]

theorem Budget.start (vol : Volume ξ) : Budget vol 0 Listing.start where
  idle := by
    intro _ _
    obtain ⟨x, post, hsubvolumes, hcursor⟩ := start_position vol
    rw [hcursor]
    refine ⟨[], post, [], vol.contents x, Position.beginning hsubvolumes, ?_⟩
    simp [remaining, Volume.total, hsubvolumes]
    omega
  waiting := by
    intro x off h
    cases h
  ended := by
    intro h
    cases h

/-- **Every step is paid for.** -/
theorem Budget.step {k : Nat} {a : ListAction} (hbudget : Budget vol k s)
    (h : listStep vol s a = .ok s') : Budget vol (k + 1) s' := by
  cases a with
  | readdirp size =>
    obtain ⟨hnone, hended, rfl⟩ := readdirp_ok h
    obtain ⟨pre, post, seen, rest, hpos, hk⟩ := hbudget.idle hnone hended
    refine ⟨nofun, ?_, fun h => absurd (hended.symm.trans h) Bool.false_ne_true⟩
    intro x off hreq
    have hcursor : vol.conf.dhtDeitransform s.cursor = (x, off) := Option.some.inj hreq
    rw [hcursor] at hpos
    exact ⟨pre, post, seen, rest, hpos, by omega⟩
  | answer n =>
    match hreq : s.request with
    | none => simp [listStep, hreq] at h
    | some (x, off) =>
      obtain ⟨pre, post, seen, rest, hpos, hk⟩ := hbudget.waiting x off hreq
      have hended : s.ended ≠ true := by
        intro hended
        rw [(hbudget.ended hended).1] at hreq
        cases hreq
      rcases answer_cases hpos hreq h with ⟨rfl, -⟩ | ⟨batch, rest', rfl, hne, hup, -, rfl⟩ |
        ⟨b, e, rest', rfl, hup, rfl⟩
      · cases post with
        | nil =>
          refine ⟨nofun, nofun, fun _ => ⟨rfl, ?_⟩⟩
          simp only [remaining] at hk
          omega
        | cons y post =>
          refine ⟨nofun, ?_, fun h => absurd h hended⟩
          intro y' off' hrequest'
          cases hrequest'
          refine ⟨_, _, _, _, hpos.next, ?_⟩
          simp only [remaining, map_cons, sum_cons] at hk ⊢
          omega
      · refine ⟨nofun, ?_, fun h => absurd h hended⟩
        intro x' off' hrequest'
        cases hrequest'
        refine ⟨_, _, _, _, hpos.advance hup, ?_⟩
        have hlen : 0 < batch.length := length_pos_iff.mpr hne
        simp only [remaining, length_append] at hk ⊢
        omega
      refine ⟨?_, nofun, fun h => absurd h hended⟩
      intro _ _
      obtain ⟨hcursor, hresume⟩ := hpos.resume hup
      simp only [hcursor]
      refine ⟨_, _, _, _, hresume, ?_⟩
      simp only [remaining, length_append, length_cons] at hk ⊢
      omega

/-- **A listing ends**: it has no more steps than there are entries and subvolumes, twice. -/
theorem listing_bounded {as : List ListAction}
    (hrun : run (listStep vol) Listing.start as = .ok s) : Budget vol as.length s := by
  have hbudget := run_invariant_counted (C := fun _ _ => True)
    (fun _ _ _ _ hbudget _ h => Budget.step hbudget h) (Budget.start vol) (along_true as _) hrun
  simpa using hbudget

theorem listing_goes_on (vol : Volume ξ) (hended : s.ended = false) : ∃ a s', listStep vol s a = .ok s' := by
  match hreq : s.request with
  | none => exact ⟨.readdirp 1, _, by simp [listStep, hreq, hended]; rfl⟩
  | some (x, off) =>
    by_cases hup : vol.conf.subvolumeStatus x = true
    · have hanss := posixFill_answers vol.direntSize s.size (behind (vol.contents x) off)
      exact ⟨.answer _, _, by simp only [listStep, hreq, if_pos hup]; exact if_pos hanss⟩
    · exact ⟨.answer 0, _, by simp only [listStep, hreq]; exact if_neg hup⟩

/-! ## What was listed -/

/-- What is to be shown of some subvolumes. -/
def shownAll (vol : Volume ξ) (xs : List ξ) : List Dirent :=
  xs.flatMap fun x => if vol.conf.subvolumeStatus x then shownOf vol.conf x (vol.contents x) else []

/-- At this position everything before it was listed. -/
def Reached (vol : Volume ξ) (listed : List Dirent) (x : ξ) (off : BitVec 64) : Prop :=
  ∃ pre post seen rest, Position vol x off pre post seen rest ∧ listed = shownAll vol pre ++ shownOf vol.conf x seen

/-- The size is large enough for any entry. -/
def Volume.Fits (vol : Volume ξ) (size : Nat) : Prop :=
  ∀ x ∈ vol.conf.subvolumes, ∀ e ∈ vol.contents x, vol.direntSize e ≤ size

def LargeEnough (vol : Volume ξ) (_ : Listing ξ) : ListAction → Prop
  | .readdirp size => vol.Fits size
  | .answer _ => True

instance (vol : Volume ξ) (s : Listing ξ) : ∀ a, Decidable (LargeEnough vol s a)
  | .readdirp _ => inferInstanceAs (Decidable (∀ _ ∈ _, ∀ _ ∈ _, _))
  | .answer _ => isTrue trivial

/-- **Nothing is left out and nothing comes twice.** -/
structure ListInv (vol : Volume ξ) (s : Listing ξ) : Prop where
  idle : s.request = none → s.ended = false →
    Reached vol s.listed (vol.conf.dhtDeitransform s.cursor).1 (vol.conf.dhtDeitransform s.cursor).2
  waiting : ∀ x off, s.request = some (x, off) → vol.Fits s.size ∧ Reached vol s.listed x off
  ended : s.ended = true → s.request = none ∧ s.listed = shownAll vol vol.conf.subvolumes

theorem ListInv.start (vol : Volume ξ) : ListInv vol Listing.start where
  idle := by
    intro _ _
    obtain ⟨x, post, hsubvolumes, hcursor⟩ := start_position vol
    rw [hcursor]
    exact ⟨[], post, [], vol.contents x, Position.beginning hsubvolumes, rfl⟩
  waiting := by
    intro x off h
    cases h
  ended := by
    intro h
    cases h

theorem shownAll_concat {x : ξ} {off : BitVec 64} {pre post : List ξ} {seen rest : List Dirent}
    (hpos : Position vol x off pre post seen rest) (hrest : vol.conf.subvolumeStatus x = true → rest = []) :
    shownAll vol (pre ++ [x]) = shownAll vol pre ++ shownOf vol.conf x seen := by
  by_cases hup : vol.conf.subvolumeStatus x = true
  · have hseen : vol.contents x = seen := by rw [hpos.contents, hrest hup, append_nil]
    simp [shownAll, hup, hseen]
  have hseen : seen = [] := hpos.down (by simpa using hup)
  simp [shownAll, hup, hseen]

/-- **What one step keeps.** -/
theorem ListInv.step {a : ListAction} (hinv : ListInv vol s) (hlarge : LargeEnough vol s a)
    (h : listStep vol s a = .ok s') : ListInv vol s' := by
  cases a with
  | readdirp size =>
    obtain ⟨hnone, hended, rfl⟩ := readdirp_ok h
    have hreach := hinv.idle hnone hended
    refine ⟨nofun, ?_, fun h => absurd (hended.symm.trans h) Bool.false_ne_true⟩
    intro x off hreq
    have hcursor : vol.conf.dhtDeitransform s.cursor = (x, off) := Option.some.inj hreq
    rw [hcursor] at hreach
    exact ⟨hlarge, hreach⟩
  | answer n =>
    match hreq : s.request with
    | none => simp [listStep, hreq] at h
    | some (x, off) =>
      obtain ⟨hfits, pre, post, seen, rest, hpos, hlisted⟩ := hinv.waiting x off hreq
      have hended : s.ended ≠ true := by
        intro hended
        rw [(hinv.ended hended).1] at hreq
        cases hreq
      rcases answer_cases hpos hreq h with ⟨rfl, hempty⟩ | ⟨batch, rest', rfl, hne, hup, hskip, rfl⟩ |
        ⟨b, e, rest', rfl, hup, rfl⟩
      · -- an entry that is left would fit
        have hrest : vol.conf.subvolumeStatus x = true → rest = [] := by
          intro hup
          match rest, hpos, hempty hup with
          | [], _, _ => rfl
          | e :: es, hpos, hempty =>
            have hlarge := hempty e rfl
            have hsmall := hfits x hpos.mem e (by simp [hpos.contents])
            omega
        have hall := shownAll_concat hpos hrest
        cases post with
        | nil =>
          refine ⟨nofun, nofun, fun _ => ⟨rfl, ?_⟩⟩
          show s.listed = _
          rw [hlisted, ← hall, hpos.split]
        | cons y post =>
          refine ⟨nofun, ?_, fun h => absurd h hended⟩
          intro y' off' hrequest'
          cases hrequest'
          refine ⟨hfits, _, _, _, _, hpos.next, ?_⟩
          show s.listed = _
          rw [hlisted, hall]
          simp
      · refine ⟨nofun, ?_, fun h => absurd h hended⟩
        intro x' off' hrequest'
        cases hrequest'
        refine ⟨hfits, _, _, _, _, hpos.advance hup, ?_⟩
        rw [shownOf_append, hskip, append_nil]
        exact hlisted
      refine ⟨?_, nofun, fun h => absurd h hended⟩
      intro _ _
      obtain ⟨hcursor, hresume⟩ := hpos.resume hup
      simp only [hcursor]
      refine ⟨_, _, _, _, hresume, ?_⟩
      simp [hlisted]

/-- **A listing that has ended has everything.** -/
theorem listing_eq {as : List ListAction} (hrun : run (listStep vol) Listing.start as = .ok s)
    (hlarge : Along (listStep vol) (LargeEnough vol) Listing.start as) (hended : s.ended = true) :
    s.listed = shownAll vol vol.conf.subvolumes := by
  have hinv := run_invariant (fun _ _ _ hinv hlarge h => ListInv.step hinv hlarge h) (ListInv.start vol)
    hlarge hrun
  exact (hinv.ended hended).2

/-! ## Every entry once -/

theorem mem_shownAll {xs : List ξ} {y : Dirent} : y ∈ shownAll vol xs ↔
    ∃ x ∈ xs, vol.conf.subvolumeStatus x = true ∧ ∃ e ∈ vol.contents x,
      skipped vol.conf x e = false ∧ y = shownEntry vol.conf x e := by
  unfold shownAll shownOf
  rw [mem_flatMap]
  apply exists_congr
  intro x
  by_cases hup : vol.conf.subvolumeStatus x = true
  · rw [if_pos hup]
    constructor
    · rintro ⟨hx, hy⟩
      obtain ⟨e, he, rfl⟩ := mem_map.mp hy
      obtain ⟨he, hnot⟩ := mem_filter.mp he
      exact ⟨hx, hup, e, he, by simpa using hnot, rfl⟩
    rintro ⟨hx, -, e, he, hnot, rfl⟩
    exact ⟨hx, mem_map_of_mem (mem_filter.mpr ⟨he, by simp [hnot]⟩)⟩
  · simp [hup]

/-- **What the client gets tells the entry and the subvolume**, by its cursor. -/
theorem shownEntry_inj {x x' : ξ} {e' : Dirent} (hx : x ∈ vol.conf.subvolumes) (he : e ∈ vol.contents x)
    (hx' : x' ∈ vol.conf.subvolumes) (he' : e' ∈ vol.contents x')
    (h : shownEntry vol.conf x e = shownEntry vol.conf x' e') : x = x' ∧ e = e' := by
  have hoff : vol.conf.dhtItransform x e.off = vol.conf.dhtItransform x' e'.off := congrArg Dirent.off h
  have hback := congrArg vol.conf.dhtDeitransform hoff
  rw [dhtDeitransform_dhtItransform hx (vol.small x hx e he),
    dhtDeitransform_dhtItransform hx' (vol.small x' hx' e' he')] at hback
  obtain ⟨rfl, hsame⟩ := Prod.mk.inj hback
  have hnd := (nodup_cons.mp (vol.offsets x hx)).2
  exact ⟨rfl, inj_on_of_nodup_map hnd he he' hsame⟩

theorem shownAll_nodup (vol : Volume ξ) : (shownAll vol vol.conf.subvolumes).Nodup := by
  unfold shownAll
  rw [nodup_flatMap]
  constructor
  · intro x hx
    split
    · have hnd : (vol.contents x).Nodup :=
        List.Nodup.of_map Dirent.off (nodup_cons.mp (vol.offsets x hx)).2
      apply (hnd.filter _).map_on
      intro e he e' he' h
      exact (shownEntry_inj hx (mem_filter.mp he).1 hx (mem_filter.mp he').1 h).2
    · exact nodup_nil
  apply List.Pairwise.imp_of_mem _ vol.conf.distinct
  intro x x' hx hx' hne y hy hy'
  obtain ⟨x1, hx1, -, e, he, -, hshown⟩ := mem_shownAll.mp (show y ∈ shownAll vol [x] by simpa [shownAll] using hy)
  obtain ⟨x2, hx2, -, e', he', -, hshown'⟩ :=
    mem_shownAll.mp (show y ∈ shownAll vol [x'] by simpa [shownAll] using hy')
  obtain rfl := mem_singleton.mp hx1
  obtain rfl := mem_singleton.mp hx2
  exact hne (shownEntry_inj hx he hx' he' (hshown.symm.trans hshown')).1

/-- **An entry comes once if it is shown, and never otherwise.** -/
theorem count_shownAll {x : ξ} (hx : x ∈ vol.conf.subvolumes) (hup : vol.conf.subvolumeStatus x = true) (he : e ∈ vol.contents x) :
    (shownAll vol vol.conf.subvolumes).count (shownEntry vol.conf x e) = if skipped vol.conf x e then 0 else 1 := by
  split
  next hskip =>
    rw [count_eq_zero]
    intro hmem
    obtain ⟨x', hx', -, e', he', hnot, h⟩ := mem_shownAll.mp hmem
    obtain ⟨rfl, rfl⟩ := shownEntry_inj hx he hx' he' h
    rw [hskip] at hnot
    cases hnot
  next hskip =>
    apply count_eq_one_of_mem (shownAll_nodup vol)
    exact mem_shownAll.mpr ⟨x, hx, hup, e, he, by simpa using hskip, rfl⟩

def isDirNamed (name : Name) (e : Dirent) : Bool := checkIsDir e.stat && e.name == name

/-- The first subvolume that is up has a directory of that name, and it does not look like a link file. -/
def OnFirst (vol : Volume ξ) (name : Name) : Prop :=
  ∃ x₀, vol.conf.dhtFirstUpSubvol = some x₀ ∧
    ∃ d₀ ∈ vol.contents x₀, isDirNamed name d₀ = true ∧ checkIsLinkfile d₀.stat = false

/-- The listing has one directory of that name, and it is the one of the first subvolume that is up. -/
def ListedOnce (vol : Volume ξ) (listed : List Dirent) (name : Name) : Prop :=
  ∃ x₀, vol.conf.dhtFirstUpSubvol = some x₀ ∧
    ∃ d₀ ∈ vol.contents x₀, listed.filter (isDirNamed name) = [shownEntry vol.conf x₀ d₀]

/-- **When a directory is listed once.** -/
theorem listedOnce_iff (name : Name) : ListedOnce vol (shownAll vol vol.conf.subvolumes) name ↔ OnFirst vol name := by
  apply exists_congr
  intro x₀
  apply and_congr_right
  intro hfst
  have hx0 : x₀ ∈ vol.conf.subvolumes := mem_of_find?_eq_some hfst
  have hup : vol.conf.subvolumeStatus x₀ = true := find?_some hfst
  have hnamed : ∀ x e, isDirNamed name (shownEntry vol.conf x e) = isDirNamed name e := fun _ _ => rfl
  apply exists_congr
  intro d₀
  apply and_congr_right
  intro hd0
  constructor
  · intro hlist
    have hmem : shownEntry vol.conf x₀ d₀ ∈ (shownAll vol vol.conf.subvolumes).filter (isDirNamed name) := by
      simp [hlist]
    obtain ⟨hmem, hdir⟩ := mem_filter.mp hmem
    obtain ⟨x, hx, -, e, he, hnot, h⟩ := mem_shownAll.mp hmem
    obtain ⟨rfl, rfl⟩ := shownEntry_inj hx0 hd0 hx he h
    refine ⟨hdir, ?_⟩
    simp only [skipped, Bool.or_eq_false_iff] at hnot
    exact hnot.1
  rintro ⟨hdir, hlink⟩
  have hnot : skipped vol.conf x₀ d₀ = false := by simp [skipped, hlink, hfst]
  have hmem : shownEntry vol.conf x₀ d₀ ∈ (shownAll vol vol.conf.subvolumes).filter (isDirNamed name) :=
    mem_filter.mpr ⟨mem_shownAll.mpr ⟨x₀, hx0, hup, d₀, hd0, hnot, rfl⟩, hdir⟩
  -- directories come from this subvolume only, and there the name is unique
  have honly : ∀ y ∈ (shownAll vol vol.conf.subvolumes).filter (isDirNamed name), y = shownEntry vol.conf x₀ d₀ := by
    intro y hy
    obtain ⟨hy, hydir⟩ := mem_filter.mp hy
    obtain ⟨x, hx, -, e, he, hshown, rfl⟩ := mem_shownAll.mp hy
    rw [hnamed] at hydir
    obtain ⟨hisdir, hyname⟩ := Bool.and_eq_true_iff.mp hydir
    obtain ⟨-, hname⟩ := Bool.and_eq_true_iff.mp hdir
    simp only [skipped, hisdir, Bool.true_and, Bool.or_eq_false_iff, bne_eq_false_iff_eq] at hshown
    obtain rfl : x = x₀ := Option.some.inj (hshown.2.trans hfst)
    rw [inj_on_of_nodup_map (vol.names x hx) he hd0 (beq_iff_eq.mp hyname |>.trans (beq_iff_eq.mp hname).symm)]
  have hnd := (shownAll_nodup vol).filter (isDirNamed name)
  exact perm_singleton.mp ((perm_ext_iff_of_nodup hnd (by simp)).mpr fun y =>
    ⟨fun hy => mem_singleton.mpr (honly y hy), fun hy => mem_singleton.mp hy ▸ hmem⟩)

/-- **A listing is complete and has nothing twice.** It ends after a bounded number of steps and is never stuck
    before. If the sizes were large enough for one entry, a file of a subvolume that is up has come once if it
    is no link file, and not at all otherwise; nothing else has come; and each directory has come once, from the
    first subvolume that is up, exactly if it is there and does not look like a link file. -/
theorem listing_complete (vol : Volume ξ) (as : List ListAction) (s : Listing ξ)
    (hrun : run (listStep vol) Listing.start as = .ok s) :
    as.length ≤ 2 * vol.total ∧ (s.ended = false → ∃ a s', listStep vol s a = .ok s') ∧
    (Along (listStep vol) (LargeEnough vol) Listing.start as → s.ended = true →
      (∀ x ∈ vol.conf.subvolumes, vol.conf.subvolumeStatus x = true → ∀ e ∈ vol.contents x, checkIsDir e.stat = false →
          s.listed.count (shownEntry vol.conf x e) = if checkIsLinkfile e.stat then 0 else 1) ∧
      (∀ y ∈ s.listed, ∃ x ∈ vol.conf.subvolumes, vol.conf.subvolumeStatus x = true ∧
        ∃ e ∈ vol.contents x, y = shownEntry vol.conf x e) ∧
      ((∀ x ∈ vol.conf.subvolumes, vol.conf.subvolumeStatus x = true → ∀ d ∈ vol.contents x,
        checkIsDir d.stat = true → ListedOnce vol s.listed d.name) ↔
        ∀ x ∈ vol.conf.subvolumes, vol.conf.subvolumeStatus x = true → ∀ d ∈ vol.contents x,
          checkIsDir d.stat = true → OnFirst vol d.name)) := by
  refine ⟨?_, listing_goes_on vol, ?_⟩
  · have hbudget := listing_bounded hrun
    match hrequest : s.request, hended : s.ended with
    | some (x, off), _ =>
      obtain ⟨_, post, _, rest, -, hk⟩ := hbudget.waiting x off hrequest
      simp only [remaining] at hk
      omega
    | none, false =>
      obtain ⟨_, post, _, rest, -, hk⟩ := hbudget.idle hrequest hended
      omega
    | none, true => exact (hbudget.ended hended).2
  intro hlarge hended
  rw [listing_eq hrun hlarge hended]
  refine ⟨?_, ?_, ?_⟩
  · intro x hx hup e he hdir
    rw [count_shownAll hx hup he]
    simp [skipped, hdir]
  · intro y hy
    obtain ⟨x, hx, hup, e, he, -, rfl⟩ := mem_shownAll.mp hy
    exact ⟨x, hx, hup, e, he, rfl⟩
  · simp only [listedOnce_iff]

end

def sampleEntry (name : Name) (mode : BitVec 32) (off : BitVec 64) : Dirent := ⟨name, off, off, 1, 0, ⟨off, mode, 0⟩⟩

/-- A directory on both subvolumes, a file on each, and a link file. -/
def plainVolume : Volume Bool where
  conf := sampleConf
  contents
    | false => [sampleEntry [100] 0o040755 1, sampleEntry [97] 0o100644 2, sampleEntry [98] 0o101000 3]
    | true => [sampleEntry [100] 0o040755 7, sampleEntry [98] 0o100644 9]
  direntSize _ := 48
  names := by decide
  offsets := by decide
  small := by decide

/-- The listing of that volume, in three calls. -/
theorem listing_complete_plain :
    let as : List ListAction := [.readdirp 64, .answer 1, .readdirp 96, .answer 2, .readdirp 50, .answer 1, .answer 0,
      .answer 1, .answer 1, .readdirp 64, .answer 0]
    ∃ s, run (listStep plainVolume) Listing.start as = .ok s ∧ s.ended = true ∧
      s.listed.count (shownEntry sampleConf true (sampleEntry [98] 0o100644 9)) = 1 := by
  intro as
  have hlarge : Along (listStep plainVolume) (LargeEnough plainVolume) Listing.start as := by decide +kernel
  refine ⟨_, rfl, rfl, ?_⟩
  have hfiles := ((listing_complete plainVolume as _ rfl).2.2 hlarge rfl).1
  exact hfiles true (by decide) rfl (sampleEntry [98] 0o100644 9) (by decide) (by decide)

/-- A directory that has the mode of a link file on the first subvolume; another one, and a file, on the second
    only. -/
def oddVolume : Volume Bool where
  conf := sampleConf
  contents
    | false => [sampleEntry [100] 0o041000 1]
    | true => [sampleEntry [101] 0o040755 7, sampleEntry [98] 0o100644 9]
  direntSize _ := 48
  names := by decide
  offsets := by decide
  small := by decide

/-- **Not every listing is complete.** With a size too small for one entry nothing is listed, the file neither,
    though `posix_do_readdir` answers as it should; and with a large one neither of the two directories is. -/
theorem listing_incomplete : (∃ s, run (listStep oddVolume) Listing.start [.readdirp 1, .answer 0, .answer 0] = .ok s ∧
      s.ended = true ∧ s.listed = [] ∧ ∀ x, (posixFill oddVolume.direntSize 1 0 (oddVolume.contents x)).length = 0) ∧
    ∃ s, run (listStep oddVolume) Listing.start
        [.readdirp 96, .answer 1, .answer 0, .answer 2, .readdirp 96, .answer 0] = .ok s ∧
      s.ended = true ∧ s.listed = [shownEntry sampleConf true (sampleEntry [98] 0o100644 9)] := by
  refine ⟨⟨_, rfl, rfl, rfl, ?_⟩, _, rfl, rfl, rfl⟩
  intro x
  cases x <;> rfl

end GlusterFS.Dht
