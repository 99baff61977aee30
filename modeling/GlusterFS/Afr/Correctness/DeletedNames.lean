import GlusterFS.Afr.SelfHeal.MissingEntries

/-!
# `Afr.Correctness.DeletedNames` — a name that was deleted, and the lookups after it

The heal of a lookup creates a name only if a child that was asked still has it (`create_has_source`). After an
unlink that all children executed there is no such child; but a child that was down during the unlink has
the name still, and the first lookup that reaches it brings the name back, although the counters of the parent
directory accuse that child.
-/

namespace GlusterFS.Afr

open GlusterFS.Storage Transition

variable {n : Nat}

/-! ## What the heal creates -/

variable {bits : Fin n → Option FileType} {errno : Fin n → Option LookupErrno}

theorem createScan_type {type : FileType}
    (h : (createScan errno bits).type = some type) : ∃ i, errno i = none ∧ bits i = some type := by
  have hfold : ∀ (is : List (Fin n)) (st : CreateScan n),
      (∀ t, st.type = some t → ∃ i, errno i = none ∧ bits i = some t) →
      ∀ t, (is.foldl (createScanStep errno bits) st).type = some t → ∃ i, errno i = none ∧ bits i = some t := by
    intro is
    induction is with
    | nil =>
      intro st hst
      exact hst
    | cons i is ih =>
      intro st hst
      refine ih _ fun t ht => ?_
      unfold createScanStep at ht
      split at ht
      · split at ht
        all_goals exact hst t ht
      next hnone =>
        split at ht
        · split at ht
          all_goals exact hst t ht
        · exact ⟨i, hnone, ht⟩
  exact hfold (List.finRange n) ⟨0, none, none, false⟩ (fun t ht => by cases ht) type h

/-- **Only what some child has is created.** -/
theorem create_has_source
    {readlink isRoot : Bool} {type : FileType} (h : shMissingEntriesCreate errno bits readlink isRoot = some type) :
    ∃ i, errno i = none ∧ bits i ≠ none := by
  unfold shMissingEntriesCreate at h
  dsimp only at h
  split at h
  · cases h
  split at h
  · cases h
  next t ht =>
    obtain ⟨i, hi, hbits⟩ := createScan_type ht
    exact ⟨i, hi, by rw [hbits]; exact Option.some_ne_none t⟩

/-! ## Histories -/

/-- The lookup starts no heal of missing entries, or a lock is refused, or no child that answers has the name. -/
def LookupRun.FindsNothing (r : LookupRun n) (s : NameState n) : Prop :=
  r.heals = false ∨ r.locked = false ∨ ∀ i, r.childUp i = true → r.fails i = none → s.entry i = none

def NameEvent.FindsNothing (s : NameState n) : NameEvent n → Prop
  | .unlink _ => True
  | .lookup r => r.FindsNothing s

theorem NameState.lookup_entry {s : NameState n} {r : LookupRun n} (h : r.FindsNothing s) :
    (s.lookup r).entry = s.entry := by
  unfold NameState.lookup
  split
  next hheals =>
    rw [Bool.and_eq_true] at hheals
    have hnone : ∀ i, r.childUp i = true → r.fails i = none → s.entry i = none :=
      (h.resolve_left (by simp [hheals.1])).resolve_left (by simp [hheals.2])
    funext i
    show r.missingEntries s i = s.entry i
    unfold LookupRun.missingEntries
    split
    · rfl
    next type hcreate =>
      -- the type would be that of a child which answered and has the name
      obtain ⟨j, -, hbits⟩ := create_has_source hcreate
      refine absurd ?_ hbits
      unfold LookupRun.bits
      split
      next hup =>
        rw [Bool.and_eq_true, Option.isNone_iff_eq_none] at hup
        exact hnone j hup.1 hup.2
      · rfl
  · rfl

/-- Where the name was deleted it is gone. -/
def DeletedGone (s : NameState n) : Prop := ∀ i, s.deleted i = true → s.entry i = none

theorem DeletedGone.step {parent name : Path} {s s' : NameState n} {e : NameEvent n} (h : DeletedGone s)
    (hquiet : e.FindsNothing s) (hstep : nameStep parent name s e = .ok s') : DeletedGone s' := by
  cases e with
  | unlink u =>
    cases hstep
    intro i hi
    show (if u.removes (afrTransaction u.priv (unlinkOf parent name) u.env s.store) i then none else s.entry i) = none
    split
    · rfl
    next hkept =>
      refine h i ?_
      simpa [NameState.unlink, hkept] using hi
  | lookup r =>
    cases hstep
    have hdeleted : (s.lookup r).deleted = s.deleted := by
      unfold NameState.lookup
      split <;> rfl
    intro i hi
    rw [NameState.lookup_entry hquiet]
    exact h i (hdeleted ▸ hi)

/-- **A deleted name stays deleted** on every child from which it was deleted, through all unlinks and lookups after
    it, as long as no lookup finds a child that still has the name. -/
theorem deleted_name_stays_deleted (parent name : Path) (s₀ s : NameState n) (es : List (NameEvent n))
    (hnew : ∀ i, s₀.deleted i = false) (hquiet : Along (nameStep parent name) NameEvent.FindsNothing s₀ es)
    (hrun : run (nameStep parent name) s₀ es = .ok s) : ∀ i, s.deleted i = true → s.entry i = none := by
  refine run_invariant (I := DeletedGone) (fun _ _ _ h hq hs => h.step hq hs) ?_ hquiet hrun
  intro i hi
  exact absurd ((hnew i).symm.trans hi) Bool.false_ne_true

/-! ## Two children -/

/-- Both children have the file, and no counter is set. -/
def bothHave : NameState 2 := ⟨fun _ => some .reg, fun _ _ _ => none, fun _ => false⟩

/-- The first child is up, and the second if `both`. -/
def upChildren (both : Bool) (i : Fin 2) : Bool := i = 0 || both

theorem preOrder_kept (rs : List (Fin 2 × Reply)) : (id rs).Perm rs := .refl rs

theorem fopOrder_kept (is : List (Fin 2)) : (id is).Perm is := .refl is

/-- An unlink that succeeds on the children that are up. -/
def unlinkWith (both : Bool) : UnlinkRun 2 :=
  { priv := ⟨upChildren both, true, true, true, 1, 1, 1⟩
    env :=
      { lockLower := fun _ => .ok, lock := fun _ => .ok, preOp := fun _ _ => ⟨none, none⟩, preOrder := id,
        preOrder_perm := preOrder_kept, fop := fun _ => .ok, fopOrder := id,
        fopOrder_perm := fopOrder_kept, postOp := fun _ _ => ⟨none, none⟩ }
    applied := fun _ => false }

/-- A first lookup after the name was deleted on the first child; nothing fails. -/
def lookupWith (both : Bool) : LookupRun 2 :=
  { params := ⟨none, 0, false, false, false⟩
    childUp := upChildren both
    replies := fun i => if i = 0 then .error .enoent else .ok ⟨.reg, 0o644, 0, 0, 10⟩ (fun _ => none) 0 0 0
    order := if both then [0, 1] else [0]
    readChild := none
    lock := fun _ => true
    fails := fun _ => none
    creates := fun _ => true
    readlink := true
    isRoot := false }

/-- The state after a history of total steps. -/
def afterUnlink (both : Bool) : NameState 2 := bothHave.unlink "/d" "/d/f" (unlinkWith both)

/-- As long as the stale child is down, its copy does no harm. -/
theorem stale_child_down : ∃ s, run (nameStep "/d" "/d/f") bothHave [.unlink (unlinkWith false), .lookup (lookupWith false)] =
    .ok s ∧ s.deleted 0 = true ∧ s.entry 1 = some .reg ∧ ∀ i, s.deleted i = true → s.entry i = none := by
  refine ⟨(afterUnlink false).lookup (lookupWith false), rfl, by decide +kernel, by decide +kernel, ?_⟩
  refine deleted_name_stays_deleted "/d" "/d/f" bothHave _ [.unlink (unlinkWith false), .lookup (lookupWith false)]
    (fun _ => rfl) ?_ rfl
  refine ⟨trivial, fun s1 hs1 => ⟨.inl (by decide +kernel), fun s2 _ => trivial⟩⟩

/-- **A lookup brings the name back.** The unlink is acknowledged and the first child accuses the second one in the entry
    counters of the directory; the second child comes up, and the lookup creates the file on the first. -/
theorem lookup_recreates_deleted :
    (unlinkWith false).acks (afrTransaction (unlinkWith false).priv (unlinkOf "/d" "/d/f") (unlinkWith false).env
      bothHave.store) = true ∧
    ((afterUnlink false).entry 0, (afterUnlink false).entry 1) = (none, some .reg) ∧
    (Xattrs.counters ((afterUnlink false).store 0 "/d") 1 TransactionType.entry.index,
      Xattrs.counters ((afterUnlink false).store 0 "/d") 0 TransactionType.entry.index) = (1, 0) ∧
    (afterUnlink false).deleted 0 = true ∧
    ((afterUnlink false).lookup (lookupWith true)).entry 0 = some .reg := by
  decide +kernel

end GlusterFS.Afr
