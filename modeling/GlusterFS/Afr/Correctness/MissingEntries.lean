import GlusterFS.Afr.SelfHeal.MissingEntries

/-!
# `Afr.Correctness.MissingEntries` — creating a name while children are down

`sh_missing_entries_create` looks at the children in order. One that is down has left zeros in both arrays: ahead of
the first child that has the name they say nothing, but behind it they look like an object of another type
(`createScan_eq`).
-/

namespace GlusterFS.Afr

open List

variable {n : Nat} {childUp : Fin n → Bool} {has : Fin n → Option Object}

/-- The child is asked and does not have the name. -/
def lacks (childUp : Fin n → Bool) (has : Fin n → Option Object) (i : Fin n) : Bool := childUp i && (has i).isNone

theorem createScan_ahead (is : List (Fin n)) (st : CreateScan n) (htype : st.type = none)
    (hnone : ∀ i ∈ is, childUp i = true → has i = none) :
    ∃ source, is.foldl (createScanStep (missingErrno childUp has) (missingBits childUp has)) st =
      ⟨st.enoentCount + is.countP (lacks childUp has), none, source, st.govinda⟩ := by
  induction is generalizing st with
  | nil => exact ⟨st.source, by rw [← htype]; rfl⟩
  | cons i is ih =>
    have hi := hnone i mem_cons_self
    have hrest := fun j hj => hnone j (mem_cons_of_mem i hj)
    rw [foldl_cons, countP_cons]
    cases hup : childUp i with
    | false =>
      have hstep : createScanStep (missingErrno childUp has) (missingBits childUp has) st i =
          { st with source := some i, type := none } := by
        simp [createScanStep, missingErrno, missingBits, hup, htype]
      rw [hstep]
      simpa [lacks, hup] using ih { st with source := some i, type := none } rfl hrest
    | true =>
      have hstep : createScanStep (missingErrno childUp has) (missingBits childUp has) st i =
          { st with enoentCount := st.enoentCount + 1 } := by
        simp [createScanStep, missingErrno, hup, hi hup]
      rw [hstep]
      obtain ⟨source, hih⟩ := ih { st with enoentCount := st.enoentCount + 1 } htype hrest
      refine ⟨source, hih.trans ?_⟩
      simp [lacks, hup, hi hup, Nat.add_assoc, Nat.add_comm 1]

theorem createScan_behind {type : FileType} (is : List (Fin n)) (st : CreateScan n) (htype : st.type = some type)
    (hagree : ∀ i o, childUp i = true → has i = some o → o.type = type) :
    is.foldl (createScanStep (missingErrno childUp has) (missingBits childUp has)) st =
      ⟨st.enoentCount + is.countP (lacks childUp has), some type, st.source, st.govinda || is.any (!childUp ·)⟩ := by
  induction is generalizing st with
  | nil => simp [← htype]
  | cons i is ih =>
    rw [foldl_cons, countP_cons, any_cons]
    cases hup : childUp i with
    | false =>
      have hstep : createScanStep (missingErrno childUp has) (missingBits childUp has) st i =
          { st with govinda := true } := by
        simp [createScanStep, missingErrno, missingBits, hup, htype]
      rw [hstep, ih { st with govinda := true } htype]
      simp [lacks, hup]
    | true =>
      cases hhas : has i with
      | none =>
        have hstep : createScanStep (missingErrno childUp has) (missingBits childUp has) st i =
            { st with enoentCount := st.enoentCount + 1 } := by
          simp [createScanStep, missingErrno, hup, hhas]
        rw [hstep, ih { st with enoentCount := st.enoentCount + 1 } htype]
        simp [lacks, hup, hhas, Nat.add_assoc, Nat.add_comm 1]
      | some o =>
        have hstep : createScanStep (missingErrno childUp has) (missingBits childUp has) st i = st := by
          simp [createScanStep, missingErrno, missingBits, hup, hhas, htype, hagree i o hup hhas]
        rw [hstep, ih st htype]
        simp [lacks, hup, hhas]

variable {src : Fin n} {o : Object}

/-- **What the loop finds**: the type of the first child that has the name, and a conflict if a child behind it is
    down. -/
theorem createScan_eq (hfirst : (finRange n).find? (fun i => childUp i && (has i).isSome) = some src)
    (hsrc : has src = some o) (hagree : ∀ i p, childUp i = true → has i = some p → p.type = o.type) :
    createScan (missingErrno childUp has) (missingBits childUp has) =
      ⟨(finRange n).countP (lacks childUp has), some o.type, some src,
        (finRange n).any fun i => decide (src < i) && !childUp i⟩ := by
  obtain ⟨hup, pre, post, hsplit, hpre⟩ := find?_eq_some_iff_append.mp hfirst
  rw [Bool.and_eq_true] at hup
  have hsorted := pairwise_lt_finRange n
  rw [hsplit, pairwise_append, pairwise_cons] at hsorted
  obtain ⟨-, ⟨hpost, -⟩, hbefore⟩ := hsorted
  have hahead : ∀ i ∈ pre, childUp i = true → has i = none := by
    intro i hi hiup
    simpa [hiup] using hpre i hi
  obtain ⟨source, hpre'⟩ := createScan_ahead pre ⟨0, none, none, false⟩ rfl hahead
  have hstep : createScanStep (missingErrno childUp has) (missingBits childUp has)
      ⟨0 + pre.countP (lacks childUp has), none, source, false⟩ src =
      ⟨0 + pre.countP (lacks childUp has), some o.type, some src, false⟩ := by
    simp [createScanStep, missingErrno, missingBits, hup.1, hsrc]
  unfold createScan
  rw [hsplit, foldl_append, hpre', foldl_cons, hstep, createScan_behind post _ rfl hagree]
  have hnone : pre.any (fun i => decide (src < i) && !childUp i) = false := by
    rw [any_eq_false]
    intro i hi
    simp [(hbefore i hi src mem_cons_self).le]
  have hdown : post.any (fun i => decide (src < i) && !childUp i) = post.any (!childUp ·) := by
    rw [Bool.eq_iff_iff, any_eq_true, any_eq_true]
    refine exists_congr fun i => and_congr_right fun hi => ?_
    simp [hpost i hi]
  simp [hnone, hdown, lacks, hsrc]

/-- What is made has the number of the source exactly if the source is no device or has it as its `st_dev`. -/
theorem Object.made_eq_iff {dev : Nat} : Object.made o.type dev = o ↔ (o.type.isDevice = true → dev = o.rdev) := by
  obtain ⟨type, rdev, plain⟩ := o
  cases hdev : type.isDevice with
  | false => simp [made, hdev, plain hdev]
  | true => simp [made, hdev]

/-- **The name is created**, with its type and device number and without a conflict, exactly if no child behind the
    first one that has it is down, its type is one of the seven, and a device has its own number as its `st_dev`. -/
theorem missing_entry_created_iff (childUp : Fin n → Bool) (has : Fin n → Option Object) (stDev : Fin n → Nat)
    (src : Fin n) (o : Object) (hfirst : (finRange n).find? (fun i => childUp i && (has i).isSome) = some src)
    (hsrc : has src = some o) (hagree : ∀ i p, childUp i = true → has i = some p → p.type = o.type)
    (hlacks : ∃ i, childUp i = true ∧ has i = none) :
    (shMissingEntriesGovinda (missingErrno childUp has) (missingBits childUp has) = false ∧
      ∀ i, childUp i = true → has i = none → shMissingEntriesMade childUp has stDev i = some o) ↔
    (∀ i, src < i → childUp i = true) ∧ (∀ k, o.type ≠ .other k) ∧ (o.type.isDevice = true → stDev src = o.rdev) := by
  have hscan := createScan_eq hfirst hsrc hagree
  obtain ⟨i, hup, hnone⟩ := hlacks
  have hcount : (finRange n).countP (lacks childUp has) ≠ 0 :=
    (countP_pos_iff.mpr ⟨i, mem_finRange i, by simp [lacks, hup, hnone]⟩).ne'
  have hgov : shMissingEntriesGovinda (missingErrno childUp has) (missingBits childUp has) = false ↔
      (∀ i, src < i → childUp i = true) ∧ ∀ k, o.type ≠ .other k := by
    unfold shMissingEntriesGovinda
    rw [hscan]
    cases o.type <;> simp [hcount]
  rw [hgov, ← and_assoc]
  refine and_congr_right fun ⟨hbehind, hknown⟩ => ?_
  have hcreate : shMissingEntriesCreate (missingErrno childUp has) (missingBits childUp has) true false =
      some o.type := by
    unfold shMissingEntriesCreate
    rw [hscan]
    cases htype : o.type <;> simp_all
  have hmade (j : Fin n) (hj : childUp j = true) (hjnone : has j = none) :
      shMissingEntriesMade childUp has stDev j = some (.made o.type (stDev src)) := by
    simp [shMissingEntriesMade, hcreate, hscan, missingErrno, hj, hjnone]
  rw [← Object.made_eq_iff]
  constructor
  · intro h
    exact Option.some.inj ((hmade i hup hnone).symm.trans (h i hup hnone))
  · intro h j hj hjnone
    rw [hmade j hj hjnone, h]

/-- A regular file on the second of three children; the first one is down. -/
theorem created_behind_down :
    shMissingEntriesMade (n := 3) (fun i => i != 0) (fun i => if i = 1 then some ⟨.reg, 0, fun _ => rfl⟩ else none)
      (fun _ => 7) 2 = some ⟨.reg, 0, fun _ => rfl⟩ := by
  refine ((missing_entry_created_iff _ _ _ 1 ⟨.reg, 0, fun _ => rfl⟩ (by decide) rfl ?_ ⟨2, by decide⟩).mpr ?_).2 2
    rfl rfl
  · intro i p _ hp
    cases (Option.ite_none_right_eq_some.mp hp).2
    rfl
  · exact ⟨by decide, nofun, nofun⟩

/-- The last of three children is down, and the heal declares a conflict; without it, a device is created with the
    number of the device it is stored on. -/
theorem down_child_conflicts :
    shMissingEntriesGovinda (n := 3) (missingErrno (fun i => i != 2)
      fun i => if i = 0 then some ⟨.reg, 0, fun _ => rfl⟩ else none)
      (missingBits (fun i => i != 2) fun i => if i = 0 then some ⟨.reg, 0, fun _ => rfl⟩ else none) = true ∧
    (shMissingEntriesMade (n := 2) (fun _ => true) (fun i => if i = 0 then some ⟨.chr, 259, nofun⟩ else none)
      (fun _ => 7) 1).map Object.rdev = some 7 := by
  decide

end GlusterFS.Afr
