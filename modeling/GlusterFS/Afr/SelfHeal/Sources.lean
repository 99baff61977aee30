import GlusterFS.Afr.Transaction

/-!
# `Afr.SelfHeal.Sources` — which children a self-heal copies from (`afr_sh_mark_sources`)

The counters of all children make a matrix: row `i` is what child `i` says about the others. A child is
*innocent* if its row is zero, a *fool* if it accuses itself, and *wise* otherwise. The wise children that no
wise child accuses are the sources; if there is no wise child the biggest fool is. `source_not_accused` is
the rule the correctness of a heal rests on: a child that does not accuse itself accuses no source.
-/

namespace GlusterFS.Afr

open GlusterFS.Storage
open List (finRange mem_finRange)

variable {n : Nat} {i j : Fin n}

/-! ## The pending matrix -/

/-- `pending_matrix`: what each child says about each. -/
abbrev PendingMatrix (n : Nat) := Fin n → Fin n → BitVec 32

variable (xattr : Fin n → Xattrs (Fin n))

/-- A child without one of the attributes is an *ignorant* one. -/
def ignorantSubvol (i : Fin n) : Bool := (finRange n).any fun j => (xattr i j).isNone

/-- `afr_sh_build_pending_matrix`: the children that are not ignorant accuse the ignorant ones. -/
def afrShBuildPendingMatrix (type : TransactionType) : PendingMatrix n :=
  fun j i => (xattr j).counters i type.index + if ignorantSubvol xattr i && !ignorantSubvol xattr j then 1 else 0

/-! ## The characters -/

/-- `afr_node_type`. -/
inductive NodeType where
  | innocent
  | fool
  | wise
  deriving DecidableEq, Repr

def afrShIsInnocent (row : Fin n → BitVec 32) : Bool := (finRange n).all fun j => row j == 0

/-- The character of child `i`, by `afr_sh_is_innocent`, `afr_sh_is_fool` and `afr_sh_is_wise`. -/
def nodeType (matrix : PendingMatrix n) (i : Fin n) : NodeType :=
  if afrShIsInnocent (matrix i) then .innocent
  else if matrix i i ≠ 0 then .fool
  else .wise

def afrShAllNodesInnocent (characters : Fin n → NodeType) : Bool := (finRange n).all fun i => characters i == .innocent

def afrShWiseNodesExist (characters : Fin n → NodeType) : Bool := (finRange n).any fun i => characters i == .wise

/-- `afr_sh_compute_wisdom`: the wisdom of a child that is not wise stays `0`. -/
def afrShComputeWisdom (matrix : PendingMatrix n) (characters : Fin n → NodeType) (i : Fin n) : Bool :=
  characters i == .wise && (finRange n).all fun j => !(characters j == .wise && matrix j i != 0)

def afrShWiseNodesConflict (characters : Fin n → NodeType) (wisdom : Fin n → Bool) : Bool :=
  (finRange n).all fun i => !(characters i == .wise && wisdom i)

/-! ## Sizes and owners -/

/-- What is read of a `struct stat`. -/
structure Stat where
  size : Nat
  uid : Nat
  deriving DecidableEq, Repr

/-- One pair of `afr_sh_mark_if_size_differs`. -/
def markPairIfSizeDiffers (buf : Fin n → Stat) (s : PendingMatrix n × Bool) (p : Fin n × Fin n) :
    PendingMatrix n × Bool :=
  if (buf p.1).size ≠ (buf p.2).size ∧ s.1 p.1 p.2 = 0 ∧ s.1 p.2 p.1 = 0 then
    (fun i j => if (i, j) = p ∨ (j, i) = p then 1 else s.1 i j, true)
  else s

variable (buf : Option (Fin n → Stat))

def afrShMarkIfSizeDiffers (matrix : PendingMatrix n) : PendingMatrix n × Bool :=
  match buf with
  | none => (matrix, false)
  | some buf =>
    ((finRange n).flatMap fun i => (finRange n).map fun j => (i, j)).foldl
      (markPairIfSizeDiffers buf) (matrix, false)

/-- The last of the loops that look for a best child: from `start` on, a better one takes its place. -/
def bestOf (better : Fin n → Fin n → Bool) (candidates : List (Fin n)) (start : Fin n) : Fin n :=
  candidates.foldl (fun best i => if better i best then i else best) start

/-- `afr_sh_mark_biggest_fool_as_source`; without any fool it would be the first child. -/
def afrShBiggestFool (characters : Fin n → NodeType) : Option (Fin n) :=
  let fools := (finRange n).filter fun i => characters i == .fool
  (fools.head?.or (finRange n).head?).map fun start =>
    match buf with
    | none => start
    | some buf => bestOf (fun i best => (buf i).size > (buf best).size) fools start

/-- `afr_sh_mark_biggest_as_source`. -/
def afrShBiggest : Option (Fin n) :=
  (finRange n).head?.map fun start =>
    match buf with
    | none => start
    | some buf => bestOf (fun i best => (buf i).size > (buf best).size) (finRange n) start

/-- `afr_sh_mark_lowest_uid_as_source`. -/
def afrShLowestUid : Option (Fin n) :=
  (finRange n).head?.map fun start =>
    match buf with
    | none => start
    | some buf => bestOf (fun i best => (buf i).uid < (buf best).uid) (finRange n) start

/-! ## The sources -/

/-- `afr_self_heal_type`. -/
inductive SelfHealType where
  | data
  | metadata
  | entry
  deriving DecidableEq, Repr

/-- What `afr_sh_mark_sources` leaves: the sources, the matrix, and the number it returns. -/
structure Marked (n : Nat) where
  sources : Fin n → Bool
  matrix : PendingMatrix n
  nsources : Int

def markOne (matrix : PendingMatrix n) (source : Option (Fin n)) : Marked n := ⟨fun i => source == some i, matrix, 1⟩

/-- The matrix after the sizes were compared, which only a data self-heal does. -/
def sizedMatrix (matrix : PendingMatrix n) (type : SelfHealType) : PendingMatrix n × Bool :=
  if type = .data then afrShMarkIfSizeDiffers buf matrix else (matrix, false)

/-- `afr_sh_mark_sources`. The characters are those of the matrix as it was read; the sizes change it only
    afterwards. -/
def afrShMarkSources (matrix : PendingMatrix n) (type : SelfHealType) : Marked n :=
  let characters := nodeType matrix
  let matrix' := (sizedMatrix buf matrix type).1
  let sizeDiffers := (sizedMatrix buf matrix type).2
  if type = .metadata ∧ afrShAllNodesInnocent characters = true then
    markOne matrix' (afrShLowestUid buf)
  else if afrShAllNodesInnocent characters then
    if sizeDiffers then markOne matrix' (afrShBiggest buf) else ⟨fun _ => false, matrix', 0⟩
  else if afrShWiseNodesExist characters then
    let wisdom := afrShComputeWisdom matrix' characters
    if afrShWiseNodesConflict characters wisdom then ⟨fun _ => false, matrix', -1⟩
    else ⟨wisdom, matrix', ((finRange n).countP wisdom : Nat)⟩
  else markOne matrix' (afrShBiggestFool buf characters)

/-! ## What the marking keeps -/

theorem afrShIsInnocent_iff {row : Fin n → BitVec 32} : afrShIsInnocent row = true ↔ ∀ j, row j = 0 := by
  unfold afrShIsInnocent
  rw [List.all_eq_true]
  constructor
  · intro h j
    simpa using h j (mem_finRange j)
  intro h j _
  simpa using h j

variable {matrix : PendingMatrix n}

theorem nodeType_innocent : nodeType matrix i = .innocent ↔ ∀ j, matrix i j = 0 := by
  rw [← afrShIsInnocent_iff]
  unfold nodeType
  split
  next h => exact ⟨fun _ => h, fun _ => rfl⟩
  next h =>
    constructor
    · intro htype
      split at htype <;> cases htype
    · exact fun h' => absurd h' h

theorem nodeType_of_self_zero (h : matrix i i = 0) : nodeType matrix i = .innocent ∨ nodeType matrix i = .wise := by
  unfold nodeType
  split
  · exact .inl rfl
  rw [if_neg (not_not_intro h)]
  exact .inr rfl

theorem sizedMatrix_induct {P : PendingMatrix n → Prop} (type : SelfHealType)
    (hstep : ∀ buf s p, P s.1 → P (markPairIfSizeDiffers buf s p).1) (h : P matrix) :
    P (sizedMatrix buf matrix type).1 := by
  unfold sizedMatrix afrShMarkIfSizeDiffers
  split
  · split
    · exact h
    next buf =>
      generalize ((finRange n).flatMap fun i => (finRange n).map fun j => (i, j)) = ps
      have hfold : ∀ s, P s.1 → P (ps.foldl (markPairIfSizeDiffers buf) s).1 := by
        induction ps with
        | nil => exact fun _ hs => hs
        | cons p ps ih => exact fun s hs => ih _ (hstep buf s p hs)
      exact hfold (matrix, false) h
  · exact h

variable (type : SelfHealType)

theorem sizedMatrix_keeps (h : matrix i j ≠ 0) : (sizedMatrix buf matrix type).1 i j ≠ 0 := by
  refine sizedMatrix_induct (P := fun m => m i j ≠ 0) buf type (fun buf s p hs => ?_) h
  unfold markPairIfSizeDiffers
  split
  · show (if (i, j) = p ∨ (j, i) = p then (1 : BitVec 32) else s.1 i j) ≠ 0
    split
    · decide
    · exact hs
  · exact hs

theorem sizedMatrix_self (h : matrix i i = 0) : (sizedMatrix buf matrix type).1 i i = 0 := by
  refine sizedMatrix_induct (P := fun m => m i i = 0) buf type (fun buf s p hs => ?_) h
  unfold markPairIfSizeDiffers
  split
  next hdiffers =>
    have hp : (i, i) ≠ p := fun heq => hdiffers.1 (by rw [← heq])
    simpa [hp] using hs
  · exact hs

/-- A source by wisdom is accused by no wise child. -/
theorem afrShComputeWisdom_iff {characters : Fin n → NodeType} : afrShComputeWisdom matrix characters i = true ↔
      characters i = .wise ∧ ∀ j, characters j = .wise → matrix j i = 0 := by
  unfold afrShComputeWisdom
  rw [Bool.and_eq_true, beq_iff_eq, List.all_eq_true]
  constructor
  · rintro ⟨hwise, h⟩
    refine ⟨hwise, fun j hj => ?_⟩
    simpa [hj] using h j (mem_finRange j)
  rintro ⟨hwise, h⟩
  refine ⟨hwise, fun j _ => ?_⟩
  by_cases hj : characters j = .wise
  · simp [hj, h j hj]
  · simp [hj]

theorem marked_of_wise (h : nodeType matrix j = .wise) : afrShMarkSources buf matrix type =
      let matrix' := (sizedMatrix buf matrix type).1
      let wisdom := afrShComputeWisdom matrix' (nodeType matrix)
      if afrShWiseNodesConflict (nodeType matrix) wisdom then ⟨fun _ => false, matrix', -1⟩
      else ⟨wisdom, matrix', ((finRange n).countP wisdom : Nat)⟩ := by
  have hnotAll : afrShAllNodesInnocent (nodeType matrix) = false := by
    unfold afrShAllNodesInnocent
    rw [List.all_eq_false]
    exact ⟨j, mem_finRange j, by simp [h]⟩
  have hexist : afrShWiseNodesExist (nodeType matrix) = true := by
    unfold afrShWiseNodesExist
    rw [List.any_eq_true]
    exact ⟨j, mem_finRange j, by simp [h]⟩
  unfold afrShMarkSources
  simp only [hnotAll, hexist, Bool.false_eq_true, and_false, if_false, if_true]

/-- **A child that does not accuse itself accuses no source.** If it is wise, no source is accused by it;
    and otherwise it accuses nobody. -/
theorem source_not_accused {buf : Option (Fin n → Stat)} {type : SelfHealType}
    {f : Fin n} (hself : matrix f f = 0) (hsrc : (afrShMarkSources buf matrix type).sources i = true) :
    matrix f i = 0 := by
  rcases nodeType_of_self_zero hself with hinnocent | hwise
  · exact nodeType_innocent.mp hinnocent i
  rw [marked_of_wise buf type hwise] at hsrc
  dsimp only at hsrc
  split at hsrc
  · cases hsrc
  by_contra hne
  exact sizedMatrix_keeps buf type hne ((afrShComputeWisdom_iff.mp hsrc).2 f hwise)

theorem nodeType_wise (h : nodeType matrix i = .wise) : matrix i i = 0 := by
  unfold nodeType at h
  grind

theorem markOne_count {source : Option (Fin n)} (h : source.isSome = true) :
    (markOne matrix source).nsources = (finRange n).countP (markOne matrix source).sources := by
  obtain ⟨c, rfl⟩ := Option.isSome_iff_exists.mp h
  have hone : (finRange n).count c = 1 := List.count_eq_one_of_mem (List.nodup_finRange n) (mem_finRange c)
  have hsources : (markOne matrix (some c)).sources = (· == c) := by
    funext i
    simp [markOne, eq_comm]
  rw [hsources, ← List.count, hone]
  rfl

/-- Without a wise child exactly one child is marked, or none. -/
theorem marked_without_wise (buf : Option (Fin (n + 1) → Stat)) {matrix : PendingMatrix (n + 1)} (type : SelfHealType)
    (h : ∀ i, nodeType matrix i ≠ .wise) : (afrShMarkSources buf matrix type).nsources =
      (finRange (n + 1)).countP (afrShMarkSources buf matrix type).sources := by
  have hexist : afrShWiseNodesExist (nodeType matrix) = false := by simp [afrShWiseNodesExist, h]
  unfold afrShMarkSources
  dsimp only
  rw [hexist, if_neg Bool.false_ne_true]
  repeat' split
  · exact markOne_count (by simp [afrShLowestUid, List.finRange_succ])
  · exact markOne_count (by simp [afrShBiggest, List.finRange_succ])
  · simp
  · exact markOne_count (by simp [afrShBiggestFool, List.finRange_succ])

/-- **The marking of sources.** No source is accused by a wise child, the number returned is that of the sources, and
    it is a split brain exactly if every wise child is accused by another. -/
theorem sources_marked (buf : Option (Fin (n + 1) → Stat)) (matrix : PendingMatrix (n + 1)) (type : SelfHealType) :
    let m := afrShMarkSources buf matrix type
    let wise := fun i => nodeType matrix i = .wise
    (∀ i j, m.sources i = true → wise j → m.matrix j i = 0) ∧
    (m.nsources = -1 ∨ m.nsources = (finRange (n + 1)).countP m.sources) ∧
    (m.nsources = -1 ↔ (∃ i, wise i) ∧ ∀ i, wise i → ∃ j, j ≠ i ∧ wise j ∧ m.matrix j i ≠ 0) := by
  dsimp only
  by_cases hwise : ∃ f, nodeType matrix f = .wise
  · obtain ⟨f, hf⟩ := hwise
    rw [marked_of_wise buf type hf]
    dsimp only
    split
    next hconflict =>
      refine ⟨nofun, .inl rfl, fun _ => ⟨⟨f, hf⟩, fun i hi => ?_⟩, fun _ => rfl⟩
      have hnot := List.all_eq_true.mp hconflict i (mem_finRange i)
      simp only [hi, beq_self_eq_true, Bool.true_and, Bool.not_eq_true', ← Bool.not_eq_true,
        afrShComputeWisdom_iff, true_and, not_forall] at hnot
      obtain ⟨j, hj, haccuses⟩ := hnot
      refine ⟨j, ?_, hj, haccuses⟩
      rintro rfl
      exact haccuses (sizedMatrix_self buf type (nodeType_wise hj))
    next hnone =>
      refine ⟨fun i j hi hj => (afrShComputeWisdom_iff.mp hi).2 j hj, .inr rfl, fun h => ?_, fun ⟨_, hall⟩ => ?_⟩
      · exact absurd h (Int.natCast_nonneg _ |>.trans_lt' (by decide)).ne'
      refine absurd (List.all_eq_true.mpr fun i _ => ?_) hnone
      by_contra hi
      simp only [Bool.not_eq_true', Bool.not_eq_false, Bool.and_eq_true, beq_iff_eq, afrShComputeWisdom_iff] at hi
      obtain ⟨j, -, hj, haccuses⟩ := hall i hi.1
      exact haccuses (hi.2.2 j hj)
  have hcount := marked_without_wise buf type (not_exists.mp hwise)
  refine ⟨fun i j _ hj => absurd ⟨j, hj⟩ hwise, .inr hcount, fun h => ?_, fun h => absurd h.1 hwise⟩
  rw [hcount] at h
  omega

/-- The matrix has at least the accusations of the counters, as long as they do not overflow. -/
theorem afrShBuildPendingMatrix_ne_zero {xattr : Fin n → Xattrs (Fin n)} {type : TransactionType} {c : Nat} (hcounter : (xattr j).counters i type.index = BitVec.ofNat 32 c)
    (hpos : 1 ≤ c) (hroom : c + 1 < 2 ^ 32) : afrShBuildPendingMatrix xattr type j i ≠ 0 := by
  unfold afrShBuildPendingMatrix
  rw [hcounter]
  have hsmall : ∀ k, 1 ≤ k → k < 2 ^ 32 → BitVec.ofNat 32 k ≠ 0 := by
    intro k hk hlt h
    have htoNat := congrArg BitVec.toNat h
    rw [BitVec.toNat_ofNat, Nat.mod_eq_of_lt hlt] at htoNat
    exact absurd htoNat (by simpa using Nat.one_le_iff_ne_zero.mp hk)
  split
  · show BitVec.ofNat 32 c + BitVec.ofNat 32 1 ≠ 0
    rw [← BitVec.ofNat_add]
    exact hsmall (c + 1) (by omega) hroom
  show BitVec.ofNat 32 c + 0#32 ≠ 0
  rw [BitVec.add_zero]
  exact hsmall c hpos (by omega)

theorem afrShBuildPendingMatrix_self (type : TransactionType)
    (i : Fin n) : afrShBuildPendingMatrix xattr type i i = (xattr i).counters i type.index := by
  unfold afrShBuildPendingMatrix
  rw [Bool.and_not_self, if_neg Bool.false_ne_true]
  exact BitVec.add_zero _

end GlusterFS.Afr
