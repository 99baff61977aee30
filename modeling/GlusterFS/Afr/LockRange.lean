import GlusterFS.Locks.Inodelk

/-!
# `Afr.LockRange` — the byte ranges the data transactions lock

A data transaction locks the range it gives as `transaction.start` and `transaction.len`, and the locks
translator makes a lock of it, where a length of `0` reaches to the end of the file. A `writev` gives the
bytes it writes, or everything if the fd is open for appending. A truncation to offset `o` gives start `0`
and length `o`: it locks the bytes it keeps and not those it cuts off, except for `o = 0`, which is a lock on
the whole file.
-/

namespace GlusterFS.Afr

open GlusterFS.Locks

variable {b : Int}

/-! ## The operations -/

/-- An `off_t` that is not negative. -/
structure Offset where
  val : Int
  nonneg : 0 ≤ val
  le_max : val ≤ llongMax

/-- The data transactions, with what they work on. An `append` is a `writev` on an fd that is open with
    `O_APPEND`: it writes wherever the end of the file is. The length of a write is that of its vector. -/
inductive DataOp where
  | write (offset len : Offset)
  | append (position len : Offset)
  | truncate (offset : Offset)
  | ftruncate (offset : Offset)

/-- The bytes an operation touches. -/
def DataOp.touched : DataOp → Set Int
  | .write offset len => Set.Ico offset.val (offset.val + len.val)
  | .append position len => Set.Ico position.val (position.val + len.val)
  | .truncate offset => Set.Ici offset.val
  | .ftruncate offset => Set.Ici offset.val

/-- `transaction.start` and `transaction.len`, as set by `afr_do_writev`, `afr_truncate` and
    `afr_do_ftruncate`. -/
def DataOp.range : DataOp → Int × Int
  | .write offset len => (offset.val, len.val)
  | .append _ _ => (0, 0)
  | .truncate offset => (0, offset.val)
  | .ftruncate offset => (0, offset.val)

/-- The lock `afr_lock_rec` asks for, as `new_inode_lock` makes it. -/
def DataOp.lock (op : DataOp) (transport owner : Nat) : InodeLock :=
  let flock : Flock := ⟨.wrlck, 0, op.range.1, op.range.2, 0⟩
  { flType := flock.lType, flStart := flock.lStart, flEnd := flEndOf flock, transport := transport, owner := owner }

/-! ## Where the locks end -/

theorem flEndOf_eq (start len : Offset) : flEndOf ⟨.wrlck, 0, start.val, len.val, 0⟩ = if len.val = 0 then llongMax
      else if start.val + len.val - 1 ≤ llongMax then start.val + len.val - 1
      else start.val + len.val - 1 - 2 ^ 64 := by
  have hs := start.nonneg
  have hs' := start.le_max
  have hl := len.nonneg
  have hl' := len.le_max
  unfold flEndOf
  dsimp only
  split
  · rfl
  apply offT_eq
  · omega
  unfold llongMax at hs' hl'
  omega

def Offset.zero : Offset := ⟨0, le_refl 0, by decide⟩

def DataOp.startOf : DataOp → Offset
  | .write offset _ => offset
  | _ => .zero

def DataOp.lenOf : DataOp → Offset
  | .write _ len => len
  | .append _ _ => .zero
  | .truncate offset => offset
  | .ftruncate offset => offset

theorem DataOp.range_eq (op : DataOp) : op.range = (op.startOf.val, op.lenOf.val) := by
  cases op <;> rfl

/-- The last byte an operation locks. -/
def DataOp.lockEnd (op : DataOp) : Int := flEndOf ⟨.wrlck, 0, op.startOf.val, op.lenOf.val, 0⟩

theorem overlap_iff (x y : DataOp) (t1 o1 t2 o2 : Nat) : inodelkOverlap (x.lock t1 o1) (y.lock t2 o2) = true ↔
      y.startOf.val ≤ x.lockEnd ∧ x.startOf.val ≤ y.lockEnd := by
  unfold inodelkOverlap DataOp.lock DataOp.lockEnd
  rw [Bool.and_eq_true, decide_eq_true_eq, decide_eq_true_eq, x.range_eq, y.range_eq]

/-- The last byte of a write does not fit into an `off_t`. -/
def DataOp.Wraps : DataOp → Prop
  | .write offset len => llongMax < offset.val + len.val - 1
  | _ => False

variable {op : DataOp}

theorem DataOp.lockEnd_of_wraps (h : op.Wraps) : op.lockEnd < 0 := by
  cases op with
  | write offset len =>
    have hwraps : llongMax < offset.val + len.val - 1 := h
    have ho := offset.le_max
    have hl := len.le_max
    unfold DataOp.lockEnd
    rw [flEndOf_eq]
    show (if len.val = 0 then _ else if offset.val + len.val - 1 ≤ _ then _ else _) < _
    rw [if_neg (by omega), if_neg (by omega)]
    show offset.val + len.val - 1 - 2 ^ 64 < 0
    unfold llongMax at ho hl
    omega
  | append position len | truncate offset | ftruncate offset => cases h

theorem DataOp.lockEnd_of_fits (h : ¬ op.Wraps) :
    op.lockEnd = if op.lenOf.val = 0 then llongMax else op.startOf.val + op.lenOf.val - 1 := by
  have hle : op.startOf.val + op.lenOf.val - 1 ≤ llongMax := by
    cases op with
    | write offset len => exact not_lt.mp h
    | append position len =>
      show (0 : Int) + 0 - 1 ≤ llongMax
      decide
    | truncate offset | ftruncate offset =>
      have := offset.le_max
      show 0 + offset.val - 1 ≤ llongMax
      omega
  unfold DataOp.lockEnd
  rw [flEndOf_eq, if_pos hle]

/-! ## The bytes two operations have in common -/

/-- The first byte an operation touches, if it touches any. -/
def DataOp.first : DataOp → Int
  | .write offset _ => offset.val
  | .append position _ => position.val
  | .truncate offset => offset.val
  | .ftruncate offset => offset.val

theorem DataOp.first_le (h : b ∈ op.touched) : op.first ≤ b := by
  cases op with
  | write offset len | append position len => exact h.1
  | truncate offset | ftruncate offset => exact h

/-- From any byte it touches, an operation touches every byte back to its first. -/
theorem DataOp.touched_of_le {b' : Int} (h : b ∈ op.touched) (hfst : op.first ≤ b')
    (hle : b' ≤ b) : b' ∈ op.touched := by
  cases op with
  | write offset len | append position len => exact ⟨hfst, lt_of_le_of_lt hle h.2⟩
  | truncate offset | ftruncate offset => exact hfst

theorem DataOp.first_le_max (op : DataOp) : op.first ≤ llongMax := by
  cases op with
  | write offset len => exact offset.le_max
  | append position len => exact position.le_max
  | truncate offset | ftruncate offset => exact offset.le_max

variable {x y : DataOp}

/-- A write that wraps touches every offset from its first one on, so it has a byte in common with whatever
    goes that far. -/
theorem common_of_wraps (h : x.Wraps) (hb : b ∈ y.touched) (hle : x.first ≤ b) :
    ∃ b, b ∈ x.touched ∧ b ∈ y.touched := by
  refine ⟨max x.first y.first, ?_, ?_⟩
  · cases x with
    | write offset len =>
      have hwraps : llongMax < offset.val + len.val - 1 := h
      have hy := y.first_le_max
      have ho := offset.le_max
      refine ⟨le_max_left _ _, ?_⟩
      show max offset.val y.first < offset.val + len.val
      omega
    | append position len | truncate offset | ftruncate offset => cases h
  · exact DataOp.touched_of_le hb (le_max_right _ _) (max_le hle (DataOp.first_le hb))

/-! ## Serialisation -/

/-- A truncation and a write that touches anything: the write begins in the part of the file that the
    truncation locks. -/
def DataOp.Reaches : DataOp → DataOp → Prop
  | .truncate o, .write offset len => o.val = 0 ∨ len.val = 0 ∨ offset.val < o.val
  | .ftruncate o, .write offset len => o.val = 0 ∨ len.val = 0 ∨ offset.val < o.val
  | _, _ => True

/-- A write that wraps is not met: the other operation stays in front of it. -/
def DataOp.StaysInFront (x y : DataOp) : Prop := x.Wraps → ∀ b ∈ y.touched, b < x.first

/-- What is to be shown of two operations, on the numbers. -/
def DataOp.Serialised (x y : DataOp) : Prop :=
  (∃ b, b ∈ x.touched ∧ b ∈ y.touched) → y.startOf.val ≤ x.lockEnd ∧ x.startOf.val ≤ y.lockEnd

theorem DataOp.Serialised.symm (h : x.Serialised y) : y.Serialised x := by
  rintro ⟨b, hy, hx⟩
  exact (h ⟨b, hx, hy⟩).symm

theorem serialised_comm (x y : DataOp) : x.Serialised y ↔ y.Serialised x := ⟨.symm, .symm⟩

theorem DataOp.startOf_le_lockEnd (h : ¬ op.Wraps) : op.startOf.val ≤ op.lockEnd := by
  have hs := op.startOf.le_max
  have hl := op.lenOf.nonneg
  rw [DataOp.lockEnd_of_fits h]
  split
  · exact hs
  · omega

theorem serialised_append (position len : Offset) (hy : ¬ y.Wraps) : (DataOp.append position len).Serialised y := by
  intro _
  have hstart := y.startOf.nonneg
  have hend := DataOp.startOf_le_lockEnd hy
  refine ⟨y.startOf.le_max, ?_⟩
  show 0 ≤ y.lockEnd
  omega

theorem serialised_of_zero (hx : x.startOf = .zero) (hy : y.startOf = .zero)
    (hfx : ¬ x.Wraps) (hfy : ¬ y.Wraps) : x.Serialised y := by
  intro _
  have hex := DataOp.startOf_le_lockEnd hfx
  have hey := DataOp.startOf_le_lockEnd hfy
  rw [hx] at hex
  rw [hy] at hey
  rw [hx, hy]
  exact ⟨hex, hey⟩

theorem serialised_writes {offset len offset' len' : Offset} (hx : ¬ (DataOp.write offset len).Wraps)
    (hy : ¬ (DataOp.write offset' len').Wraps) : (DataOp.write offset len).Serialised (.write offset' len') := by
  rintro ⟨b, ⟨hlow, hhigh⟩, ⟨hlow', hhigh'⟩⟩
  rw [DataOp.lockEnd_of_fits hx, DataOp.lockEnd_of_fits hy]
  show offset'.val ≤ (if len.val = 0 then llongMax else offset.val + len.val - 1) ∧
    offset.val ≤ (if len'.val = 0 then llongMax else offset'.val + len'.val - 1)
  rw [if_neg (by omega), if_neg (by omega)]
  constructor
  · omega
  · omega

/-- **A truncation and a write.** A cut to `o > 0` locks the bytes in front of `o`, so it meets a write that
    begins there, and no other. -/
theorem serialised_cut {o offset len : Offset} (hstart : x.startOf = .zero)
    (hlen : x.lenOf = o) (htouched : x.touched = Set.Ici o.val) (hfits : ¬ x.Wraps)
    (hwrite : ¬ (DataOp.write offset len).Wraps) :
    x.Serialised (.write offset len) ↔ o.val = 0 ∨ len.val = 0 ∨ offset.val < o.val := by
  have ho := o.nonneg
  have hoff := offset.nonneg
  have hoff' := offset.le_max
  have hl := len.nonneg
  have hend := DataOp.startOf_le_lockEnd hwrite
  unfold DataOp.Serialised
  rw [DataOp.lockEnd_of_fits hfits, hstart, hlen, htouched]
  show ((∃ b, o.val ≤ b ∧ offset.val ≤ b ∧ b < offset.val + len.val) →
    offset.val ≤ (if o.val = 0 then llongMax else 0 + o.val - 1) ∧ 0 ≤ (DataOp.write offset len).lockEnd) ↔ _
  constructor
  · intro h
    by_contra hnot
    rw [not_or, not_or] at hnot
    obtain ⟨ho0, hl0, hge⟩ := hnot
    -- the first byte of the write is cut off, and not locked
    have hmeet := (h ⟨offset.val, by omega, le_refl _, by omega⟩).1
    rw [if_neg ho0] at hmeet
    omega
  rintro h ⟨b, hcut, hlow, hhigh⟩
  change offset.val ≤ (DataOp.write offset len).lockEnd at hend
  refine ⟨?_, by omega⟩
  split
  · exact hoff'
  · omega

/-- With no write that wraps, only a truncation that does not reach a write goes wrong. -/
theorem serialised_of_fits (hx : ¬ x.Wraps) (hy : ¬ y.Wraps) : x.Serialised y ↔ x.Reaches y ∧ y.Reaches x := by
  have htriv : x.Serialised y → x.Reaches y → y.Reaches x → (x.Serialised y ↔ x.Reaches y ∧ y.Reaches x) := by
    intro h hxy hyx
    exact ⟨fun _ => ⟨hxy, hyx⟩, fun _ => h⟩
  cases x with
  | write offset len =>
    cases y with
    | write offset' len' => exact htriv (serialised_writes hx hy) trivial trivial
    | append position len' => exact htriv (serialised_append position len' hx).symm trivial trivial
    | truncate o | ftruncate o =>
      rw [serialised_comm, serialised_cut rfl rfl rfl hy hx]
      exact ⟨fun h => ⟨trivial, h⟩, fun h => h.2⟩
  | append position len =>
    have h := serialised_append position len hy
    cases y <;> exact htriv h trivial trivial
  | truncate o | ftruncate o =>
    cases y with
    | write offset len =>
      rw [serialised_cut rfl rfl rfl hx hy]
      exact ⟨fun h => ⟨h, trivial⟩, fun h => h.1⟩
    | append position len => exact htriv (serialised_append position len hx).symm trivial trivial
    | truncate o' | ftruncate o' => exact htriv (serialised_of_zero rfl rfl hx hy) trivial trivial

/-- The lock of a write that wraps meets no lock, so the write must not meet the operation. -/
theorem serialised_of_wraps (hx : x.Wraps) (y : DataOp) : x.Serialised y ↔ x.StaysInFront y := by
  constructor
  · intro h _ b hb
    by_contra hge
    have hmeet := (h (common_of_wraps hx hb (not_lt.mp hge))).1
    have hstart := y.startOf.nonneg
    have hend := DataOp.lockEnd_of_wraps hx
    omega
  rintro h ⟨b, hbx, hby⟩
  have := h hx b hby
  have := DataOp.first_le hbx
  omega

/-- In front of a write that wraps there is no truncation, and no other write that wraps. -/
theorem StaysInFront.others (hx : x.Wraps) (h : x.StaysInFront y) : x.Reaches y ∧ y.Reaches x ∧ y.StaysInFront x := by
  have hcut : ∀ o : Offset, y.touched ≠ Set.Ici o.val := by
    intro o ho
    have hmem : max x.first o.val ∈ y.touched := by
      rw [ho]
      exact le_max_right x.first o.val
    have := h hx _ hmem
    have := le_max_left x.first o.val
    omega
  have hfits : ¬ y.Wraps := by
    intro hy
    cases y with
    | write offset len =>
      have hwraps : llongMax < offset.val + len.val - 1 := hy
      have hmax := x.first_le_max
      have := offset.le_max
      have := h hx (max x.first offset.val) ⟨le_max_right _ _, by omega⟩
      have := le_max_left x.first offset.val
      omega
    | append position len | truncate o | ftruncate o => cases hy
  refine ⟨?_, ?_, fun hy => absurd hy hfits⟩
  · cases x with
    | write offset len => trivial
    | append position len | truncate o | ftruncate o => cases hx
  cases y with
  | write offset len | append position len => trivial
  | truncate o | ftruncate o => exact absurd rfl (hcut o)

/-- **Data transactions that touch a common byte are serialised**: their locks overlap, exactly if neither
    is a truncation that locks only bytes in front of the other's write, and no write ends beyond the largest
    offset. -/
theorem data_transactions_serialised (x y : DataOp) (t₁ o₁ t₂ o₂ : Nat) :
    ((∃ b, b ∈ x.touched ∧ b ∈ y.touched) → inodelkOverlap (x.lock t₁ o₁) (y.lock t₂ o₂) = true) ↔
      x.Reaches y ∧ y.Reaches x ∧ x.StaysInFront y ∧ y.StaysInFront x := by
  rw [overlap_iff]
  change x.Serialised y ↔ _
  by_cases hx : x.Wraps
  · rw [serialised_of_wraps hx]
    constructor
    · intro h
      obtain ⟨hxy, hyx, hfront⟩ := StaysInFront.others hx h
      exact ⟨hxy, hyx, h, hfront⟩
    · exact fun h => h.2.2.1
  by_cases hy : y.Wraps
  · rw [serialised_comm, serialised_of_wraps hy]
    constructor
    · intro h
      obtain ⟨hyx, hxy, hfront⟩ := StaysInFront.others hy h
      exact ⟨hxy, hyx, hfront, h⟩
    · exact fun h => h.2.2.2
  rw [serialised_of_fits hx hy]
  constructor
  · rintro ⟨hxy, hyx⟩
    exact ⟨hxy, hyx, fun h => absurd h hx, fun h => absurd h hy⟩
  · exact fun h => ⟨h.1, h.2.1⟩

def Offset.ofFin (k : Fin 100) : Offset where
  val := k
  nonneg := Int.natCast_nonneg _
  le_max := by
    have := k.isLt
    unfold llongMax
    omega

/-- **A truncation does not lock what it cuts off.** A truncation to offset 10 and a write of bytes 20 to 29
    both touch byte 20, but their locks do not overlap. -/
theorem truncate_beside_write :
    (∃ b, b ∈ (DataOp.truncate (.ofFin 10)).touched ∧ b ∈ (DataOp.write (.ofFin 20) (.ofFin 10)).touched) ∧
    inodelkOverlap ((DataOp.truncate (.ofFin 10)).lock 1 1)
      ((DataOp.write (.ofFin 20) (.ofFin 10)).lock 2 2) = false := by
  refine ⟨⟨20, ?_, ?_⟩, ?_⟩
  · show (10 : Int) ≤ 20
    decide
  · show (20 : Int) ≤ 20 ∧ (20 : Int) < 20 + 10
    decide
  · decide

end GlusterFS.Afr
