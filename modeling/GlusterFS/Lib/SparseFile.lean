import Mathlib.Data.List.GetD
import Mathlib.Data.List.Range
import Mathlib.Tactic.Common

/-!
# `Lib.SparseFile` — files as bytes with a size

A file has a size and a byte at every offset; behind the end the bytes are zero, so that two files are equal
exactly if they have the same size and the same bytes. Writing behind the end and truncating to a larger
size leave zeros in between, as on a POSIX file system.
-/

namespace Sparse

open List

/-- A file; the bytes from its size on are zero. -/
@[ext]
structure File where
  size : Nat
  byte : Nat → UInt8
  tail : ∀ k, size ≤ k → byte k = 0

namespace File

def empty : File := ⟨0, fun _ => 0, fun _ _ => rfl⟩

def ofList (bytes : List UInt8) : File where
  size := bytes.length
  byte := fun k => bytes.getD k 0
  tail := by
    intro k hk
    rw [getD_eq_getElem?_getD, getElem?_eq_none hk]
    rfl

/-- What is read at `off` with room for `len` bytes: it ends with the file. -/
def read (f : File) (off len : Nat) : List UInt8 := (List.range (min len (f.size - off))).map fun k => f.byte (off + k)

/-- The same with zeros behind the end. -/
def block (f : File) (off len : Nat) : List UInt8 := (List.range len).map fun k => f.byte (off + k)

/-- The data put at `off`. -/
def write (f : File) (off : Nat) (data : List UInt8) : File where
  size := if data = [] then f.size else max f.size (off + data.length)
  byte := fun k => if off ≤ k ∧ k < off + data.length then data.getD (k - off) 0 else f.byte k
  tail := by
    intro k hk
    by_cases hnil : data = []
    · rw [if_pos hnil] at hk
      rw [hnil, if_neg (by simp)]
      exact f.tail k hk
    rw [if_neg hnil] at hk
    rw [if_neg (by omega)]
    exact f.tail k (by omega)

/-- The file cut off at, or extended to, `n` bytes. -/
def truncate (f : File) (n : Nat) : File where
  size := n
  byte := fun k => if k < n then f.byte k else 0
  tail := fun _ hk => if_neg (Nat.not_lt.mpr hk)

variable (f g : File) (off len : Nat)

theorem length_read : (f.read off len).length = min len (f.size - off) := by
  unfold read
  rw [length_map, length_range]

theorem length_block : (f.block off len).length = len := by
  unfold block
  rw [length_map, length_range]

theorem read_ne_nil {f : File} {off len : Nat} (hlen : 0 < len) (hoff : off < f.size) : f.read off len ≠ [] := by
  intro h
  have hlength := f.length_read off len
  rw [h, length_nil] at hlength
  omega

theorem read_all_zero_iff : ((f.read off len).all fun b => b == 0) = true ↔
    ∀ k, off ≤ k → k < off + len → f.byte k = 0 := by
  unfold read
  rw [all_eq_true]
  constructor
  · intro h k hlow hhigh
    by_cases hsize : k < f.size
    · have hmem : f.byte (off + (k - off)) ∈
          (List.range (min len (f.size - off))).map fun k => f.byte (off + k) :=
        mem_map_of_mem (mem_range.mpr (by omega))
      have hzero := h _ hmem
      rw [Nat.add_sub_cancel' hlow] at hzero
      simpa using hzero
    · exact f.tail k (by omega)
  intro h b hb
  obtain ⟨k, hk, rfl⟩ := mem_map.mp hb
  rw [mem_range] at hk
  simpa using h (off + k) (by omega) (by omega)

theorem block_eq_iff : f.block off len = g.block off len ↔ ∀ k, off ≤ k → k < off + len → f.byte k = g.byte k := by
  unfold block
  rw [map_inj_left]
  constructor
  · intro h k hlow hhigh
    have := h (k - off) (mem_range.mpr (by omega))
    rwa [Nat.add_sub_cancel' hlow] at this
  intro h k hk
  rw [mem_range] at hk
  exact h (off + k) (by omega) (by omega)

theorem read_append_zeros : f.read off len ++ List.replicate (len - (f.read off len).length) 0 = f.block off len := by
  have hlen := f.length_read off len
  apply ext_getElem
  · simp only [length_append, length_replicate, length_block]
    omega
  intro k hleft hright
  rw [length_block] at hright
  by_cases hk : k < (f.read off len).length
  · rw [getElem_append_left hk]
    simp [read, block]
  rw [getElem_append_right (Nat.le_of_not_lt hk)]
  simp only [getElem_replicate, block, getElem_map, getElem_range]
  exact (f.tail _ (by omega)).symm

theorem read_getD {k : Nat} (hk : k < min len (f.size - off)) : (f.read off len).getD k 0 = f.byte (off + k) := by
  unfold read
  rw [getD_eq_getElem?_getD, getElem?_map, getElem?_range hk]
  rfl

/-- **Copying a block**: what was read from `g` is written to the same place of `f`. -/
theorem write_read_byte (k : Nat) : (f.write off (g.read off len)).byte k =
    if off ≤ k ∧ k < off + len ∧ k < g.size then g.byte k else f.byte k := by
  show (if off ≤ k ∧ k < off + (g.read off len).length then _ else _) = _
  rw [length_read]
  by_cases h : off ≤ k ∧ k < off + len ∧ k < g.size
  · rw [if_pos h, if_pos (by omega), read_getD _ _ _ (by omega)]
    congr 1
    omega
  · rw [if_neg h, if_neg (by omega)]

theorem read_congr {f g : File} {off len : Nat} (hlen : min len (f.size - off) = min len (g.size - off))
    (hbyte : ∀ k, off ≤ k → k < off + len → f.byte k = g.byte k) : f.read off len = g.read off len := by
  unfold read
  rw [hlen, map_inj_left]
  intro k hk
  rw [mem_range] at hk
  exact hbyte (off + k) (by omega) (by omega)

theorem read_append (a b : Nat) : f.read off a ++ f.read (off + a) b = f.read off (a + b) := by
  have hlen := f.length_read off a
  have hlength' := f.length_read (off + a) b
  apply ext_getElem
  · rw [length_append, hlen, hlength', length_read]
    omega
  intro k hleft hright
  rw [length_read] at hright
  by_cases hk : k < (f.read off a).length
  · rw [getElem_append_left hk]
    simp [read]
  rw [getElem_append_right (Nat.le_of_not_lt hk)]
  simp only [read, getElem_map, getElem_range]
  congr 1
  simp only [length_map, length_range]
  omega

theorem write_size (data : List UInt8) :
    (f.write off data).size = if data = [] then f.size else max f.size (off + data.length) := rfl

theorem write_byte (data : List UInt8) (k : Nat) : (f.write off data).byte k =
    if off ≤ k ∧ k < off + data.length then data.getD (k - off) 0 else f.byte k := rfl

theorem write_append (a b : List UInt8) : (f.write off a).write (off + a.length) b = f.write off (a ++ b) := by
  apply File.ext
  · rw [write_size, write_size, write_size, length_append]
    by_cases ha : a = []
    · simp [ha]
    by_cases hb : b = []
    · simp [hb]
    rw [if_neg hb, if_neg ha, if_neg (by simp [ha])]
    omega
  funext k
  rw [write_byte, write_byte, write_byte, length_append]
  by_cases hfst : off ≤ k ∧ k < off + a.length
  · rw [if_neg (by omega), if_pos hfst, if_pos (by omega), getD_append _ _ _ _ (by omega)]
  rw [if_neg hfst]
  by_cases hsecond : off + a.length ≤ k ∧ k < off + a.length + b.length
  · rw [if_pos hsecond, if_pos (by omega), getD_append_right _ _ _ _ (by omega)]
    congr 1
    omega
  · rw [if_neg hsecond, if_neg (by omega)]

@[simp] theorem truncate_size (m : Nat) : (f.truncate m).size = m := rfl

theorem truncate_byte {m k : Nat} (hk : k < m) : (f.truncate m).byte k = f.byte k := if_pos hk

theorem eq_iff_byte {f g : File} (hsize : f.size = g.size) : f = g ↔ ∀ k, k < g.size → f.byte k = g.byte k := by
  constructor
  · rintro rfl k _
    rfl
  intro h
  apply File.ext hsize
  funext k
  by_cases hk : k < g.size
  · exact h k hk
  · rw [f.tail k (by omega), g.tail k (by omega)]

end File

end Sparse
