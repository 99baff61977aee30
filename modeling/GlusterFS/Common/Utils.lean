import Mathlib

/-!
# `Common.Utils` — rounding, vectors of buffers, and the hash of names

A `struct iovec` array is the list of the pieces it points to. `iov_subset` cuts the bytes between two offsets out
of one; it also takes the pieces that only touch them, with no bytes.

The hash (`hashfn.c`) reads a message of bytes by words of a little-endian machine; what is behind the last word is
pushed byte by byte into a word of padding, as `char`s with a sign.
-/

namespace GlusterFS

open List

/-- `floor (a, b)`. -/
def floor (a b : Nat) : Nat := a / b * b

/-- `roof (a, b)`. -/
def roof (a b : Nat) : Nat := (a + b - 1) / b * b

/-- A `struct iovec` array. -/
abbrev Iovec : Type := List (List UInt8)

def iovLength (vector : Iovec) : Nat := (vector.map List.length).sum

theorem iovLength_eq (vector : Iovec) : iovLength vector = vector.flatten.length := length_flatten.symm

/-- The loop of `iov_subset`, with the next piece at `offset`. -/
def iovSubsetFrom (src dst : Nat) : Nat → Iovec → Iovec
  | _, [] => []
  | offset, piece :: pieces =>
    let rest := iovSubsetFrom src dst (offset + piece.length) pieces
    if offset + piece.length < src ∨ dst < offset then rest
    else
      let start := if offset ≤ src then src - offset else 0
      let stop := if dst ≤ offset + piece.length then dst - offset else piece.length
      (piece.drop start).take (stop - start) :: rest

def iovSubset (vector : Iovec) (src dst : Nat) : Iovec := iovSubsetFrom src dst 0 vector

theorem flatten_iovSubsetFrom {src dst : Nat} (h : src ≤ dst) (vector : Iovec) : ∀ offset,
    (iovSubsetFrom src dst offset vector).flatten =
      (vector.flatten.drop (src - offset)).take (dst - max src offset) := by
  induction vector with
  | nil =>
    intro offset
    simp [iovSubsetFrom]
  | cons piece pieces ih =>
    intro offset
    have hrest := ih (offset + piece.length)
    rw [flatten_cons, drop_append, take_append, iovSubsetFrom]
    split
    next hout =>
      rw [hrest]
      -- the piece lies in front of the place or behind it
      have hpiece : (piece.drop (src - offset)).take (dst - max src offset) = [] := by
        rcases hout with hbefore | hbeh
        · rw [drop_eq_nil_of_le (by omega), take_nil]
        · rw [show dst - max src offset = 0 by omega, take_zero]
      rw [hpiece, nil_append, length_drop]
      congr 1
      · omega
      congr 1
      omega
    next hin =>
      rw [flatten_cons, hrest]
      congr 1
      · have hstart : (if offset ≤ src then src - offset else 0) = src - offset := by
          split <;> omega
        rw [hstart]
        split
        · congr 1
          omega
        -- the place ends behind the piece
        rw [take_of_length_le (Nat.le_of_eq length_drop), take_of_length_le]
        rw [length_drop]
        omega
      rw [length_drop]
      congr 1
      · omega
      congr 1
      omega

/-- **What `iov_subset` cuts out**: the bytes between the two offsets. -/
theorem flatten_iovSubset {src dst : Nat} (h : src ≤ dst) (vector : Iovec) :
    (iovSubset vector src dst).flatten = (vector.flatten.drop src).take (dst - src) := by
  have hcut := flatten_iovSubsetFrom h vector 0
  rw [Nat.sub_zero, Nat.max_zero] at hcut
  exact hcut

/-! ## The hash of names -/

end GlusterFS
