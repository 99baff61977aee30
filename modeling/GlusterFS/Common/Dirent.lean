import Mathlib
import GlusterFS.Lib.Buffer
import GlusterFS.Lib.Run

/-!
# `Common.Dirent` — directory entries from the wire (`gf-dirent.c`)

A record is a `struct gf_dirent_nb`, 104 bytes, and a name with its zero. `strnlen` looks for the zero in as many bytes
as are left from the start of the record, but the name starts 104 bytes later. So the function stays inside if and only
if every name ends there. Allocations that fail are left out, and `d_stat` is kept as words.
-/

namespace GlusterFS.Dirent

open Bytes

/-- `gf_dirent_t`. -/
structure GfDirent where
  dIno : BitVec 64
  dOff : BitVec 64
  dLen : BitVec 32
  dType : BitVec 32
  dStat : List (BitVec 32)
  dName : List UInt8

inductive Fault where
  | outside
  | endless

/-- `strnlen`; `none` if it leaves the buffer. -/
def strnlen (b : Buffer) (s : Int) (maxlen : Nat) : Option Nat :=
  match b.string s with
  | some name => some (min name.length maxlen)
  | none => if 0 ≤ s ∧ s + maxlen ≤ b.size then some maxlen else none

/-- The record at `pos`. -/
def entryAt (b : Buffer) (pos : Int) : Option GfDirent :=
  if 0 ≤ pos ∧ pos + 104 ≤ b.size then
    (b.string (pos + 104)).map fun name =>
      ⟨b.word pos ++ b.word (pos + 4), b.word (pos + 8) ++ b.word (pos + 12), b.word (pos + 16), b.word (pos + 20),
        (List.range 20).map fun i : Nat => b.word (pos + 24 + 4 * i), name⟩
  else none

/-- The loop of `gf_dirent_unserialize`: the last `remaining_size`, and the entries. -/
def unserializeLoop (b : Buffer) : Nat → Int → Except Fault (Int × List GfDirent)
  | 0, _ => .error .endless
  | fuel + 1, remainingSize =>
    if remainingSize < 104 + 2 then .ok (remainingSize, [])
    else
      let entryNb := b.size - remainingSize
      match strnlen b (entryNb + 104) remainingSize.toNat with
      | none => .error .outside
      | some entryStrlen =>
        if entryStrlen = remainingSize.toNat then .ok (remainingSize, [])
        else
          match entryAt b entryNb with
          | none => .error .outside
          | some entry =>
            (unserializeLoop b fuel (remainingSize - (104 + entryStrlen + 1))).map fun (left, entries) =>
              (left, entry :: entries)

/-- `gf_dirent_unserialize`. `remaining_size` is an `int`, and every turn takes at least 105 bytes. -/
def gfDirentUnserialize (b : Buffer) : Except Fault (Int × List GfDirent) :=
  unserializeLoop b (b.size.toNat + 1) (b.size.bmod (2 ^ 32))

/-- The last `n` bytes are **records** with names that end there, and then too few bytes for another. -/
inductive Records (b : Buffer) : Int → Prop
  | short {n} (h : n < 104 + 2) : Records b n
  | record {n} (name : List UInt8) (hname : b.string (b.size - n + 104) = some name)
    (h : Records b (n - (104 + name.length + 1))) : Records b n

variable {b : Buffer}

/-- The loop ends well on records, and on nothing else. -/
theorem loop_iff (fuel : Nat) : ∀ remaining, remaining ≤ b.size → remaining < fuel →
    ((∃ p, unserializeLoop b fuel remaining = .ok p ∧ 0 ≤ p.1) ↔ 0 ≤ remaining ∧ Records b remaining) := by
  induction fuel with
  | zero =>
    intro remaining _ hfuel
    constructor
    · rintro ⟨p, h, -⟩
      cases h
    rintro ⟨h, -⟩
    omega
  | succ fuel ih =>
    intro remaining hle hfuel
    rw [unserializeLoop]
    by_cases hshort : remaining < 104 + 2
    · rw [if_pos hshort]
      simp [Records.short hshort]
    rw [if_neg hshort]
    dsimp only [strnlen, entryAt]
    cases hname : b.string (b.size - remaining + 104) with
    | none =>
      -- `strnlen` goes on behind the buffer
      rw [if_neg (by omega)]
      constructor
      · rintro ⟨p, h, -⟩
        cases h
      rintro ⟨-, h | ⟨name, hsome, -⟩⟩
      · omega
      rw [hname] at hsome
      cases hsome
    | some name =>
      have hbounds := (Buffer.holds_of_stringLoop hname).bounds
      rw [List.length_append, List.length_singleton] at hbounds
      have hrest := ih (remaining - (104 + name.length + 1)) (by omega) (by omega)
      dsimp only
      rw [min_eq_left (by omega), if_neg (by omega), if_pos ⟨by omega, by omega⟩]
      constructor
      · rintro ⟨p, h, hp⟩
        obtain ⟨rest, hloop, rfl⟩ := Transition.map_eq_ok h
        exact ⟨by omega, .record name hname (hrest.mp ⟨rest, hloop, hp⟩).2⟩
      rintro ⟨-, h | ⟨name', hsome, h⟩⟩
      · omega
      obtain rfl : name = name' := Option.some.inj (hname.symm.trans hsome)
      obtain ⟨p, hloop, hp⟩ := hrest.mpr ⟨by omega, h⟩
      rw [hloop]
      exact ⟨_, rfl, hp⟩

/-- **Untrusted bytes**: the function returns, without a read outside of the buffer or a negative `remaining_size`, if
    and only if the size is not negative as an `int` and the names of the records end in the buffer. -/
theorem unserialize_inside_iff (b : Buffer) (hsize : 0 ≤ b.size) :
    (∃ p, gfDirentUnserialize b = .ok p ∧ 0 ≤ p.1) ↔ 0 ≤ b.size.bmod (2 ^ 32) ∧ Records b (b.size.bmod (2 ^ 32)) := by
  have hle : b.size.bmod (2 ^ 32) ≤ b.size := by
    rw [Int.bmod_def]
    split <;> omega
  exact loop_iff _ _ hle (lt_of_le_of_lt hle (by omega))

/-- One record, without a name. -/
theorem empty_name : ∃ p, gfDirentUnserialize ⟨fun _ => 0, 106⟩ = .ok p ∧ 0 ≤ p.1 :=
  (unserialize_inside_iff ⟨fun _ => 0, 106⟩ (by decide)).mpr ⟨by decide, .record [] rfl (.short (by decide))⟩

/-- A name without an end. -/
theorem endless_name : gfDirentUnserialize ⟨fun _ => 97, 106⟩ = .error .outside := rfl

end GlusterFS.Dirent
