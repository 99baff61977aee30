import GlusterFS.Dict.Correctness.Members

/-!
# `Dict.Correctness.Untrusted` — bytes from somebody else

`dict_unserialize` checks that what it is about to use ends inside the buffer. It does not check that a length is
not negative, or that there is a zero behind the key, which it then hands on as a string. Where the entries it
meets have neither fault, nothing outside the buffer is read, and the dict points only into it.
-/

namespace GlusterFS.Dict

open Bytes Transition

/-- There is a zero between `pos` and the end of the buffer. -/
def terminated (b : Buffer) (pos : Int) : Bool := (List.range (b.size - pos).toNat).any fun i : Nat => b.byte (pos + i) = 0

/-- **An entry that is no trap.** If it passes the checks of `dict_unserialize`, then its value is not of negative
    length and does not start in front of the buffer, and its key has an end. -/
def EntryOk (b : Buffer) (buf : Int) : Prop :=
  let keylen := b.word buf
  let vallen := b.word (buf + 4)
  let key := buf + 4 + 4
  let data := key + (keylen + 1).toInt
  key + keylen.toInt ≤ b.size → data + vallen.toInt ≤ b.size →
    0 ≤ vallen.toInt ∧ 0 ≤ data ∧ terminated b key = true
deriving Decidable

/-- The key, with its zero, and the value are ranges of the buffer. -/
def Within (b : Buffer) (pair : DataPair Int) : Prop :=
  ∃ (key : Key) (start : Int) (len : BitVec 32) (data : Int), pair = ⟨some key, some ⟨len, none, some data⟩⟩ ∧
    b.Holds start (key ++ [0]) ∧ 0 ≤ data ∧ 0 ≤ len.toInt ∧ data + len.toInt ≤ b.size

section

variable (hash : Key → BitVec 32) {b : Buffer} {s : Decode}

/-- What has been decoded so far. -/
structure Contained (b : Buffer) (s : Decode) : Prop where
  buf : 0 ≤ s.buf
  fill : OneBucket s.fill
  pairs : ∀ pair ∈ s.fill.membersList, Within b pair

theorem string_of_terminated {pos : Int} (hpos : 0 ≤ pos) (h : terminated b pos = true) :
    ∃ key, b.string pos = some key := by
  obtain ⟨i, hi, hzero⟩ := List.any_eq_true.mp h
  rw [List.mem_range] at hi
  exact Buffer.string_isSome (i := pos + i) hpos (by omega) (by omega) (of_decide_eq_true hzero)

/-- **One entry.** -/
theorem Contained.entry (h : Contained b s) (hok : EntryOk b s.buf) :
    (∃ s', unserializeEntry hash b s () = .ok s' ∧ Contained b s') ∨ unserializeEntry hash b s () = .error .failed := by
  have hbuf := h.buf
  unfold unserializeEntry
  by_cases hfst : s.buf + 4 > b.size
  · rw [if_pos hfst]
    exact .inr rfl
  have hkeylen : b.readWord s.buf = some (b.word s.buf) := if_pos ⟨hbuf, by omega⟩
  rw [if_neg hfst, hkeylen]
  simp only [inside, bind, Except.bind]
  by_cases hsecond : s.buf + 4 + 4 > b.size
  · rw [if_pos hsecond]
    exact .inr rfl
  have hvallen : b.readWord (s.buf + 4) = some (b.word (s.buf + 4)) := if_pos ⟨by omega, by omega⟩
  rw [if_neg hsecond, hvallen]
  simp only []
  by_cases hkey : s.buf + 4 + 4 + (b.word s.buf).toInt > b.size
  · rw [if_pos hkey]
    exact .inr rfl
  rw [if_neg hkey]
  by_cases hvalue : s.buf + 4 + 4 + (b.word s.buf + 1).toInt + (b.word (s.buf + 4)).toInt > b.size
  · rw [if_pos hvalue]
    exact .inr rfl
  rw [if_neg hvalue]
  obtain ⟨hlen, hdata, hterm⟩ := hok (by omega) (by omega)
  obtain ⟨key, hstring⟩ := string_of_terminated (by omega) hterm
  obtain ⟨fill, hset, hone, -, hpairs⟩ := dictSet_spec hash h.fill key
    ⟨b.word (s.buf + 4), none, some (s.buf + 4 + 4 + (b.word s.buf + 1).toInt)⟩
  simp only [hstring, hset]
  refine .inl ⟨_, rfl, ⟨by simp only; omega, hone, ?_⟩⟩
  intro pair hpair
  rcases hpairs pair hpair with hold | rfl
  · exact h.pairs pair hold
  · exact ⟨key, _, _, _, rfl, Buffer.holds_of_stringLoop hstring, hdata, hlen, by omega⟩

end

end GlusterFS.Dict
