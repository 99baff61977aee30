import GlusterFS.Lib.Run
import GlusterFS.Lib.Buffer

/-!
# `Dict.Serialize` — dictionaries and their form on the wire (`dict.c`)

A dict is a hash table of pairs that are also in one list, the newest first. `_dict_serialize` writes the number
of pairs and then, pair by pair, the two lengths, the key with its zero and the value. `dict_unserialize` sets
one pair after the other; the values it makes point into the buffer it reads from, the keys are copied as
strings.

`SuperFastHash` is a parameter, nothing depends on which function it is. Every dict the program makes has one
bucket: `get_new_dict_full` is called with 1, or with the size of another dict. With more buckets `_dict_set`
can compute a negative index, because it takes the remainder of a signed number where `_dict_lookup` and
`dict_del` take that of an unsigned one.

Two pairs never have the same address or the same key, so a pair is written to by its key.
-/

namespace GlusterFS.Dict

open Bytes Transition

/-! ## Dicts -/

/-- The bytes of a string, without the zero that ends it. -/
abbrev Key := List UInt8

/-- `data_t`; of the vector the lengths are kept. `δ` are the addresses of the bytes, or the bytes themselves. -/
structure DataT (δ : Type) where
  len : BitVec 32
  vec : Option (List (BitVec 64))
  data : Option δ
  deriving DecidableEq, Repr

/-- `data_pair_t`. -/
structure DataPair (δ : Type) where
  key : Option Key
  value : Option (DataT δ)
  deriving DecidableEq, Repr

/-- `dict_t`: the chains of the buckets and the list of all pairs. -/
structure DictT (δ : Type) where
  hashSize : BitVec 32
  count : BitVec 32
  members : Nat → List (DataPair δ)
  membersList : List (DataPair δ)

/-- What ends a call: an error that is returned, a read outside of a buffer, or a write in front of the buckets. -/
inductive Stop where
  | failed
  | outside
  | badIndex
  deriving DecidableEq, Repr

variable {δ : Type}

def getNewDictFull (sizeHint : BitVec 32) : DictT δ := ⟨sizeHint, 0, fun _ => [], []⟩

def dictNew : DictT δ := getNewDictFull 1

section

variable (superFastHash : Key → BitVec 32)

variable (this : DictT δ)

variable (key : Key)

def dictLookup : Option (DataPair δ) :=
  let hashval := (superFastHash key).toNat % this.hashSize.toNat
  (this.members hashval).find? fun pair => pair.key = some key

def dictGet : Option (DataT δ) := (dictLookup superFastHash this key).bind DataPair.value

/-- A store into the pair with this key. -/
def setValue (value : DataT δ) (pairs : List (DataPair δ)) : List (DataPair δ) :=
  pairs.map fun pair => if pair.key = some key then { pair with value := some value } else pair

def dictSet (value : DataT δ) : Except Stop (DictT δ) :=
  let tmp := (superFastHash key).toInt
  let hashval := tmp.tmod this.hashSize.toInt
  match dictLookup superFastHash this key with
  | some _ =>
    .ok { this with
      members := fun i => setValue key value (this.members i)
      membersList := setValue key value this.membersList }
  | none =>
    if hashval < 0 then .error .badIndex
    else
      let pair : DataPair δ := ⟨some key, some value⟩
      .ok { this with
        members := fun i => if i = hashval.toNat then pair :: this.members i else this.members i
        membersList := pair :: this.membersList
        count := this.count + 1 }

def dictDel : DictT δ :=
  match dictLookup superFastHash this key with
  | none => this
  | some _ =>
    let others : DataPair δ → Bool := fun pair => pair.key ≠ some key
    { this with
      members := fun i => (this.members i).filter others
      membersList := this.membersList.filter others
      count := this.count - 1 }

end

/-! ## To the wire -/

/-- What may be read, or the run ends. -/
def inside {α : Type} : Option α → Except Stop α
  | some a => .ok a
  | none => .error .outside

/-- The variables of the loop of `dict_unserialize`. -/
structure Decode where
  buf : Int
  fill : DictT Int

variable (superFastHash : Key → BitVec 32)

/-- One turn of the loop. The positions are counted from `orig_buf`. -/
def unserializeEntry (orig : Buffer) (s : Decode) (_ : Unit) : Except Stop Decode :=
  if s.buf + 4 > orig.size then .error .failed
  else do
    let keylen ← inside (orig.readWord s.buf)
    if s.buf + 4 + 4 > orig.size then .error .failed
    else do
      let vallen ← inside (orig.readWord (s.buf + 4))
      let key := s.buf + 4 + 4
      if key + keylen.toInt > orig.size then .error .failed
      else
        let data := key + (keylen + 1).toInt
        if data + vallen.toInt > orig.size then .error .failed
        else do
          let name ← inside (orig.string key)
          let fill ← dictSet superFastHash s.fill name ⟨vallen, none, some data⟩
          .ok ⟨data + vallen.toInt, fill⟩

end GlusterFS.Dict
