import GlusterFS.Lib.ExchangeSort
import GlusterFS.Lib.Numerals
import GlusterFS.Lib.RangeChain

/-!
# `Dht.Layout` — the layout of a directory (`dht-layout.c`)

The names of a directory are spread over the subvolumes by a 32-bit hash: every subvolume has a range, kept
in an extended attribute of the directory there. A lookup asks all subvolumes, merges the answers in the order
they come into an array (`dht_layout_merge`), sorts the array and looks for holes and overlaps
(`dht_layout_normalize`). A name is on the subvolume of the first entry whose range contains its hash
(`dht_layout_search`).

The hash itself, `gf_dm_hashfn`, is a parameter: nothing here depends on which function it is.
-/

namespace GlusterFS.Dht

open Ranges (Range)

/-! ## Entries -/

def enoent : Int := 2

def enospc : Int := 28

def enotconn : Int := 107

/-- One entry of `dht_layout_t`. `err` is 0 for a range that was read, -1 for a directory without one, and
    the error of a failed lookup otherwise. -/
structure Entry (ξ : Type) where
  err : Int
  start : BitVec 32
  stop : BitVec 32
  xlator : Option ξ
  deriving DecidableEq, Repr

variable {ξ : Type}

def Entry.range (e : Entry ξ) : Range 32 := ⟨e.start, e.stop⟩

/-- A range was read for the entry. -/
def Entry.good (e : Entry ξ) : Bool := e.err == 0

/-- `dht_layout_t`; the number of entries is the length of the list. -/
structure Layout (ξ : Type) where
  type : Int
  list : List (Entry ξ)
  deriving DecidableEq, Repr

/-- `DHT_HASH_TYPE_DM`. -/
def hashTypeDm : Int := 0

def dhtLayoutNew (cnt : Nat) : Layout ξ := ⟨hashTypeDm, List.replicate cnt ⟨0, 0, 0, none⟩⟩

/-! ## The hash of a name -/

/-- The bytes of a name, without the zero that ends it. -/
abbrev Name := List UInt8

/-- `'.'`. -/
def dot : UInt8 := 46

/-- `MAKE_RSYNC_FRIENDLY_NAME`: the last dot of `.name.suffix` is not the one at the front or right behind
    it, and something follows. -/
def rsyncFriendlyName (name : Name) : Name :=
  match name with
  | [] => name
  | c :: rest =>
    if c = dot then
      let fromDot := (rest.reverse.dropWhile (· ≠ dot)).reverse
      let stem := fromDot.dropLast
      if fromDot ≠ [] ∧ stem ≠ [] ∧ fromDot.length < rest.length then stem else name
    else name

section

variable (dmHashfn : Name → BitVec 32)

def dhtHashCompute (type : Int) (name : Name) : Option (BitVec 32) :=
  if type = hashTypeDm then some (dmHashfn (rsyncFriendlyName name)) else none

/-- The loop of `dht_layout_search`. -/
def searchHash (list : List (Entry ξ)) (hash : BitVec 32) : Option ξ :=
  (list.find? fun e => e.range.contains hash).bind Entry.xlator

def dhtLayoutSearch (layout : Layout ξ) (name : Name) : Option ξ :=
  (dhtHashCompute dmHashfn layout.type name).bind (searchHash layout.list)

end

/-! ## The layout on the disk -/

/-- `hton32` and `ntoh32`: the bytes the other way round. -/
def hton32 (x : BitVec 32) : BitVec 32 :=
  x.extractLsb' 0 8 ++ x.extractLsb' 8 8 ++ x.extractLsb' 16 8 ++ x.extractLsb' 24 8

/-- A bit keeps its place in its byte. -/
theorem hton32_bit (x : BitVec 32) {i : Nat} (hi : i < 32) :
    (hton32 x).getLsbD i = x.getLsbD ((3 - i / 8) * 8 + i % 8) := by
  simp only [hton32, BitVec.getLsbD_append, BitVec.getLsbD_extractLsb']
  interval_cases i <;> simp

@[simp] theorem hton32_hton32 (x : BitVec 32) : hton32 (hton32 x) = x := by
  apply BitVec.eq_of_getLsbD_eq
  intro i hi
  rw [hton32_bit _ hi, hton32_bit _ (by omega)]
  congr 1
  omega

/-- The value of `trusted.glusterfs.dht`, four words in the order of the network. -/
structure DiskLayout where
  cnt : BitVec 32
  type : BitVec 32
  start : BitVec 32
  stop : BitVec 32
  deriving DecidableEq, Repr

def dhtDiskLayoutExtract (type : Int) (e : Entry ξ) : DiskLayout :=
  ⟨hton32 1, hton32 (BitVec.ofInt 32 type), hton32 e.start, hton32 e.stop⟩

def dhtDiskLayoutMerge (e : Entry ξ) (disk : DiskLayout) : Option (Entry ξ) :=
  if hton32 disk.cnt ≠ 1 then none
  else some { e with start := hton32 disk.start, stop := hton32 disk.stop }

/-! ## Merging the answers -/

/-- What a subvolume answers to the lookup of a directory: its dictionary may have no layout. -/
inductive LookupReply where
  | failed (errno : Nat) (pos : 0 < errno)
  | found (disk : Option DiskLayout)
  deriving DecidableEq, Repr

/-- `err`, as `dht_layout_merge` sets it at first. -/
def LookupReply.err : LookupReply → Int
  | .failed errno _ => errno
  | .found _ => -1

/-- The dictionary of the answer has a layout. -/
def LookupReply.disk : LookupReply → Option DiskLayout
  | .failed _ _ => none
  | .found disk => disk

/-- What `dht_layout_merge` makes of the entry it has taken. -/
def mergeEntry (e : Entry ξ) (subvol : ξ) (reply : LookupReply) : Entry ξ :=
  let e' := { e with err := reply.err, xlator := some subvol }
  match reply with
  | .failed _ _ => e'
  | .found none => { e' with err := -1 }
  | .found (some disk) =>
    match dhtDiskLayoutMerge e' disk with
    | none => e'
    | some merged => { merged with err := 0 }

/-- `dht_layout_merge` takes the first entry that has no subvolume. `none` is an access behind the end of
    the array. -/
def mergeList : List (Entry ξ) → ξ → LookupReply → Option (List (Entry ξ))
  | [], _, .failed _ _ => some []
  | [], _, .found _ => none
  | e :: es, subvol, reply =>
    if e.xlator.isNone then some (mergeEntry e subvol reply :: es)
    else (mergeList es subvol reply).map (e :: ·)

variable (layout : Layout ξ)

def dhtLayoutMerge (subvol : ξ) (reply : LookupReply) : Option (Layout ξ) :=
  (mergeList layout.list subvol reply).map fun list => { layout with list := list }

/-- The answers of all subvolumes, in the order they come. -/
def mergeReplies : Layout ξ → List (ξ × LookupReply) → Option (Layout ξ)
  | layout, [] => some layout
  | layout, (subvol, reply) :: rest =>
    (dhtLayoutMerge layout subvol reply).bind fun layout' => mergeReplies layout' rest

/-! ## Anomalies -/

def dhtLayoutEntryCmp (x y : Entry ξ) : Int :=
  if x.err ≠ 0 ∨ y.err ≠ 0 then x.err - y.err else x.start.toNat - y.start.toNat

def dhtLayoutSort : Layout ξ :=
  { layout with list := Exchange.sort (fun x y => decide (0 < dhtLayoutEntryCmp x y)) layout.list }

/-- What `dht_layout_anomalies` counts; the sizes of the holes and overlaps are not used. -/
structure Anomalies where
  holes : Nat
  overlaps : Nat
  missing : Nat
  down : Nat
  misc : Nat
  deriving DecidableEq, Repr

/-- One turn of the loop, for an entry with an error. -/
def countErr (a : Anomalies) (err : Int) : Anomalies :=
  if err = -1 ∨ err = enoent then { a with missing := a.missing + 1 }
  else if err = enotconn ∨ err = enospc then { a with down := a.down + 1 }
  else { a with misc := a.misc + 1 }

/-- One turn of the loop, for an entry with a range. -/
def countGap (a : Anomalies) (prevStop start : BitVec 32) : Anomalies :=
  let a' := if prevStop + 1 < start then { a with holes := a.holes + 1 } else a
  if start < prevStop + 1 then { a' with overlaps := a'.overlaps + 1 } else a'

/-- The loop of `dht_layout_anomalies`: `prevStop`, whether no range was seen, and the counts. -/
def anomaliesLoop : List (Entry ξ) → BitVec 32 × Bool × Anomalies → BitVec 32 × Bool × Anomalies
  | [], s => s
  | e :: es, (prevStop, isVirgin, a) =>
    if e.err ≠ 0 then anomaliesLoop es (prevStop, isVirgin, countErr a e.err)
    else anomaliesLoop es (e.stop, false, countGap a prevStop e.start)

/-- `last_stop`; an array without entries is not read. -/
def lastStop (list : List (Entry ξ)) : BitVec 32 := (list.head?.map Entry.start).getD 0 - 1

def dhtLayoutAnomalies : Anomalies :=
  let last := lastStop layout.list
  let r := anomaliesLoop layout.list (last, true, ⟨0, 0, 0, 0, 0⟩)
  if last - r.1 ≠ 0 ∨ r.2.1 = true then { r.2.2 with holes := r.2.2.holes + 1 } else r.2.2

/-- `dht_layout_normalize`: the value it returns, and the sorted layout. -/
def dhtLayoutNormalize : Int × Layout ξ :=
  let layout' := dhtLayoutSort layout
  let a := dhtLayoutAnomalies layout'
  (if (a.holes ≠ 0 ∨ a.overlaps ≠ 0) ∨ layout'.list.any (fun e => e.err == enoent) then 1 else 0, layout')

/-- `dht_layout_dir_mismatch`, for the dictionary of an answer; `none` is no dictionary. -/
def dhtLayoutDirMismatch [DecidableEq ξ] (layout : Layout ξ) (subvol : ξ) (xattr : Option (Option DiskLayout)) : Int :=
  match layout.list.find? fun e => e.xlator == some subvol with
  | none => 1
  | some e =>
    match xattr.getD none with
    | none => if e.err = 0 then -1 else 0
    | some disk =>
      if hton32 disk.cnt ≠ 1 then -1
      else if e.start ≠ hton32 disk.start ∨ e.stop ≠ hton32 disk.stop then 1 else 0

end GlusterFS.Dht
