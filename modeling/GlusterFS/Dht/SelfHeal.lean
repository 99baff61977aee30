import GlusterFS.Dht.Layout

/-!
# `Dht.SelfHeal` — giving a directory a layout (`dht_selfheal_layout_new_directory`)

The hash values are divided among the subvolumes that have the directory: chunks of the same size in the order
of the array, from a place that depends on the path, and the rest for the last one. The ranges are then
written to the subvolumes that got one (`dht_selfheal_dir_xattr`). An entry that got none keeps the range it
had.
-/

namespace GlusterFS.Dht

variable {ξ : Type}

/-! ## Who gets a range -/

variable (list : List (Entry ξ))

/-- The first loop: a directory that exists gets a new range, and `err` says that it is not written yet. -/
def markPresent : List (Entry ξ) := list.map fun e => if e.err = -1 ∨ e.err = 0 then { e with err := -1 } else e

/-- The second loop: no subvolume has enough space, but the directory is to be created. -/
def markFull : List (Entry ξ) := list.map fun e => if e.err = enospc then { e with err := -1 } else e

/-- `cnt` and the marked array. -/
def countEligible : Nat × List (Entry ξ) :=
  let cnt := list.countP fun e => e.err == -1 || e.err == 0
  let present := markPresent list
  if cnt = 0 then (present.countP fun e => e.err == enospc, markFull present) else (cnt, present)

/-! ## The ranges -/

/-- One of the two loops that assign the ranges: the array, `start` and `cnt`. The last subvolume gets what
    is left, and the loop ends. -/
def assignLoop (chunk : BitVec 32) : List (Entry ξ) → BitVec 32 → Int → List (Entry ξ) × BitVec 32 × Int
  | [], start, cnt => ([], start, cnt)
  | e :: es, start, cnt =>
    if e.err = -1 then
      if cnt - 1 = 0 then ({ e with start := start, stop := BitVec.allOnes 32 } :: es, start + chunk, cnt - 1)
      else
        let r := assignLoop chunk es (start + chunk) (cnt - 1)
        ({ e with start := start, stop := start + chunk - 1 } :: r.1, r.2)
    else
      let r := assignLoop chunk es start cnt
      (e :: r.1, r.2)

section

variable (dmHashfn : Name → BitVec 32)

/-- `dht_selfheal_layout_alloc_start`. -/
def allocStart (layout : Layout ξ) (path : Name) : Nat :=
  match dhtHashCompute dmHashfn layout.type path with
  | none => 0
  | some hashval => hashval.toNat % layout.list.length

/-- `dht_selfheal_layout_new_directory`; `none` is the division by zero. -/
def dhtSelfhealLayoutNewDirectory (layout : Layout ξ) (path : Name) : Option (Layout ξ) :=
  let cnt := (countEligible layout.list).1
  let marked := (countEligible layout.list).2
  if cnt = 0 then none
  else
    let chunk := BitVec.ofNat 32 (0xffffffff / cnt)
    let startSubvol := allocStart dmHashfn layout path
    let r := assignLoop chunk (marked.drop startSubvol) 0 cnt
    let r' := assignLoop chunk (marked.take startSubvol) r.2.1 r.2.2
    some { layout with list := r'.1 ++ r.1 }

end

/-! ## Writing them -/

/-- `dht_selfheal_dir_xattr` writes to this subvolume. -/
def Entry.written (e : Entry ξ) : Bool := e.err == -1 && e.stop != 0

/-- `dht_selfheal_dir_xattr_persubvol`: what the `setxattr`s leave on the disks. -/
def dhtSelfhealDirXattr [DecidableEq ξ] (layout : Layout ξ) (subvol : ξ) : Option DiskLayout :=
  (layout.list.find? fun e => e.xlator == some subvol && e.written).map
    (dhtDiskLayoutExtract layout.type)

end GlusterFS.Dht
