import Mathlib

/-!
# `WriteBehind.Queue` — the requests of a file and how a pass marks them

Write-behind puts the writes on an fd, and the operations that have to come after them, on one queue
(`file->request`). A pass (`wb_process_queue`) goes over the queue under the file's lock and marks

* writes that are acknowledged before the child has them (`__wb_mark_unwinds`),
* writes whose bytes are copied behind those of the write before them (`__wb_collapse_write_bufs`),
* the operation that is next, if no write is left in front of it (`__wb_get_other_requests`),
* and otherwise writes that are sent to the child (`__wb_mark_winds`).

`wb_sync` then joins the marked writes to child writes. The lists `winds`, `unwinds` and `other_requests` a scan
builds are returned beside the queue (`Marked`).

A write is modelled by its offset and the lengths of its vector. Sizes and offsets are natural numbers, except for
`space_left`, whose wrap-around the code can meet. Not in the model: allocations that fail.
-/

namespace GlusterFS.WriteBehind

/-- Operations that wait for the writes before them. A flush knows whether it was started with `flush-behind`. -/
inductive OtherFop where
  | stat
  | fstat
  | truncate
  | ftruncate
  | setattr
  | readv
  | fsync
  | flush (behind : Bool)
  deriving DecidableEq, Repr

/-- `stub->wind`: only the stub of a flush is one of a callback. -/
def OtherFop.wind : OtherFop → Bool
  | .flush _ => false
  | _ => true

/-- What is put on the queue. -/
inductive Fop where
  | write (off : Nat) (vector : List Nat)
  | other (fop : OtherFop)
  deriving DecidableEq, Repr

namespace Fop

def isWrite : Fop → Bool
  | .write _ _ => true
  | .other _ => false

def off : Fop → Nat
  | .write off _ => off
  | .other _ => 0

def vector : Fop → List Nat
  | .write _ vector => vector
  | .other _ => []

/-- `iov_length`. -/
def size (f : Fop) : Nat := f.vector.sum

end Fop

/-- `wb_request_t`, with the `op_ret` and `op_errno` of the frame's local. `stub` says that the pointer is not
    `NULL`, `id` is the number of the request in the order of the queue, and `carried` has the numbers of the
    writes whose bytes are in the buffer. -/
structure Request where
  id : Nat
  fop : Fop
  stub : Bool
  writeSize : Nat
  refcount : Nat
  writeBehind : Bool
  stackWound : Bool
  gotReply : Bool
  markedForResume : Bool
  opRet : Int
  opErrno : Int
  carried : List Nat
  deriving DecidableEq, Repr

namespace Request

/-- `stub != NULL && stub->fop == GF_FOP_WRITE`. -/
def isWrite (r : Request) : Bool := r.stub && r.fop.isWrite

/-- `wb_enqueue`: a write is referenced for its winding and for its unwinding. -/
def new (id : Nat) (fop : Fop) : Request :=
  { id := id
    fop := fop
    stub := true
    writeSize := fop.size
    refcount := if fop.isWrite then 2 else 1
    writeBehind := false
    stackWound := false
    gotReply := false
    markedForResume := false
    opRet := if fop.isWrite then fop.size else 0
    opErrno := 0
    carried := [id] }

/-- `__wb_request_unref`; the last reference takes the request off its list. -/
def unref (r : Request) : Option Request :=
  if r.refcount ≤ 1 then none else some { r with refcount := r.refcount - 1 }

/-- The bytes of `b` are copied behind those of `r`. -/
def absorb (r b : Request) : Request :=
  { r with
    fop :=
      match r.fop with
      | .write off (len :: lens) => .write off ((len + b.writeSize) :: lens)
      | fop => fop
    writeSize := r.writeSize + b.writeSize
    carried := r.carried ++ b.carried }

end Request

structure Marked where
  queue : List Request
  marked : List Request
  deriving DecidableEq, Repr

namespace Marked

/-- The scan ends, with the rest of the queue as it was. -/
def stop (q : List Request) : Marked := ⟨q, []⟩

def skip (r : Request) (m : Marked) : Marked := { m with queue := r :: m.queue }

def take (r : Request) (m : Marked) : Marked := ⟨r :: m.queue, r :: m.marked⟩

end Marked

/-! ## Acknowledging -/

/-- `__wb_mark_unwind_till`; `written` is `written_behind`. -/
def markUnwindTill (size : Nat) : Nat → List Request → Marked
  | _, [] => .stop []
  | written, r :: rs =>
    if ¬ r.isWrite then (markUnwindTill size written rs).skip r
    else if written ≤ size then
      if r.writeBehind then (markUnwindTill size written rs).skip r
      else (markUnwindTill size (written + r.writeSize) rs).take { r with writeBehind := true }
    else .stop (r :: rs)

/-- `__wb_mark_unwinds`. -/
def markUnwinds (windowConf windowCurrent : Nat) (q : List Request) : Marked :=
  if windowCurrent ≤ windowConf then markUnwindTill (windowConf - windowCurrent) 0 q else .stop q

/-- What the marked requests add to `window_current`. -/
def windowAdded (marked : List Request) : Nat := (marked.map fun r => if r.gotReply then 0 else r.writeSize).sum

/-! ## Collapsing -/

/-- Ways in which the code leaves its own memory, and requests the model does not know. -/
inductive Fault where
  | nullPointer
  | overflow
  | refused
  deriving DecidableEq, Repr

/-- `space_left` after a request of this size, a `size_t`. -/
def spaceAfter (pageSize size : Nat) : Nat := (pageSize + 2 ^ 64 - size) % 2 ^ 64

/-- The local variables of `__wb_collapse_write_bufs`. `carrier` is the request `ptr` points into, which the scan
    has not put back yet; without one `ptr` is `NULL`. `stale` says that `iov_len` and `write_size` have been set:
    they are not cleared together with `ptr`. -/
structure Packing where
  firstRequest : Bool
  offsetExpected : Nat
  spaceLeft : Nat
  carrier : Option Request
  stale : Bool
  deriving DecidableEq, Repr

namespace Packing

def start : Packing := ⟨true, 0, 0, none, false⟩

/-- A request that is no write, or has been wound: `ptr` and `space_left` are cleared. -/
def reset (c : Packing) : Packing :=
  { c with firstRequest := true, spaceLeft := 0, carrier := none }

/-- The next requests are copied behind this one. -/
def carry (pageSize : Nat) (r : Request) : Packing :=
  ⟨false, r.fop.off + r.writeSize, spaceAfter pageSize r.writeSize, some r, true⟩

end Packing

/-- What `__wb_collapse_write_bufs` leaves: the queue, and the requests it moves to `passive_requests`. -/
structure Collapsed where
  queue : List Request
  packed : List Request
  deriving DecidableEq, Repr

def Collapsed.keep (rs : List Request) (c : Collapsed) : Collapsed := { c with queue := rs ++ c.queue }

/-- The request is moved to `passive_requests`. -/
def Collapsed.pack (r : Request) (c : Collapsed) : Collapsed := { c with packed := r :: c.packed }

/-- Copy the bytes of `r` to `ptr`. Without a carrier there are none to copy, and the code adds 0 through the
    pointers it still has. A buffer has a page. -/
def copyBehind (pageSize : Nat) (c : Packing) (r : Request) : Except Fault Packing :=
  match c.carrier with
  | none => if c.stale then .ok c else .error .nullPointer
  | some a =>
    if a.fop.vector = [] then .error .nullPointer
    else if 0 < r.writeSize ∧ pageSize < a.writeSize + r.writeSize then .error .overflow
    else .ok { c with carrier := some (a.absorb r) }

/-- `__wb_collapse_write_bufs`. -/
def collapseWriteBufs (pageSize : Nat) : Packing → List Request → Except Fault Collapsed
  | c, [] => .ok ⟨c.carrier.toList, []⟩
  | c, r :: rs =>
    if !r.isWrite || r.stackWound then
      (collapseWriteBufs pageSize c.reset rs).map (·.keep (c.carrier.toList ++ [r]))
    else if r.writeBehind then
      let expected := if c.firstRequest then r.fop.off else c.offsetExpected
      if r.fop.off = expected ∧ r.writeSize ≤ c.spaceLeft then
        match copyBehind pageSize c r with
        | .error e => .error e
        | .ok c' =>
          (collapseWriteBufs pageSize
            { c' with
              firstRequest := false
              offsetExpected := expected + r.writeSize
              spaceLeft := c.spaceLeft - r.writeSize } rs).map (·.pack r)
      else (collapseWriteBufs pageSize (.carry pageSize r) rs).map (·.keep c.carrier.toList)
    else .ok ⟨c.carrier.toList ++ r :: rs, []⟩

/-! ## The next operation -/

/-- `__wb_get_other_requests`, one at a time. -/
def getOtherRequests : List Request → Marked
  | [] => .stop []
  | r :: rs =>
    if !r.stub || r.fop.isWrite then .stop (r :: rs)
    else if r.markedForResume then (getOtherRequests rs).skip r
    else (Marked.stop rs).take { r with markedForResume := true }

/-! ## Winding -/

/-- Why `__wb_can_wind` ends before the end of the queue. -/
inductive WindStop where
  | otherFopInQueue
  | nonContiguousWrites
  | incompleteWrites
  deriving DecidableEq, Repr

/-- `__wb_can_wind`; `expected` is `offset_expected` once there was a first request. -/
def canWind : Option Nat → List Request → Option WindStop
  | _, [] => none
  | expected, r :: rs =>
    if !r.isWrite then if r.stub then some .otherFopInQueue else none
    else if r.stackWound && !r.gotReply then some .incompleteWrites
    else if r.stackWound then canWind expected rs
    else if expected.getD r.fop.off ≠ r.fop.off then some .nonContiguousWrites
    else canWind (some (r.fop.off + r.writeSize)) rs

/-- `__wb_mark_wind_all`. -/
def markWindAll : Option Nat → List Request → Marked
  | _, [] => .stop []
  | expected, r :: rs =>
    if !r.isWrite then .stop (r :: rs)
    else if r.stackWound then (markWindAll expected rs).skip r
    else if r.fop.off ≠ expected.getD r.fop.off then .stop (r :: rs)
    else (markWindAll (some (r.fop.off + r.writeSize)) rs).take { r with stackWound := true }

/-- `__wb_mark_winds`. -/
def markWinds (aggregateConf aggregateCurrent : Nat) (windAll trickling : Bool) (q : List Request) : Marked :=
  let why := if !windAll && decide (aggregateCurrent < aggregateConf) then canWind none q else none
  if (trickling && why ≠ some .incompleteWrites) || windAll || why = some .nonContiguousWrites
      || why = some .otherFopInQueue || decide (aggregateConf ≤ aggregateCurrent) then
    markWindAll none q
  else .stop q

/-! ## `wb_sync` -/

/-- A write for the child: the requests it is for, and the length of its vector and of its bytes. -/
structure Wind where
  ids : List Nat
  count : Nat
  size : Nat
  deriving DecidableEq, Repr

def maxVectorCount : Nat := 8

namespace Wind

def ofRequest (r : Request) : Wind := ⟨[r.id], r.fop.vector.length, r.writeSize⟩

def add (w : Wind) (r : Request) : Wind := ⟨w.ids ++ [r.id], w.count + r.fop.vector.length, w.size + r.writeSize⟩

end Wind

/-- The loop of `wb_sync`: a request that does not fit starts the next write. -/
def syncFrom (aggregateSize : Nat) : Wind → List Request → List Wind
  | w, [] => [w]
  | w, r :: rs =>
    if maxVectorCount < w.count + r.fop.vector.length ∨ aggregateSize < w.size + r.writeSize then
      w :: syncFrom aggregateSize (.ofRequest r) rs
    else syncFrom aggregateSize (w.add r) rs

/-- `wb_sync`; if all vectors are empty nothing is sent. -/
def sync (aggregateSize : Nat) : List Request → List Wind
  | [] => []
  | r :: rs =>
    if (r :: rs).all (fun x => x.fop.vector.isEmpty) then []
    else syncFrom aggregateSize (.ofRequest r) rs

end GlusterFS.WriteBehind
