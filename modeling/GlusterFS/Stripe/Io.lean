import GlusterFS.Common.Utils
import GlusterFS.Lib.Run
import GlusterFS.Lib.SparseFile
import GlusterFS.Lib.Threads

/-!
# `Stripe.Io` — reads and writes of a striped file

A striped file is cut into stripes of `stripe_size` bytes, which go around the children; each child keeps its
stripes at their offsets in the whole file, with holes in between. A read is sent to the children stripe by stripe
and the replies, which come in any order, are put together by their place in the request (`stripeReadvCbk`). A
write is sent by a loop whose callbacks can run while it is still sending, on other threads: the loop and the
callbacks are threads whose steps are single accesses to what they share (`WriteOp`).

Offsets and sizes are natural numbers, without the bounds of `off_t` and `int32_t`. Allocations that fail are left
out, and of `struct stat` only `st_size` is kept, where it is used. `local` is taken to outlive the answer.
-/

namespace GlusterFS.Stripe

/-- `stripe_fd_ctx_t`. `xl_array` has `stripe_count` children. -/
structure FdCtx where
  stripeSize : Nat
  stripeCount : Nat
  sizePos : 0 < stripeSize
  countPos : 0 < stripeCount

theorem pairCtx_size_pos : 0 < 4 := by decide

theorem pairCtx_count_pos : 0 < 2 := by decide

/-- Two children with stripes of four bytes. -/
def pairCtx : FdCtx := ⟨4, 2, pairCtx_size_pos, pairCtx_count_pos⟩

inductive Errno where
  | ok
  | ebadfd
  | einval
  /-- An error of a child. -/
  | child (n : Nat)
  deriving DecidableEq, Repr

/-! ## `stripe_readv` -/

structure ReadCall where
  child : Nat
  size : Nat
  offset : Nat
  deriving DecidableEq, Repr

/-- The loop of `stripe_readv`, for the stripes that are left. `stop` is `offset + size`. -/
def readCalls (fctx : FdCtx) (stop : Nat) : Nat → Nat → Nat → List ReadCall
  | 0, _, _ => []
  | left + 1, index, frameOffset =>
    let frameSize := min (roof (frameOffset + 1) fctx.stripeSize) stop - frameOffset
    ⟨index % fctx.stripeCount, frameSize, frameOffset⟩ ::
      readCalls fctx stop left (index + 1) (frameOffset + frameSize)

/-- The reads `stripe_readv` sends, in the order of `node_index`. -/
def stripeReadv (fctx : FdCtx) (size offset : Nat) : List ReadCall :=
  let roundedStart := floor offset fctx.stripeSize
  let roundedEnd := roof (offset + size) fctx.stripeSize
  let numStripe := roundedEnd / fctx.stripeSize - roundedStart / fctx.stripeSize
  let offIndex := offset / fctx.stripeSize % fctx.stripeCount
  readCalls fctx (offset + size) numStripe offIndex offset

/-- What a child returns for a read, and `struct readv_replies`. -/
structure ReadReply where
  opRet : Int
  opErrno : Errno
  vector : Iovec
  stSize : Nat
  deriving DecidableEq, Repr

/-- A slot of `local->replies` before its reply is there. -/
def ReadReply.zero : ReadReply := ⟨0, .ok, [], 0⟩

/-- What is kept of a reply: of a failed one, only the error. -/
def ReadReply.kept (r : ReadReply) : ReadReply :=
  if 0 ≤ r.opRet then r else { ReadReply.zero with opRet := r.opRet, opErrno := r.opErrno }

/-- `stripe_local_t` of a read, with the answers that were given. -/
structure ReadLocal where
  windCount : Nat
  callCount : Nat
  replies : List ReadReply
  answers : List ReadReply
  deriving DecidableEq, Repr

/-- `local` after `stripe_readv`; without an fd context the read is answered by it. -/
def ReadLocal.start (fctx : Option FdCtx) (size offset : Nat) : ReadLocal :=
  match fctx with
  | none => ⟨0, 0, [], [⟨-1, .ebadfd, [], 0⟩]⟩
  | some fctx =>
    let windCount := (stripeReadv fctx size offset).length
    ⟨windCount, 0, List.replicate windCount .zero, []⟩

/-- The first loop over the replies: the sum of the counts and the largest size, or the first error. -/
def sumReplies (opRet : Int) (opErrno : Errno) (stSize : Nat) : List ReadReply → Int × Errno × Nat
  | [] => (opRet, opErrno, stSize)
  | r :: rs =>
    if r.opRet = -1 then (-1, r.opErrno, stSize)
    else sumReplies (opRet + r.opRet) opErrno (max stSize r.stSize) rs

/-- The answer made of all replies; `opErrno` is that of the last one to come. -/
def readAnswer (replies : List ReadReply) (opErrno : Errno) : ReadReply :=
  match sumReplies 0 opErrno (replies.headD .zero).stSize replies with
  | (opRet, opErrno, stSize) =>
    ⟨opRet, opErrno, if opRet = -1 then [] else replies.flatMap ReadReply.vector, stSize⟩

/-- `stripe_readv_cbk`, for the read with this `node_index`. -/
def stripeReadvCbk (s : ReadLocal) (arrival : Nat × ReadReply) : ReadLocal :=
  let replies := s.replies.set arrival.1 arrival.2.kept
  let callcnt := s.callCount + 1
  { s with
    callCount := callcnt
    replies := replies
    answers :=
      if callcnt = s.windCount then s.answers ++ [readAnswer replies arrival.2.opErrno] else s.answers }

/-! ## `stripe_writev` -/

structure WriteCall where
  child : Nat
  offset : Nat
  vector : Iovec
  deriving DecidableEq, Repr

/-- The loop of `stripe_writev`. It is left when nothing remains, after at least one round. -/
def writeCalls (fctx : FdCtx) (vector : Iovec) (offset : Nat) : Nat → Nat → Nat → List WriteCall
  | 0, _, _ => []
  | fuel + 1, offsetOffset, remainingSize =>
    let place := offset + offsetOffset
    let fillSize := min (fctx.stripeSize - place % fctx.stripeSize) remainingSize
    let call : WriteCall :=
      ⟨place / fctx.stripeSize % fctx.stripeCount, place, iovSubset vector offsetOffset (offsetOffset + fillSize)⟩
    if remainingSize - fillSize = 0 then [call]
    else call :: writeCalls fctx vector offset fuel (offsetOffset + fillSize) (remainingSize - fillSize)

/-- The writes `stripe_writev` sends. Every round but the last takes at least one byte. -/
def stripeWritev (fctx : FdCtx) (vector : Iovec) (offset : Nat) : List WriteCall :=
  let totalSize := iovLength vector
  writeCalls fctx vector offset (totalSize + 1) 0 totalSize

/-! ## The children -/

abbrev Children : Type := Nat → Sparse.File

def Children.write (files : Children) (call : WriteCall) : Children :=
  Function.update files call.child ((files call.child).write call.offset call.vector.flatten)

/-- A write to the striped file. -/
structure Write where
  offset : Nat
  vector : Iovec
  deriving DecidableEq, Repr

/-- The children after these writes, all of which succeed. -/
def childFiles (fctx : FdCtx) (writes : List Write) : Children :=
  writes.foldl (fun files w => (stripeWritev fctx w.vector w.offset).foldl Children.write files) fun _ => .empty

/-- The file the writes are meant for. -/
def logicalFile (writes : List Write) : Sparse.File :=
  writes.foldl (fun file w => file.write w.offset w.vector.flatten) .empty

/-- The child has done the read: the buffers of the reply hold what its file has there. -/
def ReadReply.Reads (file : Sparse.File) (call : ReadCall) (r : ReadReply) : Prop :=
  r.vector.flatten = file.read call.offset call.size ∧ r.opRet = (file.read call.offset call.size).length ∧
    r.stSize = file.size

instance decidableReads (file : Sparse.File) (call : ReadCall) (r : ReadReply) : Decidable (r.Reads file call) :=
  inferInstanceAs (Decidable (_ ∧ _ ∧ _))

/-! ## `stripe_writev` and its callbacks as threads -/

/-- `stripe_local_t` of a write. -/
structure WriteLocal where
  callCount : Nat
  windCount : Nat
  opRet : Int
  opErrno : Errno
  unwind : Bool
  deriving DecidableEq, Repr

inductive WriteOp where
  /-- `local->wind_count++`. -/
  | count
  /-- `local->unwind = 1`. -/
  | last
  /-- `STACK_WIND`. -/
  | wind (call : WriteCall)
  /-- `callcnt == local->wind_count`. -/
  | compare (callcnt : Nat)
  /-- `local->unwind`, if the counts were equal. -/
  | test
  /-- `STACK_UNWIND`. -/
  | unwind
  deriving DecidableEq, Repr

inductive WriteResult where
  | wrote (n : Nat)
  | failed (errno : Errno)
  deriving DecidableEq, Repr

/-- A write under way. `results` has what the children have returned, in the order of the callbacks. -/
structure WriteState where
  frame : WriteLocal
  threads : List (List WriteOp)
  calls : List WriteCall
  results : List WriteResult
  answers : List (Int × Errno)
  deriving DecidableEq, Repr

/-- What the loop of `stripe_writev` does to send these writes. -/
def windOps : List WriteCall → List WriteOp
  | [] => []
  | [call] => [.count, .last, .wind call]
  | call :: calls => .count :: .wind call :: windOps calls

/-- The start of `stripe_writev`; without an fd context it answers at once. -/
def WriteState.start (fctx : Option FdCtx) (vector : Iovec) (offset : Nat) : WriteState :=
  match fctx with
  | none => ⟨⟨0, 0, 0, .ok, false⟩, [], [], [], [(-1, .einval)]⟩
  | some fctx => ⟨⟨0, 0, 0, .ok, false⟩, [windOps (stripeWritev fctx vector offset)], [], [], []⟩

/-- The section of `stripe_writev_cbk` under the lock. -/
def WriteLocal.collect (frame : WriteLocal) : WriteResult → WriteLocal
  | .failed errno => { frame with callCount := frame.callCount + 1, opErrno := errno, opRet := -1 }
  | .wrote n => { frame with callCount := frame.callCount + 1, opRet := frame.opRet + n }

/-- One operation, with the operations it puts in front of the thread. -/
def WriteState.exec (s : WriteState) : WriteOp → WriteState × List WriteOp
  | .count => ({ s with frame := { s.frame with windCount := s.frame.windCount + 1 } }, [])
  | .last => ({ s with frame := { s.frame with unwind := true } }, [])
  | .wind call => ({ s with calls := s.calls ++ [call] }, [])
  | .compare callcnt => (s, if callcnt = s.frame.windCount then [.test] else [])
  | .test => (s, if s.frame.unwind then [.unwind] else [])
  | .unwind => ({ s with answers := s.answers ++ [(s.frame.opRet, s.frame.opErrno)] }, [])

inductive WriteAction where
  | run (thread : Nat)
  /-- A child returns, and the callback goes through its locked section. -/
  | reply (call : Nat) (result : WriteResult)
  deriving DecidableEq, Repr

/-- There is no such thread or call. -/
inductive Fault where
  | refused
  deriving DecidableEq, Repr

def writeStep (s : WriteState) : WriteAction → Except Fault WriteState
  | .run i =>
    match Threads.next? s.threads i with
    | none => .error .refused
    | some (op, rest) =>
      let (s', new) := s.exec op
      .ok { s' with threads := Threads.advance s.threads i new rest }
  | .reply j result =>
    match s.calls[j]? with
    | none => .error .refused
    | some _ =>
      let frame := s.frame.collect result
      .ok
        { s with
          frame := frame
          calls := s.calls.eraseIdx j
          results := s.results ++ [result]
          threads := s.threads ++ [[.compare frame.callCount]] }

end GlusterFS.Stripe
