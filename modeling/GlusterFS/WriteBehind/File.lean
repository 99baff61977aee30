import GlusterFS.Lib.Run
import GlusterFS.Lib.Threads
import GlusterFS.WriteBehind.Queue

/-!
# `WriteBehind.File` — one file of write-behind under concurrent threads

The state is one `wb_file_t`, the requests the child has not answered, and the threads that are in the code. An
operation of a thread (`Op`) is what it does while it holds the file's lock, or one call to the child or to the
application between two such sections: in between, any other thread can go on. The actions of a run are calls of
the application, answers of the child, in any order, and single steps of the threads.

`log` keeps what happened, the last event first: the writes the child has received and answered, the answers the
application got, the operations that were resumed and those that have left the queue.

Not in the model: allocations that fail, the operations on an fd whose context is not set (they go to the child),
the attributes and bytes that are read and written, and `fd` and `file` references.
-/

namespace GlusterFS.WriteBehind

/-- `wb_conf_t` with `ctx->page_size`. `init` refuses a window smaller than the aggregate. -/
structure Conf where
  aggregateSize : Nat
  windowSize : Nat
  disableTill : Nat
  flushBehind : Bool
  enableTricklingWrites : Bool
  pageSize : Nat
  window : aggregateSize ≤ windowSize

/-- `WB_AGGREGATE_SIZE`, which is also the size of a page. -/
def wbAggregateSize : Nat := 131072

def wbWindowSize : Nat := 1048576

/-- The values `init` takes from the options: only the aggregate size is fixed, and a window of 0 is replaced by
    it. `none` if `init` fails. -/
def init (cacheSize : Option Nat) (disableTill : Option Nat) (flushBehind enableTricklingWrites : Option Bool) :
    Option Conf :=
  let windowSize := cacheSize.getD wbWindowSize
  let windowSize := if windowSize = 0 then wbAggregateSize else windowSize
  if h : wbAggregateSize ≤ windowSize then
    some
      { aggregateSize := wbAggregateSize
        windowSize := windowSize
        disableTill := disableTill.getD 1
        flushBehind := flushBehind.getD false
        enableTricklingWrites := enableTricklingWrites.getD true
        pageSize := wbAggregateSize
        window := h }
  else none

/-- The smallest window, used from the first byte. -/
def smallConf : Conf :=
  { aggregateSize := wbAggregateSize
    windowSize := wbAggregateSize
    disableTill := 0
    flushBehind := false
    enableTricklingWrites := true
    pageSize := wbAggregateSize
    window := Nat.le_refl _ }

example : init (some 0) (some 0) none none = some smallConf := rfl

/-- What a thread does next. -/
inductive Op where
  /-- `wb_enqueue`. -/
  | enqueue (fop : Fop)
  /-- The locked section of `wb_process_queue`. -/
  | mark (flushAll : Bool)
  /-- `STACK_UNWIND` in `wb_stack_unwind`. -/
  | unwind (id : Nat)
  /-- `wb_request_unref`, in `wb_stack_unwind` or for an operation that is no write. -/
  | unref (id : Nat) (acked : Bool)
  /-- `STACK_WIND` in `wb_sync`. -/
  | send (wind : Wind)
  /-- `request->stub = NULL` in `wb_resume_other_requests`. -/
  | detach (id : Nat)
  /-- `call_resume`. -/
  | resume (id : Nat) (fop : OtherFop)
  /-- `STACK_WIND` in `wb_flush`. -/
  | flush (id : Nat) (behind : Bool)
  deriving DecidableEq, Repr

/-- A request the child has not answered. A write of `wb_writev` while write-behind is disabled is `direct`. -/
inductive Call where
  | write (wind : Wind)
  | other (id : Nat) (fop : OtherFop)
  | flush (id : Nat) (behind : Bool)
  | direct (size : Nat)
  deriving DecidableEq, Repr

/-- Who looks at `file->op_ret`. -/
inductive Checker where
  | writev
  | fsync (id : Nat)
  | flush (id : Nat)
  deriving DecidableEq, Repr

inductive Event where
  /-- The child has received these writes as one. -/
  | sent (writes : List Nat)
  /-- The child has answered these writes, `size` bytes, with `opRet`. -/
  | answered (writes : List Nat) (size : Nat) (opRet : Int)
  /-- The application has got the answer to a write. -/
  | acked (write : Nat) (opRet : Int)
  | resumed (other : Nat)
  | left (other : Nat)
  /-- A writev, fsync or flush has returned the error of `file->op_ret`, or found none. -/
  | checked (checker : Checker) (error : Bool)
  deriving DecidableEq, Repr

/-- The file and everything that is under way. `issued` has what was put on the queue, by number, and `flushed`
    the flushes with `reply_count` 1. -/
structure State where
  disabled : Bool
  disableTill : Nat
  windowConf : Nat
  windowCurrent : Nat
  aggregateCurrent : Nat
  opRet : Int
  opErrno : Int
  queue : List Request
  passive : List Request
  issued : List Fop
  flushed : List Nat
  threads : List (List Op)
  calls : List Call
  log : List Event
  deriving DecidableEq, Repr

variable (conf : Conf)

/-- `wb_file_create`, and what `wb_open_cbk` and `wb_create_cbk` set: with mandatory locking or `GF_OPEN_NOWB` the
    file is `disabled`, and with `O_DIRECT`, `O_RDONLY` or, if it is enabled, `O_SYNC` it has no window. -/
def State.create (disabled noWindow : Bool) : State :=
  { disabled := disabled
    disableTill := conf.disableTill
    windowConf := if noWindow then 0 else conf.windowSize
    windowCurrent := 0
    aggregateCurrent := 0
    opRet := 0
    opErrno := 0
    queue := []
    passive := []
    issued := []
    flushed := []
    threads := []
    calls := []
    log := [] }

/-! ## References -/

/-- `wb_request_unref` on a list. -/
def unrefIn (id : Nat) (q : List Request) : List Request := q.filterMap fun r => if r.id = id then r.unref else some r

/-- `request->stub = NULL` for one request. -/
def Request.detach (id : Nat) (r : Request) : Request := if r.id = id then { r with stub := false } else r

/-- The operation leaves the queue with this `unref`. -/
def leaves (id : Nat) (q : List Request) : Bool := q.any fun r => r.id = id && !r.fop.isWrite && decide (r.refcount ≤ 1)

/-- The writes whose bytes these requests have. -/
def carriedBy (ids : List Nat) (q : List Request) : List Nat := (q.filter fun r => r.id ∈ ids).flatMap Request.carried

/-! ## `file->op_ret` -/

variable (s : State)

/-- A writev, fsync or flush takes the error that is there. -/
def State.check (who : Checker) : State :=
  { s with opRet := 0, log := .checked who (s.opRet = -1) :: s.log }

/-- `conf->flush_behind && !disabled && disable_till == 0`. -/
def State.flushesBehind : Bool := conf.flushBehind && !s.disabled && decide (s.disableTill = 0)

/-- `wb_ffr_cbk`, for a flush that is resumed and for one the child has answered; the flush is returned after
    both, or with `flush-behind` after the first. -/
def wbFfrCbk (id : Nat) : State × List Op :=
  if s.flushesBehind conf || decide (id ∈ s.flushed) then (s.check (.flush id), [.mark false])
  else ({ s with flushed := id :: s.flushed }, [])

/-! ## A pass over the queue -/

/-- `wb_stack_unwind`, for every request of the list. -/
def unwindOps (unwinds : List Request) : List Op := unwinds.flatMap fun r => [.unwind r.id, .unref r.id true]

/-- `wb_resume_other_requests`, for the request of the list; after a flush there is another pass. -/
def resumeOps (others : List Request) : List Op :=
  others.flatMap fun r =>
    match r.fop with
    | .write _ _ => []
    | .other fop =>
      if fop.wind then [.detach r.id, .resume r.id fop]
      else [.detach r.id, .unref r.id false, .resume r.id fop, .mark false]

/-- The writes a pass marks for winding: none if there is an operation to resume. -/
def windsAfter (flushAll : Bool) (others : Marked) : Marked :=
  if others.marked = [] then
    markWinds conf.aggregateSize s.aggregateCurrent flushAll conf.enableTricklingWrites others.queue
  else .stop others.queue

/-- `wb_process_queue`: what it does under the lock, and what `wb_do_ops` does then. -/
def wbProcessQueue (flushAll : Bool) : Except Fault (State × List Op) :=
  let unwinds := markUnwinds s.windowConf s.windowCurrent s.queue
  match collapseWriteBufs conf.pageSize .start unwinds.queue with
  | .error e => .error e
  | .ok collapsed =>
    let others := getOtherRequests collapsed.queue
    let winds := windsAfter conf s flushAll others
    .ok
      ({ s with
          windowCurrent := s.windowCurrent + windowAdded unwinds.marked
          aggregateCurrent := s.aggregateCurrent - (winds.marked.map Request.writeSize).sum
          queue := winds.queue
          passive := s.passive ++ collapsed.packed.filterMap Request.unref },
        unwindOps unwinds.marked ++ (sync conf.aggregateSize winds.marked).map .send ++ resumeOps others.marked)

/-! ## The steps of a thread -/

/-- What the thread does after its request is on the queue. -/
def afterEnqueue (id : Nat) : Fop → List Op
  | .write _ _ => [.mark false]
  | .other (.flush behind) => [.mark true, .flush id behind]
  | .other _ => [.mark true]

def State.find (id : Nat) : Option Request := (s.queue ++ s.passive).find? fun r => r.id = id

/-- One operation, with the operations it puts in front of the thread. -/
def exec : Op → Except Fault (State × List Op)
  | .enqueue fop =>
    let id := s.issued.length
    .ok
      ({ s with
          queue := s.queue ++ [.new id fop]
          issued := s.issued ++ [fop]
          aggregateCurrent := s.aggregateCurrent + fop.size },
        afterEnqueue id fop)
  | .mark flushAll => wbProcessQueue conf s flushAll
  | .unwind id =>
    match s.find id with
    | none => .error .nullPointer
    | some r => .ok ({ s with log := .acked id r.opRet :: s.log }, [])
  | .unref id _ =>
    .ok
      ({ s with
          queue := unrefIn id s.queue
          passive := unrefIn id s.passive
          log := if leaves id s.queue then .left id :: s.log else s.log }, [])
  | .send wind =>
    if maxVectorCount < wind.count then .error .overflow
    else
      .ok ({ s with calls := s.calls ++ [.write wind], log := .sent (carriedBy wind.ids s.queue) :: s.log }, [])
  | .detach id => .ok ({ s with queue := s.queue.map (Request.detach id) }, [])
  | .resume id fop =>
    let s := { s with log := .resumed id :: s.log }
    if fop.wind then .ok ({ s with calls := s.calls ++ [.other id fop] }, []) else .ok (wbFfrCbk conf s id)
  | .flush id behind => .ok ({ s with calls := s.calls ++ [.flush id behind] }, [])

/-! ## Answers of the child -/

/-- What `wb_sync_cbk` does with one request of the write. -/
def Request.replied (opRet opErrno : Int) (r : Request) : Option Request :=
  Request.unref
    (if !r.writeBehind && decide (opRet = -1) then { r with gotReply := true, opRet := opRet, opErrno := opErrno }
    else { r with gotReply := true })

/-- What is no longer in the window after the answer. -/
def windowTaken (ids : List Nat) (q : List Request) : Nat :=
  ((q.filter fun r => decide (r.id ∈ ids) && r.writeBehind).map Request.writeSize).sum

/-- `wb_sync_cbk`, up to its call of `wb_process_queue`. -/
def wbSyncCbk (wind : Wind) (opRet opErrno : Int) : State :=
  { s with
    queue := s.queue.filterMap fun r => if r.id ∈ wind.ids then r.replied opRet opErrno else some r
    windowCurrent := s.windowCurrent - windowTaken wind.ids s.queue
    opRet := if opRet = -1 then -1 else s.opRet
    opErrno := if opRet = -1 then opErrno else s.opErrno
    log := .answered (carriedBy wind.ids s.queue) wind.size opRet :: s.log }

/-- The callback of a request, with the thread it goes on in. -/
def answer (opRet opErrno : Int) : Call → State × List Op
  | .write wind => (wbSyncCbk s wind opRet opErrno, [.mark false])
  | .other id .fsync => (s.check (.fsync id), [.unref id false, .mark false])
  | .other id _ => (s, [.unref id false, .mark false])
  | .flush id behind => if behind then (s, []) else wbFfrCbk conf s id
  | .direct _ => (s, [])

/-! ## Runs -/

inductive Action where
  /-- `wb_writev`. -/
  | writev (off : Nat) (vector : List Nat)
  /-- One of the operations that are put on the queue, but a flush. -/
  | other (fop : OtherFop)
  /-- `wb_flush`. -/
  | flush
  | run (thread : Nat)
  /-- The child answers a request. -/
  | reply (call : Nat) (opRet opErrno : Int)
  deriving DecidableEq, Repr

/-- `wb_writev`, up to `wb_enqueue`. -/
def wbWritev (off : Nat) (vector : List Nat) : State :=
  let s' := s.check .writev
  if s.opRet = -1 then s'
  else if s.disabled || decide (s.disableTill ≠ 0) then
    { s' with
      disableTill := if s.disableTill < vector.sum then 0 else s.disableTill - vector.sum
      calls := s.calls ++ [.direct vector.sum] }
  else { s' with threads := s.threads ++ [[.enqueue (.write off vector)]] }

def step : Action → Except Fault State
  | .writev off vector => .ok (wbWritev s off vector)
  | .other fop =>
    if fop.wind then .ok { s with threads := s.threads ++ [[.enqueue (.other fop)]] } else .error .refused
  | .flush => .ok { s with threads := s.threads ++ [[.enqueue (.other (.flush (s.flushesBehind conf)))]] }
  | .run i =>
    match Threads.next? s.threads i with
    | none => .error .refused
    | some (op, rest) =>
      match exec conf s op with
      | .error e => .error e
      | .ok (s', new) => .ok { s' with threads := Threads.advance s.threads i new rest }
  | .reply j opRet opErrno =>
    match s.calls[j]? with
    | none => .error .refused
    | some call =>
      let (s', new) := answer conf { s with calls := s.calls.eraseIdx j } opRet opErrno call
      .ok { s' with threads := s.threads ++ [new] }

def runFrom (disabled noWindow : Bool) (actions : List Action) : Except Fault State :=
  Transition.run (step conf) (.create conf disabled noWindow) actions

end GlusterFS.WriteBehind
