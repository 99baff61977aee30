import GlusterFS.Lib.Run
import Mathlib.Logic.Function.Basic

/-!
# `IoThreads.Workers` — the request queues of io-threads and their workers

A worker has a queue under a lock, and a thread that serves it. A request starts the thread if the worker is not
active. The thread waits if the queue is empty, and its wait gives the lock away: it ends when it is notified or when
the time is over, and only then does the thread take the lock again. Between these two (`Thread.woken`) other threads
can have the lock. A thread that has timed out may exit if its worker is not one of the first `min_*_threads`.

Ordered and unordered workers have the same code; a `Kind` says which configuration is read. `rand`, `create` and
`memory` stand for the results of `random`, `pthread_create` and `mem_get`, which the run chooses. The notifier is a
condition variable.
-/

namespace GlusterFS.IoThreads

inductive Kind where
  | ordered
  | unordered
  deriving DecidableEq, Repr

/-- `iot_state_t`. -/
inductive WorkerState where
  | active
  | exitRequest
  | dead
  deriving DecidableEq, Repr

/-- Where a thread of a worker is. -/
inductive Thread where
  /-- Before it takes the lock in `iot_dequeue_ordered`. -/
  | dequeuing
  /-- In `pthread_cond_timedwait`. -/
  | waiting
  /-- Its wait is over, and it does not have the lock yet. -/
  | woken (timedOut : Bool)
  /-- In `call_resume`. -/
  | resuming (request : Nat)
  deriving DecidableEq, Repr

/-- `iot_worker_t`. `queue_size` is the length of `rqlist`, and `thread_idx` the place in the array. -/
structure Worker where
  state : WorkerState
  rqlist : List Nat
  threads : List Thread
  deriving DecidableEq, Repr

/-- `iot_conf_t`, with what `init` ensures of the numbers of threads. -/
structure Conf where
  minThreads : Kind → Nat
  maxThreads : Kind → Nat
  scaling : Kind → Bool
  min_pos : ∀ kind, 0 < minThreads kind
  min_le_max : ∀ kind, minThreads kind ≤ maxThreads kind

/-- Why a request is unwound instead of being queued. -/
inductive Errno where
  | enomem
  | ecanceled
  /-- The error of `pthread_create`. -/
  | create (errno : Nat)
  deriving DecidableEq, Repr

/-! ## One worker -/

namespace Worker

/-- `allocate_worker`. -/
def new : Worker := ⟨.dead, [], []⟩

variable (w : Worker)

/-- `iot_startup_worker`, if the thread can be created. -/
def startup : Worker := { w with state := .active, threads := w.threads ++ [.dequeuing] }

/-- `iot_notify_worker`. -/
def notify : Worker :=
  { w with threads := w.threads.map fun t => if t = .waiting then .woken false else t }

/-- `_iot_queue`. -/
def queue (request : Nat) : Worker := { w with rqlist := w.rqlist ++ [request] }.notify

/-- `iot_request_queue_and_thread_fire`. -/
def queueAndThreadFire (request create : Nat) : Except Errno Worker :=
  if w.state = .active then .ok (w.queue request)
  else if create = 0 then .ok (w.startup.queue request)
  else .error (.create create)

/-- A round of the loop of `iot_dequeue_ordered`, with the lock, up to the wait or the request. -/
def dequeue (i : Nat) : Worker :=
  match w.rqlist with
  | [] =>
    if w.state = .exitRequest then { w with threads := w.threads.eraseIdx i }
    else { w with threads := w.threads.set i .waiting }
  | request :: rest => { w with rqlist := rest, threads := w.threads.set i (.resuming request) }

/-- What `iot_ordered_exit` returns for the worker at `idx`. -/
def exits (minThreads idx : Nat) (timedOut : Bool) : Bool :=
  w.state = .exitRequest || timedOut && decide (minThreads ≤ idx)

/-- The wait of `iot_ordered_request_wait` returns, with the lock. -/
def relock (minThreads idx i : Nat) (timedOut : Bool) : Worker :=
  if w.exits minThreads idx timedOut then { w with state := .dead, threads := w.threads.eraseIdx i } else w.dequeue i

end Worker

/-- What can happen to a thread. -/
inductive Move where
  | enter
  | timeout
  /-- A wait may also end for no reason. -/
  | wakeup
  | relock
  | resumed
  deriving DecidableEq, Repr

def Worker.move (w : Worker) (minThreads idx i : Nat) (m : Move) : Option Worker :=
  match w.threads[i]?, m with
  | some .dequeuing, .enter => some (w.dequeue i)
  | some .waiting, .timeout => some { w with threads := w.threads.set i (.woken true) }
  | some .waiting, .wakeup => some { w with threads := w.threads.set i (.woken false) }
  | some (.woken timedOut), .relock => some (w.relock minThreads idx i timedOut)
  | some (.resuming _), .resumed => some { w with threads := w.threads.set i .dequeuing }
  | _, _ => none

/-! ## All workers -/

/-- `inode_ctx` has the worker of an inode, and `refused` the requests that were unwound with an error. -/
structure State where
  workers : Kind → List Worker
  inodeCtx : List (Nat × Nat)
  refused : List (Nat × Errno)

/-- `workers_init`: the first workers are started. -/
def workersInit (conf : Conf) : State where
  workers kind := (List.range (conf.maxThreads kind)).map fun idx =>
    if idx < conf.minThreads kind then Worker.new.startup else .new
  inodeCtx := []
  refused := []

/-- `iot_unordered_request_balancer`, and `iot_create_inode_worker_assoc`. -/
def balance (conf : Conf) (kind : Kind) (rand : Nat) : Nat :=
  if conf.scaling kind then rand % conf.maxThreads kind else rand % conf.minThreads kind

inductive Fault where
  /-- There is no such worker, or no thread that could do this. -/
  | refused
  deriving DecidableEq, Repr

namespace State

def refuse (s : State) (request : Nat) (errno : Errno) : State := { s with refused := (request, errno) :: s.refused }

def update (s : State) (kind : Kind) (idx : Nat) (w : Worker) : State :=
  { s with workers := Function.update s.workers kind ((s.workers kind).set idx w) }

/-- The request is made for this worker and put on its queue. -/
def schedule (s : State) (kind : Kind) (idx request create : Nat) (memory : Bool) : Except Fault State :=
  match (s.workers kind)[idx]? with
  | none => .error .refused
  | some w =>
    if memory then
      match w.queueAndThreadFire request create with
      | .ok w' => .ok (s.update kind idx w')
      | .error errno => .ok (s.refuse request errno)
    else .ok (s.refuse request .enomem)

end State

inductive Action where
  /-- `iot_schedule_unordered`. -/
  | unordered (request rand create : Nat) (memory : Bool)
  /-- `iot_schedule_ordered`. -/
  | ordered (inode request rand create : Nat) (memory : Bool)
  | thread (kind : Kind) (idx i : Nat) (m : Move)
  /-- `iot_stop_worker`, when the translator is shut down. -/
  | stop (kind : Kind) (idx : Nat)
  deriving DecidableEq, Repr

def step (conf : Conf) (s : State) : Action → Except Fault State
  | .unordered request rand create memory =>
    s.schedule .unordered (balance conf .unordered rand) request create memory
  | .ordered inode request rand create memory =>
    match s.inodeCtx.lookup inode with
    | none =>
      let idx := balance conf .ordered rand
      { s with inodeCtx := (inode, idx) :: s.inodeCtx }.schedule .ordered idx request create memory
    | some idx =>
      if conf.maxThreads .ordered ≤ idx then .ok (s.refuse request .ecanceled)
      else s.schedule .ordered idx request create memory
  | .thread kind idx i m =>
    match (s.workers kind)[idx]? with
    | none => .error .refused
    | some w =>
      match w.move (conf.minThreads kind) idx i m with
      | none => .error .refused
      | some w' => .ok (s.update kind idx w')
  | .stop kind idx =>
    match (s.workers kind)[idx]? with
    | none => .error .refused
    | some w => .ok (s.update kind idx { w with state := .exitRequest }.notify)

def runFrom (conf : Conf) (actions : List Action) : Except Fault State :=
  Transition.run (step conf) (workersInit conf) actions

end GlusterFS.IoThreads
