import Mathlib
import GlusterFS.Lib.Run
import GlusterFS.Lib.Threads

/-!
# `Client.Protocol` — the requests of one connection that wait for a reply

A request that was sent is put on one of three lists, by its type, under the connection's lock. A reply, the bail-out
timer and the clean-up after a disconnect take frames off the lists under the same lock and call back after they have
released it. An action of a run is one such locked section; what is left to be called becomes a thread, whose calls
any other action can come between.

Not in the model: allocations that fail, the timers themselves (the bail-out can run at any time), `frames->count`,
and what a callback does with its frame.
-/

namespace GlusterFS.Client

/-- The types of operations. Each has a list of `struct saved_frames` and a table of callbacks. -/
inductive OpType where
  | fop
  | mop
  | cbk
  deriving DecidableEq, Repr

namespace OpType

/-- `GF_OP_TYPE_FOP_REPLY`, `GF_OP_TYPE_MOP_REPLY` and `GF_OP_TYPE_CBK_REPLY`; a request has 3 less. -/
def reply : OpType → Int
  | .fop => 4
  | .mop => 5
  | .cbk => 6

/-- `GF_FOP_MAXVALUE`, `GF_MOP_MAXVALUE` and `GF_CBK_MAXVALUE`, the sizes of the tables. -/
def maxValue : OpType → Int
  | .fop => 45
  | .mop => 8
  | .cbk => 3

/-- The entries of `gf_fops`, `gf_mops` and `gf_cbks` that are set: not those from `GF_FOP_LOCK_NOTIFY` to
    `GF_FOP_FSETXATTR`, and not `GF_MOP_NOTIFY`. -/
def hasCbk : OpType → Int → Bool
  | .fop, op => decide (0 ≤ op ∧ op < 37 ∨ 40 < op ∧ op < 45)
  | .mop, op => decide (0 ≤ op ∧ op < 7)
  | .cbk, op => decide (0 ≤ op ∧ op < 3)

end OpType

inductive Fault where
  | nullPointer
  | outOfBounds
  | refused
  deriving DecidableEq, Repr

/-- `struct saved_frame`, on the list of its type. `frame` is the number of the request; what is submitted has a
    callback. -/
structure SavedFrame (type : OpType) where
  frame : Nat
  op : Int
  callid : Nat
  savedAt : Nat
  called : type.hasCbk op = true

/-- `struct saved_frames`. -/
abbrev SavedFrames := (type : OpType) → List (SavedFrame type)

/-- `get_head_frame_for_type`; its argument is an `int8_t`. -/
def getHeadFrameForType (type : Int) : Option OpType :=
  match type.bmod 256 with
  | 1 | 4 => some .fop
  | 2 | 5 => some .mop
  | 3 | 6 => some .cbk
  | _ => none

def savedFramesGet (frames : SavedFrames) (type : Int) (callid : Nat) : Except Fault (Option Nat × SavedFrames) :=
  match getHeadFrameForType type with
  | none => .error .nullPointer
  | some c =>
    match (frames c).find? fun f => f.callid = callid with
    | none => .ok (none, frames)
    | some f => .ok (some f.frame, Function.update frames c ((frames c).eraseP fun f => f.callid = callid))

/-! ## Calling back -/

/-- A call of a callback: for which frame, and which callback. -/
structure Invocation where
  frame : Nat
  type : OpType
  op : Int
  deriving DecidableEq, Repr

/-- `gf_ops[op] (frame, ...)`. -/
def callBack (frame : Nat) (type : OpType) (op : Int) : Except Fault Invocation :=
  if type.hasCbk op then .ok ⟨frame, type, op⟩
  else if 0 ≤ op ∧ op < type.maxValue then .error .nullPointer
  else .error .outOfBounds

/-- What a thread does next. -/
inductive Op where
  /-- The switch of `protocol_client_interpret`. -/
  | interpret (frame : Nat) (type op : Int)
  /-- A callback of `call_bail`, `saved_frames_unwind` or `protocol_client_xfer`. -/
  | call (frame : Nat) (type : OpType) (op : Int)
  deriving DecidableEq, Repr

def Op.frame : Op → Nat
  | .interpret frame _ _ => frame
  | .call frame _ _ => frame

def replyType (type : Int) : Option OpType := [OpType.fop, .mop, .cbk].find? fun c => c.reply = type

/-- The calls that are made; an invalid number or type is only logged. -/
def exec : Op → Except Fault (List Invocation)
  | .call frame type op => (callBack frame type op).map ([·])
  | .interpret frame type op =>
    match replyType type with
    | none => .ok []
    | some c => if c.maxValue < op ∨ op < 0 then .ok [] else (callBack frame c op).map ([·])

/-- One connection; `requests` counts what was submitted and `invoked` has the last call first. -/
structure State where
  connected : Bool
  callid : Nat
  requests : Nat
  saved : SavedFrames
  threads : List (List Op)
  invoked : List Invocation

def State.init : State := ⟨false, 0, 0, fun _ => [], [], []⟩

inductive Action where
  /-- `protocol_client_xfer`, and whether `transport_submit` succeeds. -/
  | submit (type : OpType) (op : Int) (called : type.hasCbk op = true) (sent : Bool) (now : Nat)
  /-- `conn->connected` is set. -/
  | connected (up : Bool)
  /-- The locked section of `protocol_client_interpret`. -/
  | reply (type op : Int) (callid : Nat)
  /-- The locked section of `call_bail`. -/
  | bail (now : Nat)
  /-- The locked section of `protocol_client_cleanup`. -/
  | cleanup
  | run (thread : Nat)

def unwindOps {type : OpType} (frames : List (SavedFrame type)) : List Op := frames.map fun f => .call f.frame type f.op

/-- `saved_frames_get_timedout` takes the first frame of the list as long as this holds of it. -/
def SavedFrame.late {type : OpType} (timeout now : Nat) (f : SavedFrame type) : Bool := decide (f.savedAt + timeout < now)

/-- One step, with `conn->frame_timeout`. -/
def step (timeout : Nat) (s : State) : Action → Except Fault State
  | .submit type op called sent now =>
    let callid := (s.callid + 1) % 2 ^ 64
    let s' := { s with callid := callid, requests := s.requests + 1 }
    if sent && (s.connected || decide (type = .mop ∧ op = 0)) then
      .ok { s' with saved := Function.update s.saved type (s.saved type ++ [⟨s.requests, op, callid, now, called⟩]) }
    else .ok { s' with threads := s.threads ++ [[.call s.requests type op]] }
  | .connected up => .ok { s with connected := up }
  | .reply type op callid =>
    match savedFramesGet s.saved type callid with
    | .error e => .error e
    | .ok (none, _) => .ok s
    | .ok (some frame, saved) => .ok { s with saved := saved, threads := s.threads ++ [[.interpret frame type op]] }
  | .bail now =>
    let late (type : OpType) := unwindOps ((s.saved type).takeWhile (SavedFrame.late timeout now))
    .ok { s with
      saved := fun type => (s.saved type).dropWhile (SavedFrame.late timeout now)
      threads := s.threads ++ [(late .mop ++ late .fop ++ late .cbk).reverse] }
  | .cleanup =>
    .ok { s with
      saved := fun _ => []
      threads := s.threads ++ [unwindOps (s.saved .fop) ++ unwindOps (s.saved .mop) ++ unwindOps (s.saved .cbk)] }
  | .run i =>
    match Threads.next? s.threads i with
    | none => .error .refused
    | some (op, rest) =>
      match exec op with
      | .error e => .error e
      | .ok calls => .ok { s with threads := Threads.advance s.threads i [] rest, invoked := calls ++ s.invoked }

end GlusterFS.Client
