import GlusterFS.Client.Protocol

/-!
# `Client.Correctness.Replies` — every request is called back once, and by its own callback

Each request is counted where it can be: on a saved list, with a thread that is about to call it back, and among the
calls that were made. No step of a connection changes the sum (`Accounted.step`). Which callback a reply calls is up
to the number in its header.
-/

namespace GlusterFS.Client

open Threads Transition
open List

variable {timeout : Nat} {s t : State} {type : OpType} {op : Int}

/-! ## Counting -/

variable (frames : SavedFrames)

/-- How often the request is saved. -/
def saves (i : Nat) : Nat :=
  ((frames .fop).map SavedFrame.frame).count i + ((frames .mop).map SavedFrame.frame).count i +
    ((frames .cbk).map SavedFrame.frame).count i

/-- How often threads are about to call it back. -/
def calling (ops : List Op) (i : Nat) : Nat := (ops.map Op.frame).count i

/-- How often it was called back. -/
def calls (invoked : List Invocation) (i : Nat) : Nat := (invoked.map Invocation.frame).count i

theorem calling_unwindOps (frames : List (SavedFrame type)) (i : Nat) :
    ((unwindOps frames).map Op.frame).count i = (frames.map SavedFrame.frame).count i := by
  simp [unwindOps, Function.comp_def, Op.frame]

theorem saves_update (l : List (SavedFrame type)) (i : Nat) :
    saves (Function.update frames type l) i + ((frames type).map SavedFrame.frame).count i =
      saves frames i + (l.map SavedFrame.frame).count i := by
  cases type <;> simp [saves] <;> omega

theorem savedFramesGet_cases (callid : Nat) : savedFramesGet frames type.reply callid = .ok (none, frames) ∨
      ∃ f pre post, frames type = pre ++ f :: post ∧ f.callid = callid ∧
        savedFramesGet frames type.reply callid = .ok (some f.frame, Function.update frames type (pre ++ post)) := by
  have hhead : getHeadFrameForType type.reply = some type := by cases type <;> rfl
  unfold savedFramesGet
  rw [hhead]
  dsimp only
  split
  · exact .inl rfl
  next f hfind =>
    obtain ⟨hid, pre, post, hsplit, hpre⟩ := find?_eq_some_iff_append.mp hfind
    refine .inr ⟨f, pre, post, hsplit, by simpa using hid, ?_⟩
    rw [hsplit, eraseP_append_right _ (by simpa using hpre)]
    simp [hid]

/-! ## Callbacks -/

/-- A reply has the type of a reply and the number of an operation that has a callback. -/
def ValidReply (type op : Int) : Prop := ∃ c : OpType, type = c.reply ∧ c.hasCbk op = true

/-- The operation calls a callback. -/
def Op.Valid : Op → Prop
  | .interpret _ type op => ValidReply type op
  | .call _ type op => type.hasCbk op = true

def Action.Valid : Action → Prop
  | .reply type op _ => ValidReply type op
  | _ => True

theorem valid_unwindOps (frames : List (SavedFrame type)) : ∀ op ∈ unwindOps frames, op.Valid := by
  intro op hop
  obtain ⟨f, -, rfl⟩ := mem_map.mp hop
  exact f.called

/-- A reply with the number of an operation is dispatched to its callback. -/
theorem exec_interpret (h : type.hasCbk op = true) (frame : Nat) :
    exec (.interpret frame type.reply op) = .ok [⟨frame, type, op⟩] := by
  have hrep : replyType type.reply = some type := by cases type <;> rfl
  have hrange : ¬ (type.maxValue < op ∨ op < 0) := by
    cases type <;> simp [OpType.hasCbk, OpType.maxValue] at h ⊢ <;> omega
  simp [exec, hrep, hrange, callBack, h, Except.map]

theorem exec_valid {op : Op} (h : op.Valid) : ∃ call : Invocation, call.frame = op.frame ∧ exec op = .ok [call] := by
  cases op with
  | interpret frame type op =>
    obtain ⟨c, rfl, hcbk⟩ := h
    exact ⟨_, rfl, exec_interpret hcbk frame⟩
  | call frame type op =>
    have h : type.hasCbk op = true := h
    exact ⟨⟨frame, type, op⟩, rfl, by simp [exec, callBack, h, Except.map]⟩

/-! ## Every step keeps the count -/

/-- **Every request is in one place**, and threads only call what is there. -/
structure Accounted (s : State) : Prop where
  once : ∀ i, calls s.invoked i + saves s.saved i + calling (pending s.threads) i = if i < s.requests then 1 else 0
  valid : ∀ op ∈ pending s.threads, op.Valid

theorem Accounted.moved {ops : List Op} (h : Accounted s) (hinvoked : t.invoked = s.invoked)
    (hthr : t.threads = s.threads ++ [ops]) (hval : ∀ op ∈ ops, op.Valid)
    (hcnt : ∀ i, saves t.saved i + calling ops i + (if i < s.requests then 1 else 0) =
      saves s.saved i + if i < t.requests then 1 else 0) : Accounted t := by
  have hpend := hthr ▸ pending_start s.threads ops
  refine ⟨?_, ?_⟩
  · intro i
    have hcalling := (hpend.map Op.frame).count_eq i
    have hs := h.once i
    have ht := hcnt i
    simp only [calling, map_append, count_append, hinvoked] at *
    omega
  intro op hop
  rcases mem_append.mp (hpend.mem_iff.mp hop) with hop | hop
  · exact hval op hop
  · exact h.valid op hop

/-- **What one step keeps.** -/
theorem Accounted.step {a : Action} (h : Accounted s) (hval : a.Valid) (hs : step timeout s a = .ok t) :
    Accounted t := by
  cases a with
  | submit type op called sent now =>
    simp only [Client.step] at hs
    split at hs <;> cases hs
    · refine ⟨?_, h.valid⟩
      intro i
      have hbefore := h.once i
      have hsaves := saves_update s.saved (s.saved type ++ [⟨s.requests, op, (s.callid + 1) % 2 ^ 64, now, called⟩]) i
      simp only [map_append, map_cons, map_nil, count_append, count_singleton] at hsaves
      grind
    refine h.moved rfl rfl (by simpa [Op.Valid] using called) ?_
    intro i
    simp only [calling, map_cons, map_nil, count_singleton, Op.frame]
    grind
  | connected up =>
    cases hs
    exact ⟨h.once, h.valid⟩
  | reply type op callid =>
    obtain ⟨c, rfl, hcbk⟩ := hval
    simp only [Client.step] at hs
    rcases savedFramesGet_cases s.saved callid with heq | ⟨f, pre, post, hsplit, -, heq⟩ <;> rw [heq] at hs <;> cases hs
    · exact h
    refine h.moved rfl rfl (by simpa [Op.Valid] using ⟨c, rfl, hcbk⟩) ?_
    intro i
    have hsaves := saves_update s.saved (pre ++ post) i
    rw [hsplit] at hsaves
    simp only [calling, map_append, map_cons, map_nil, count_append, count_cons, count_nil, Op.frame] at hsaves ⊢
    omega
  | bail now =>
    cases hs
    refine h.moved rfl rfl ?_ ?_
    · intro op hop
      simp only [mem_reverse, mem_append] at hop
      rcases hop with (hop | hop) | hop <;> exact valid_unwindOps _ op hop
    intro i
    have hsplit (type : OpType) : ((s.saved type).map SavedFrame.frame).count i =
        (((s.saved type).takeWhile (SavedFrame.late timeout now)).map SavedFrame.frame).count i +
          (((s.saved type).dropWhile (SavedFrame.late timeout now)).map SavedFrame.frame).count i := by
      rw [← count_append, ← map_append, takeWhile_append_dropWhile]
    simp only [saves, calling, hsplit, map_reverse, count_reverse, map_append, count_append, calling_unwindOps]
    omega
  | cleanup =>
    cases hs
    refine h.moved rfl rfl ?_ ?_
    · intro op hop
      simp only [mem_append] at hop
      rcases hop with (hop | hop) | hop <;> exact valid_unwindOps _ op hop
    intro i
    simp [saves, calling, calling_unwindOps, Nat.add_assoc]
  | run j =>
    simp only [Client.step] at hs
    split at hs
    · cases hs
    next op rest hnext =>
      have hpend := pending_next hnext
      have hafter := pending_advance hnext []
      obtain ⟨call, hfr, hexec⟩ := exec_valid (h.valid op (hpend.mem_iff.mpr mem_cons_self))
      rw [hexec] at hs
      cases hs
      refine ⟨?_, ?_⟩
      · intro i
        have hcalling := (hpend.map Op.frame).count_eq i
        have hafter := (hafter.map Op.frame).count_eq i
        have hbefore := h.once i
        simp only [calls, calling, map_append, map_cons, map_nil, count_append, count_cons, count_nil, hfr] at *
        omega
      intro op' hop'
      exact h.valid op' (hpend.mem_iff.mpr (mem_cons_of_mem _ (hafter.mem_iff.mp hop')))

/-- **Every request is called back exactly once, or is still saved.** In every state of a connection whose replies
    have valid numbers, a request was called back once, or is saved and was not called back, or a thread that took
    it off its list is about to call it back. Such a thread always can, and no other step fails. -/
theorem callback_exactly_once (timeout : Nat) (actions : List Action) (hvalid : ∀ a ∈ actions, a.Valid) (s : State)
    (hrun : run (step timeout) State.init actions = .ok s) : (∀ i < s.requests,
      (calls s.invoked i = 1 ∧ saves s.saved i = 0 ∧ calling (pending s.threads) i = 0) ∨
      (calls s.invoked i = 0 ∧ saves s.saved i = 1 ∧ calling (pending s.threads) i = 0) ∨
      (calls s.invoked i = 0 ∧ saves s.saved i = 0 ∧ calling (pending s.threads) i = 1)) ∧
    (∀ j op rest, next? s.threads j = some (op, rest) → ∃ t call, step timeout s (.run j) = .ok t ∧
      t.invoked = call :: s.invoked ∧ call.frame = op.frame) ∧
    ∀ a : Action, a.Valid → (∀ j, a ≠ .run j) → ∃ t, step timeout s a = .ok t := by
  have h : Accounted s := run_invariant (C := fun _ a => a.Valid) (fun _ _ _ hI hv hs => hI.step hv hs)
    ⟨fun _ => rfl, fun _ hop => by cases hop⟩ (along_of_forall fun a ha _ => hvalid a ha) hrun
  refine ⟨?_, ?_, ?_⟩
  · intro i hi
    have hone := h.once i
    rw [if_pos hi] at hone
    omega
  · intro j op rest hnext
    obtain ⟨call, hframe, hexec⟩ := exec_valid (h.valid op ((pending_next hnext).mem_iff.mpr mem_cons_self))
    simp [step, hnext, hexec, hframe]
  intro a ha hrun
  cases a with
  | run j => exact absurd rfl (hrun j)
  | reply type op callid =>
    obtain ⟨c, rfl, -⟩ := ha
    simp only [step]
    rcases savedFramesGet_cases s.saved callid with heq | ⟨f, pre, post, -, -, heq⟩ <;> rw [heq] <;> exact ⟨_, rfl⟩
  | submit type op called sent now =>
    simp only [step]
    split <;> exact ⟨_, rfl⟩
  | connected up | bail now | cleanup => exact ⟨_, rfl⟩

theorem lookup_hasCbk : OpType.fop.hasCbk 27 = true := by decide

/-- Of two lookups the second is answered twice and the first runs into its timeout; a third one is not sent. -/
def threeLookups : List Action :=
  [.connected true, .submit .fop 27 lookup_hasCbk true 0, .submit .fop 27 lookup_hasCbk true 5, .reply 4 27 2,
    .reply 4 27 2, .bail 10, .run 1, .run 0, .connected false, .submit .fop 27 lookup_hasCbk true 11, .run 2]

theorem lookups_called_back_once :
    ∃ s, run (step 9) State.init threeLookups = .ok s ∧ s.requests = 3 ∧ ∀ i < 3, calls s.invoked i = 1 := by
  obtain ⟨s, hrun, hs⟩ := map_eq_ok (f := fun s => (s.requests, saves s.saved, pending s.threads))
    (show (run (step 9) State.init threeLookups).map _ = .ok (3, fun _ => 0, []) from rfl)
  obtain ⟨hrequests, hsaves, hpending⟩ : 3 = s.requests ∧ (fun _ => 0) = saves s.saved ∧ pending s.threads = [] := by
    simpa using hs
  have hvalid : ∀ a ∈ threeLookups, a.Valid := by
    have hreply : ValidReply 4 27 := ⟨.fop, rfl, lookup_hasCbk⟩
    simp [threeLookups, Action.Valid, hreply]
  refine ⟨s, hrun, hrequests.symm, ?_⟩
  intro i hi
  have h := (callback_exactly_once 9 threeLookups hvalid s hrun).1 i (by omega)
  simpa [← hsaves, hpending, calling] using h

/-! ## Which callback -/

/-- The header has the type of a reply, and the number of the operation that was saved under its call id. -/
def Answers (type op : Int) (callid : Nat) : Prop :=
  ∃ c : OpType, type = c.reply ∧ ∀ f ∈ frames c, f.callid = callid → f.op = op

end GlusterFS.Client
