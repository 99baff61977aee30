import GlusterFS.IoThreads.Workers

/-!
# `IoThreads.Correctness.Stranding` — a request on the queue of a worker is served

While the translator is not shut down a worker is active with one thread, or dead with none, and a dead worker has an
empty queue (`Worker.Sound`). This rests on one fact about time: a thread that waits has an empty queue, since every
request that is queued notifies it, but a thread that has *timed out* is not notified any more. If a request is queued
before this thread has the lock again, it exits all the same: `iot_ordered_exit` looks at the result of the wait and
not at the queue. A run is `Punctual` if this does not happen to a worker that may exit.
-/

namespace GlusterFS.IoThreads

/-- A request is on the queue, the worker is marked dead, and no thread of it is starting. -/
def Worker.Stranded (w : Worker) : Prop := w.rqlist ≠ [] ∧ w.state = .dead ∧ .dequeuing ∉ w.threads
deriving Decidable

/-! ## The invariant of a worker -/

/-- The thread waits, or has timed out and will exit. -/
def Thread.Idle (minThreads idx : Nat) (t : Thread) : Prop := t = .waiting ∨ (t = .woken true ∧ minThreads ≤ idx)

def Worker.Sound (minThreads idx : Nat) (w : Worker) : Prop :=
  match w.state with
  | .active => ∃ t, w.threads = [t] ∧ (t.Idle minThreads idx → w.rqlist = [])
  | .exitRequest => False
  | .dead => w.threads = [] ∧ w.rqlist = []

namespace Worker.Sound

variable {minThreads idx i : Nat} {w w' : Worker} {t : Thread}

theorem active (hstate : w.state = .active) (hthr : w.threads = [t])
    (hidle : t.Idle minThreads idx → w.rqlist = []) : w.Sound minThreads idx := by
  unfold Worker.Sound
  rw [hstate]
  exact ⟨t, hthr, hidle⟩

theorem of_thread (h : w.Sound minThreads idx) (hget : w.threads[i]? = some t) :
    i = 0 ∧ w.state = .active ∧ w.threads = [t] ∧ (t.Idle minThreads idx → w.rqlist = []) := by
  unfold Worker.Sound at h
  cases hstate : w.state with
  | active =>
    rw [hstate] at h
    obtain ⟨t', hthr, hidle⟩ := h
    rw [hthr] at hget
    cases i with
    | zero =>
      cases hget
      exact ⟨rfl, rfl, hthr, hidle⟩
    | succ i => simp at hget
  | exitRequest => simp [hstate] at h
  | dead =>
    simp only [hstate] at h
    simp [h.1] at hget

theorem startup (w : Worker) (hthr : w.threads = []) : w.startup.Sound minThreads idx :=
  .active rfl (by simp [Worker.startup, hthr]; rfl) (by simp [Thread.Idle])

/-- **A request is queued.** A thread that waits is notified. -/
theorem queue (h : w.Sound minThreads idx) (hstate : w.state = .active) (request : Nat)
    (hpunctual : minThreads ≤ idx → .woken true ∉ w.threads) : (w.queue request).Sound minThreads idx := by
  unfold Worker.Sound at h
  rw [hstate] at h
  obtain ⟨t, hthr, -⟩ := h
  rw [hthr] at hpunctual
  by_cases ht : t = .waiting
  · refine .active (t := .woken false) hstate ?_ (by simp [Thread.Idle])
    simp [Worker.queue, Worker.notify, hthr, ht]
  refine .active (t := t) hstate ?_ ?_
  · simp [Worker.queue, Worker.notify, hthr, ht]
  rintro (hwaits | ⟨htimed, hle⟩)
  · exact absurd hwaits ht
  · exact absurd (List.mem_singleton.mpr htimed.symm) (hpunctual hle)

theorem queueAndThreadFire {request create : Nat} (h : w.Sound minThreads idx)
    (hpunctual : minThreads ≤ idx → .woken true ∉ w.threads) (hfire : w.queueAndThreadFire request create = .ok w') :
    w'.Sound minThreads idx := by
  unfold Worker.queueAndThreadFire at hfire
  split at hfire
  next hstate =>
    cases hfire
    exact h.queue hstate request hpunctual
  next hstate =>
    split at hfire
    · cases hfire
      have hempty : w.threads = [] := by
        unfold Worker.Sound at h
        split at h
        · contradiction
        · exact h.elim
        · exact h.1
      exact (Sound.startup w hempty).queue rfl request (by simp [Worker.startup, hempty])
    · cases hfire

theorem dequeue (hstate : w.state = .active) (hthr : w.threads = [t]) : (w.dequeue 0).Sound minThreads idx := by
  unfold Worker.dequeue
  split
  next hnil =>
    rw [if_neg (by simp [hstate])]
    exact .active (t := .waiting) hstate (by simp [hthr]) fun _ => hnil
  next request rest _ => exact .active (t := .resuming request) hstate (by simp [hthr]) (by simp [Thread.Idle])

/-- **Whatever a thread does.** -/
theorem move {m : Move} (h : w.Sound minThreads idx) (hmove : w.move minThreads idx i m = some w') :
    w'.Sound minThreads idx := by
  unfold Worker.move at hmove
  split at hmove
  next hget =>
    obtain ⟨rfl, hstate, hthr, -⟩ := h.of_thread hget
    cases hmove
    exact dequeue hstate hthr
  next hget =>
    -- nothing is queued while it waits
    obtain ⟨rfl, hstate, hthr, hidle⟩ := h.of_thread hget
    cases hmove
    exact .active hstate (by simp [hthr]; rfl) fun _ => hidle (.inl rfl)
  next hget =>
    obtain ⟨rfl, hstate, hthr, -⟩ := h.of_thread hget
    cases hmove
    exact .active (t := .woken false) hstate (by simp [hthr]) (by simp [Thread.Idle])
  next timedOut hget =>
    obtain ⟨rfl, hstate, hthr, hidle⟩ := h.of_thread hget
    cases hmove
    unfold Worker.relock
    split
    next hexits =>
      have hexit : timedOut = true ∧ minThreads ≤ idx := by simpa [Worker.exits, hstate] using hexits
      exact ⟨by simp [hthr], hidle (.inr ⟨by rw [hexit.1], hexit.2⟩)⟩
    · exact dequeue hstate hthr
  next hget =>
    obtain ⟨rfl, hstate, hthr, -⟩ := h.of_thread hget
    cases hmove
    exact .active (t := .dequeuing) hstate (by simp [hthr]) (by simp [Thread.Idle])
  · cases hmove

/-- With a request on its queue the worker is active, and its thread is on the way to it. -/
theorem served (h : w.Sound minThreads idx) (hqueued : w.rqlist ≠ []) :
    w.state = .active ∧ ∃ t ∈ w.threads, t ≠ .waiting := by
  unfold Worker.Sound at h
  cases hstate : w.state with
  | active =>
    rw [hstate] at h
    obtain ⟨t, hthr, hidle⟩ := h
    exact ⟨rfl, t, by simp [hthr], fun ht => hqueued (hidle (.inl ht))⟩
  | exitRequest => simp [hstate] at h
  | dead =>
    simp only [hstate] at h
    exact absurd h.2 hqueued

end Worker.Sound

/-! ## All workers -/

variable {conf : Conf} {s s' : State}

def State.Sound (conf : Conf) (s : State) : Prop :=
  ∀ kind (idx : Nat) w, (s.workers kind)[idx]? = some w → w.Sound (conf.minThreads kind) idx

/-- No request is queued on this worker while its thread has timed out and may exit. -/
def QueuesPunctually (conf : Conf) (s : State) (kind : Kind) (idx : Nat) : Prop :=
  ∀ w ∈ (s.workers kind)[idx]?, conf.minThreads kind ≤ idx → .woken true ∉ w.threads

/-- The condition on a step of a run: requests are queued punctually, and no worker is stopped. -/
def Punctual (conf : Conf) (s : State) : Action → Prop
  | .unordered _ rand _ _ => QueuesPunctually conf s .unordered (balance conf .unordered rand)
  | .ordered inode _ rand _ _ =>
    QueuesPunctually conf s .ordered ((s.inodeCtx.lookup inode).getD (balance conf .ordered rand))
  | .thread _ _ _ _ => True
  | .stop _ _ => False

instance decidablePunctual (conf : Conf) (s : State) (a : Action) : Decidable (Punctual conf s a) := by
  cases a <;> unfold Punctual <;> try unfold QueuesPunctually
  all_goals infer_instance

theorem State.Sound.update (h : s.Sound conf) {kind : Kind} {idx : Nat} {w : Worker}
    (hw : w.Sound (conf.minThreads kind) idx) : (s.update kind idx w).Sound conf := by
  intro kind' idx' w' hget
  by_cases hkind : kind' = kind
  · subst hkind
    simp only [State.update, Function.update_self, List.getElem?_set] at hget
    split at hget
    next heq =>
      split at hget
      · cases hget
        exact heq ▸ hw
      · cases hget
    · exact h _ _ _ hget
  simp only [State.update, Function.update_of_ne hkind] at hget
  exact h _ _ _ hget

theorem State.Sound.schedule (h : s.Sound conf) {kind : Kind} {idx request create : Nat} {memory : Bool}
    (hpunctual : QueuesPunctually conf s kind idx) (hs : s.schedule kind idx request create memory = .ok s') :
    s'.Sound conf := by
  unfold State.schedule at hs
  split at hs
  · cases hs
  next w hget =>
    split at hs
    · split at hs
      next w' hfire =>
        cases hs
        exact h.update ((h _ _ _ hget).queueAndThreadFire (hpunctual w hget) hfire)
      · cases hs
        exact h
    cases hs
    exact h

/-- **One step of a run.** -/
theorem State.Sound.step {a : Action} (h : s.Sound conf) (hpunctual : Punctual conf s a)
    (hs : IoThreads.step conf s a = .ok s') : s'.Sound conf := by
  cases a with
  | unordered request rand create memory => exact h.schedule hpunctual hs
  | ordered inode request rand create memory =>
    simp only [IoThreads.step] at hs
    split at hs
    next hnone =>
      rw [Punctual, hnone] at hpunctual
      exact State.Sound.schedule (s := { s with inodeCtx := (inode, balance conf .ordered rand) :: s.inodeCtx }) h
        hpunctual hs
    next idx hsome =>
      rw [Punctual, hsome] at hpunctual
      split at hs
      · cases hs
        exact h
      · exact h.schedule hpunctual hs
  | thread kind idx i m =>
    simp only [IoThreads.step] at hs
    split at hs
    · cases hs
    next w hget =>
      split at hs
      · cases hs
      next w' hmove =>
        cases hs
        exact h.update ((h _ _ _ hget).move hmove)
  | stop kind idx => exact hpunctual.elim

theorem workersInit_sound (conf : Conf) : (workersInit conf).Sound conf := by
  intro kind idx w hget
  obtain ⟨idx', -, rfl⟩ := List.mem_map.mp (List.mem_of_getElem? hget)
  split
  · exact Worker.Sound.startup .new rfl
  · exact ⟨rfl, rfl⟩

/-- **No request is stranded** if requests are queued punctually: in every interleaving of scheduling, timeouts, exits
    and restarts a worker with a request on its queue is active, and its thread does not wait. -/
theorem request_not_stranded (conf : Conf) (actions : List Action) (s : State)
    (hpunctual : Transition.Along (step conf) (Punctual conf) (workersInit conf) actions)
    (hrun : runFrom conf actions = .ok s) (kind : Kind) (w : Worker) (hw : w ∈ s.workers kind) :
    ¬ w.Stranded ∧ (w.rqlist ≠ [] → w.state = .active ∧ ∃ t ∈ w.threads, t ≠ .waiting) := by
  have hsound : s.Sound conf := Transition.run_invariant (I := State.Sound conf)
    (fun _ _ _ h hC hs => h.step hC hs) (workersInit_sound conf) hpunctual hrun
  obtain ⟨idx, hget⟩ := List.getElem?_of_mem hw
  have hserved := (hsound kind idx w hget).served
  refine ⟨?_, hserved⟩
  rintro ⟨hqueued, hdead, -⟩
  exact absurd ((hserved hqueued).1.symm.trans hdead) (by decide)

/-! ## Two workers of each kind, of which one may exit -/

/-- One worker of each kind stays, another one comes and goes. -/
def pairConf : Conf := ⟨fun _ => 1, fun _ => 2, fun _ => true, fun _ => by decide, fun _ => by decide⟩

/-- The second worker gets a request and serves it, and its thread waits until the time is over. -/
def servedOnce : List Action :=
  [.unordered 7 1 0 true, .thread .unordered 1 0 .enter, .thread .unordered 1 0 .resumed,
    .thread .unordered 1 0 .enter, .thread .unordered 1 0 .timeout]

/-- The thread exits before the next request, which starts another one. -/
def punctualRun : List Action := servedOnce ++ [.thread .unordered 1 0 .relock, .unordered 8 1 0 true]

theorem next_request_restarts_worker :
    ∃ s w, runFrom pairConf punctualRun = .ok s ∧ (s.workers .unordered)[1]? = some w ∧ w.rqlist = [8] ∧
      ¬ w.Stranded := by
  have hrun : (runFrom pairConf punctualRun).map (fun s => s.workers .unordered) =
      .ok [⟨.active, [], [.dequeuing]⟩, ⟨.active, [8], [.dequeuing]⟩] := by decide +kernel
  obtain ⟨s, hs, hworkers⟩ := Transition.map_eq_ok hrun
  have hget : (s.workers .unordered)[1]? = some ⟨.active, [8], [.dequeuing]⟩ := by rw [← hworkers]; rfl
  refine ⟨s, _, hs, hget, rfl, ?_⟩
  exact (request_not_stranded pairConf punctualRun s (by decide +kernel) hs .unordered _
    (List.mem_of_getElem? hget)).1

/-- **A request is stranded**: it is queued after the timeout and before the thread has the lock. -/
theorem request_stranded_after_timeout :
    (runFrom pairConf (servedOnce ++ [.unordered 8 1 0 true, .thread .unordered 1 0 .relock])).map
      (fun s => (s.workers .unordered)[1]?) = .ok (some ⟨.dead, [8], []⟩) ∧
    (⟨.dead, [8], []⟩ : Worker).Stranded := by
  decide +kernel

end GlusterFS.IoThreads
