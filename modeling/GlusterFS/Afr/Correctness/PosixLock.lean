import GlusterFS.Afr.PosixLock
import GlusterFS.Locks.Owned

/-!
# `Afr.Correctness.PosixLock` — a replicated `fcntl` lock, all or nothing

Two invariants run beside each other. `Books` says what the chain of callbacks has written down: which child
answered what, and which unlocks were sent and answered. `Holdings` says what the owner has on the lock list of
each child that stayed connected. They meet in `lockedNodes` and `unlocked`: on a child that granted the lock and has not
had its unlock, the owner may have copies of the lock; everywhere else it has what it had before.
-/

namespace GlusterFS.Afr

open GlusterFS.Locks Transition
open List

variable {s s' : LkState} {i : Nat} {a : FcntlSection} {call : LkCall} {opRet : Int} {brick : FcntlState}
  {c : LkChild} {opErrno : LkErrno} {cs : List LkChild} {childUp : List Bool} {pending : List Nat}
  {xs₀ : List PosixLock}

/-! ## What a step can do -/

/-- The answer of the `i`-th child that `afr_lk_cbk` is called with. -/
inductive LkAnswers (s : LkState) (i : Nat) (c : LkChild) : Int → LkErrno → Prop where
  | onTheWay {e : LkErrno} (hphase : s.phase = .winding i) (hfails : c.fails e = true) : LkAnswers s i c (-1) e
  | lost {n : Nat} {e : LkErrno} (hphase : s.phase = .waiting i n) (hdown : childWentDown (-1) e = true)
      (hconn : c.connected = false) : LkAnswers s i c (-1) e
  | replied {n : Nat} {r : LkReply} (hphase : s.phase = .waiting i n) (hr : r ∈ c.brick.replies)
      (hframe : frameIs n r.frame = true) : LkAnswers s i c r.opRet (lkErrno r.opErrno)

/-- The children of `afr_lk_unlock`'s loop, from the `i`-th on: those that are locked, each once. The loop may
    stop when `callCount` reaches zero, because no locked child is left then. -/
theorem unlockLoop_spec : ∀ (nodes : List Bool) (i : Nat), (unlockLoop nodes i (nodes.count true)).Nodup ∧
      ∀ j, j ∈ unlockLoop nodes i (nodes.count true) ↔ i ≤ j ∧ nodes[j - i]? = some true := by
  intro nodes
  induction nodes with
  | nil =>
    intro i
    simp [unlockLoop]
  | cons b nodes ih =>
    intro i
    obtain ⟨hnd, hmem⟩ := ih (i + 1)
    have hshift : ∀ j, (i + 1 ≤ j ∧ nodes[j - (i + 1)]? = some true) ↔ i < j ∧ (b :: nodes)[j - i]? = some true := by
      intro j
      refine and_congr_right fun hlt => ?_
      rw [show j - i = (j - (i + 1)) + 1 by omega, getElem?_cons_succ]
    cases b with
    | false =>
      rw [count_cons_of_ne (by decide)]
      refine ⟨hnd, fun j => (hmem j).trans ((hshift j).trans ?_)⟩
      constructor
      · rintro ⟨hlt, hj⟩
        exact ⟨hlt.le, hj⟩
      rintro ⟨hle, hj⟩
      refine ⟨lt_of_le_of_ne hle ?_, hj⟩
      rintro rfl
      simp at hj
    | true =>
      rw [count_cons_self]
      -- the head, and behind it what the loop over the rest gives
      have hhead : ∀ j, (j = i ∨ (i + 1 ≤ j ∧ nodes[j - (i + 1)]? = some true)) ↔
          i ≤ j ∧ (true :: nodes)[j - i]? = some true := by
        intro j
        rw [hshift]
        constructor
        · rintro (rfl | ⟨hlt, hj⟩)
          · simp
          · exact ⟨hlt.le, hj⟩
        rintro ⟨hle, hj⟩
        exact hle.eq_or_lt.imp Eq.symm fun hlt => ⟨hlt, hj⟩
      simp only [unlockLoop, Nat.add_sub_cancel]
      split
      next hzero =>
        refine ⟨nodup_singleton i, fun j => ?_⟩
        have hnone : ¬(i + 1 ≤ j ∧ nodes[j - (i + 1)]? = some true) := by
          rintro ⟨-, hj⟩
          exact count_eq_zero.mp hzero (mem_of_getElem? hj)
        rw [← hhead, mem_singleton, or_iff_left hnone]
      · refine ⟨nodup_cons.mpr ⟨fun hi => ?_, hnd⟩, fun j => ?_⟩
        · have := ((hmem i).mp hi).1
          omega
        · rw [← hhead, mem_cons, hmem]

theorem getElem?_snoc {α : Type} (xs : List α) (x : α) (j : Nat) :
    (xs ++ [x])[j]? = if j = xs.length then some x else xs[j]? := by
  rcases Nat.lt_trichotomy j xs.length with hlt | rfl | hgt
  · rw [getElem?_append_left hlt, if_neg hlt.ne]
  · simp
  · rw [if_neg hgt.ne', getElem?_eq_none (by simp; omega), getElem?_eq_none hgt.le]

/-- `afr_lk_unlock` decides the phase and which unlocks are sent; the rest of the state stays. -/
theorem afrLkUnlock_cases (s : LkState) :
    (s.lockedNodes.count true = 0 ∧ afrLkUnlock s = { s with phase := .unwound s.opRet s.opErrno }) ∨
    afrLkUnlock s = { s with
      phase := .unlocking (unlockLoop s.lockedNodes 0 (s.lockedNodes.count true)),
      unlockWinds := s.unlockWinds ++ unlockLoop s.lockedNodes 0 (s.lockedNodes.count true) } := by
  unfold afrLkUnlock
  split
  next hzero => exact .inl ⟨hzero, rfl⟩
  · exact .inr rfl

theorem nextChild_cases (s : LkState) (i : Nat) :
    (i + 1 < s.children.length ∧ nextChild s i = { s with phase := .winding (i + 1) }) ∨
    (s.children.length ≤ i + 1 ∧ ∃ opErrno, nextChild s i = { s with phase := .unwound s.opRet opErrno }) := by
  unfold nextChild
  split
  next hlt => exact .inl ⟨hlt, rfl⟩
  next hle =>
    refine .inr ⟨Nat.le_of_not_lt hle, ?_⟩
    split
    next hret => exact ⟨.enotconn, by rw [hret]⟩
    · exact ⟨s.opErrno, rfl⟩

/-- What `afr_lk_cbk` does with each kind of answer. -/
inductive LkCbk (s : LkState) (i : Nat) : Int → LkErrno → LkState → Prop where
  | granted {e : LkErrno} : LkCbk s i 0 e (nextChild { s with
      answers := s.answers ++ [.granted], opRet := 0, opErrno := .zero, lockedNodes := s.lockedNodes.set i true } i)
  | down {e : LkErrno} (hdown : childWentDown (-1) e = true) :
      LkCbk s i (-1) e (nextChild { s with answers := s.answers ++ [.down] } i)
  | refused {e : LkErrno} (hdown : childWentDown (-1) e = false) : LkCbk s i (-1) e
      (afrLkUnlock { s with answers := s.answers ++ [.refused], opRet := -1, opErrno := e })

theorem LkCbk.of_afrLkCbk (s : LkState) (i : Nat) (opErrno : LkErrno) (hret : opRet = 0 ∨ opRet = -1) :
    LkCbk s i opRet opErrno (afrLkCbk s i opRet opErrno) := by
  rcases hret with rfl | rfl
  · exact .granted
  cases hdown : childWentDown (-1) opErrno with
  | true =>
    have h : afrLkCbk s i (-1) opErrno = nextChild { s with answers := s.answers ++ [.down] } i := by
      simp [afrLkCbk, lkAnswer, hdown]
    rw [h]
    exact .down hdown
  | false =>
    have h : afrLkCbk s i (-1) opErrno =
        afrLkUnlock { s with answers := s.answers ++ [.refused], opRet := -1, opErrno := opErrno } := by
      simp [afrLkCbk, lkAnswer, hdown]
    rw [h]
    exact .refused hdown

/-- A callback leaves the children alone, never leaves the call waiting, and touches no flag but that of its child. -/
structure CbkFrame (s s' : LkState) (i : Nat) : Prop where
  children : s'.children = s.children
  phase : ∀ j n, s'.phase ≠ .waiting j n
  unlocked : s'.unlocked = s.unlocked
  locked : ∀ j : Nat, j ≠ i → s'.lockedNodes[j]? = s.lockedNodes[j]?

theorem nextChild_frame (s : LkState) (i : Nat) :
    CbkFrame s (nextChild s i) i ∧ (nextChild s i).lockedNodes = s.lockedNodes := by
  rcases nextChild_cases s i with ⟨-, h⟩ | ⟨-, e, h⟩
  all_goals
    rw [h]
    exact ⟨⟨rfl, fun _ _ => LkPhase.noConfusion, rfl, fun _ _ => rfl⟩, rfl⟩

theorem afrLkUnlock_frame (s : LkState) (i : Nat) : CbkFrame s (afrLkUnlock s) i := by
  rcases afrLkUnlock_cases s with ⟨-, h⟩ | h
  all_goals
    rw [h]
    exact ⟨rfl, fun _ _ => LkPhase.noConfusion, rfl, fun _ _ => rfl⟩

theorem afrLkCbk_granted (s : LkState) (i : Nat) (e : LkErrno) :
    (afrLkCbk s i 0 e).lockedNodes = s.lockedNodes.set i true := (nextChild_frame _ i).2

theorem afrLkCbk_frame (s : LkState) (i : Nat) (opErrno : LkErrno) (hret : opRet = 0 ∨ opRet = -1) :
    CbkFrame s (afrLkCbk s i opRet opErrno) i := by
  have hcbk := LkCbk.of_afrLkCbk s i opErrno hret
  generalize afrLkCbk s i opRet opErrno = s1 at hcbk ⊢
  cases hcbk with
  | granted =>
    obtain ⟨hfr, -⟩ := nextChild_frame { s with
      answers := s.answers ++ [.granted], opRet := 0, opErrno := .zero, lockedNodes := s.lockedNodes.set i true } i
    refine ⟨hfr.children, hfr.phase, hfr.unlocked, ?_⟩
    intro j hne
    exact (hfr.locked j hne).trans (getElem?_set_ne (Ne.symm hne))
  | down =>
    obtain ⟨hfr, -⟩ := nextChild_frame { s with answers := s.answers ++ [.down] } i
    exact ⟨hfr.children, hfr.phase, hfr.unlocked, hfr.locked⟩
  | refused =>
    have hfr := afrLkUnlock_frame { s with answers := s.answers ++ [.refused], opRet := -1, opErrno := opErrno } i
    exact ⟨hfr.children, hfr.phase, hfr.unlocked, hfr.locked⟩

/-! ## The lock lists behind the children -/

/-- A lock list that calls can have left. -/
def Reached (brick : FcntlState) : Prop := ∃ as, fcntlRun as = .ok brick

theorem Reached.step {brick' : FcntlState} (h : Reached brick) (hstep : a.step brick = .ok brick') :
    Reached brick' := by
  obtain ⟨as, has⟩ := h
  exact ⟨as ++ [a], run_append_ok.mpr ⟨brick, has, run_cons_ok.mpr ⟨brick', hstep, rfl⟩⟩⟩

def BricksReached (s : LkState) : Prop := ∀ c ∈ s.children, Reached c.brick

theorem BricksReached.set (h : BricksReached s) (hc : Reached c.brick) : ∀ d ∈ s.children.set i c, Reached d.brick := by
  intro d hd
  rcases mem_or_eq_of_mem_set hd with hold | rfl
  · exact h d hold
  · exact hc

theorem LkAnswers.opRet_cases (hc : Reached c.brick) (h : LkAnswers s i c opRet opErrno) : opRet = 0 ∨ opRet = -1 := by
  cases h with
  | onTheWay | lost => exact .inr rfl
  | replied _ hr _ =>
    obtain ⟨as, has⟩ := hc
    exact (fcntlRun_plain has _ hr).imp_right And.left

/-- No child has refused yet. -/
structure Chain (childUp : List Bool) (s : LkState) : Prop where
  unrefused : .refused ∉ s.answers
  winds : s.unlockWinds = []
  unlocked : s.unlocked = []
  ret : s.opRet = 0 ∨ s.opRet = -1
  success : true ∈ childUp → s.opRet = 0 → .granted ∈ s.answers

/-- A child has refused; of the unlocks that were sent, `pending` are not answered. -/
structure Unlocking (s : LkState) (pending : List Nat) : Prop where
  ret : s.opRet = -1
  refused : .refused ∈ s.answers
  winds_nodup : s.unlockWinds.Nodup
  mem_winds : ∀ i, i ∈ s.unlockWinds ↔ s.lockedNodes[i]? = some true
  pending_nodup : pending.Nodup
  pending_sent : ∀ i ∈ pending, i ∈ s.unlockWinds
  unlocked_nodup : s.unlocked.Nodup
  unlocked_sent : ∀ i ∈ s.unlocked, i ∈ s.unlockWinds ∧ i ∉ pending
  arrived : ∀ i ∈ s.unlockWinds, i ∉ pending → ∀ c, s.children[i]? = some c → c.connected = true → i ∈ s.unlocked

/-- What the phase says about the answers and the unlocks. -/
def PhaseBooks (childUp : List Bool) (s : LkState) : Prop :=
  match s.phase with
  | .winding i => s.answers.length = i ∧ Chain childUp s
  | .waiting i _ => s.answers.length = i ∧ Chain childUp s
  | .unlocking pending => Unlocking s pending
  | .unwound opRet _ => opRet = s.opRet ∧ ((s.answers.length = s.children.length ∧ Chain childUp s) ∨ Unlocking s [])

/-- The answers are in `lockedNodes`, and a child that was passed over is down or has no fd. -/
structure Records (s : LkState) : Prop where
  nodes : s.lockedNodes.length = s.children.length
  locked : ∀ i : Nat, s.lockedNodes[i]? = some true ↔ s.answers[i]? = some LkAnswer.granted
  passed : ∀ (i : Nat) (c : LkChild), s.answers[i]? = some LkAnswer.down → s.children[i]? = some c →
    c.connected = true → c.fdOpen = false

structure Books (childUp : List Bool) (s : LkState) : Prop where
  records : Records s
  phase : PhaseBooks childUp s

/-- The children change, but none is connected again and no fd is opened. -/
structure Worn (cs cs' : List LkChild) : Prop where
  length : cs'.length = cs.length
  child : ∀ {j : Nat} {d : LkChild}, cs'[j]? = some d →
    ∃ d₀ : LkChild, cs[j]? = some d₀ ∧ (d.connected = true → d₀.connected = true) ∧ d.fdOpen = d₀.fdOpen

theorem Worn.set {d : LkChild} (hc : cs[i]? = some c)
    (hconn : d.connected = true → c.connected = true) (hopen : d.fdOpen = c.fdOpen) : Worn cs (cs.set i d) := by
  refine ⟨length_set, ?_⟩
  intro j e he
  rw [getElem?_set] at he
  split at he
  next heq =>
    split at he
    · cases he
      exact ⟨c, heq ▸ hc, hconn, hopen⟩
    · cases he
  · exact ⟨e, he, id, rfl⟩

theorem Chain.children (h : Chain childUp s) (cs : List LkChild) :
    Chain childUp { s with children := cs } := ⟨h.unrefused, h.winds, h.unlocked, h.ret, h.success⟩

/-- The call is with the `i`-th child. -/
def AtChild (s : LkState) (i : Nat) : Prop := s.phase = .winding i ∨ ∃ n, s.phase = .waiting i n

theorem LkAnswers.atChild (h : LkAnswers s i c opRet opErrno) : AtChild s i := by
  cases h with
  | onTheWay hph => exact .inl hph
  | lost hph | replied hph => exact .inr ⟨_, hph⟩

theorem Books.chain (h : Books childUp s) (hat : AtChild s i) : s.answers.length = i ∧ Chain childUp s := by
  have hph := h.phase
  unfold PhaseBooks at hph
  rcases hat with heq | ⟨n, heq⟩ <;> rwa [heq] at hph

theorem Books.unlocked_at (h : Books childUp s) (hat : AtChild s i) : s.lockedNodes[i]? ≠ some true := by
  intro hlocked
  have hans := (h.records.locked i).mp hlocked
  rw [getElem?_eq_none (h.chain hat).1.le] at hans
  cases hans

theorem Records.moved (h : Records s) (phase : LkPhase) : Records { s with phase := phase } :=
  ⟨h.nodes, h.locked, h.passed⟩

theorem Books.nextChild (hi : i < s.children.length)
    (hrecords : Records s) (hlen : s.answers.length = i + 1) (hch : Chain childUp s) :
    Books childUp (nextChild s i) := by
  have hmoved : ∀ phase, Chain childUp { s with phase := phase } := fun _ =>
    ⟨hch.unrefused, hch.winds, hch.unlocked, hch.ret, hch.success⟩
  rcases nextChild_cases s i with ⟨-, h⟩ | ⟨hlast, e, h⟩
  · rw [h]
    exact ⟨hrecords.moved _, hlen, hmoved _⟩
  rw [h]
  refine ⟨hrecords.moved _, rfl, .inl ⟨?_, hmoved _⟩⟩
  show s.answers.length = s.children.length
  omega

theorem Books.answer (h : Books childUp s) (hc : s.children[i]? = some c) (hreach : Reached c.brick)
    (hanss : LkAnswers s i c opRet opErrno) : Books childUp (afrLkCbk s i opRet opErrno) := by
  obtain ⟨hlen, hch⟩ := h.chain hanss.atChild
  have hi : i < s.children.length := (List.getElem?_eq_some_iff.mp hc).1
  have hsnoc : ∀ (x : LkAnswer) (j : Nat), (s.answers ++ [x])[j]? = if j = i then some x else s.answers[j]? := by
    intro x j
    rw [getElem?_snoc, hlen]
  have hcbk := LkCbk.of_afrLkCbk s i opErrno (hanss.opRet_cases hreach)
  generalize hs1 : afrLkCbk s i opRet opErrno = s1 at hcbk ⊢
  -- an answer other than `granted` does not touch `lockedNodes`
  have hkept : ∀ {x : LkAnswer}, x ≠ .granted →
      ∀ j : Nat, s.lockedNodes[j]? = some true ↔ (s.answers ++ [x])[j]? = some LkAnswer.granted := by
    intro x hx j
    rw [hsnoc]
    split
    next heq =>
      rw [heq]
      exact iff_of_false (h.unlocked_at hanss.atChild) (fun hcon => hx (Option.some.inj hcon))
    · exact h.records.locked j
  have hpassed : ∀ {x : LkAnswer}, (x = .down → c.connected = true → c.fdOpen = false) →
      ∀ (j : Nat) (d : LkChild), (s.answers ++ [x])[j]? = some LkAnswer.down → s.children[j]? = some d →
      d.connected = true → d.fdOpen = false := by
    intro x hx j d hdown hd hconn
    rw [hsnoc] at hdown
    split at hdown
    next heq =>
      cases hc.symm.trans (heq ▸ hd)
      exact hx (Option.some.inj hdown) hconn
    · exact h.records.passed j d hdown hd hconn
  have hlength' : ∀ x, (s.answers ++ [x]).length = i + 1 := fun x => by simp [hlen]
  cases hcbk with
  | granted =>
    refine Books.nextChild hi ⟨?_, ?_, hpassed fun hcon => by cases hcon⟩ (hlength' _) ?_
    · exact length_set.trans h.records.nodes
    · intro j
      show (s.lockedNodes.set i true)[j]? = some true ↔ (s.answers ++ [.granted])[j]? = some LkAnswer.granted
      rw [hsnoc, getElem?_set]
      by_cases hij : i = j
      · simp [hij, h.records.nodes, hij ▸ hi]
      rw [if_neg hij, if_neg (Ne.symm hij)]
      exact h.records.locked j
    refine ⟨?_, hch.winds, hch.unlocked, .inl rfl, fun _ _ => mem_append_right _ mem_cons_self⟩
    intro hcon
    rcases mem_append.mp hcon with hold | hnew
    · exact hch.unrefused hold
    · cases mem_singleton.mp hnew
  | @down e hdown =>
    refine Books.nextChild hi ⟨h.records.nodes, hkept (by decide), hpassed fun _ hconn => ?_⟩ (hlength' _) ?_
    · generalize hret : (-1 : Int) = r at hanss
      cases hanss with
      | onTheWay _ hfails => simp_all [LkChild.fails]
      | lost _ _ hconn' => exact absurd (hconn'.symm.trans hconn) Bool.false_ne_true
      | replied _ hr _ =>
        -- the `locks` translator does not answer that it is down
        obtain ⟨as, has⟩ := hreach
        rcases fcntlRun_plain has _ hr with hzero | ⟨-, heagain⟩
        · omega
        rw [heagain] at hdown
        cases hdown
    refine ⟨?_, hch.winds, hch.unlocked, hch.ret,
      fun hup hret => mem_append_left _ (hch.success hup hret)⟩
    intro hcon
    rcases mem_append.mp hcon with hold | hnew
    · exact hch.unrefused hold
    · cases mem_singleton.mp hnew
  | refused hdown =>
    have hmem : LkAnswer.refused ∈ s.answers ++ [.refused] := mem_append_right _ mem_cons_self
    obtain ⟨hnd, hwinds⟩ := unlockLoop_spec s.lockedNodes 0
    rcases afrLkUnlock_cases { s with answers := s.answers ++ [.refused], opRet := -1, opErrno := opErrno } with
      ⟨hzero, heq⟩ | heq
    · rw [heq]
      refine ⟨⟨h.records.nodes, hkept (by decide), hpassed fun hcon => by cases hcon⟩, rfl, .inr ?_⟩
      refine ⟨rfl, hmem, ?_, ?_, nodup_nil, fun j hj => absurd hj not_mem_nil, ?_, ?_, ?_⟩
      · exact hch.winds ▸ nodup_nil
      · intro j
        show j ∈ s.unlockWinds ↔ s.lockedNodes[j]? = some true
        rw [hch.winds]
        exact iff_of_false not_mem_nil fun hj => count_eq_zero.mp hzero (mem_of_getElem? hj)
      · exact hch.unlocked ▸ nodup_nil
      · intro j hj
        exact absurd (hch.unlocked ▸ hj : j ∈ []) not_mem_nil
      intro j hj
      exact absurd (hch.winds ▸ hj : j ∈ []) not_mem_nil
    rw [heq]
    refine ⟨⟨h.records.nodes, hkept (by decide), hpassed fun hcon => by cases hcon⟩, ?_⟩
    have hall : s.unlockWinds ++ unlockLoop s.lockedNodes 0 (s.lockedNodes.count true) =
        unlockLoop s.lockedNodes 0 (s.lockedNodes.count true) := by rw [hch.winds, nil_append]
    refine ⟨rfl, hmem, ?_, ?_, hnd, fun j hj => hall.symm ▸ hj, ?_, ?_, ?_⟩
    · exact hall.symm ▸ hnd
    · intro j
      show j ∈ s.unlockWinds ++ _ ↔ _
      rw [hall, hwinds]
      simp
    · exact hch.unlocked ▸ nodup_nil
    · intro j hj
      exact absurd (hch.unlocked ▸ hj : j ∈ []) not_mem_nil
    intro j hj hnot
    exact absurd (hall ▸ hj) hnot

/-- The answer to an unlock, which reached the child unless the connection was lost. -/
theorem Unlocking.answered {unlocked : List Nat} (h : Unlocking s pending) (hpend : i ∈ pending)
    (hsame : unlocked = s.unlocked ++ [i] ∨
      (unlocked = s.unlocked ∧ ∀ c, s.children[i]? = some c → c.connected = false)) :
    Unlocking { s with unlocked := unlocked } (pending.erase i) := by
  have hnotyet : i ∉ s.unlocked := fun hcon => (h.unlocked_sent i hcon).2 hpend
  have herase : ∀ {j}, j ∉ pending.erase i ↔ j = i ∨ j ∉ pending := by
    intro j
    rw [h.pending_nodup.mem_erase_iff]
    tauto
  refine ⟨h.ret, h.refused, h.winds_nodup, h.mem_winds, h.pending_nodup.erase i,
    fun j hj => h.pending_sent j (mem_of_mem_erase hj), ?_, ?_, ?_⟩
  · rcases hsame with rfl | ⟨rfl, -⟩
    · exact h.unlocked_nodup.append (nodup_singleton i) (by simpa using hnotyet)
    · exact h.unlocked_nodup
  · intro j hj
    have hcases : j = i ∨ j ∈ s.unlocked := by
      rcases hsame with rfl | ⟨rfl, -⟩
      · simpa [or_comm] using hj
      · exact .inr hj
    rcases hcases with rfl | hold
    · exact ⟨h.pending_sent _ hpend, herase.mpr (.inl rfl)⟩
    · exact ⟨(h.unlocked_sent j hold).1, herase.mpr (.inr (h.unlocked_sent j hold).2)⟩
  intro j hj hnot c hc hconn
  rcases hsame with rfl | ⟨rfl, hlost⟩
  · rcases herase.mp hnot with rfl | hold
    · exact mem_append_right _ mem_cons_self
    · exact mem_append_left _ (h.arrived j hj hold c hc hconn)
  rcases herase.mp hnot with rfl | hold
  · exact absurd ((hlost c hc).symm.trans hconn) Bool.false_ne_true
  · exact h.arrived j hj hold c hc hconn

theorem Unlocking.moved (h : Unlocking s pending) (phase : LkPhase) : Unlocking { s with phase := phase } pending :=
  ⟨h.ret, h.refused, h.winds_nodup, h.mem_winds, h.pending_nodup, h.pending_sent, h.unlocked_nodup, h.unlocked_sent, h.arrived⟩

theorem Books.unlocking (h : Books childUp s) (hph : s.phase = .unlocking pending) : Unlocking s pending := by
  have hbooks := h.phase
  unfold PhaseBooks at hbooks
  rwa [hph] at hbooks

/-- What the owner of the call has on the lock list of the `i`-th child, where it had `xs₀` at first: while the child has the
    request, that request may wait or be granted; otherwise there are copies of the lock only if the child has granted
    it and not unlocked it. -/
structure Holding (call : LkCall) (s : LkState) (i : Nat) (xs₀ : List PosixLock) (brick : FcntlState) : Prop where
  asked : ∀ n, s.phase = .waiting i n → Awaiting (call.request i).wanted n xs₀ brick
  settled : (∀ n, s.phase ≠ .waiting i n) → OwnedAs (call.request i).wanted
      (fun l => (s.lockedNodes[i]? = some true ∧ i ∉ s.unlocked) ∧ l.Copies (call.request i).wanted) xs₀ brick.extList

/-- Where the phase does not wait on the child and the child's flags do not change, its holding stays. -/
theorem Holding.moved
    (h : Holding call s i xs₀ brick) (hold : ∀ n, s.phase ≠ .waiting i n) (hnew : ∀ n, s'.phase ≠ .waiting i n)
    (hlocked : s'.lockedNodes[i]? = s.lockedNodes[i]?) (hunlocked : i ∈ s'.unlocked ↔ i ∈ s.unlocked) :
    Holding call s' i xs₀ brick := by
  refine ⟨fun n hph => absurd hph (hnew n), fun _ => ?_⟩
  rw [hlocked, hunlocked]
  exact h.settled hold

theorem Holding.section {brick' : FcntlState} (hclear : ClearOf (call.request i).wanted xs₀)
    (h : Holding call s i xs₀ brick) (hreach : Reached brick) (hothers : a.ByOthers (call.request i).wanted brick)
    (hstep : a.step brick = .ok brick') : Holding call { s with children := cs } i xs₀ brick' := by
  obtain ⟨as, has⟩ := hreach
  have hwf := fcntlRun_wf has
  exact ⟨fun n hph => (h.asked n hph).section hclear hwf hothers hstep,
    fun hnot => (h.settled hnot).section hclear hwf hothers hstep⟩

theorem Holding.answer (hbooks : Books childUp s) (hc : s.children[i]? = some c)
    (hreach : Reached c.brick) (hconn : c.connected = true) (hanss : LkAnswers s i c opRet opErrno)
    (h : Holding call s i xs₀ c.brick) : Holding call (afrLkCbk s i opRet opErrno) i xs₀ c.brick := by
  have hat := hanss.atChild
  have hfr := afrLkCbk_frame s i opErrno (hanss.opRet_cases hreach)
  refine ⟨fun n hcon => absurd hcon (hfr.phase i n), fun _ => ?_⟩
  cases hanss with
  | onTheWay hph hfails =>
    -- the request did not get to the child
    refine (h.settled fun n hcon => ?_).mono fun l hl => absurd hl.1.1 (hbooks.unlocked_at hat)
    cases hcon.symm.trans hph
  | lost _ _ hlost => exact absurd (hlost.symm.trans hconn) Bool.false_ne_true
  | @replied n r hph hr hn =>
    have hawait := h.asked n hph
    obtain ⟨as, has⟩ := hreach
    rcases fcntlRun_plain has r hr with hzero | ⟨hret, -⟩
    · refine hawait.owned.mono fun l hcopy => ⟨⟨?_, ?_⟩, hcopy⟩
      · have hi : i < s.lockedNodes.length := by
          rw [hbooks.records.nodes]
          exact (List.getElem?_eq_some_iff.mp hc).1
        rw [hzero, afrLkCbk_granted, List.getElem?_set_self hi]
      rw [hfr.unlocked, (hbooks.chain hat).2.unlocked]
      exact not_mem_nil
    refine (hawait.refused r hr hn ?_).mono fun _ => False.elim
    rw [hret]
    decide

end GlusterFS.Afr
