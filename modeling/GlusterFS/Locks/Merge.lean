import GlusterFS.Locks.Common

/-!
# `Locks.Merge` — what `__insert_and_merge` does to the lock list

Everything the later proofs need of the recursion is here, once:

* **pieces** (`Piece`): what a split re-inserts — the new lock, or a part of the lock that was split;
* **one unfolding** (`insertAndMerge_cases`): the four ways a call that returns can go;
* **the worklist rule** (`insertAndMerge_rule_wf`): the recursion seen as a list together with a stack of
  locks still to be inserted. A property of *(list, stack)* kept by the four ways holds at the end;
* **termination** (`insertLock_fuel`): each merge or split makes the total width of list and stack
  smaller, so the fuel of `insertLock` suffices.
-/

namespace GlusterFS.Locks

open List

variable {fuel : Nat} {li : Bool}

/-! ## Overlap and ownership -/

variable {a b : PosixLock}

theorem locksOverlap_iff : locksOverlap a b = true ↔ b.flStart ≤ a.flEnd ∧ a.flStart ≤ b.flEnd := by
  simp [locksOverlap]

theorem locksOverlap_comm (a b : PosixLock) : locksOverlap a b = locksOverlap b a := by
  simp only [locksOverlap]
  exact Bool.and_comm _ _

theorem sameOwner_iff : sameOwner a b = true ↔ a.owner = b.owner ∧ a.transport = b.transport := by
  simp [sameOwner]

theorem sameOwner_comm (a b : PosixLock) : sameOwner a b = sameOwner b a := by
  simp only [sameOwner, Bool.beq_comm]

theorem sameOwner_trans {c : PosixLock} (hab : sameOwner a b = true)
    (hbc : sameOwner b c = true) : sameOwner a c = true := by
  rw [sameOwner_iff] at *
  exact ⟨hab.1.trans hbc.1, hab.2.trans hbc.2⟩

theorem sameOwner_congr (hab : sameOwner a b = true) (c : PosixLock) : sameOwner a c = sameOwner b c := by
  rw [sameOwner_iff] at hab
  simp only [sameOwner, hab.1, hab.2]

/-! ## Hulls and pieces -/

/-- The merged lock: the hull of both ranges, type and holder of `l`. -/
def hull (lock conf l : PosixLock) : PosixLock := takeHolder (addLocks lock conf) l

@[simp] theorem hull_flStart (lock conf l : PosixLock) :
    (hull lock conf l).flStart = min lock.flStart conf.flStart := rfl
@[simp] theorem hull_flEnd (lock conf l : PosixLock) : (hull lock conf l).flEnd = max lock.flEnd conf.flEnd := rfl
@[simp] theorem hull_blocked (lock conf l : PosixLock) : (hull lock conf l).blocked = false := rfl
@[simp] theorem sameOwner_hull (lock conf l : PosixLock) : sameOwner (hull lock conf l) l = true := by
  simp [sameOwner, hull, takeHolder]

/-- What a split of `conf` by `lock` re-inserts: `lock` itself, `lock`'s range and type under `conf`'s
    holder when the ranges coincide, or a part of `conf` that `lock` does not cover. -/
inductive Piece (lock conf : PosixLock) : PosixLock → Prop where
  | self : Piece lock conf lock
  | whole {v : PosixLock} (type : v.flType = lock.flType) (start : v.flStart = lock.flStart)
      (stop : v.flEnd = lock.flEnd) (owner : sameOwner v conf = true) (blocked : v.blocked = false)
      (frame : v.frame = none) : Piece lock conf v
  | part {v : PosixLock} (type : v.flType = conf.flType) (start : conf.flStart ≤ v.flStart)
      (stop : v.flEnd ≤ conf.flEnd) (nonempty : v.flStart ≤ v.flEnd)
      (owner : sameOwner v conf = true) (blocked : v.blocked = false) (frame : v.frame = none) : Piece lock conf v

variable {v conf lock : PosixLock}

/-- The part of `conf` ahead of `lock`. -/
def leftPart (lock conf : PosixLock) : PosixLock := { hull lock conf conf with flEnd := lock.flStart - 1 }

/-- The part of `conf` behind `lock`. -/
def rightPart (lock conf : PosixLock) : PosixLock := { hull lock conf conf with flStart := lock.flEnd + 1 }

/-- **The pieces of a split**, by the sides on which `conf` reaches beyond `lock`. -/
theorem subtractLocks_cases (lock conf : PosixLock) : lock.flStart ≤ conf.flStart ∧ conf.flEnd ≤ lock.flEnd ∧
        subtractLocks (hull lock conf conf) lock = [{ hull lock conf conf with flType := lock.flType }] ∨
      conf.flStart < lock.flStart ∧ lock.flEnd < conf.flEnd ∧
        subtractLocks (hull lock conf conf) lock = [leftPart lock conf, lock, rightPart lock conf] ∨
      lock.flStart ≤ conf.flStart ∧ lock.flEnd < conf.flEnd ∧
        subtractLocks (hull lock conf conf) lock = [rightPart lock conf, lock] ∨
      conf.flStart < lock.flStart ∧ conf.flEnd ≤ lock.flEnd ∧
        subtractLocks (hull lock conf conf) lock = [leftPart lock conf, lock] := by
  unfold subtractLocks
  rcases le_or_gt lock.flStart conf.flStart with hstart | hstart
  all_goals rcases le_or_gt conf.flEnd lock.flEnd with hstop | hstop
  · refine .inl ⟨hstart, hstop, if_pos ?_⟩
    simp only [hull_flStart, hull_flEnd]
    omega
  · refine .inr (.inr (.inl ⟨hstart, hstop, ?_⟩))
    rw [if_neg (by simp; omega), if_neg (by simp; omega), if_pos (by simp; omega)]
    rfl
  · refine .inr (.inr (.inr ⟨hstart, hstop, ?_⟩))
    rw [if_neg (by simp; omega), if_neg (by simp; omega), if_neg (by simp; omega), if_pos (by simp; omega)]
    rfl
  refine .inr (.inl ⟨hstart, hstop, ?_⟩)
  rw [if_neg (by simp; omega), if_pos (by simp; omega)]
  rfl

theorem piece_of_mem_subtractLocks (ho : locksOverlap conf lock = true)
    (hl : lock.flStart ≤ lock.flEnd) (hv : v ∈ subtractLocks (hull lock conf conf) lock) : Piece lock conf v := by
  rw [locksOverlap_iff] at ho
  have hleft (h : conf.flStart < lock.flStart) : Piece lock conf (leftPart lock conf) :=
    .part rfl (by simp [leftPart]; omega) (by simp [leftPart]; omega) (by simp [leftPart]; omega)
      (sameOwner_hull lock conf conf) rfl rfl
  have hright (h : lock.flEnd < conf.flEnd) : Piece lock conf (rightPart lock conf) :=
    .part rfl (by simp [rightPart]; omega) (by simp [rightPart]; omega) (by simp [rightPart]; omega)
      (sameOwner_hull lock conf conf) rfl rfl
  rcases subtractLocks_cases lock conf with ⟨h1, h2, h⟩ | ⟨h1, h2, h⟩ | ⟨-, h2, h⟩ | ⟨h1, -, h⟩
  all_goals simp only [h, mem_cons, not_mem_nil, or_false] at hv
  · rw [hv]
    exact .whole rfl (by simp; omega) (by simp; omega) (sameOwner_hull lock conf conf) rfl rfl
  · rcases hv with rfl | rfl | rfl
    · exact hleft h1
    · exact .self
    · exact hright h2
  · rcases hv with rfl | rfl
    · exact hright h2
    · exact .self
  rcases hv with rfl | rfl
  · exact hleft h1
  · exact .self

/-! ## One unfolding -/

variable {xs : List PosixLock}

theorem find?_split {p : PosixLock → Bool} (h : xs.find? p = some conf) :
    p conf = true ∧ ∃ pre post, xs = pre ++ conf :: post ∧ xs.eraseP p = pre ++ post := by
  obtain ⟨hp, pre, post, heq, hpre⟩ := find?_eq_some_iff_append.mp h
  refine ⟨hp, pre, post, heq, ?_⟩
  rw [heq, eraseP_append_right _ (fun b hb => by simpa using hpre b hb), eraseP_cons_of_pos hp]

theorem overlap_of_stopsScan (h : stopsScan lock conf = true) : locksOverlap conf lock = true := by
  simp only [stopsScan, Bool.and_eq_true] at h
  exact h.1

theorem rdlck_of_stopsScan (h : stopsScan lock conf = true)
    (ho : sameOwner conf lock = false) : lock.flType = .rdlck := by
  simp only [stopsScan, ho, Bool.false_or, Bool.and_eq_true, beq_iff_eq] at h
  exact h.2.2

variable {xs' : List PosixLock}

/-- **The four ways a call that returns can go**: append, discard (an unlock), merge with an
    overlapping lock of the same owner and type, or split one of another type. -/
theorem insertAndMerge_cases (h : insertAndMerge (fuel + 1) xs lock li = .ok xs') :
    (lock.flType ≠ .unlck ∧ xs' = xs ++ [lock]) ∨ (lock.flType = .unlck ∧ xs' = xs) ∨
    ∃ pre conf post, xs = pre ++ conf :: post ∧ locksOverlap conf lock = true ∧ sameOwner conf lock = true ∧
      ((conf.flType = lock.flType ∧ insertAndMerge fuel (pre ++ post) (hull lock conf lock) false = .ok xs') ∨
        (conf.flType ≠ lock.flType ∧ li = true ∧ ∃ xs1, (subtractLocks (hull lock conf conf) lock).foldlM
            (fun e v => insertAndMerge fuel e v true) (pre ++ post) = .ok xs1 ∧ xs' = deleteUnlckLocks xs1)) := by
  rw [insertAndMerge] at h
  split at h
  · -- nothing stopped the scan
    split at h
    next ht => exact .inl ⟨ht, by cases h; rfl⟩
    next ht => exact .inr (.inl ⟨by simpa using ht, by cases h; rfl⟩)
  next conf hf =>
    obtain ⟨hstop, pre, post, heq, her⟩ := find?_split hf
    rw [her] at h
    split at h
    next ho =>
      refine .inr (.inr ⟨pre, conf, post, heq, overlap_of_stopsScan hstop, ho, ?_⟩)
      split at h
      next ht => exact .inl ⟨ht, h⟩
      next ht =>
        split at h
        · cases h
        next hli =>
          dsimp only at h
          split at h
          · cases h
          next xs1 hfold => exact .inr ⟨ht, by simpa using hli, xs1, hfold, by cases h; rfl⟩
    next ho =>
      -- two read locks of different owners
      refine .inl ⟨?_, by cases h; rfl⟩
      rw [rdlck_of_stopsScan hstop (by simpa using ho)]
      decide

/-! ## The worklist rule -/

/-- A lock covers at least one byte. -/
def PosixLock.Valid (l : PosixLock) : Prop := l.flStart ≤ l.flEnd

theorem Piece.valid (hl : lock.Valid) (h : Piece lock conf v) : v.Valid := by
  cases h with
  | self => exact hl
  | whole _ hs he => unfold PosixLock.Valid at *; omega
  | part _ _ _ hne => exact hne

variable {l : PosixLock}

theorem hull_valid (hl : lock.Valid) : (hull lock conf l).Valid := by
  unfold PosixLock.Valid at *
  simp only [hull_flStart, hull_flEnd]
  omega

/-- A lock list as the code keeps it: no empty range, and unlock requests are never stored. -/
def WF (xs : List PosixLock) : Prop := ∀ l ∈ xs, l.Valid ∧ l.flType ≠ .unlck

theorem WF.deleteUnlckLocks_eq (h : WF xs) : deleteUnlckLocks xs = xs := by
  unfold deleteUnlckLocks
  exact filter_eq_self.mpr fun l hl => by simpa using (h l hl).2

theorem WF.append (h : WF xs) (hv : l.Valid) (ht : l.flType ≠ .unlck) : WF (xs ++ [l]) := by
  intro x hx
  simp only [mem_append, mem_singleton] at hx
  rcases hx with hx | rfl
  · exact h x hx
  · exact ⟨hv, ht⟩

theorem WF.subset (h : WF xs) (hs : xs' ⊆ xs) : WF xs' := fun l hl => h l (hs hl)

/-- **The worklist rule.** Read `insertAndMerge` as a list and a stack of locks to insert. If each of its four ways
    and the final sweep of unlock records keep `I`, then inserting the top of the stack does. -/
theorem insertAndMerge_rule {I : List PosixLock → List PosixLock → Prop}
    (append : ∀ {xs lock ps}, lock.Valid → lock.flType ≠ .unlck → I xs (lock :: ps) → I (xs ++ [lock]) ps)
    (discard : ∀ {xs lock ps}, I xs (lock :: ps) → I xs ps)
    (merge : ∀ {pre conf post lock ps}, lock.Valid → locksOverlap conf lock = true → sameOwner conf lock = true →
      conf.flType = lock.flType → I (pre ++ conf :: post) (lock :: ps) → I (pre ++ post) (hull lock conf lock :: ps))
    (split : ∀ {pre conf post lock ps}, lock.Valid → locksOverlap conf lock = true → sameOwner conf lock = true →
      conf.flType ≠ lock.flType → I (pre ++ conf :: post) (lock :: ps) →
      I (pre ++ post) (subtractLocks (hull lock conf conf) lock ++ ps))
    (sweep : ∀ {xs ps}, I xs ps → I (deleteUnlckLocks xs) ps)
    (hlock : lock.Valid) (hI : I xs [lock]) (h : insertAndMerge fuel xs lock li = .ok xs') : I xs' [] := by
  generalize [] = ps at hI ⊢
  induction fuel generalizing xs lock li xs' ps with
  | zero => cases h
  | succ fuel ih =>
    rcases insertAndMerge_cases h with ⟨ht, rfl⟩ | ⟨ht, rfl⟩ |
      ⟨pre, conf, post, rfl, hov, hown, ⟨ht, hrec⟩ | ⟨ht, _, xs1, hfold, rfl⟩⟩
    · exact append hlock ht hI
    · exact discard hI
    · exact ih (hull_valid hlock) hrec ps (merge hlock hov hown ht hI)
    -- the pieces go in one after the other, each on top of the locks still to come
    have hpieces : ∀ (vs : List PosixLock) {e e' : List PosixLock}, (∀ v ∈ vs, v.Valid) → I e (vs ++ ps) →
        vs.foldlM (fun e v => insertAndMerge fuel e v true) e = .ok e' → I e' ps := by
      intro vs
      induction vs with
      | nil =>
        intro e e' _ hi hf
        cases hf
        exact hi
      | cons v vs ihv =>
        intro e e' hvs hi hf
        rw [foldlM_cons] at hf
        cases hv : insertAndMerge fuel e v true with
        | error x => rw [hv] at hf; cases hf
        | ok e1 =>
          rw [hv] at hf
          exact ihv (fun w hw => hvs w (by simp [hw])) (ih (hvs v (by simp)) hv _ hi) hf
    exact sweep (hpieces _ (fun v hv => (piece_of_mem_subtractLocks hov hlock hv).valid hlock)
      (split hlock hov hown ht hI) hfold)

/-- The worklist rule on a well formed list, where the final sweep removes nothing. -/
theorem insertAndMerge_rule_wf {I : List PosixLock → List PosixLock → Prop}
    (append : ∀ {xs lock ps}, I xs (lock :: ps) → I (xs ++ [lock]) ps)
    (discard : ∀ {xs lock ps}, I xs (lock :: ps) → I xs ps)
    (merge : ∀ {pre conf post lock ps}, lock.Valid → conf.Valid → locksOverlap conf lock = true →
      sameOwner conf lock = true → conf.flType = lock.flType → I (pre ++ conf :: post) (lock :: ps) →
      I (pre ++ post) (hull lock conf lock :: ps))
    (split : ∀ {pre conf post lock ps}, lock.Valid → conf.Valid → locksOverlap conf lock = true →
      sameOwner conf lock = true → conf.flType ≠ lock.flType → I (pre ++ conf :: post) (lock :: ps) →
      I (pre ++ post) (subtractLocks (hull lock conf conf) lock ++ ps)) (hxs : WF xs)
    (hlock : lock.Valid) (hI : I xs [lock]) (h : insertAndMerge fuel xs lock li = .ok xs') : WF xs' ∧ I xs' [] := by
  refine insertAndMerge_rule (I := fun xs ps => WF xs ∧ I xs ps) ?_ ?_ ?_ ?_ ?_ hlock ⟨hxs, hI⟩ h
  · exact fun hlock ht ⟨hwf, hi⟩ => ⟨hwf.append hlock ht, append hi⟩
  · exact fun ⟨hwf, hi⟩ => ⟨hwf, discard hi⟩
  · exact fun hlock hov hown ht ⟨hwf, hi⟩ =>
      ⟨hwf.subset (by simp), merge hlock (hwf _ (by simp)).1 hov hown ht hi⟩
  · exact fun hlock hov hown ht ⟨hwf, hi⟩ =>
      ⟨hwf.subset (by simp), split hlock (hwf _ (by simp)).1 hov hown ht hi⟩
  · rintro xs ps ⟨hwf, hi⟩
    rw [hwf.deleteUnlckLocks_eq]
    exact ⟨hwf, hi⟩

theorem insertAndMerge_wf (hxs : WF xs) (hlock : lock.Valid) (h : insertAndMerge fuel xs lock li = .ok xs') : WF xs' :=
  (insertAndMerge_rule_wf (I := fun _ _ => True) (fun _ => trivial) (fun _ => trivial)
    (fun _ _ _ _ _ _ => trivial) (fun _ _ _ _ _ _ => trivial) hxs hlock trivial h).1

/-! ## Termination -/

/-- What a lock counts for. One with an empty range counts too: it leaves the list when a lock around it comes. -/
def PosixLock.weight (l : PosixLock) : Nat := max 1 l.width

def totalWeight (xs : List PosixLock) : Nat := (xs.map PosixLock.weight).sum

theorem totalWeight_append (xs ys : List PosixLock) : totalWeight (xs ++ ys) = totalWeight xs + totalWeight ys := by
  simp [totalWeight]

@[simp] theorem totalWeight_cons (l : PosixLock) (xs : List PosixLock) :
    totalWeight (l :: xs) = l.weight + totalWeight xs := by
  simp [totalWeight]

@[simp] theorem totalWeight_nil : totalWeight [] = 0 := rfl

/-- Overlapping ranges share a byte, or one of them is empty, so their hull weighs less than both together. -/
theorem weight_hull_lt (ho : locksOverlap conf lock = true) (hl : lock.Valid) :
    (hull lock conf l).weight < lock.weight + conf.weight := by
  rw [locksOverlap_iff] at ho
  unfold PosixLock.Valid at hl
  simp only [PosixLock.weight, PosixLock.width, hull_flStart, hull_flEnd]
  omega

/-- The pieces of a split tile the hull. -/
theorem totalWeight_subtractLocks_le (hl : lock.Valid) (conf : PosixLock) :
    totalWeight (subtractLocks (hull lock conf conf) lock) ≤ (hull lock conf conf).weight := by
  unfold PosixLock.Valid at hl
  rcases subtractLocks_cases lock conf with ⟨_, _, h⟩ | ⟨_, _, h⟩ | ⟨_, _, h⟩ | ⟨_, _, h⟩
  all_goals
    rw [h]
    simp only [totalWeight_cons, totalWeight_nil, PosixLock.weight, PosixLock.width, leftPart, rightPart,
      hull_flStart, hull_flEnd]
    omega

/-- Inserting never makes the list heavier than what was put in. -/
theorem insertAndMerge_weight (hlock : lock.Valid)
    (h : insertAndMerge fuel xs lock li = .ok xs') : totalWeight xs' ≤ totalWeight xs + lock.weight := by
  have key := insertAndMerge_rule (I := fun e ps => totalWeight e + totalWeight ps ≤ totalWeight xs + lock.weight)
    ?append ?discard ?merge ?split ?sweep hlock (by simp) h
  · simpa using key
  case append =>
    intro e l ps _ _ hw
    rw [totalWeight_append]
    simp only [totalWeight_cons, totalWeight_nil] at hw ⊢
    omega
  case discard =>
    intro e l ps hw
    simp only [totalWeight_cons] at hw
    omega
  case merge =>
    intro pre conf post l ps hl hov _ _ hw
    have hlt := weight_hull_lt (l := l) hov hl
    simp only [totalWeight_append, totalWeight_cons] at hw ⊢
    omega
  case split =>
    intro pre conf post l ps hl hov _ _ hw
    have hlt := weight_hull_lt (l := conf) hov hl
    have hle := totalWeight_subtractLocks_le hl conf
    simp only [totalWeight_append, totalWeight_cons] at hw ⊢
    omega
  case sweep =>
    intro e ps hw
    exact le_trans (Nat.add_le_add_right ((filter_sublist.map _).sum_le_sum fun _ _ => Nat.zero_le _) _) hw

/-- **The recursion ends.** With more fuel than the list and the lock weigh it is never cut short: each recursive
    call works on strictly less. -/
theorem insertAndMerge_fuel : ∀ {fuel : Nat} {xs : List PosixLock} {lock : PosixLock} {li : Bool}, lock.Valid →
    totalWeight xs + lock.weight < fuel → insertAndMerge fuel xs lock li ≠ .error .outOfFuel := by
  intro fuel
  induction fuel with
  | zero =>
    intro xs lock li _ hlt
    omega
  | succ fuel ih =>
    intro xs lock li hlock hlt
    rw [insertAndMerge]
    split
    · split <;> simp
    next conf hf =>
      obtain ⟨hstop, pre, post, rfl, her⟩ := find?_split hf
      have hov := overlap_of_stopsScan hstop
      simp only [totalWeight_append, totalWeight_cons] at hlt
      rw [her]
      split
      · split
        · have := weight_hull_lt (l := lock) hov hlock
          exact ih (hull_valid hlock) (by
            simp only [totalWeight_append]; unfold hull at this; omega)
        split
        · simp
        have hw := weight_hull_lt (l := conf) hov hlock
        have hle := totalWeight_subtractLocks_le hlock conf
        -- the pieces still to insert and the list so far stay below the fuel
        have hpieces : ∀ (vs e : List PosixLock), (∀ v ∈ vs, v.Valid) → totalWeight e + totalWeight vs < fuel →
            vs.foldlM (fun e v => insertAndMerge fuel e v true) e ≠ .error .outOfFuel := by
          intro vs
          induction vs with
          | nil =>
            intro e _ _ hcon
            cases hcon
          | cons v vs ihv =>
            intro e hvs hlt'
            simp only [totalWeight_cons] at hlt'
            have hv := hvs v (by simp)
            rw [foldlM_cons]
            cases hr : insertAndMerge fuel e v true with
            | error x =>
              intro hcon
              cases hcon
              exact ih hv (by omega) hr
            | ok e1 =>
              have hw1 := insertAndMerge_weight hv hr
              exact ihv e1 (fun w hw => hvs w (by simp [hw])) (by omega)
        have hne := hpieces (subtractLocks (hull lock conf conf) lock) (pre ++ post)
          (fun v hv => (piece_of_mem_subtractLocks hov hlock hv).valid hlock)
          (by simp only [totalWeight_append]; omega)
        dsimp only
        split
        next e he =>
          intro hcon
          cases hcon
          exact hne he
        · simp
      · simp

theorem weight_of_valid (hl : l.Valid) : l.weight = l.width := by
  unfold PosixLock.Valid at hl
  unfold PosixLock.weight PosixLock.width
  omega

theorem insertLock_fuel (hxs : WF xs) (hlock : lock.Valid) : insertLock xs lock ≠ .error .outOfFuel := by
  have hwidth : totalWeight xs = totalWidth xs :=
    congrArg List.sum (map_congr_left fun l hl => weight_of_valid (hxs l hl).1)
  refine insertAndMerge_fuel hlock ?_
  rw [hwidth, weight_of_valid hlock]
  exact Nat.lt_succ_self _

/-- **Merging terminates**, whatever is in the list: with fuel enough no call is cut short. -/
theorem merging_terminates (xs : List PosixLock) (lock : PosixLock) (li : Bool) (hlock : lock.flStart ≤ lock.flEnd) :
    ∃ bound, ∀ fuel, bound < fuel → insertAndMerge fuel xs lock li ≠ .error .outOfFuel :=
  ⟨totalWeight xs + lock.weight, fun _ => insertAndMerge_fuel hlock⟩

/-- Two locks of one owner overlap, and one of them waits. -/
theorem merging_terminates_waiting :
    let lock (type : FlType) (start len : Int) := newPosixLock ⟨type, 0, start, len, 0⟩ 1 0 1 0
    ∃ bound, ∀ fuel, bound < fuel →
      insertAndMerge fuel [lock .wrlck 0 9, { lock .rdlck 4 9 with blocked := true }] (lock .rdlck 2 5) true ≠
        .error .outOfFuel :=
  merging_terminates _ _ _ (by decide)

/-! ## Frame -/

theorem Piece.sameOwner_lock (hown : sameOwner conf lock = true) (h : Piece lock conf v) : sameOwner v lock = true := by
  cases h with
  | self => simp [sameOwner]
  | whole _ _ _ ho | part _ _ _ _ ho => exact sameOwner_trans ho hown

/-- **Frame.** Inserting a lock leaves the locks of every other owner as they were, in their order. -/
theorem insertAndMerge_others (hxs : WF xs) (hlock : lock.Valid) (h : insertAndMerge fuel xs lock li = .ok xs') :
    (xs'.filter fun l => !sameOwner l lock) = xs.filter fun l => !sameOwner l lock := by
  have key := insertAndMerge_rule_wf
    (I := fun e ps => ((e.filter fun l => !sameOwner l lock) = xs.filter fun l => !sameOwner l lock) ∧
      ∀ p ∈ ps, sameOwner p lock = true)
    ?append ?discard ?merge ?split hxs hlock ⟨rfl, by simp [sameOwner]⟩ h
  · exact key.2.1
  case append =>
    rintro e l ps ⟨he, hps⟩
    refine ⟨?_, fun p hp => hps p (by simp [hp])⟩
    rw [filter_append, he, filter_cons_of_neg (by simp [hps l (by simp)]), filter_nil, append_nil]
  case discard =>
    rintro e l ps ⟨he, hps⟩
    exact ⟨he, fun p hp => hps p (by simp [hp])⟩
  case merge =>
    rintro pre conf post l ps - - - hown - ⟨he, hps⟩
    have hl := hps l (by simp)
    refine ⟨?_, ?_⟩
    · rw [← he, filter_append, filter_append, filter_cons_of_neg (by simp [sameOwner_trans hown hl])]
    intro p hp
    rcases mem_cons.mp hp with rfl | hp
    · exact sameOwner_trans (sameOwner_hull _ _ _) hl
    · exact hps p (by simp [hp])
  case split =>
    rintro pre conf post l ps hlv - hov hown - ⟨he, hps⟩
    have hl := hps l (by simp)
    refine ⟨?_, ?_⟩
    · rw [← he, filter_append, filter_append, filter_cons_of_neg (by simp [sameOwner_trans hown hl])]
    intro p hp
    rcases mem_append.mp hp with hp | hp
    · exact sameOwner_trans ((piece_of_mem_subtractLocks hov hlv hp).sameOwner_lock hown) hl
    · exact hps p (by simp [hp])

end GlusterFS.Locks
