import GlusterFS.Locks.FcntlPass

/-!
# `Locks.Correctness.FcntlExclusion` — mutual exclusion of `fcntl` locks

Exclusion (`Exclusive`) fails as it stands: `__insert_and_merge` treats a *waiting* lock of the caller as
if it were held, merges with it or splits it, and what comes back is granted. `waiting_lock_granted` is
the run.

It holds in every run in which no insert touches a waiting lock of its own owner. Which locks an insert
touches is `Reaches`: the overlapping locks of the owner, and from a granted one of those on to the locks
that overlap *it*, since merged pieces can be as wide as the locks they came from. The grant pass inserts
too; there the condition is `PassApart`. The argument for one insert is a region argument (`region`): all
pieces stay inside the bytes of the reached locks, and inside those bytes the owner holds, and waits for,
nothing else.
-/

namespace GlusterFS.Locks

open Transition List

variable {s : FcntlState}

/-- **Mutual exclusion.** Two granted locks of different owners that overlap are no write locks. -/
def Exclusive (xs : List PosixLock) : Prop :=
  ∀ a ∈ xs, ∀ b ∈ xs, a.blocked = false → b.blocked = false → sameOwner a b = false →
    locksOverlap a b = true → a.flType ≠ .wrlck ∧ b.flType ≠ .wrlck
deriving Decidable

variable {xs xs' : List PosixLock}

theorem Exclusive.subset (h : Exclusive xs) (hs : xs' ⊆ xs) : Exclusive xs' := fun a ha b hb => h a (hs ha) b (hs hb)

variable {l : PosixLock}

theorem Exclusive.append_blocked (h : Exclusive xs) (hl : l.blocked = true) : Exclusive (xs ++ [l]) := by
  have hmem : ∀ {x : PosixLock}, x ∈ xs ++ [l] → x.blocked = false → x ∈ xs := by
    intro x hx hb
    rcases mem_append.mp hx with hx | hx
    · exact hx
    rw [mem_singleton.mp hx, hl] at hb
    cases hb
  intro a ha b hb hab hbb
  exact h a (hmem ha hab) b (hmem hb hbb) hab hbb

/-! ## What an insert reaches -/

/-- The locks of `lock`'s owner that inserting `lock` may merge with or split. -/
inductive Reaches (xs : List PosixLock) (lock : PosixLock) : PosixLock → Prop where
  | direct {c : PosixLock} (mem : c ∈ xs) (owner : sameOwner c lock = true)
      (overlap : locksOverlap c lock = true) : Reaches xs lock c
  | chain {g c : PosixLock} (reached : Reaches xs lock g) (granted : g.blocked = false)
      (mem : c ∈ xs) (owner : sameOwner c lock = true) (overlap : locksOverlap c g = true) : Reaches xs lock c

variable {lock : PosixLock}

theorem Reaches.mem {c : PosixLock} (h : Reaches xs lock c) : c ∈ xs ∧ sameOwner c lock = true := by
  cases h with
  | direct hm ho _ | chain _ _ hm ho _ => exact ⟨hm, ho⟩

/-- The insert touches granted locks only. -/
def ReachesGranted (xs : List PosixLock) (lock : PosixLock) : Prop := ∀ c, Reaches xs lock c → c.blocked = false

/-- The bytes a lock covers. -/
def PosixLock.span (l : PosixLock) : Set Int := Set.Icc l.flStart l.flEnd

/-- The bytes of a lock and of all locks its insert reaches. -/
def region (xs : List PosixLock) (lock : PosixLock) : Set Int := lock.span ∪ {x | ∃ c, Reaches xs lock c ∧ x ∈ c.span}

variable {a b : PosixLock}

theorem overlap_of_mem_span {x : Int} (ha : x ∈ a.span) (hb : x ∈ b.span) : locksOverlap a b = true := by
  rw [locksOverlap_iff]
  exact ⟨hb.1.trans ha.2, ha.1.trans hb.2⟩

/-- Overlapping ranges that cover a byte share one. -/
theorem exists_mem_span (ha : a.Valid) (hb : b.Valid) (h : locksOverlap a b = true) : ∃ x, x ∈ a.span ∧ x ∈ b.span := by
  rw [locksOverlap_iff] at h
  unfold PosixLock.Valid at ha hb
  exact ⟨max a.flStart b.flStart, ⟨by omega, by omega⟩, ⟨by omega, by omega⟩⟩

variable {conf : PosixLock}

/-- The hull of overlapping ranges is their union. -/
theorem mem_span_hull {x : Int} (hov : locksOverlap conf lock = true)
    (hx : x ∈ (hull lock conf l).span) : x ∈ lock.span ∨ x ∈ conf.span := by
  rw [locksOverlap_iff] at hov
  have hlo : min lock.flStart conf.flStart ≤ x := hx.1
  have hhi : x ≤ max lock.flEnd conf.flEnd := hx.2
  by_cases hl : lock.flStart ≤ x ∧ x ≤ lock.flEnd
  · exact .inl ⟨hl.1, hl.2⟩
  · exact .inr ⟨by omega, by omega⟩

/-- The owner's locks that meet the region of an insert are granted and lie inside it. -/
theorem region_closed (hr : ReachesGranted xs lock)
    (hl : l ∈ xs) (hown : sameOwner l lock = true) (hmeet : ∃ x ∈ l.span, x ∈ region xs lock) :
    l.blocked = false ∧ l.span ⊆ region xs lock := by
  obtain ⟨x, hxl, hx⟩ := hmeet
  have hreach : Reaches xs lock l := by
    rcases hx with hx | ⟨c, hc, hx⟩
    · exact .direct hl hown (overlap_of_mem_span hxl hx)
    · exact .chain hc (hr c hc) hl hown (overlap_of_mem_span hxl hx)
  exact ⟨hr l hreach, fun y hy => .inr ⟨l, hreach, hy⟩⟩

/-! ## One insert -/

/-- `l` may be granted beside the locks that other owners hold. -/
def Compatible (xs : List PosixLock) (lock l : PosixLock) : Prop :=
  l.flType ≠ .unlck → ∀ o ∈ xs, o.blocked = false → sameOwner o lock = false →
    locksOverlap o l = true → l.flType ≠ .wrlck ∧ o.flType ≠ .wrlck

/-- A lock made of parts that may be granted, with their type, may be granted. -/
theorem Compatible.of_parts (hwf : WF xs) (ha : Compatible xs lock a) (hb : Compatible xs lock b) (hl : l.Valid)
    (hta : a.flType = l.flType) (htb : b.flType = l.flType)
    (hspan : ∀ x ∈ l.span, x ∈ a.span ∨ x ∈ b.span) : Compatible xs lock l := by
  intro ht o ho hob hown hov
  obtain ⟨x, hxo, hxl⟩ := exists_mem_span (hwf o ho).1 hl hov
  rcases hspan x hxl with hx | hx
  · have key := ha (hta ▸ ht) o ho hob hown (overlap_of_mem_span hxo hx)
    rwa [hta] at key
  have key := hb (htb ▸ ht) o ho hob hown (overlap_of_mem_span hxo hx)
  rwa [htb] at key

/-- What holds of the list `e` and the stack `ps` while `lock` is inserted into `xs`. -/
structure Inserting (xs : List PosixLock) (lock : PosixLock) (e ps : List PosixLock) : Prop where
  waiters : (e.filter fun l => l.blocked) = xs.filter fun l => l.blocked
  pending : ∀ p ∈ ps, p.blocked = false ∧ sameOwner p lock = true ∧ p.span ⊆ region xs lock ∧ Compatible xs lock p
  inside : ∀ l ∈ e, sameOwner l lock = true → (∃ x ∈ l.span, x ∈ region xs lock) →
    l.blocked = false ∧ l.span ⊆ region xs lock
  compat : ∀ l ∈ e, sameOwner l lock = true → l.blocked = false → Compatible xs lock l

variable {ps : List PosixLock}

/-- A lock the scan stops at while `lock` is inserted is granted, inside the region, and may stay. -/
theorem Inserting.found {e : List PosixLock}
    (h : Inserting xs lock e (l :: ps)) (hc : conf ∈ e) (hl : l.Valid) (hcv : conf.Valid)
    (hov : locksOverlap conf l = true) (hown : sameOwner conf l = true) :
    conf.blocked = false ∧ conf.span ⊆ region xs lock ∧ Compatible xs lock conf := by
  obtain ⟨-, hlown, hlspan, -⟩ := h.pending l (by simp)
  have hcown : sameOwner conf lock = true := sameOwner_trans hown hlown
  obtain ⟨x, hxc, hxl⟩ := exists_mem_span hcv hl hov
  obtain ⟨hb, hspan⟩ := h.inside conf hc hcown ⟨x, hxc, hlspan hxl⟩
  exact ⟨hb, hspan, h.compat conf hc hcown hb⟩

variable {pre post : List PosixLock}

/-- Taking a granted lock out of the list and putting granted pieces on the stack keeps the rest. -/
theorem Inserting.replace {vs : List PosixLock}
    (h : Inserting xs lock (pre ++ conf :: post) (l :: ps)) (hb : conf.blocked = false)
    (hvs : ∀ v ∈ vs, v.blocked = false ∧ sameOwner v lock = true ∧ v.span ⊆ region xs lock ∧
      Compatible xs lock v) : Inserting xs lock (pre ++ post) (vs ++ ps) := by
  have hsub : pre ++ post ⊆ pre ++ conf :: post := by simp
  refine ⟨?_, ?_, fun x hx => h.inside x (hsub hx), fun x hx => h.compat x (hsub hx)⟩
  · rw [← h.waiters, filter_append, filter_append, filter_cons_of_neg (by simp [hb])]
  intro p hp
  rcases mem_append.mp hp with hp | hp
  · exact hvs p hp
  · exact h.pending p (by simp [hp])

theorem Inserting.merge (hwf : WF xs)
    (h : Inserting xs lock (pre ++ conf :: post) (l :: ps)) (hl : l.Valid) (hcv : conf.Valid)
    (hov : locksOverlap conf l = true) (hown : sameOwner conf l = true)
    (ht : conf.flType = l.flType) : Inserting xs lock (pre ++ post) (hull l conf l :: ps) := by
  obtain ⟨hb, hspan, hcompat⟩ := h.found (by simp) hl hcv hov hown
  obtain ⟨-, hlown, hlspan, hlcompat⟩ := h.pending l (by simp)
  show Inserting xs lock (pre ++ post) ([hull l conf l] ++ ps)
  refine h.replace hb ?_
  intro v hv
  rw [mem_singleton.mp hv]
  have hparts : ∀ x ∈ (hull l conf l).span, x ∈ l.span ∨ x ∈ conf.span := fun x => mem_span_hull hov
  refine ⟨rfl, sameOwner_trans (sameOwner_hull _ _ _) hlown, ?_, ?_⟩
  · intro x hx
    rcases hparts x hx with hx | hx
    · exact hlspan hx
    · exact hspan hx
  · exact hlcompat.of_parts hwf hcompat (hull_valid hl) rfl ht hparts

theorem Inserting.split (hwf : WF xs)
    (h : Inserting xs lock (pre ++ conf :: post) (l :: ps)) (hl : l.Valid) (hcv : conf.Valid)
    (hov : locksOverlap conf l = true) (hown : sameOwner conf l = true) :
    Inserting xs lock (pre ++ post) (subtractLocks (hull l conf conf) l ++ ps) := by
  obtain ⟨hb, hspan, hcompat⟩ := h.found (by simp) hl hcv hov hown
  obtain ⟨hlb, hlown, hlspan, hlcompat⟩ := h.pending l (by simp)
  refine h.replace hb ?_
  intro v hv
  have hpiece := piece_of_mem_subtractLocks hov hl hv
  have hval : v.Valid := hpiece.valid hl
  have hvown : sameOwner v lock = true := sameOwner_trans (hpiece.sameOwner_lock hown) hlown
  cases hpiece with
  | self => exact ⟨hlb, hlown, hlspan, hlcompat⟩
  | whole htype hs he _ hvb _ =>
    have hvl : v.span ⊆ l.span := Set.Icc_subset_Icc (le_of_eq hs.symm) (le_of_eq he)
    exact ⟨hvb, hvown, hvl.trans hlspan,
      hlcompat.of_parts hwf hlcompat hval htype.symm htype.symm fun x hx => .inl (hvl hx)⟩
  | part htype hs he _ _ hvb _ =>
    have hvc : v.span ⊆ conf.span := Set.Icc_subset_Icc hs he
    exact ⟨hvb, hvown, hvc.trans hspan,
      hcompat.of_parts hwf hcompat hval htype.symm htype.symm fun x hx => .inl (hvc hx)⟩

/-- A lock that passes `__is_lock_grantable` may be granted beside the locks of other owners. -/
theorem compatible_of_grantable (hg : isLockGrantable xs lock = true) : Compatible xs lock lock := by
  intro ht o ho hob hown hov
  have hno : xs.any (standsInWay lock) = false := by simpa [isLockGrantable] using hg
  have hfree : standsInWay lock o = false := by
    rw [any_eq_false] at hno
    simpa using hno o ho
  rw [locksOverlap_comm] at hov
  simp only [standsInWay, hob, hov, hown, Bool.not_false, Bool.true_and, Bool.and_true,
    Bool.and_eq_false_iff, Bool.or_eq_false_iff, beq_eq_false_iff_ne, bne_eq_false_iff_eq] at hfree
  rcases hfree with ⟨ho', hl'⟩ | hcon
  · exact ⟨hl', ho'⟩
  · exact absurd hcon ht

/-- **One insert** of a grantable lock that touches granted locks only: the waiting locks stay as they
    were, and what the owner holds afterwards may be held beside the locks of the others. -/
theorem insertLock_inserting (hwf : WF xs)
    (hlock : lock.Valid) (hb : lock.blocked = false) (hr : ReachesGranted xs lock)
    (hex : Exclusive xs) (hg : isLockGrantable xs lock = true) (h : insertLock xs lock = .ok xs') :
    Inserting xs lock xs' [] := by
  have hinit : Inserting xs lock xs [lock] := by
    refine ⟨rfl, ?_, fun l hl hown hm => region_closed hr hl hown hm, ?_⟩
    · intro p hp
      rw [mem_singleton.mp hp]
      exact ⟨hb, by simp [sameOwner], fun x hx => .inl hx, compatible_of_grantable hg⟩
    intro l hl hown hlb _ o ho hob hoown hov
    have hdiff : sameOwner o l = false := by
      rw [sameOwner_comm, sameOwner_congr hown, sameOwner_comm]
      exact hoown
    exact (hex o ho l hl hob hlb hdiff hov).symm
  refine (insertAndMerge_rule_wf (I := Inserting xs lock) ?append ?discard ?merge ?split hwf hlock
    hinit h).2
  case append =>
    intro e l ps hi
    obtain ⟨hlb, hlown, hlspan, hlcompat⟩ := hi.pending l (by simp)
    refine ⟨?_, fun p hp => hi.pending p (by simp [hp]), ?_, ?_⟩
    · rw [filter_append, hi.waiters, filter_cons_of_neg (by simp [hlb]), filter_nil, append_nil]
    · intro x hx hown hm
      rcases mem_append.mp hx with hx | hx
      · exact hi.inside x hx hown hm
      rw [mem_singleton.mp hx]
      exact ⟨hlb, hlspan⟩
    intro x hx hown hxb
    rcases mem_append.mp hx with hx | hx
    · exact hi.compat x hx hown hxb
    rw [mem_singleton.mp hx]
    exact hlcompat
  case discard =>
    intro e l ps hi
    exact ⟨hi.waiters, fun p hp => hi.pending p (by simp [hp]), hi.inside, hi.compat⟩
  case merge =>
    intro pre conf post l ps hl hc hov hown ht hi
    exact hi.merge hwf hl hc hov hown ht
  case split =>
    intro pre conf post l ps hl hc hov hown _ hi
    exact hi.split hwf hl hc hov hown

theorem insertLock_exclusive (hwf : WF xs)
    (hlock : lock.Valid) (hb : lock.blocked = false) (hr : ReachesGranted xs lock)
    (hex : Exclusive xs) (hg : isLockGrantable xs lock = true) (h : insertLock xs lock = .ok xs') : Exclusive xs' := by
  have hins := insertLock_inserting hwf hlock hb hr hex hg h
  have hwf' : WF xs' := insertLock_wf hwf hlock h
  have hothers : ∀ {o : PosixLock}, o ∈ xs' → sameOwner o lock = false → o ∈ xs := by
    intro o ho hown
    have hmem : o ∈ xs'.filter fun l => !sameOwner l lock := mem_filter.mpr ⟨ho, by simp [hown]⟩
    rw [insertAndMerge_others hwf hlock h] at hmem
    exact (mem_filter.mp hmem).1
  -- a lock of the inserting owner against one of another owner
  have hmixed : ∀ {a b : PosixLock}, a ∈ xs' → b ∈ xs' → a.blocked = false → b.blocked = false →
      sameOwner a lock = true → sameOwner b lock = false → locksOverlap b a = true →
      a.flType ≠ .wrlck ∧ b.flType ≠ .wrlck := by
    intro a b ha hb hab hbb hown hbown hov
    exact hins.compat a ha hown hab (hwf' a ha).2 b (hothers hb hbown) hbb hbown hov
  intro a ha b hb hab hbb hdiff hov
  by_cases hao : sameOwner a lock = true
  · have hbo : sameOwner b lock = false := by
      rw [← hdiff, sameOwner_congr hao, sameOwner_comm]
    rw [locksOverlap_comm] at hov
    exact hmixed ha hb hab hbb hao hbo hov
  have hao' : sameOwner a lock = false := by simpa using hao
  by_cases hbo : sameOwner b lock = true
  · exact (hmixed hb ha hbb hab hbo hao' hov).symm
  · exact hex a (hothers ha hao') b (hothers hb (by simpa using hbo)) hab hbb hdiff hov

/-! ## The grant pass -/

theorem grantBlockedLocks_exclusive {g : List LkReply} (hwf : WF xs)
    (hap : PassApart xs) (hex : Exclusive xs) (h : grantBlockedLocks xs = .ok (xs', g)) : Exclusive xs' := by
  refine grantLoop_rule_apart (J := fun e _ _ => Exclusive e) ?grant ?requeue
    (RetryApart.of_passApart hwf hap) (hex.subset filter_sublist.subset) h
  case requeue =>
    intro e l tmp g _ he _
    exact he.append_blocked rfl
  case grant =>
    intro e l tmp g hap he hg
    have hcompat : Compatible e l l := compatible_of_grantable hg
    have ht : l.flType ≠ .unlck := (hap.wf l (by simp)).2
    intro a ha b hb hab hbb hdiff hov
    rcases mem_append.mp ha with ha | ha
    · rcases mem_append.mp hb with hb | hb
      · exact he a ha b hb hab hbb hdiff hov
      rw [mem_singleton.mp hb] at hdiff hov ⊢
      exact (hcompat ht a ha hab hdiff hov).symm
    rw [mem_singleton.mp ha] at hdiff hov ⊢
    rcases mem_append.mp hb with hb | hb
    · rw [sameOwner_comm] at hdiff
      rw [locksOverlap_comm] at hov
      exact hcompat ht b hb hbb hdiff hov
    rw [mem_singleton.mp hb] at hdiff
    simp [sameOwner] at hdiff

/-! ## Runs -/

/-- **No section touches a waiting lock of the owner it inserts for.** A request that is granted reaches
    granted locks only; a grant pass retries no lock that overlaps another waiting lock of its owner. -/
def FcntlSection.TouchesGranted (s : FcntlState) : FcntlSection → Prop
  | .enter (.lk req .setlk) =>
    isLockGrantable s.extList (req.reqlock s.lkCalls false) = true →
      ReachesGranted s.extList (req.reqlock s.lkCalls false)
  | .enter (.lk req .setlkw) =>
    isLockGrantable s.extList (req.reqlock s.lkCalls true) = true →
      ReachesGranted s.extList (req.reqlock s.lkCalls true)
  | .enter _ => True
  | .grant => PassApart s.extList

theorem TouchesGranted.of_setlk {req : LkRequest} {cb : Bool}
    (h : (FcntlSection.enter (.lk req (setlkCmd cb))).TouchesGranted s)
    (hg : isLockGrantable s.extList (req.reqlock s.lkCalls cb) = true) :
    ReachesGranted s.extList (req.reqlock s.lkCalls cb) := by
  cases cb with
  | false | true => exact h hg

theorem section_exclusive {s' : FcntlState} {a : FcntlSection} (hwf : WF s.extList)
    (hex : Exclusive s.extList) (hcond : a.TouchesGranted s) (h : a.step s = .ok s') : Exclusive s'.extList := by
  cases a with
  | grant =>
    obtain ⟨xs, granted, hg, rfl⟩ := grant_ok h
    exact grantBlockedLocks_exclusive hwf hcond hex hg
  | enter c =>
    rcases enter_cases h with ⟨req, cb, xs, rfl, hg, hi, rfl⟩ | ⟨req, -, hg, rfl⟩ |
      ⟨req, cmd, r, -, -, rfl⟩ | ⟨fd, -, rfl⟩ | ⟨transport, owner, fd, -, -, rfl⟩
    · exact insertLock_exclusive hwf (reqlock_valid req _ cb) rfl (TouchesGranted.of_setlk hcond hg)
        hex hg hi
    · exact hex.append_blocked rfl
    · exact hex
    all_goals exact hex.subset filter_sublist.subset

/-- **Exclusion.** In every run in which no section touches a waiting lock of the owner it inserts for,
    no two granted locks of different owners overlap while one of them is a write lock. -/
theorem fcntl_mutual_exclusion (as : List FcntlSection) (s : FcntlState)
    (hcond : Along FcntlSection.step (fun s a => a.TouchesGranted s) FcntlState.init as)
    (hrun : fcntlRun as = .ok s) : Exclusive s.extList := by
  have hinit : WF FcntlState.init.extList ∧ Exclusive FcntlState.init.extList := by
    constructor
    · intro l hl
      cases hl
    intro a ha
    cases ha
  have key := run_invariant (I := fun s => WF s.extList ∧ Exclusive s.extList)
    (fun _ _ _ hinv hc hs => ⟨section_wf hinv.1 hs, section_exclusive hinv.1 hinv.2 hc hs⟩)
    hinit hcond hrun
  exact key.2

/-! ## A handover, and the run that breaks exclusion -/

/-- A request of lock owner `owner` behind `trans`, for `len` bytes from `start`. -/
def lkRequest (trans owner : Nat) (type : FlType) (start len : Int)
    (h : start ≤ flEndOf ⟨type, 0, start, len, 0⟩) : LkRequest :=
  { trans := trans, pid := 1, lkOwner := owner, root := 0, fd := trans,
    flock := ⟨type, 0, start, len, 0⟩, range_le := h }

/-- No request and no flush comes from an owner that waits already. -/
def FcntlSection.OwnerIdle (s : FcntlState) : FcntlSection → Prop
  | .enter (.lk req _) =>
    ∀ c ∈ s.extList, c.owner = req.lkOwner → c.transport = req.trans → c.blocked = false
  | .enter (.flush transport owner _) => owner ≠ 0 →
    ∀ c ∈ s.extList, c.transport = transport → c.owner = owner → c.blocked = false
  | .enter (.release _) => True
  | .grant => PassApart s.extList

instance (s : FcntlState) (a : FcntlSection) : Decidable (a.OwnerIdle s) :=
  match a with
  | .enter (.lk _ _) => inferInstanceAs (Decidable (∀ _ ∈ _, _))
  | .enter (.flush _ _ _) => inferInstanceAs (Decidable (_ ≠ 0 → ∀ _ ∈ _, _))
  | .enter (.release _) => isTrue trivial
  | .grant => inferInstanceAs (Decidable (PassApart _))

theorem FcntlSection.OwnerIdle.touchesGranted {a : FcntlSection} (h : a.OwnerIdle s) : a.TouchesGranted s := by
  have hreach : ∀ {req : LkRequest} {cmd : LkCmd} (cb : Bool), (enter (.lk req cmd)).OwnerIdle s →
      ReachesGranted s.extList (req.reqlock s.lkCalls cb) := by
    intro req cmd cb hidle c hc
    have hown := sameOwner_iff.mp hc.mem.2
    exact hidle c hc.mem.1 hown.1 hown.2
  match a with
  | .enter (.lk _ .setlk) => exact fun _ => hreach false h
  | .enter (.lk _ .setlkw) => exact fun _ => hreach true h
  | .enter (.lk _ .getlk) => trivial
  | .enter (.lk _ .other) => trivial
  | .enter (.flush _ _ _) => trivial
  | .enter (.release _) => trivial
  | .grant => exact h

/-- Owner 10 takes bytes 0 to 10, and owner 20 waits for bytes 5 to 15. -/
def waiterBehindLock : List FcntlCall :=
  [.lk (lkRequest 1 10 .wrlck 0 11 (by decide)) .setlk, .lk (lkRequest 2 20 .wrlck 5 11 (by decide)) .setlkw]

def handover : List FcntlCall := waiterBehindLock ++ [.lk (lkRequest 1 10 .unlck 0 11 (by decide)) .setlk]

theorem fcntl_mutual_exclusion_handover : ∃ s, fcntlCalls handover = .ok s ∧
    (s.extList.map fun l => (l.owner, l.blocked)) = [(20, false)] ∧ Exclusive s.extList := by
  have hidle : Along FcntlSection.step (fun s a => a.OwnerIdle s) FcntlState.init
      (handover.flatMap FcntlCall.sections) := by decide +kernel
  have hcond := hidle.mono fun _ _ h => h.touchesGranted
  exact ⟨_, rfl, by decide, fcntl_mutual_exclusion _ _ hcond rfl⟩

/-- Owner 20, which waits for bytes 5 to 15 behind owner 10's bytes 0 to 10, takes a read lock on bytes
    12 to 20. -/
def overlapOwnWaiter : List FcntlCall := waiterBehindLock ++ [.lk (lkRequest 2 20 .rdlck 12 9 (by decide)) .setlk]

/-- **Exclusion fails.** The waiting write lock is split, and its bytes 5 to 11 come back granted. -/
theorem waiting_lock_granted : ∃ s, fcntlCalls overlapOwnWaiter = .ok s ∧
    (s.extList.map fun l => (l.owner, l.flType, l.flStart, l.flEnd, l.blocked)) =
      [(10, .wrlck, 0, 10, false), (20, .wrlck, 5, 11, false), (20, .rdlck, 12, 20, false)] ∧ ¬ Exclusive s.extList :=
  ⟨_, rfl, by decide, by decide⟩

end GlusterFS.Locks
