import GlusterFS.Afr.Transaction

/-!
# `Afr.Correctness.Changelog` — what a transaction leaves in the counters

A child that executed both phases should end with its old counter about every child the operation succeeded
on, and one more about every other child. `counters_after` says what is left in fact: each phase adds its
row of the pending matrix once for each `xattrop` on the file. From it follows exactly when the counter is
the expected one (`Recorded`), and there are two reasons why it is not.

* The callback does not report the failure: `afr_setxattr_wind_cbk` and `afr_removexattr_wind_cbk` never do,
  and `afr_rmdir_wind_cbk` does not report `ENOTEMPTY`. The counter about the child that failed goes back to
  its old value.
* A rename within one directory sends both its `xattrop`s to the same counters, which then grow by two.
-/

namespace GlusterFS.Afr

open GlusterFS.Storage

variable {n : Nat} {i : Fin n} {priv : Priv n} {store : Store n}

/-! ## What the phases keep -/

/-- The parts of the state that neither locks nor the callbacks of the pre-op touch. -/
def Local.SameMarks (l l' : Local n) : Prop := l'.type = l.type ∧ l'.pending = l.pending

variable {l l' : Local n}

theorem afrLockCbk_keeps {r : Reply} (h : afrLockCbk l i r = .next l') : l.SameMarks l' := by
  cases r with
  | ok =>
    cases h
    exact ⟨rfl, rfl⟩
  | error e =>
    simp only [afrLockCbk] at h
    split at h
    · cases h
    cases h
    exact ⟨rfl, rfl⟩

variable {env : Env n}

theorem afrLockLowerCbk_keeps {r : Reply} (h : afrLockLowerCbk env l i r = .next l') : l.SameMarks l' := by
  cases r with
  | ok => exact afrLockCbk_keeps h
  | error e => cases h

theorem afrLockRec_keeps :
    ∀ {is : List (Fin n)} {l l' : Local n}, afrLockRec priv env is l = .next l' → l.SameMarks l' := by
  intro is
  induction is with
  | nil =>
    intro l l' h
    unfold afrLockRec at h
    split at h
    · cases h
    cases h
    exact ⟨rfl, rfl⟩
  | cons i is ih =>
    intro l l' h
    unfold afrLockRec at h
    split at h
    · exact ih h
    split at h
    · cases h
      exact ⟨rfl, rfl⟩
    split at h
    · cases h
    next l1 hlock =>
      -- one lock, then the other children
      have hone : l.SameMarks l1 := by
        split at hlock
        · exact afrLockLowerCbk_keeps hlock
        · exact afrLockCbk_keeps hlock
      have hrest := ih h
      exact ⟨hrest.1.trans hone.1, hrest.2.trans hone.2⟩

theorem afrLock_keeps (h : afrLock priv env l = .next l') : l.SameMarks l' := by
  unfold afrLock at h
  split at h
  · cases h
    exact ⟨rfl, rfl⟩
  · exact afrLockRec_keeps h

theorem preOpCbk_foldl_keeps : ∀ (rs : List (Fin n × Reply)) (l : Local n), l.SameMarks (rs.foldl preOpCbk l) := by
  intro rs
  induction rs with
  | nil =>
    intro l
    exact ⟨rfl, rfl⟩
  | cons x rs ih =>
    intro l
    have hone : l.SameMarks (preOpCbk l x) := by
      unfold preOpCbk
      split
      all_goals exact ⟨rfl, rfl⟩
    have hrest := ih (preOpCbk l x)
    exact ⟨hrest.1.trans hone.1, hrest.2.trans hone.2⟩

variable (type : TransactionType)

/-- The matrix with `v` for every child in the counter of the type, and zeros elsewhere. -/
def marksOf (v : BitVec 32) : Pending n := fun _ k => if k = type.index then v else 0

theorem markAllPending_zero : markAllPending (fun _ _ => 0) type = (marksOf type 1 : Pending n) := by
  funext j k
  show Function.update _ _ _ k = _
  rw [Function.update_apply]
  rfl

theorem markAllSuccess_marksOf (v : BitVec 32) :
    markAllSuccess (marksOf type v) type = (marksOf type (-1) : Pending n) := by
  funext j k
  show Function.update _ _ _ k = _
  rw [Function.update_apply]
  by_cases hk : k = type.index
  all_goals simp [marksOf, hk]

/-! ## Which failures are reported -/

/-- The errors for which the callback of an operation marks the child. -/
def Fop.marks : Fop → Errno → Bool
  | .setxattr, _ => false
  | .removexattr, _ => false
  | .rmdir, e => e != .enotempty
  | _, _ => true

variable (fop : Fop)

theorem Fop.cbk_eq (l : Local n) (i : Fin n) (r : Reply) : fop.cbk l i r = windCbk fop.marks l i r := by
  cases fop <;> cases r <;> rfl

/-- The operation fails on the child, and its callback marks it. -/
def Env.marked (env : Env n) (fop : Fop) (j : Fin n) : Bool :=
  match env.fop j with
  | .ok => false
  | .error e => fop.marks e

theorem cbk_eq_ite (env : Env n) (l : Local n) (i : Fin n) :
    fop.cbk l i (env.fop i) = if env.marked fop i then afrTransactionFopFailed l i else l := by
  rw [Fop.cbk_eq]
  unfold Env.marked windCbk
  cases env.fop i <;> rfl

/-- The callbacks of the operation put a zero for every marked child they come from. -/
theorem cbk_foldl (env : Env n) : ∀ (is : List (Fin n)) (l : Local n),
    (is.foldl (fun l i => fop.cbk l i (env.fop i)) l).type = l.type ∧
    (is.foldl (fun l i => fop.cbk l i (env.fop i)) l).childUp = l.childUp ∧
    ∀ j k, (is.foldl (fun l i => fop.cbk l i (env.fop i)) l).pending j k =
      if k = l.type.index ∧ j ∈ is ∧ env.marked fop j = true then 0 else l.pending j k := by
  intro is
  induction is with
  | nil =>
    intro l
    refine ⟨rfl, rfl, ?_⟩
    intro j k
    simp
  | cons i is ih =>
    intro l
    rw [List.foldl_cons, cbk_eq_ite]
    by_cases hm : env.marked fop i = true
    · rw [if_pos hm]
      obtain ⟨htype, hup, hpend⟩ := ih (afrTransactionFopFailed l i)
      refine ⟨htype, hup, ?_⟩
      intro j k
      have hdead : (afrTransactionFopFailed l i).pending j k =
          if j = i ∧ k = l.type.index then 0 else l.pending j k := by
        show markChildDead l.pending i l.type j k = _
        unfold markChildDead
        by_cases hji : j = i
        · subst hji
          rw [Function.update_self, Function.update_apply]
          simp
        rw [Function.update_of_ne hji]
        simp [hji]
      have htype' : (afrTransactionFopFailed l i).type = l.type := rfl
      rw [hpend j k, hdead, htype']
      by_cases hji : j = i
      · subst hji
        by_cases hk : k = l.type.index <;> simp [hk, hm]
      · simp [hji]
    rw [if_neg hm]
    obtain ⟨htype, hup, hpend⟩ := ih l
    refine ⟨htype, hup, ?_⟩
    intro j k
    rw [hpend j k]
    by_cases hji : j = i
    · subst hji
      simp [hm]
    · simp [hji]

/-! ## What a phase adds -/

theorem setPendingDict_keys (pending : Pending n) : ((setPendingDict pending).map Prod.fst).Nodup := by
  unfold setPendingDict
  rw [List.map_reverse, List.nodup_reverse, List.map_map]
  have hid : (Prod.fst ∘ fun i : Fin n => (i, pending i)) = id := rfl
  rw [hid, List.map_id]
  exact List.nodup_finRange n

theorem mem_setPendingDict (pending : Pending n) (j : Fin n) : (j, pending j) ∈ setPendingDict pending := by
  unfold setPendingDict
  rw [List.mem_reverse]
  exact List.mem_map_of_mem (List.mem_finRange j)

/-- **A child that executes its `xattrop`s** adds the pending row once for each of them on the file. -/
theorem childXattrops_counters {path : Slot → Path} {pending : Pending n} {runs : Slot → XattropRun} :
    ∀ {slots : List Slot} {st : ChildStore n},
      (∀ x ∈ (childXattrops path (setPendingDict pending) runs slots st).2, x.2 = .ok) →
      ∀ p j k, Xattrs.counters ((childXattrops path (setPendingDict pending) runs slots st).1 p) j k =
        Xattrs.counters (st p) j k + (slots.countP fun s => path s = p) • pending j k := by
  intro slots
  induction slots with
  | nil =>
    intro st _ p j k
    simp [childXattrops]
  | cons s slots ih =>
    intro st hok p j k
    simp only [childXattrops, List.mem_cons, forall_eq_or_imp] at hok ⊢
    obtain ⟨hs, hrest⟩ := hok
    have hadd := doXattrop_ok (setPendingDict_keys pending) hs (mem_setPendingDict pending j)
    rw [ih hrest p j k, List.countP_cons]
    by_cases hp : path s = p
    · subst hp
      rw [Function.update_self, hadd]
      simp only [addArray, decide_true, if_true, add_nsmul, one_nsmul]
      abel
    rw [Function.update_of_ne (Ne.symm hp)]
    simp [hp]

variable {t : Transaction}

theorem phaseExecuted_iff {runs : Fin n → Slot → XattropRun} : phaseExecuted t l runs store i = true ↔
      l.childUp i = true ∧ ∀ x ∈ (phaseOn t l runs store i).2, x.2 = .ok := by
  unfold phaseExecuted
  rw [Bool.and_eq_true, List.all_eq_true]
  simp only [beq_iff_eq]

theorem phaseStore_counters {runs : Fin n → Slot → XattropRun} (h : phaseExecuted t l runs store i = true) (p : Path) (j : Fin n)
    (k : Fin 3) : Xattrs.counters (phaseStore t l runs store i p) j k =
      Xattrs.counters (store i p) j k + (l.type.slots.countP fun s => t.path s = p) • l.pending j k := by
  obtain ⟨hup, hok⟩ := phaseExecuted_iff.mp h
  unfold phaseStore
  rw [if_pos hup]
  exact childXattrops_counters hok p j k

/-! ## The whole transaction -/

/-- The state the post-op starts in, from the one the operation is wound in. -/
def postOpLocal (env : Env n) (l : Local n) : Local n :=
  { afrWind fop env l with
    pending := markDownChildren (afrWind fop env l).pending (afrWind fop env l).childUp
      (afrWind fop env l).type }

theorem afrWind_type (env : Env n) (l : Local n) : (afrWind fop env l).type = l.type := (cbk_foldl fop env _ l).1

theorem resume_wound (priv : Priv n) (t : Transaction) (env : Env n) (store : Store n)
    (preDone : Fin n → Bool) (wound : Option (Local n)) (l : Local n) :
    (afrTransactionResume priv t env store preDone wound l).wound = wound := by
  unfold afrTransactionResume
  split <;> rfl

/-- The pre-op marks every child, and if the operation is wound after it the marks are turned round. -/
theorem preOp_wound {l0 : Local n} (henabled : priv.changelogEnabled l0.type = true) (hzero : l0.pending = fun _ _ => 0)
    (hwound : (afrChangelogPreOp priv t env store l0).wound = some l) :
    l.type = l0.type ∧ l.pending = marksOf l0.type (-1) ∧
    ∃ l1 : Local n, l1.type = l0.type ∧ l1.pending = marksOf l0.type 1 ∧ afrChangelogPreOp priv t env store l0 =
        ⟨phaseStore t (postOpLocal t.fop env l) env.postOp (phaseStore t l1 env.preOp store),
          phaseExecuted t l1 env.preOp store,
          phaseExecuted t (postOpLocal t.fop env l) env.postOp (phaseStore t l1 env.preOp store), some l⟩ := by
  unfold afrChangelogPreOp at hwound ⊢
  split at hwound
  · cases hwound
  next hup =>
    rw [if_neg hup]
    dsimp only at hwound ⊢
    split at hwound
    · rw [resume_wound] at hwound
      cases hwound
    next herr =>
      rw [if_neg herr]
      obtain ⟨htype, hpend⟩ := preOpCbk_foldl_keeps
        (env.preOrder (phaseReplies t { l0 with pending := markAllPending l0.pending l0.type }
          env.preOp store)) { l0 with pending := markAllPending l0.pending l0.type }
      have hmarks : markAllPending l0.pending l0.type = marksOf l0.type 1 := by
        rw [hzero, markAllPending_zero]
      dsimp only at htype hpend
      have henabled2 := henabled
      rw [← htype] at henabled2
      -- the change log is enabled, so the operation ends in the post-op
      simp only [windFop, afrTransactionResume, afrWind_type, if_pos henabled2] at hwound ⊢
      cases hwound
      refine ⟨htype, ?_, { l0 with pending := markAllPending l0.pending l0.type }, rfl, hmarks,
        by simp only [postOpLocal, afrWind_type]⟩
      dsimp only
      rw [htype, hpend, hmarks, markAllSuccess_marksOf]

theorem preOp_of_done (hpre : (afrTransaction priv t env store).preDone i = true) :
    ∃ l0 : Local n, l0.type = t.fop.type ∧ l0.pending = (fun _ _ => 0) ∧ priv.changelogEnabled l0.type = true ∧
      afrTransaction priv t env store = afrChangelogPreOp priv t env store l0 := by
  unfold afrTransaction at hpre ⊢
  cases hinit : localInit priv t.fop.type with
  | none =>
    rw [hinit] at hpre
    cases hpre
  | some l0 =>
    rw [hinit] at hpre
    obtain ⟨htype, -, hzero⟩ := localInit_some hinit
    dsimp only at hpre ⊢
    cases hlock : afrLock priv env l0 with
    | unlock l' =>
      rw [hlock] at hpre
      cases hpre
    | next l' =>
      rw [hlock] at hpre
      dsimp only at hpre ⊢
      have hkeeps := afrLock_keeps hlock
      by_cases henabled : priv.changelogEnabled l'.type = true
      · exact ⟨l', hkeeps.1.trans htype, hkeeps.2.trans hzero, henabled, if_pos henabled⟩
      -- without a change log no child executes a pre-op
      rw [if_neg henabled] at hpre
      unfold windFop afrTransactionResume at hpre
      dsimp only at hpre
      split at hpre <;> cases hpre

/-- The operation went to the child and succeeded there; `l` is the state it was wound in. -/
def Succeeded (env : Env n) (l : Local n) (j : Fin n) : Prop := l.childUp j = true ∧ env.fop j = .ok
deriving Decidable

/-- The post-op takes nothing back for the child: it is down, or its failure was reported. -/
def StaysMarked (env : Env n) (l : Local n) (j : Fin n) : Prop :=
  l.childUp j = false ∨ env.marked fop j = true
deriving Decidable

variable {fop : Fop}

theorem postOpLocal_pending (hmarks : l.pending = marksOf l.type (-1)) (j : Fin n) (k : Fin 3) :
    (postOpLocal fop env l).pending j k =
      if k = l.type.index then if StaysMarked fop env l j then 0 else -1 else 0 := by
  obtain ⟨htype, hup, hpend⟩ :=
    cbk_foldl fop env (env.fopOrder ((List.finRange n).filter fun i => l.childUp i)) l
  -- the callbacks come from the children that are up, in whatever order
  have hmem : j ∈ env.fopOrder ((List.finRange n).filter fun i => l.childUp i) ↔ l.childUp j = true := by
    rw [(env.fopOrder_perm _).mem_iff, List.mem_filter]
    simp
  have hwind : (afrWind fop env l).pending j k =
      if k = l.type.index ∧ l.childUp j = true ∧ env.marked fop j = true then 0
      else marksOf l.type (-1) j k := by
    have h := hpend j k
    simp only [hmem, hmarks] at h
    exact h
  have hup' : (afrWind fop env l).childUp = l.childUp := hup
  show markDownChildren (afrWind fop env l).pending (afrWind fop env l).childUp
    (afrWind fop env l).type j k = _
  unfold markDownChildren StaysMarked
  rw [hup', afrWind_type]
  by_cases hj : l.childUp j = true
  · rw [if_pos hj, hwind]
    by_cases hk : k = l.type.index <;> by_cases hm : env.marked fop j = true <;>
      simp [hk, hm, hj, marksOf]
  rw [if_neg hj, Function.update_apply, hwind]
  by_cases hk : k = l.type.index <;> simp [hk, hj, marksOf]

/-- **What a transaction leaves.** On a child that executed both phases, each `xattrop` on the file adds
    the one of the pre-op and what the post-op takes back; the counters of the other types stay. -/
theorem counters_after (hwound : (afrTransaction priv t env store).wound = some l)
    (hpre : (afrTransaction priv t env store).preDone i = true)
    (hpost : (afrTransaction priv t env store).postDone i = true) (p : Path) (j : Fin n) (k : Fin 3) :
    Xattrs.counters ((afrTransaction priv t env store).store i p) j k = Xattrs.counters (store i p) j k +
        if k = t.fop.type.index then (t.fop.type.slots.countP fun s => t.path s = p) •
            (if StaysMarked t.fop env l j then 1 else 0 : BitVec 32) else 0 := by
  obtain ⟨l0, htype0, hzero, henabled, heq0⟩ := preOp_of_done hpre
  rw [heq0] at hwound hpre hpost ⊢
  -- the pre-op marks every child with one, and the operation is wound with minus one for each
  obtain ⟨htype, hmarks, l1, htype1, hmarks1, heq⟩ := preOp_wound henabled hzero hwound
  rw [heq] at hpre hpost ⊢
  rw [htype0] at htype hmarks htype1 hmarks1
  rw [← htype] at hmarks
  have htype2 : (postOpLocal t.fop env l).type = t.fop.type := (afrWind_type t.fop env l).trans htype
  rw [phaseStore_counters hpost, phaseStore_counters hpre, postOpLocal_pending hmarks, htype2, htype1,
    htype, hmarks1, add_assoc, ← nsmul_add]
  congr 1
  unfold marksOf
  by_cases hk : k = t.fop.type.index
  · by_cases hs : StaysMarked t.fop env l j
    all_goals simp [hk, hs]
  · simp [hk]

/-! ## Conservation -/

/-- Both names of a rename are in one directory. -/
def Transaction.OneDirectory (t : Transaction) : Prop := t.fop = .rename ∧ t.parentLoc = t.newParentLoc
deriving Decidable

/-- A file of the transaction gets one `xattrop` in each phase, or two if both names are in it. -/
theorem countP_path (t : Transaction) {s : Slot} (hs : s ∈ t.fop.type.slots) :
    (t.fop.type.slots.countP fun s' => t.path s' = t.path s) = if t.OneDirectory then 2 else 1 := by
  obtain ⟨fop, loc, parentLoc, newParentLoc⟩ := t
  cases fop
  case rename =>
    by_cases hdir : parentLoc = newParentLoc
    · cases s <;> simp [Fop.type, TransactionType.slots, Transaction.path, Transaction.OneDirectory, hdir]
    cases s <;>
      simp [Fop.type, TransactionType.slots, Transaction.path, Transaction.OneDirectory, hdir, Ne.symm hdir]
  all_goals
    obtain rfl : s = .main := by simpa [Fop.type, TransactionType.slots] using hs
    simp [Fop.type, TransactionType.slots, Transaction.path, Transaction.OneDirectory]

/-- **The failure is recorded, once.** If the operation fails on the child, its callback reports the
    error; and a rename within one directory does not fail to reach the child, nor fail on it. -/
def Recorded (t : Transaction) (env : Env n) (l : Local n) (j : Fin n) : Prop :=
  (l.childUp j = true → ∀ e, env.fop j = .error e → t.fop.marks e = true) ∧ (t.OneDirectory → Succeeded env l j)

/-- A child on which the operation did not succeed stays marked exactly if its failure is reported. -/
theorem staysMarked_iff {j : Fin n} (h : ¬ Succeeded env l j) : StaysMarked fop env l j ↔
      (l.childUp j = true → ∀ e, env.fop j = .error e → fop.marks e = true) := by
  unfold StaysMarked Env.marked
  unfold Succeeded at h
  cases hup : l.childUp j with
  | false => simp
  | true =>
    cases hr : env.fop j with
    | ok => exact absurd ⟨hup, hr⟩ h
    | error e => simp

theorem not_staysMarked_of_succeeded {j : Fin n} (h : Succeeded env l j) : ¬ StaysMarked fop env l j := by
  unfold StaysMarked Env.marked
  rw [h.1, h.2]
  simp

/-- **Conservation of the change log.** For every number of children, every initial counters and every
    failure of the children: on a child that executed both phases of a transaction that wound its
    operation, the counter about child `j` is its old value if the operation succeeded on `j` and one more
    if not, exactly when the failure on `j` is recorded once. -/
theorem changelog_conserved (priv : Priv n) (t : Transaction) (env : Env n) (store : Store n)
    (l : Local n) (hwound : (afrTransaction priv t env store).wound = some l) (i : Fin n)
    (hpre : (afrTransaction priv t env store).preDone i = true)
    (hpost : (afrTransaction priv t env store).postDone i = true) (s : Slot) (hs : s ∈ t.fop.type.slots) (j : Fin n) :
    Xattrs.counters ((afrTransaction priv t env store).store i (t.path s)) j t.fop.type.index =
        Xattrs.counters (store i (t.path s)) j t.fop.type.index +
          (if Succeeded env l j then 0 else 1) ↔ Recorded t env l j := by
  rw [counters_after hwound hpre hpost, if_pos rfl, countP_path t hs, add_right_inj]
  unfold Recorded
  by_cases hsucc : Succeeded env l j
  · -- nothing is left of the mark, and nothing is expected
    rw [if_neg (not_staysMarked_of_succeeded hsucc), nsmul_zero, if_pos hsucc]
    have hok : ∀ e, env.fop j ≠ .error e := by
      intro e he
      rw [hsucc.2] at he
      cases he
    simp [hsucc, hok]
  rw [if_neg hsucc, ← staysMarked_iff hsucc]
  by_cases hmark : StaysMarked t.fop env l j
  · rw [if_pos hmark]
    by_cases hdir : t.OneDirectory
    · simp [hdir, hmark, hsucc]
    · simp [hdir, hmark]
  -- the mark was taken back although the operation did not succeed
  rw [if_neg hmark, nsmul_zero]
  simp [hmark]

/-- Two children, with the change log on for every type. -/
def twoChildren : Priv 2 :=
  { childUp := fun _ => true, dataChangeLog := true, metadataChangeLog := true, entryChangeLog := true,
    dataLockServerCount := 1, metadataLockServerCount := 0, entryLockServerCount := 1 }

/-- Everything goes well but the operation on the second child. -/
def secondFails (e : Errno) : Env 2 :=
  { lockLower := fun _ => .ok, lock := fun _ => .ok, preOp := fun _ _ => ⟨none, none⟩, preOrder := id,
    preOrder_perm := fun rs => List.Perm.refl rs, fop := fun j => if j = 1 then .error e else .ok,
    fopOrder := id, fopOrder_perm := fun is => List.Perm.refl is, postOp := fun _ _ => ⟨none, none⟩ }

/-- An operation on names of the root directory. -/
def inRoot (fop : Fop) : Transaction := ⟨fop, "/f", "/", "/"⟩

/-- The operation fails on the second child; no counter was set before. -/
def failedRun (fop : Fop) (e : Errno) : Outcome 2 :=
  afrTransaction twoChildren (inRoot fop) (secondFails e) fun _ _ _ => none

/-- The counter the first child then has about the second. -/
def counterLeft (fop : Fop) (e : Errno) : BitVec 32 :=
  Xattrs.counters ((failedRun fop e).store 0 ((inRoot fop).path .main)) 1 fop.type.index

/-- The state the metadata operations are wound in. -/
def metadataWound : Local 2 :=
  { type := .metadata, childUp := fun _ => true
    pending := markAllSuccess (markAllPending (fun _ _ => 0) .metadata) .metadata
    lockCount := 0, opRet := -1, opErrno := .euclean }

/-- A `setattr` that fails on the second child is recorded: the counter is one. -/
theorem changelog_conserved_setattr :
    (failedRun .setattr (.other 28)).wound = some metadataWound ∧ counterLeft .setattr (.other 28) = 1 := by
  refine ⟨rfl, ?_⟩
  exact (changelog_conserved twoChildren (inRoot .setattr) (secondFails (.other 28)) (fun _ _ _ => none)
    metadataWound rfl 0 (by decide +kernel) (by decide +kernel) .main (by decide) 1).mpr
      ⟨fun _ _ _ => rfl, fun h => absurd h.1 (by decide)⟩

/-- **A failed `setxattr` is forgotten.** It fails on the second child, and the first child, which executed
    both phases, has no record of it. Nor has it of an `rmdir` that finds the directory not empty; and a
    rename within one directory counts twice. -/
theorem failed_setxattr_forgotten : (failedRun .setxattr (.other 28)).wound = some metadataWound ∧
    (failedRun .setxattr (.other 28)).preDone 0 = true ∧ (failedRun .setxattr (.other 28)).postDone 0 = true ∧
    ¬ Succeeded (secondFails (.other 28)) metadataWound 1 ∧
    counterLeft .setxattr (.other 28) = 0 ∧ counterLeft .removexattr (.other 28) = 0 ∧
    counterLeft .rmdir .enotempty = 0 ∧ counterLeft .rename (.other 28) = 2 := by
  refine ⟨rfl, ?_, ?_, ?_, ?_, ?_, ?_, ?_⟩ <;> decide +kernel

/-! ## Operations that fail everywhere -/

/-- When the operation is never wound, the post-op adds the ones of the pre-op again. -/
theorem aborted_counters (hwound : (afrTransaction priv t env store).wound = none)
    (hpre : (afrTransaction priv t env store).preDone i = true)
    (hpost : (afrTransaction priv t env store).postDone i = true) (p : Path) :
    Xattrs.counters ((afrTransaction priv t env store).store i p) i t.fop.type.index =
      Xattrs.counters (store i p) i t.fop.type.index +
        (t.fop.type.slots.countP fun s => t.path s = p) • (2 : BitVec 32) := by
  obtain ⟨l0, htype, hzero, henabled, heq⟩ := preOp_of_done hpre
  rw [heq] at hwound hpre hpost ⊢
  unfold afrChangelogPreOp at hwound hpre hpost ⊢
  split at hwound
  next hdown =>
    rw [if_pos hdown] at hpre
    cases hpre
  next hup =>
    rw [if_neg hup] at hpre hpost ⊢
    dsimp only at hwound hpre hpost ⊢
    split at hwound
    next herr =>
      rw [if_pos herr] at hpre hpost ⊢
      obtain ⟨htype', hpend⟩ := preOpCbk_foldl_keeps
        (env.preOrder (phaseReplies t { l0 with pending := markAllPending l0.pending l0.type }
          env.preOp store)) { l0 with pending := markAllPending l0.pending l0.type }
      dsimp only at htype' hpend
      unfold afrTransactionResume at hpre hpost ⊢
      rw [htype', if_pos henabled] at hpre hpost ⊢
      have hself := (phaseExecuted_iff.mp hpost).1
      rw [phaseStore_counters hpost, phaseStore_counters hpre]
      dsimp only at hself ⊢
      unfold markDownChildren
      rw [if_pos hself, hpend, hzero, markAllPending_zero, htype, add_assoc, ← nsmul_add]
      simp [marksOf]
    · unfold windFop at hwound
      rw [resume_wound] at hwound
      cases hwound

/-- **Operations that fail everywhere.** One that is never wound always leaves counters changed; one that fails with
    the same error on every child does so unless the callback does not mark this error. -/
theorem failed_everywhere_iff (hpre : (afrTransaction priv t env store).preDone i = true)
    (hpost : (afrTransaction priv t env store).postDone i = true) :
    let kept := ∀ p j k, Xattrs.counters ((afrTransaction priv t env store).store i p) j k =
      Xattrs.counters (store i p) j k
    ((afrTransaction priv t env store).wound = none → ¬ kept) ∧
    ∀ l e, (afrTransaction priv t env store).wound = some l → (∀ j, l.childUp j = true) →
      (∀ j, env.fop j = .error e) → (kept ↔ t.fop.marks e = false) := by
  have hmain : Slot.main ∈ t.fop.type.slots := by cases t.fop <;> decide
  refine ⟨?_, ?_⟩
  · intro hwound hkept
    have hself := hkept (t.path .main) i t.fop.type.index
    rw [aborted_counters hwound hpre hpost, countP_path t hmain] at hself
    split at hself <;> simp at hself
  intro l e hwound hup hfail
  have hmark : ∀ j, StaysMarked t.fop env l j ↔ t.fop.marks e = true := by
    intro j
    simp [StaysMarked, Env.marked, hfail j, hup j]
  simp only [counters_after hwound hpre hpost, hmark]
  constructor
  · intro hkept
    have hself := hkept (t.path .main) i t.fop.type.index
    rw [if_pos rfl, countP_path t hmain] at hself
    by_contra hmarks
    rw [Bool.not_eq_false] at hmarks
    split at hself <;> simp at hself
  intro hmarks p j k
  simp [hmarks]

/-- The operation fails with the same error on both children. -/
def bothFail (e : Errno) : Env 2 := { secondFails e with fop := fun _ => .error e }

theorem setxattr_fails_everywhere :
    Xattrs.counters ((afrTransaction twoChildren (inRoot .setxattr) (bothFail (.other 28)) fun _ _ _ => none).store
      0 "/f") 1 1 = 0 :=
  ((failed_everywhere_iff (by decide +kernel) (by decide +kernel)).2 metadataWound (.other 28) rfl (fun _ => rfl)
    fun _ => rfl).mpr rfl "/f" 1 1

/-- The second child does not support `xattrop`. -/
def secondUnsupported : Env 2 :=
  { secondFails .enotsup with preOp := fun i _ => ⟨if i = 1 then some (0, .enotsup) else none, none⟩ }

/-- **Failures that accuse.** A `setattr` that fails alike on both children leaves both accused; and when the pre-op is
    not supported by the second child the operation is never wound, and the post-op adds the ones again. -/
theorem aborted_accuses :
    let failed := afrTransaction twoChildren (inRoot .setattr) (bothFail (.other 28)) fun _ _ _ => none
    let aborted := afrTransaction twoChildren (inRoot .setattr) secondUnsupported fun _ _ _ => none
    (failed.wound = some metadataWound ∧ failed.preDone 0 = true ∧ failed.postDone 0 = true ∧
      Xattrs.counters (failed.store 0 "/f") 1 1 = 1) ∧
    aborted.wound = none ∧ aborted.preDone 0 = true ∧ aborted.postDone 0 = true ∧
      Xattrs.counters (aborted.store 0 "/f") 0 1 = 2 := by
  refine ⟨⟨rfl, ?_, ?_, ?_⟩, rfl, ?_, ?_, ?_⟩ <;> decide +kernel

end GlusterFS.Afr
