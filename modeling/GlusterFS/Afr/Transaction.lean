import GlusterFS.Storage.Xattrop

/-!
# `Afr.Transaction` — a replicated operation that is not on an fd (`afr_transaction`)

The operation locks, adds one to the counters of every child on every child that is up (the pre-op), winds
the operation itself, and takes back what it added for the children it succeeded on (the post-op). A child
that fails a phase is out for the rest of the transaction. What the children answer, and in which order,
is the environment's choice (`Env`); everything else is computed as the source does.
-/

namespace GlusterFS.Afr

open GlusterFS.Storage

/-! ## Configuration and operations -/

/-- `afr_transaction_type`, without the flush, which needs an fd. -/
inductive TransactionType where
  | data
  | metadata
  | entry
  | entryRename
  deriving DecidableEq, Repr

/-- `afr_index_for_transaction_type`. -/
def TransactionType.index : TransactionType → Fin 3
  | .data => 0
  | .metadata => 1
  | .entry => 2
  | .entryRename => 2

/-- What a transaction reads of `afr_private_t`. -/
structure Priv (n : Nat) where
  childUp : Fin n → Bool
  dataChangeLog : Bool
  metadataChangeLog : Bool
  entryChangeLog : Bool
  dataLockServerCount : Nat
  metadataLockServerCount : Nat
  entryLockServerCount : Nat

/-- The smallest volume that replicates has two children. -/
instance twoChildren_neZero : NeZero 2 := ⟨by decide⟩

variable {n : Nat}

/-- `__changelog_enabled`; without an fd the pre-op and the post-op are needed exactly then. -/
def Priv.changelogEnabled (priv : Priv n) : TransactionType → Bool
  | .data => priv.dataChangeLog
  | .metadata => priv.metadataChangeLog
  | .entry => priv.entryChangeLog
  | .entryRename => priv.entryChangeLog

/-- `afr_lock_server_count`. -/
def Priv.lockServerCount (priv : Priv n) : TransactionType → Nat
  | .data => priv.dataLockServerCount
  | .metadata => priv.metadataLockServerCount
  | .entry => priv.entryLockServerCount
  | .entryRename => priv.entryLockServerCount

/-- The operations that run as a transaction without an fd. -/
inductive Fop where
  | truncate
  | setattr
  | setxattr
  | removexattr
  | create
  | mknod
  | mkdir
  | link
  | symlink
  | unlink
  | rmdir
  | rename
  deriving DecidableEq, Repr

/-- The type each operation passes to `afr_transaction`. -/
def Fop.type : Fop → TransactionType
  | .truncate => .data
  | .setattr => .metadata
  | .setxattr => .metadata
  | .removexattr => .metadata
  | .create => .entry
  | .mknod => .entry
  | .mkdir => .entry
  | .link => .entry
  | .symlink => .entry
  | .unlink => .entry
  | .rmdir => .entry
  | .rename => .entryRename

abbrev Path := String

/-- The `xattrop`s one child is sent in a phase: a rename has one more, on the new parent, which goes
    first. -/
inductive Slot where
  | newParent
  | main
  deriving DecidableEq, Repr

def TransactionType.slots : TransactionType → List Slot
  | .data => [.main]
  | .metadata => [.main]
  | .entry => [.main]
  | .entryRename => [.newParent, .main]

structure Transaction where
  fop : Fop
  loc : Path
  parentLoc : Path
  newParentLoc : Path

variable (t : Transaction)

/-- The file whose counters an `xattrop` changes. -/
def Transaction.path : Slot → Path
  | .newParent => t.newParentLoc
  | .main =>
    match t.fop.type with
    | .data => t.loc
    | .metadata => t.loc
    | .entry => t.parentLoc
    | .entryRename => t.parentLoc

/-! ## The pending matrix -/

/-- `local->pending`: what the next `xattrop` adds, for each child the counters are about. -/
abbrev Pending (n : Nat) := Fin n → Counters

variable (pending : Pending n)

def markAllPending (type : TransactionType) : Pending n := fun i => Function.update (pending i) type.index 1

def markAllSuccess (type : TransactionType) : Pending n := fun i => Function.update (pending i) type.index (-1)

def markChildDead (child : Fin n) (type : TransactionType) : Pending n :=
  Function.update pending child (Function.update (pending child) type.index 0)

def markDownChildren (childUp : Fin n → Bool) (type : TransactionType) : Pending n :=
  fun i => if childUp i then pending i else Function.update (pending i) type.index 0

/-- `afr_set_pending_dict`: a dictionary lists its newest member first. -/
def setPendingDict : List (Fin n × Counters) := ((List.finRange n).map fun i => (i, pending i)).reverse

/-! ## State and environment -/

/-- What a transaction keeps in `afr_local_t`. -/
structure Local (n : Nat) where
  type : TransactionType
  childUp : Fin n → Bool
  pending : Pending n
  lockCount : Nat
  opRet : Int
  opErrno : Errno

/-- `AFR_LOCAL_INIT` and `afr_transaction_local_init`: there is no transaction if every child is down. -/
def localInit (priv : Priv n) (type : TransactionType) : Option (Local n) :=
  if (List.finRange n).any priv.childUp then
    some { type := type, childUp := priv.childUp, pending := fun _ _ => 0, lockCount := 0, opRet := -1,
           opErrno := .euclean }
  else none

theorem localInit_some {priv : Priv n} {type : TransactionType} {l : Local n} (h : localInit priv type = some l) :
    l.type = type ∧ l.childUp = priv.childUp ∧ l.pending = fun _ _ => 0 := by
  unfold localInit at h
  split at h
  · cases h
    exact ⟨rfl, rfl, rfl⟩
  · cases h

/-- How an `xattrop` goes on a child: where `do_xattrop` fails, and the error seen if the answer is
    lost. -/
structure XattropRun where
  fail : Option (Nat × Errno)
  lost : Option Errno
  deriving DecidableEq, Repr

/-- What the callback sees of the answer `r`. -/
def XattropRun.seen (run : XattropRun) (r : Reply) : Reply :=
  match run.lost with
  | some e => .error e
  | none => r

/-- The answers of the children, and the orders the callbacks of the pre-op and of the operation run
    in. -/
structure Env (n : Nat) where
  lockLower : Fin n → Reply
  lock : Fin n → Reply
  preOp : Fin n → Slot → XattropRun
  preOrder : List (Fin n × Reply) → List (Fin n × Reply)
  preOrder_perm : ∀ rs, (preOrder rs).Perm rs
  fop : Fin n → Reply
  fopOrder : List (Fin n) → List (Fin n)
  fopOrder_perm : ∀ is, (fopOrder is).Perm is
  postOp : Fin n → Slot → XattropRun

/-! ## Locking -/

/-- Where the callback of a lock goes on: with the next child, or with `afr_unlock`. -/
inductive Locking (n : Nat) where
  | next (l : Local n)
  | unlock (l : Local n)

variable (l : Local n)

/-- A child that failed a phase counts as down from then on. -/
def Local.childFailed (i : Fin n) (e : Errno) : Local n :=
  { l with childUp := Function.update l.childUp i false, opErrno := e }

def afrLockCbk (i : Fin n) : Reply → Locking n
  | .ok => .next { l with lockCount := l.lockCount + 1 }
  | .error e =>
    if e = .enosys then .unlock { l.childFailed i e with opRet := -1 } else .next (l.childFailed i e)

/-- `afr_lock_lower_cbk`: a rename gives up at the first lower path it cannot lock. -/
def afrLockLowerCbk (env : Env n) (l : Local n) (i : Fin n) : Reply → Locking n
  | .ok => afrLockCbk l i (env.lock i)
  | .error e =>
    .unlock { l.childFailed i e with opRet := if e = .enosys then -1 else l.opRet }

/-- `afr_lock_rec`, over the children from `child_index` on; `next` is the end of the locking. -/
def afrLockRec (priv : Priv n) (env : Env n) : List (Fin n) → Local n → Locking n
  | [], l => if l.lockCount = 0 then .unlock { l with opRet := -1, opErrno := .eagain } else .next l
  | i :: rest, l =>
    if l.childUp i = false then afrLockRec priv env rest l
    else if l.lockCount = priv.lockServerCount l.type then .next l
    else
      match if l.type = .entryRename then afrLockLowerCbk env l i (env.lockLower i)
        else afrLockCbk l i (env.lock i) with
      | .unlock l' => .unlock l'
      | .next l' => afrLockRec priv env rest l'

/-- `afr_lock`, which is skipped when no lock server is configured. -/
def afrLock (priv : Priv n) (env : Env n) (l : Local n) : Locking n :=
  if priv.lockServerCount l.type = 0 then .next l else afrLockRec priv env (List.finRange n) l

/-! ## The change log -/

/-- The counters on one child: for each file, about each child. -/
abbrev ChildStore (n : Nat) := Path → Xattrs (Fin n)

/-- The counters on every child. -/
abbrev Store (n : Nat) := Fin n → ChildStore n

/-- One child executes the `xattrop`s it is sent; the results are the ones it gets itself. -/
def childXattrops (path : Slot → Path) (dict : List (Fin n × Counters)) (runs : Slot → XattropRun) :
    List Slot → ChildStore n → ChildStore n × List (Slot × Reply)
  | [], st => (st, [])
  | s :: rest, st =>
    let (xs, r) := doXattrop dict (runs s).fail (st (path s))
    let (st', rs) := childXattrops path dict runs rest (Function.update st (path s) xs)
    (st', (s, r) :: rs)

variable (runs : Fin n → Slot → XattropRun)

variable (store : Store n)

/-- What one phase does on child `i`. -/
def phaseOn (i : Fin n) : ChildStore n × List (Slot × Reply) :=
  childXattrops t.path (setPendingDict l.pending) (runs i) l.type.slots (store i)

/-- The counters after a phase: a child that is down is not sent anything. -/
def phaseStore : Store n := fun i => if l.childUp i then (phaseOn t l runs store i).1 else store i

/-- The child was sent its `xattrop`s and executed all of them. -/
def phaseExecuted (i : Fin n) : Bool := l.childUp i && (phaseOn t l runs store i).2.all fun x => x.2 == .ok

/-- The answers the callbacks of a phase get, child by child. -/
def phaseReplies : List (Fin n × Reply) :=
  ((List.finRange n).filter fun i => l.childUp i).flatMap fun i =>
    (phaseOn t l runs store i).2.map fun x => (i, (runs i x.1).seen x.2)

/-- `afr_changelog_pre_op_cbk`, without its last part. -/
def preOpCbk (x : Fin n × Reply) : Local n :=
  match x.2 with
  | .ok => l
  | .error e => { l.childFailed x.1 e with opRet := if e = .enotsup then -1 else l.opRet }

/-! ## The operation -/

/-- `afr_transaction_fop_failed`, for an operation that is not a write. -/
def afrTransactionFopFailed (i : Fin n) : Local n :=
  { l with pending := markChildDead l.pending i l.type }

/-- What the callbacks of the operations share: `marks` says which errors they report with
    `afr_transaction_fop_failed`. -/
def windCbk (marks : Errno → Bool) (l : Local n) (i : Fin n) : Reply → Local n
  | .ok => l
  | .error e => if marks e then afrTransactionFopFailed l i else l

def afrTruncateWindCbk : Local n → Fin n → Reply → Local n := windCbk fun _ => true
def afrSetattrWindCbk : Local n → Fin n → Reply → Local n := windCbk fun _ => true
def afrCreateWindCbk : Local n → Fin n → Reply → Local n := windCbk fun _ => true
def afrMknodWindCbk : Local n → Fin n → Reply → Local n := windCbk fun _ => true
def afrMkdirWindCbk : Local n → Fin n → Reply → Local n := windCbk fun _ => true
def afrLinkWindCbk : Local n → Fin n → Reply → Local n := windCbk fun _ => true
def afrSymlinkWindCbk : Local n → Fin n → Reply → Local n := windCbk fun _ => true
def afrUnlinkWindCbk : Local n → Fin n → Reply → Local n := windCbk fun _ => true
def afrRenameWindCbk : Local n → Fin n → Reply → Local n := windCbk fun _ => true

/-- A directory that is not empty is not taken for a failure of the child. -/
def afrRmdirWindCbk : Local n → Fin n → Reply → Local n := windCbk fun e => e != .enotempty

/-- This callback and the next never report a failure. -/
def afrSetxattrWindCbk : Local n → Fin n → Reply → Local n := fun l _ _ => l
def afrRemovexattrWindCbk : Local n → Fin n → Reply → Local n := fun l _ _ => l

def Fop.cbk : Fop → Local n → Fin n → Reply → Local n
  | .truncate => afrTruncateWindCbk
  | .setattr => afrSetattrWindCbk
  | .setxattr => afrSetxattrWindCbk
  | .removexattr => afrRemovexattrWindCbk
  | .create => afrCreateWindCbk
  | .mknod => afrMknodWindCbk
  | .mkdir => afrMkdirWindCbk
  | .link => afrLinkWindCbk
  | .symlink => afrSymlinkWindCbk
  | .unlink => afrUnlinkWindCbk
  | .rmdir => afrRmdirWindCbk
  | .rename => afrRenameWindCbk

/-- The `wind` functions: the operation goes to every child that is up. -/
def afrWind (fop : Fop) (env : Env n) (l : Local n) : Local n :=
  (env.fopOrder ((List.finRange n).filter fun i => l.childUp i)).foldl
    (fun l i => fop.cbk l i (env.fop i)) l

/-! ## The transaction -/

/-- What a transaction leaves: the counters, the children that executed the pre-op and the post-op, and
    the state in which the operation was wound, if it was. -/
structure Outcome (n : Nat) where
  store : Store n
  preDone : Fin n → Bool
  postDone : Fin n → Bool
  wound : Option (Local n)

/-- `afr_transaction_resume`, with `afr_changelog_post_op`. -/
def afrTransactionResume (priv : Priv n) (t : Transaction) (env : Env n) (store : Store n)
    (preDone : Fin n → Bool) (wound : Option (Local n)) (l : Local n) : Outcome n :=
  if priv.changelogEnabled l.type then
    let l' := { l with pending := markDownChildren l.pending l.childUp l.type }
    ⟨phaseStore t l' env.postOp store, preDone, phaseExecuted t l' env.postOp store, wound⟩
  else ⟨store, preDone, fun _ => false, wound⟩

def windFop (priv : Priv n) (t : Transaction) (env : Env n) (store : Store n) (preDone : Fin n → Bool)
    (l : Local n) : Outcome n :=
  let l₁ := { l with pending := markAllSuccess l.pending l.type }
  afrTransactionResume priv t env store preDone (some l₁) (afrWind t.fop env l₁)

/-- `afr_changelog_pre_op` with the last part of its callback. With no child up there is nothing to do;
    and if the last error was `ENOTSUP` the operation is passed over, but the post-op is not. -/
def afrChangelogPreOp (priv : Priv n) (t : Transaction) (env : Env n) (store : Store n) (l : Local n) : Outcome n :=
  if (List.finRange n).any l.childUp = false then ⟨store, fun _ => false, fun _ => false, none⟩
  else
    let l₁ := { l with pending := markAllPending l.pending l.type }
    let store₁ := phaseStore t l₁ env.preOp store
    let preDone := phaseExecuted t l₁ env.preOp store
    let l₂ := (env.preOrder (phaseReplies t l₁ env.preOp store)).foldl preOpCbk l₁
    if l₂.opRet = -1 ∧ l₂.opErrno = .enotsup then
      afrTransactionResume priv t env store₁ preDone none l₂
    else windFop priv t env store₁ preDone l₂

def afrTransaction (priv : Priv n) (t : Transaction) (env : Env n) (store : Store n) : Outcome n :=
  match localInit priv t.fop.type with
  | none => ⟨store, fun _ => false, fun _ => false, none⟩
  | some l =>
    match afrLock priv env l with
    | .unlock _ => ⟨store, fun _ => false, fun _ => false, none⟩
    | .next l =>
      if priv.changelogEnabled l.type then afrChangelogPreOp priv t env store l
      else windFop priv t env store (fun _ => false) l

end GlusterFS.Afr
