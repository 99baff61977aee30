import GlusterFS.Afr.Transaction

/-!
# `Afr.FdTransaction` — writes on an fd, and its flush

On an fd the change log is kept open: only the first `writev` or `ftruncate` does a pre-op, none of them
does a post-op, and the flush does the post-op for all. What has to survive in between is in the context of
the fd (`FdCtx`): the children whose pre-op is done, and the children on which a write failed. A write that
finds that a child went down or came up since the last one flushes first (`afr_up_down_flush`).

A flush has its own transaction type in the source; it has the index and the lock servers of a data
transaction, so `Local.type` is `data` for all operations here.
-/

namespace GlusterFS.Afr

open GlusterFS.Storage

variable {n : Nat}

/-! ## The context of an fd -/

/-- `afr_fd_ctx_t`, without the flags the fd is opened with. -/
structure FdCtx (n : Nat) where
  preOpDone : Fin n → Bool
  openedOn : Fin n → Bool
  childFailed : Fin n → Bool
  upCount : Nat
  downCount : Nat

/-- The counters of the file behind the fd, on every child. -/
abbrev FileStore (n : Nat) := Fin n → Xattrs (Fin n)

/-- The counter child `i` has about child `j`, for the data. -/
def FileStore.counter (store : FileStore n) (i j : Fin n) : BitVec 32 := (store i).counters j TransactionType.data.index

/-- `local->op`, where a flush that comes before a write is told apart from the one the user asks for. -/
inductive FdOp where
  | write
  | ftruncate
  | flush
  | upDownFlush
  deriving DecidableEq, Repr

/-- `__is_first_write_on_fd`, and `__no_pre_op_done`. -/
def isFirstWriteOnFd (ctx : FdCtx n) : Bool := (List.finRange n).all fun i => !ctx.preOpDone i

def markFopFailedOnFd (ctx : FdCtx n) (i : Fin n) : FdCtx n :=
  { ctx with childFailed := Function.update ctx.childFailed i true }

def markFailedChildren (pending : Pending n) (childFailed : Fin n → Bool) (type : TransactionType) : Pending n :=
  fun i => if childFailed i then Function.update (pending i) type.index 0 else pending i

def markPreOpDoneOnFd (op : FdOp) (ctx : FdCtx n) (i : Fin n) : FdCtx n :=
  match op with
  | .write => { ctx with preOpDone := Function.update ctx.preOpDone i true }
  | .ftruncate => { ctx with preOpDone := Function.update ctx.preOpDone i true }
  | .flush => ctx
  | .upDownFlush => ctx

def changelogNeededPreOp (priv : Priv n) (op : FdOp) (ctx : FdCtx n) : Bool :=
  match op with
  | .write => priv.dataChangeLog && isFirstWriteOnFd ctx
  | .ftruncate => priv.dataChangeLog && isFirstWriteOnFd ctx
  | .flush => false
  | .upDownFlush => false

/-- `__changelog_needed_post_op`: the change log of a flush is always enabled. -/
def changelogNeededPostOp : FdOp → Bool
  | .write => false
  | .ftruncate => false
  | .flush => true
  | .upDownFlush => true

/-! ## Locking -/

/-- `afr_lock_rec` on an fd: children that do not have the fd open are passed over too. -/
def afrLockRecFd (priv : Priv n) (env : Env n) (openedOn : Fin n → Bool) : List (Fin n) → Local n → Locking n
  | [], l => if l.lockCount = 0 then .unlock { l with opRet := -1, opErrno := .eagain } else .next l
  | i :: rest, l =>
    if l.childUp i = false ∨ openedOn i = false then afrLockRecFd priv env openedOn rest l
    else if l.lockCount = priv.lockServerCount l.type then .next l
    else
      match afrLockCbk l i (env.lock i) with
      | .unlock l' => .unlock l'
      | .next l' => afrLockRecFd priv env openedOn rest l'

/-- `afr_lock` on an fd. -/
def afrLockFd (priv : Priv n) (env : Env n) (openedOn : Fin n → Bool) (l : Local n) : Locking n :=
  if priv.lockServerCount l.type = 0 then .next l
  else afrLockRecFd priv env openedOn (List.finRange n) l

/-! ## The change log -/

/-- One child executes its `fxattrop`. -/
def fxattropOn (pending : Pending n) (runs : Fin n → Slot → XattropRun) (store : FileStore n) (i : Fin n) :
    Xattrs (Fin n) × Reply :=
  doXattrop (setPendingDict pending) (runs i .main).fail (store i)

variable (sent : Fin n → Bool)

/-- The counters after the children in `sent` got theirs. -/
def fxattropStore (pending : Pending n) (runs : Fin n → Slot → XattropRun) (store : FileStore n) : FileStore n :=
  fun i => if sent i then (fxattropOn pending runs store i).1 else store i

def fxattropReplies (pending : Pending n) (runs : Fin n → Slot → XattropRun)
    (store : FileStore n) : List (Fin n × Reply) :=
  ((List.finRange n).filter sent).map fun i => (i, (runs i .main).seen (fxattropOn pending runs store i).2)

/-- The child got its `fxattrop` and executed it. -/
def fxattropExecuted (pending : Pending n) (runs : Fin n → Slot → XattropRun)
    (store : FileStore n) (i : Fin n) : Bool := sent i && (fxattropOn pending runs store i).2 == .ok

/-- `afr_changelog_pre_op_cbk` on an fd, without its last part. -/
def preOpCbkFd (op : FdOp) (s : Local n × FdCtx n) (x : Fin n × Reply) : Local n × FdCtx n :=
  match x.2 with
  | .ok => (s.1, markPreOpDoneOnFd op s.2 x.1)
  | .error _ => (preOpCbk s.1 x, s.2)

/-! ## The operation -/

/-- `afr_transaction_fop_failed`: the failure of a write is kept in the context of the fd, any other one in
    the transaction itself. -/
def afrTransactionFopFailedOnFd (op : FdOp) (s : Local n × FdCtx n) (i : Fin n) : Local n × FdCtx n :=
  match op with
  | .write => (s.1, markFopFailedOnFd s.2 i)
  | .ftruncate => (afrTransactionFopFailed s.1 i, s.2)
  | .flush => (afrTransactionFopFailed s.1 i, s.2)
  | .upDownFlush => (afrTransactionFopFailed s.1 i, s.2)

/-- `afr_writev_wind_cbk`, `afr_ftruncate_wind_cbk` and `afr_flush_wind_cbk`. -/
def windCbkFd (op : FdOp) (s : Local n × FdCtx n) (i : Fin n) : Reply → Local n × FdCtx n
  | .ok => s
  | .error _ => afrTransactionFopFailedOnFd op s i

/-- `afr_writev_wind`, `afr_ftruncate_wind` and `afr_flush_wind`. -/
def afrWindFd (op : FdOp) (env : Env n) (s : Local n × FdCtx n) : Local n × FdCtx n :=
  (env.fopOrder ((List.finRange n).filter fun i => s.1.childUp i)).foldl
    (fun s i => windCbkFd op s i (env.fop i)) s

/-! ## The transaction -/

/-- What a transaction on an fd leaves. `wound` is the state in which the operation was wound, if it was;
    `postSent` and `postDone` are the children that got and that executed the post-op. -/
structure FdOutcome (n : Nat) where
  loc : Local n
  ctx : FdCtx n
  store : FileStore n
  wound : Option (Local n)
  postSent : Fin n → Bool
  postDone : Fin n → Bool

/-- The transaction ends without a post-op. -/
def FdOutcome.noPostOp (l : Local n) (ctx : FdCtx n) (store : FileStore n) (wound : Option (Local n)) : FdOutcome n :=
  ⟨l, ctx, store, wound, fun _ => false, fun _ => false⟩

/-- `afr_changelog_post_op` of a flush. It goes to the children that are up and have their pre-op done, and
    takes the flag from each child that is up (`__if_fd_pre_op_done`). -/
def fdPostOp (env : Env n) (ctx : FdCtx n) (store : FileStore n) (wound : Option (Local n)) (l : Local n) :
    FdOutcome n :=
  let pending := markFailedChildren (markDownChildren l.pending l.childUp l.type) ctx.childFailed l.type
  let sent := fun i => l.childUp i && ctx.preOpDone i
  { loc := { l with pending := pending }
    ctx := { ctx with preOpDone := fun i => ctx.preOpDone i && !l.childUp i }
    store := fxattropStore sent pending env.postOp store
    wound := wound
    postSent := sent
    postDone := fxattropExecuted sent pending env.postOp store }

/-- `afr_transaction_resume`. -/
def fdResume (op : FdOp) (env : Env n) (ctx : FdCtx n) (store : FileStore n) (wound : Option (Local n))
    (l : Local n) : FdOutcome n :=
  if changelogNeededPostOp op then fdPostOp env ctx store wound l else .noPostOp l ctx store wound

/-- Winding the operation, and what comes after it; `afr_up_down_flush_wind` resumes at once. -/
def fdWindFop (op : FdOp) (env : Env n) (ctx : FdCtx n) (store : FileStore n) (l : Local n) : FdOutcome n :=
  let l₁ := { l with pending := markAllSuccess l.pending l.type }
  if op = .upDownFlush then fdResume op env ctx store none l₁
  else
    let s := afrWindFd op env (l₁, ctx)
    fdResume op env s.2 store (some l₁) s.1

/-- `afr_changelog_pre_op` on an fd, with the last part of its callback. -/
def fdPreOp (op : FdOp) (env : Env n) (ctx : FdCtx n) (store : FileStore n) (l : Local n) : FdOutcome n :=
  if (List.finRange n).any l.childUp = false then .noPostOp l ctx store none
  else
    let l₁ := { l with pending := markAllPending l.pending l.type }
    let store₁ := fxattropStore l.childUp l₁.pending env.preOp store
    let s := (env.preOrder (fxattropReplies l.childUp l₁.pending env.preOp store)).foldl
      (preOpCbkFd op) (l₁, ctx)
    if s.1.opRet = -1 ∧ s.1.opErrno = .enotsup then fdResume op env s.2 store₁ none s.1
    else fdWindFop op env s.2 store₁ s.1

/-- `afr_transaction` on an fd. The state may come from a flush that went before: then the children it lost
    are still out, and its locks are still counted. -/
def fdTransaction (priv : Priv n) (op : FdOp) (env : Env n) (l : Local n) (ctx : FdCtx n)
    (store : FileStore n) : FdOutcome n :=
  match afrLockFd priv env ctx.openedOn { l with pending := fun _ _ => 0 } with
  | .unlock l' => .noPostOp l' ctx store none
  | .next l' =>
    if changelogNeededPreOp priv op ctx then fdPreOp op env ctx store l'
    else fdWindFop op env ctx store l'

/-- `afr_flush`: with no pre-op done it is passed on as it is. `none` if every child is down. -/
def afrFlush (priv : Priv n) (env : Env n) (ctx : FdCtx n) (store : FileStore n) : Option (FdOutcome n) :=
  (localInit priv .data).map fun l =>
    if isFirstWriteOnFd ctx then .noPostOp l ctx store none else fdTransaction priv .flush env l ctx store

/-! ## Writes, and the flush before them -/

/-- The state AFR and the file are in. `log` says of each operation that was wound on the fd on which
    children it succeeded; the source keeps no such record. -/
structure FdState (n : Nat) where
  priv : Priv n
  upCount : Nat
  downCount : Nat
  ctx : FdCtx n
  store : FileStore n
  log : List (Fin n → Bool)

/-- What the self-heal of a `AFR_CHILD_UP_FLUSH` does to the counters, and the children on which the fd can
    be opened again. -/
structure Heal (n : Nat) where
  store : FileStore n → FileStore n
  opens : Fin n → Bool

variable (s : FdState n)

/-- `afr_up_down_flush`, with its `done`. The self-heal of a child that came up runs in the callback of the
    post-op, so only if there was one. -/
def afrUpDownFlush (heal : Option (Heal n)) (env : Env n) (l : Local n) : FdOutcome n :=
  let o := fdTransaction s.priv .upDownFlush env l s.ctx s.store
  let o₁ :=
    match heal with
    | none => o
    | some heal =>
      if (List.finRange n).any o.postSent then
        { o with
          store := heal.store o.store
          ctx := { o.ctx with openedOn := fun i => o.ctx.openedOn i || (o.loc.childUp i && heal.opens i) } }
      else o
  { o₁ with
    ctx := { o₁.ctx with
      downCount := s.downCount, upCount := s.upCount
      preOpDone := fun i => o₁.ctx.preOpDone i && !o₁.loc.childUp i } }

/-- The operation itself, from the state its preparations left. -/
def doFdOp (op : FdOp) (env : Env n) (l : Local n) (ctx : FdCtx n) (store : FileStore n) : FdState n :=
  let o := fdTransaction s.priv op env l ctx store
  { s with
    ctx := o.ctx, store := o.store
    log := s.log ++ (o.wound.map fun w i => w.childUp i && env.fop i == .ok).toList }

/-- `afr_do_writev` or `afr_do_ftruncate` as the callback of a flush. -/
def doFdOpAfter (op : FdOp) (env : Env n) (o : FdOutcome n) : FdState n :=
  doFdOp s op env o.loc o.ctx o.store

def afrWritev (env flushEnv : Env n) (heal : Heal n) : FdState n :=
  match localInit s.priv .data with
  | none => s
  | some l =>
    if s.ctx.downCount < s.downCount then doFdOpAfter s .write env (afrUpDownFlush s none flushEnv l)
    else if s.ctx.upCount < s.upCount then
      doFdOpAfter s .write env (afrUpDownFlush s (some heal) flushEnv l)
    else doFdOp s .write env l s.ctx s.store

/-- `afr_ftruncate`, which does not look whether a child came up. -/
def afrFtruncate (env flushEnv : Env n) : FdState n :=
  match localInit s.priv .data with
  | none => s
  | some l =>
    if s.ctx.downCount < s.downCount then doFdOpAfter s .ftruncate env (afrUpDownFlush s none flushEnv l)
    else doFdOp s .ftruncate env l s.ctx s.store

/-- What happens on an fd: `notify` tells of a child, or the user asks for an operation. -/
inductive FdAction (n : Nat) where
  | childUp (i : Fin n)
  | childDown (i : Fin n)
  | writev (env flushEnv : Env n) (heal : Heal n)
  | ftruncate (env flushEnv : Env n)

def fdNext : FdAction n → FdState n
  | .childUp i =>
    { s with priv := { s.priv with childUp := Function.update s.priv.childUp i true }
             upCount := s.upCount + 1 }
  | .childDown i =>
    { s with priv := { s.priv with childUp := Function.update s.priv.childUp i false }
             downCount := s.downCount + 1 }
  | .writev env flushEnv heal => afrWritev s env flushEnv heal
  | .ftruncate env flushEnv => afrFtruncate s env flushEnv

def fdStep (a : FdAction n) : Except Empty (FdState n) := .ok (fdNext s a)

/-- `afr_fd_ctx_set` has just made the context; where the fd is open is decided by its open. -/
structure FdState.Fresh (s : FdState n) : Prop where
  preOpDone : ∀ i, s.ctx.preOpDone i = false
  childFailed : ∀ i, s.ctx.childFailed i = false
  upCount : s.ctx.upCount = s.upCount
  downCount : s.ctx.downCount = s.downCount
  log : s.log = []

end GlusterFS.Afr
