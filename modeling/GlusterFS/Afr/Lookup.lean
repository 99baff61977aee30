import GlusterFS.Afr.SelfHeal.Sources

/-!
# `Afr.Lookup` — looking a name up on all children (`afr_lookup`)

The lookup goes to every child that is up. The callback counts successes and `ENOENT`s, notes whether something is
to be healed, and keeps the extended attributes of two children only: of the first one that answers with
success, and of the one the lookup expects to read from. When all have answered, `afr_lookup_done` starts a
self-heal, or, if somebody has the file open or locked, chooses the child to read from by the
attributes that were kept.

The inode numbers, the parent's `struct stat` and the attributes of the answer itself are left out.
-/

namespace GlusterFS.Afr

open GlusterFS.Storage

variable {n : Nat}

/-! ## Answers -/

/-- `st_mode & S_IFMT`. -/
inductive FileType where
  | reg
  | dir
  | lnk
  | sock
  | blk
  | chr
  | fifo
  | other (bits : Nat)
  deriving DecidableEq, Repr

/-- What is compared of a `struct stat`. -/
structure LookupBuf where
  type : FileType
  perm : Nat
  uid : Nat
  gid : Nat
  size : Nat
  deriving DecidableEq, Repr

/-- The `op_errno` of a lookup, as far as they are told apart. -/
inductive LookupErrno where
  | enoent
  | estale
  | enotconn
  | other (code : Nat)
  deriving DecidableEq, Repr

/-- The answer of one child. A count that is missing counts as zero. -/
inductive LookupReply (n : Nat) where
  | ok (buf : LookupBuf) (xattr : Xattrs (Fin n)) (openFdCount inodelkCount entrylkCount : BitVec 32)
  | error (e : LookupErrno)

/-- What is known before the lookup: `priv->read_child`, the child in `local->read_child_index`, whether the inode has
    a context already, and the split-brain bit and the type in the inode. -/
structure LookupParams (n : Nat) where
  readChild : Option (Fin n)
  readChildIndex : Fin n
  isRevalidate : Bool
  splitBrain : Bool
  inodeIsReg : Bool

/-- What the callbacks share. `readChild` is the read child in the context of the inode. -/
structure LookupLocal (n : Nat) where
  opRet : Int
  opErrno : LookupErrno
  successCount : Nat
  enoentCount : Nat
  needMetadata : Bool
  needData : Bool
  needEntry : Bool
  govinda : Bool
  openFdCount : BitVec 32
  inodelkCount : BitVec 32
  entrylkCount : BitVec 32
  buf : LookupBuf
  xattrs : Fin n → Option (Xattrs (Fin n))
  readChild : Option (Fin n)

/-- `afr_lookup` before the children are asked; `readChild` is what a revalidate finds in the inode. -/
def LookupLocal.init (readChild : Option (Fin n)) : LookupLocal n :=
  { opRet := -1, opErrno := .enotconn, successCount := 0, enoentCount := 0, needMetadata := false,
    needData := false, needEntry := false, govinda := false, openFdCount := 0, inodelkCount := 0, entrylkCount := 0,
    buf := ⟨.other 0, 0, 0, 0, 0⟩,
    xattrs := fun _ => none, readChild := readChild }

/-! ## Callbacks -/

/-- `afr_sh_has_metadata_pending` and its two siblings: a key that is missing ends the search. -/
def afrShHasPending (xattr : Xattrs (Fin n)) (type : TransactionType) : List (Fin n) → Bool
  | [] => false
  | i :: rest =>
    match xattr i with
    | none => false
    | some counters => if counters type.index ≠ 0 then true else afrShHasPending xattr type rest

def afrLookupCollectXattr (l : LookupLocal n) (xattr : Xattrs (Fin n))
    (openFdCount inodelkCount entrylkCount : BitVec 32) : LookupLocal n :=
  { l with
    needMetadata := l.needMetadata || afrShHasPending xattr .metadata (List.finRange n)
    needEntry := l.needEntry || afrShHasPending xattr .entry (List.finRange n)
    needData := l.needData || afrShHasPending xattr .data (List.finRange n)
    openFdCount := l.openFdCount + openFdCount
    inodelkCount := l.inodelkCount + inodelkCount
    entrylkCount := l.entrylkCount + entrylkCount }

def afrLookupSelfHealCheck (l : LookupLocal n) (buf lookupBuf : LookupBuf) : LookupLocal n :=
  { l with
    govinda := l.govinda || buf.type != lookupBuf.type
    needMetadata := l.needMetadata || (buf.type != lookupBuf.type || buf.perm != lookupBuf.perm) ||
      (buf.uid != lookupBuf.uid || buf.gid != lookupBuf.gid)
    needData := l.needData || (buf.size != lookupBuf.size && buf.type == .reg) }

def errorMoreImportant (oldErrno newErrno : LookupErrno) : Bool :=
  if oldErrno = .estale then false
  else if oldErrno = .enoent ∧ newErrno ≠ .estale then false
  else true

variable (p : LookupParams n)

/-- The attributes and the `struct stat` of the child are kept, and it becomes the read child unless the
    configuration names one. -/
def keepReply (l : LookupLocal n) (i : Fin n) (buf : LookupBuf) (xattr : Xattrs (Fin n)) : LookupLocal n :=
  { l with
    xattrs := Function.update l.xattrs i (some xattr)
    buf := buf
    readChild := some (p.readChild.getD i) }

/-- `afr_fresh_lookup_cbk` and `afr_revalidate_lookup_cbk`, which do the same with what is modelled. -/
def lookupCbk (l : LookupLocal n) (i : Fin n) : LookupReply n → LookupLocal n
  | .error e =>
    let opErrno := if errorMoreImportant l.opErrno e then e else l.opErrno
    { l with
      enoentCount := if e = .enoent then l.enoentCount + 1 else l.enoentCount
      opErrno := opErrno
      opRet := if opErrno = .estale then -1 else l.opRet }
  | .ok buf xattr openFdCount inodelkCount entrylkCount =>
    let l := afrLookupCollectXattr l xattr openFdCount inodelkCount entrylkCount
    let l :=
      if l.successCount = 0 then
        keepReply p { l with opRet := if l.opErrno = .estale then l.opRet else 0 } i buf xattr
      else
        let l := afrLookupSelfHealCheck l buf l.buf
        if i = p.readChildIndex then keepReply p l i buf xattr else l
    { l with successCount := l.successCount + 1 }

/-! ## The end of the lookup -/

def afrShSelectSource (sources : Fin n → Bool) : Option (Fin n) := (List.finRange n).find? sources

theorem afrShSelectSource_marked {sources : Fin n → Bool} {c : Fin n} (h : afrShSelectSource sources = some c) :
    sources c = true := List.find?_some h

theorem afrShSelectSource_none {sources : Fin n → Bool} (h : afrShSelectSource sources = none) (c : Fin n) :
    sources c = false := by
  simpa using List.find?_eq_none.mp h c (List.mem_finRange c)

variable (xattrs : Fin n → Option (Xattrs (Fin n)))

/-- The dictionaries handed to `afr_sh_build_pending_matrix`: one that was not kept is `NULL`, and has no key. -/
def keptXattrs (i : Fin n) : Xattrs (Fin n) := (xattrs i).getD fun _ => none

/-- The sources `afr_sh_mark_sources` marks for the data counters in `xattr`; `sh->buf` is `NULL` here. -/
def dataSources (xattr : Fin n → Xattrs (Fin n)) : Fin n → Bool :=
  (afrShMarkSources none (afrShBuildPendingMatrix xattr .data) .data).sources

def afrSelfHealGetSource : Option (Fin n) := afrShSelectSource (dataSources (keptXattrs xattrs))

/-- How a lookup ends: without anything to heal, with a self-heal that is left to somebody else, or with one. -/
inductive LookupEnd where
  | unwind
  | skipped
  | selfHeal
  deriving DecidableEq, Repr

/-- The three flags when all have answered. -/
def lookupNeeds (l : LookupLocal n) : LookupLocal n :=
  let l :=
    if l.successCount ≠ 0 ∧ l.enoentCount ≠ 0 then
      { l with needMetadata := true, needData := true, needEntry := true }
    else l
  if l.successCount ≠ 0 ∧ p.splitBrain = true then { l with needData := true } else l

def afrLookupDone (l : LookupLocal n) : LookupEnd × LookupLocal n :=
  let l := lookupNeeds p l
  if (l.needMetadata || l.needData || l.needEntry) && (!p.isRevalidate || l.opRet != -1) then
    if l.openFdCount ≠ 0 ∨ l.inodelkCount ≠ 0 ∨ l.entrylkCount ≠ 0 then
      -- a best effort to set the read child
      if p.inodeIsReg then
        match afrSelfHealGetSource l.xattrs with
        | none => (.skipped, l)
        | some source => (.skipped, { l with readChild := some source })
      else (.skipped, l)
    else (.selfHeal, l)
  else (.unwind, l)

variable (replies : Fin n → LookupReply n)

def lookupCbks (order : List (Fin n)) (l : LookupLocal n) : LookupLocal n :=
  order.foldl (fun l i => lookupCbk p l i (replies i)) l

/-- `afr_lookup`; `readChild` is the read child that a revalidate finds in the inode. -/
def afrLookup (order : List (Fin n)) (readChild : Option (Fin n)) : LookupEnd × LookupLocal n :=
  afrLookupDone p (lookupCbks p replies order (LookupLocal.init readChild))

end GlusterFS.Afr
