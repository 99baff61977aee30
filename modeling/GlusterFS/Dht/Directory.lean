import GlusterFS.Dht.Readdir
import GlusterFS.Dht.SelfHeal

/-!
# `Dht.Directory` — creating, finding and healing a directory (`dht_mkdir`, `dht_lookup`)

`dht_mkdir` makes the directory on the subvolume its name is hashed to, then on the others, and gives it a
layout. `dht_lookup` asks the hashed subvolume; what it answers may send the lookup on: to the subvolume a
link file names, to all subvolumes as a search for a file (`dht_lookup_everywhere`), or to all subvolumes as
the lookup of a directory (`dht_lookup_directory`), whose answers are merged into a layout and, if that has
holes, healed (`dht_selfheal_directory`).

All of it runs on one `dht_local_t`, through callbacks: a subvolume that was asked answers, in any order, and
the callback of the request goes on from there. One field of the local is used by all phases of a lookup.

Answers of the subvolumes, and whether a subvolume is filled, come from outside. Not in the model: `op_errno`,
the merged `struct stat`, and allocations that fail.
-/

namespace GlusterFS.Dht

/-! ## Requests and answers -/

/-- The callback that waits for an answer. -/
inductive DirCall where
  | lookup
  | linkfile
  | everywhere
  | directory
  | revalidate
  | linkfileMknod
  | linkfileSetxattr
  | mkdirHashed
  | mkdir
  | healMkdir
  | healSetxattr
  deriving DecidableEq, Repr

/-- The dictionary of an answer: `trusted.glusterfs.dht` and `trusted.glusterfs.dht.linkto`. -/
structure LookupXattr where
  disk : Option DiskLayout
  linkto : Option Name
  deriving DecidableEq, Repr

/-- What a subvolume answers. Only the answer to a lookup has a dictionary, and it may have none. -/
inductive DirReply where
  | failed (errno : Nat) (pos : 0 < errno)
  | ok (stat : Stat) (xattr : Option LookupXattr)
  deriving Repr

instance decidableEqDirReply : DecidableEq DirReply
  | .failed a _, .failed b _ => decidable_of_iff (a = b) (by simp)
  | .failed _ _, .ok _ _ => isFalse (by simp)
  | .ok _ _, .failed _ _ => isFalse (by simp)
  | .ok stat xattr, .ok stat' xattr' => decidable_of_iff (stat = stat' ∧ xattr = xattr') (by simp)

/-- The answer as `dht_layout_merge` gets it. -/
def DirReply.merged : DirReply → LookupReply
  | .failed errno pos => .failed errno pos
  | .ok _ xattr => .found (xattr.bind LookupXattr.disk)

/-- The same, without the dictionary. -/
def DirReply.created : DirReply → LookupReply
  | .failed errno pos => .failed errno pos
  | .ok _ _ => .found none

/-- What `dht_layout_merge` gets for a subvolume that is filled: -1 and `ENOSPC`. -/
def filledReply : LookupReply := .failed 28 (by decide)

/-- What `dht_mkdir_cbk` merges: a subvolume that is filled counts as one, if it has made the directory. -/
def DirReply.mkdirMerged (reply : DirReply) (filled : Bool) : LookupReply :=
  match reply with
  | .failed errno pos => .failed errno pos
  | .ok _ _ => if filled then filledReply else .found none

def eexist : Nat := 17

def estale : Nat := 116

/-- The directory is there after the `mkdir`. -/
def DirReply.made : DirReply → Bool
  | .failed errno _ => errno == eexist
  | .ok _ _ => true

/-- `err`, as `dht_selfheal_dir_xattr_cbk` sets it. -/
def DirReply.err : DirReply → Int
  | .failed errno _ => errno
  | .ok _ _ => 0

variable {ξ : Type}

/-- An answer of a subvolume; `filled` is what `dht_is_subvol_filled` says at that time. -/
structure DirAnswer (ξ : Type) where
  subvol : ξ
  call : DirCall
  reply : DirReply
  filled : Bool
  deriving DecidableEq, Repr

/-! ## The frame -/

/-- `dht_local_t`, the requests that are not answered, and the answer to the client. `layout` is
    `local->layout` and, while the directory is healed, `local->selfheal.layout`. -/
structure DirLocal (ξ : Type) where
  opRet : Int
  callCnt : Nat
  hashedSubvol : Option ξ
  cachedSubvol : Option ξ
  layout : Layout ξ
  needSelfheal : Bool
  layoutMismatch : Bool
  dirCount : Nat
  fileCount : Nat
  inodeMode : BitVec 32
  pending : List (ξ × DirCall)
  result : Option Int
  deriving DecidableEq, Repr

/-- What ends a run: an answer that nobody waits for, an access behind the end of the layout, or the
    division. -/
inductive DirFault where
  | refused
  | outOfBounds
  | divisionByZero
  deriving DecidableEq, Repr

/-- The volume, the path of the directory and the hash. -/
structure DirEnv (ξ : Type) where
  conf : Conf ξ
  searchUnhashed : Bool
  volname : ξ → Name
  path : Name
  dmHashfn : Name → BitVec 32

namespace DirLocal

/-- `dht_local_init`. -/
def init (hashedSubvol cachedSubvol : Option ξ) : DirLocal ξ where
  opRet := -1
  callCnt := 0
  hashedSubvol := hashedSubvol
  cachedSubvol := cachedSubvol
  layout := dhtLayoutNew 0
  needSelfheal := false
  layoutMismatch := false
  dirCount := 0
  fileCount := 0
  inodeMode := 0
  pending := []
  result := none

variable (s : DirLocal ξ)

/-- `DHT_STACK_UNWIND`. -/
def unwind (opRet : Int) : DirLocal ξ := { s with result := some opRet }

/-- `STACK_WIND`, to each of the subvolumes. -/
def wind (subvols : List ξ) (call : DirCall) : DirLocal ξ :=
  { s with pending := s.pending ++ subvols.map fun x => (x, call) }

/-- `dht_layout_merge` into the layout of the frame. -/
def merge (subvol : ξ) (reply : LookupReply) : Except DirFault (DirLocal ξ) :=
  match dhtLayoutMerge s.layout subvol reply with
  | none => .error .outOfBounds
  | some layout => .ok { s with layout := layout }

/-- `dht_frame_return`: one answer less is missing. -/
def frameReturn : DirLocal ξ := { s with callCnt := s.callCnt - 1 }

end DirLocal

/-! ## Healing -/

variable [DecidableEq ξ]

/-- The loops over the layout that set `err` of the first entry of a subvolume. -/
def setErr (subvol : ξ) (err : Int) : List (Entry ξ) → List (Entry ξ)
  | [] => []
  | e :: es => if e.xlator = some subvol then { e with err := err } :: es else e :: setErr subvol err es

variable (s : DirLocal ξ)

omit [DecidableEq ξ] in
/-- `dht_selfheal_dir_xattr`. -/
def selfhealDirXattr : DirLocal ξ :=
  let missing := s.layout.list.filter Entry.written
  if missing.length = 0 then s.unwind 0
  else { s with callCnt := missing.length }.wind (missing.filterMap Entry.xlator) .healSetxattr

/-- `dht_selfheal_dir_xattr_cbk`. -/
def selfhealDirXattrCbk (subvol : ξ) (reply : DirReply) : DirLocal ξ :=
  let s := { s with layout.list := setErr subvol reply.err s.layout.list }.frameReturn
  if s.callCnt = 0 then s.unwind 0 else s

omit [DecidableEq ξ] in
/-- `dht_selfheal_dir_mkdir`, not forced. -/
def selfhealDirMkdir : DirLocal ξ :=
  let missing := s.layout.list.filter fun e => e.err == enoent
  if missing.length = 0 then selfhealDirXattr s
  else { s with callCnt := missing.length }.wind (missing.filterMap Entry.xlator) .healMkdir

/-- `dht_selfheal_dir_mkdir_cbk`. -/
def selfhealDirMkdirCbk (subvol : ξ) (reply : DirReply) : DirLocal ξ :=
  let list := if reply.made then setErr subvol (-1) s.layout.list else s.layout.list
  let s := { s with layout.list := list }.frameReturn
  if s.callCnt = 0 then selfhealDirXattr s else s

section

variable (env : DirEnv ξ)

omit [DecidableEq ξ]

/-- `dht_layout_entry_cmp_volname` is greater than zero; an entry without a subvolume has no name. -/
def entryVolnameGt (x y : Entry ξ) : Bool :=
  decide ((y.xlator.map env.volname).getD [] < (x.xlator.map env.volname).getD [])

def dhtLayoutSortVolname (layout : Layout ξ) : Layout ξ :=
  { layout with list := Exchange.sort (entryVolnameGt env) layout.list }

variable (s : DirLocal ξ)

/-- `dht_selfheal_layout_new_directory` on the layout of the frame. -/
def layoutNewDirectory : Except DirFault (DirLocal ξ) :=
  match dhtSelfhealLayoutNewDirectory env.dmHashfn s.layout env.path with
  | none => .error .divisionByZero
  | some layout => .ok { s with layout := layout }

/-- `dht_selfheal_dir_getafix`: the value it returns, and the frame. -/
def selfhealDirGetafix (a : Anomalies) (s : DirLocal ξ) : Except DirFault (Int × DirLocal ξ) := do
  let (ret, s) ←
    if a.missing + a.down = env.conf.subvolumeCnt then (layoutNewDirectory env s).map fun s => (0, s)
    else pure (-1, s)
  -- the down subvol might fill up the holes
  let ret := if a.holes ≤ a.down then 0 else ret
  let (ret, s) ←
    if a.holes ≠ 0 ∨ a.missing ≠ 0 ∨ a.overlaps ≠ 0 then (layoutNewDirectory env s).map fun s => (0, s)
    else pure (ret, s)
  pure (if s.layout.list.any fun e => e.err == enoent then 0 else ret, s)

def dhtSelfhealDirectory : Except DirFault (DirLocal ξ) :=
  let a := dhtLayoutAnomalies s.layout
  if a.down ≠ 0 then .ok (s.unwind 0)
  else if a.misc ≠ 0 then .ok (s.unwind 0)
  else
    match selfhealDirGetafix env a { s with layout := dhtLayoutSortVolname env s.layout } with
    | .error e => .error e
    | .ok (ret, s) => if ret = -1 then .ok (s.unwind (-1)) else .ok (selfhealDirMkdir s)

def dhtSelfhealNewDirectory : Except DirFault (DirLocal ξ) :=
  (layoutNewDirectory env { s with layout := dhtLayoutSortVolname env s.layout }).map selfhealDirXattr

/-! ## Lookup -/

def dhtLookupEverywhere : DirLocal ξ :=
  { s with callCnt := env.conf.subvolumeCnt }.wind env.conf.subvolumes .everywhere

def dhtLookupDirectory : DirLocal ξ :=
  { s with
    callCnt := env.conf.subvolumeCnt
    layout := dhtLayoutNew env.conf.subvolumeCnt }.wind env.conf.subvolumes .directory

def dhtLinkfileSubvol (xattr : Option LookupXattr) : Option ξ :=
  match xattr.bind LookupXattr.linkto with
  | none => none
  | some volname => env.conf.subvolumes.find? fun x => env.volname x == volname

def dhtLookupCbk : DirReply → DirLocal ξ
  | .failed errno _ =>
    if (errno : Int) = enoent ∧ env.searchUnhashed then dhtLookupEverywhere env s
    else if (errno : Int) = enotconn then dhtLookupDirectory env s
    else s.unwind (-1)
  | .ok stat xattr =>
    if checkIsDir stat then dhtLookupDirectory env s
    else if !checkIsLinkfile stat then s.unwind 0
    else
      match dhtLinkfileSubvol env xattr with
      | none => dhtLookupEverywhere env s
      | some subvol => s.wind [subvol] .linkfile

def dhtLookupLinkfileCbk : DirReply → DirLocal ξ
  | .failed _ _ => dhtLookupEverywhere env s
  | .ok stat _ => if checkIsDir stat || checkIsLinkfile stat then dhtLookupEverywhere env s else s.unwind 0

/-- What `dht_lookup_everywhere_cbk` notes of an answer. A link file is not counted, it is deleted. -/
def noteFound (subvol : ξ) : DirReply → DirLocal ξ
  | .failed _ _ => s
  | .ok stat _ =>
    if checkIsLinkfile stat then s
    else if checkIsDir stat then { s with dirCount := s.dirCount + 1 }
    else { s with fileCount := s.fileCount + 1, cachedSubvol := s.cachedSubvol.or (some subvol) }

def dhtLookupEverywhereCbk (subvol : ξ) (reply : DirReply) : DirLocal ξ :=
  let s := (noteFound s subvol reply).frameReturn
  if s.callCnt = 0 then
    if s.fileCount ≠ 0 ∧ s.dirCount ≠ 0 then s.unwind (-1)
    else if s.dirCount ≠ 0 then dhtLookupDirectory env s
    else
      match s.cachedSubvol, s.hashedSubvol with
      | none, _ => s.unwind (-1)
      | some _, none => { s with opRet := 0 }.unwind 0
      | some _, some hashed => s.wind [hashed] .linkfileMknod
  else s

/-- What `dht_lookup_dir_cbk` notes of an answer that is merged. -/
def noteDir : DirReply → DirLocal ξ
  | .failed _ _ => s
  | .ok stat _ => if checkIsDir stat then { s with opRet := 0 } else { s with needSelfheal := true }

/-- The end of `dht_lookup_dir_cbk`, when all subvolumes have answered. -/
def lookupDirDone : Except DirFault (DirLocal ξ) :=
  if s.needSelfheal then .ok (dhtLookupEverywhere env { s with needSelfheal := false })
  else if s.opRet = 0 then
    let r := dhtLayoutNormalize s.layout
    let s := { s with layout := r.2 }
    if r.1 ≠ 0 then dhtSelfhealDirectory env s else .ok (s.unwind s.opRet)
  else .ok (s.unwind s.opRet)

def dhtLookupDirCbk (subvol : ξ) (reply : DirReply) : Except DirFault (DirLocal ξ) := do
  let s ← s.merge subvol reply.merged
  let s := (noteDir s reply).frameReturn
  if s.callCnt = 0 then lookupDirDone env s else pure s

end

/-- What `dht_revalidate_cbk` notes of an answer. -/
def noteRevalidated (s : DirLocal ξ) (subvol : ξ) : DirReply → DirLocal ξ
  | .failed errno _ => if errno = estale then { s with layoutMismatch := true } else s
  | .ok stat xattr =>
    if sIfmt &&& (stat.mode ^^^ s.inodeMode) ≠ 0 then { s with opRet := -1 }
    else if checkIsLinkfile stat then { s with layoutMismatch := true }
    else if checkIsDir stat ∧ dhtLayoutDirMismatch s.layout subvol (xattr.map LookupXattr.disk) ≠ 0 then
      { s with layoutMismatch := true }
    else { s with opRet := 0 }

def dhtRevalidateCbk (s : DirLocal ξ) (subvol : ξ) (reply : DirReply) : DirLocal ξ :=
  let s := (noteRevalidated s subvol reply).frameReturn
  if s.callCnt = 0 then
    if s.layoutMismatch then s.unwind (-1) else s.unwind s.opRet
  else s

omit [DecidableEq ξ] in
/-- `dht_linkfile_create_cbk`: the link file gets its attribute, or there is none. -/
def dhtLinkfileCreateCbk (s : DirLocal ξ) (subvol : ξ) : DirReply → DirLocal ξ
  | .failed _ _ => { s with opRet := 0 }.unwind 0
  | .ok _ _ => s.wind [subvol] .linkfileSetxattr

/-! ## Creation -/

section

variable (env : DirEnv ξ)

def dhtMkdirHashedCbk (s : DirLocal ξ) (subvol : ξ) (reply : DirReply) (filled : Bool) :
    Except DirFault (DirLocal ξ) := do
  let s ← s.merge subvol (if filled then filledReply else reply.created)
  match reply with
  | .failed _ _ => pure (s.unwind (-1))
  | .ok _ _ =>
    let s := { s with opRet := 0, callCnt := env.conf.subvolumeCnt - 1 }
    let s ← if s.callCnt = 0 then dhtSelfhealDirectory env s else pure s
    pure (s.wind (env.conf.subvolumes.filter fun x => some x ≠ s.hashedSubvol) .mkdir)

omit [DecidableEq ξ] in
def dhtMkdirCbk (s : DirLocal ξ) (subvol : ξ) (reply : DirReply) (filled : Bool) : Except DirFault (DirLocal ξ) := do
  let s ← s.merge subvol (reply.mkdirMerged filled)
  let s := s.frameReturn
  if s.callCnt = 0 then dhtSelfhealNewDirectory env s else pure s

/-! ## Runs -/

def dirCallback (s : DirLocal ξ) (a : DirAnswer ξ) : Except DirFault (DirLocal ξ) :=
  match a.call with
  | .lookup => .ok (dhtLookupCbk env s a.reply)
  | .linkfile => .ok (dhtLookupLinkfileCbk env s a.reply)
  | .everywhere => .ok (dhtLookupEverywhereCbk env s a.subvol a.reply)
  | .directory => dhtLookupDirCbk env s a.subvol a.reply
  | .revalidate => .ok (dhtRevalidateCbk s a.subvol a.reply)
  | .linkfileMknod => .ok (dhtLinkfileCreateCbk s a.subvol a.reply)
  -- `dht_linkfile_xattr_cbk` does not look at the answer
  | .linkfileSetxattr => .ok ({ s with opRet := 0 }.unwind 0)
  | .mkdirHashed => dhtMkdirHashedCbk env s a.subvol a.reply a.filled
  | .mkdir => dhtMkdirCbk env s a.subvol a.reply a.filled
  | .healMkdir => .ok (selfhealDirMkdirCbk s a.subvol a.reply)
  | .healSetxattr => .ok (selfhealDirXattrCbk s a.subvol a.reply)

/-- One step: a subvolume that was asked answers. -/
def dirStep (s : DirLocal ξ) (a : DirAnswer ξ) : Except DirFault (DirLocal ξ) :=
  if (a.subvol, a.call) ∈ s.pending then
    dirCallback env { s with pending := s.pending.erase (a.subvol, a.call) } a
  else .error .refused

section

omit [DecidableEq ξ]

/-- `dht_mkdir`; `none` if the name has no hashed subvolume. -/
def dhtMkdir (hashedSubvol : Option ξ) : DirLocal ξ :=
  let s := DirLocal.init hashedSubvol none
  match hashedSubvol with
  | none => s.unwind (-1)
  | some subvol => { s with layout := dhtLayoutNew env.conf.subvolumeCnt }.wind [subvol] .mkdirHashed

/-- `dht_lookup` of an inode without a layout, or with one that is older than the volume. -/
def dhtLookup (hashedSubvol cachedSubvol : Option ξ) : DirLocal ξ :=
  let s := DirLocal.init hashedSubvol cachedSubvol
  match hashedSubvol with
  | none => dhtLookupDirectory env s
  | some subvol => s.wind [subvol] .lookup

/-- `dht_lookup` of an inode with a layout. -/
def dhtLookupRevalidate (hashedSubvol cachedSubvol : Option ξ) (layout : Layout ξ)
    (inodeMode : BitVec 32) : DirLocal ξ :=
  { DirLocal.init hashedSubvol cachedSubvol with
    callCnt := layout.list.length
    layout := layout
    inodeMode := inodeMode }.wind (layout.list.filterMap Entry.xlator) .revalidate

end

end

end GlusterFS.Dht
