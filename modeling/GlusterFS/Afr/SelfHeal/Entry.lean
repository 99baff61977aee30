import GlusterFS.Lib.Listing
import GlusterFS.Afr.Lookup
import GlusterFS.Afr.SelfHeal.Data

/-!
# `Afr.SelfHeal.Entry` — making the directories of the children equal (`afr_self_heal_entry`)

With the directory locked and looked up, `afr_sh_entry_fix` chooses a source. The heal then reads the directory
of the source, entry by entry, and creates what the sinks do not have (*impunge*); after that it reads the
directory of each sink and moves what the source does not have to the trash directory (*expunge*). If there is no
source every sink is read in turn and nothing is removed. At the end the counters that accuse the sinks are taken
back (`afr_sh_entry_erase_pending`).

A directory is read in batches of any size. Every entry of a batch has a frame of its own, with one call at a time for each
child it is about in the first loop and one call at a time in the second; the next batch is read when all of them are
done. The answers come in any order, one `Action` each; what they were is kept in `log`, which no function reads.

Left out are the attributes and times that are copied to a new file, the counters it is given, and the healing of the
trash directory itself.
-/

namespace GlusterFS.Afr

open GlusterFS.Storage

variable {n : Nat}

/-! ## The choice of a source -/

/-- What `afr_sh_entry_fix` leaves: the children marked as sources, and the one to copy from. -/
structure SourceChoice (n : Nat) where
  sources : Fin n → Bool
  source : Option (Fin n)
  marked : ∀ src, source = some src → sources src = true
  merge : source = none → ∀ i, sources i = false

/-- The first of the marked children is the source. -/
def SourceChoice.select (sources : Fin n → Bool) : SourceChoice n where
  sources := sources
  source := afrShSelectSource sources
  marked := fun _ h => afrShSelectSource_marked h
  merge := afrShSelectSource_none

/-- `afr_sh_entry_fix`, up to `afr_sh_entry_sync_prepare`; `none` if nothing is to be healed. A forced merge leaves
    `sh->sources` as it was allocated. -/
def afrShEntryFix (forcedMerge : Bool) (buf : Fin n → Stat) (xattr : Fin n → Option (Xattrs (Fin n)))
    (childErrno : Fin n → Bool) : Option (SourceChoice n) :=
  if forcedMerge then some ⟨fun _ => false, none, fun _ h => (nomatch h), fun _ _ => rfl⟩
  else
    let marked := afrShMarkSources (some buf) (afrShBuildPendingMatrix (keptXattrs xattr) .entry) .entry
    if marked.nsources = 0 then none
    -- `afr_sh_supress_errenous_children`
    else some (.select fun i => marked.sources i && !childErrno i)

namespace EntryHeal

/-! ## What a heal starts from -/

/-- What a name stands for. The target is that of a symbolic link. -/
structure Content where
  type : FileType
  target : String
  deriving DecidableEq, Repr

abbrev Dir := Listing.Table String Content

/-- `GF_REPLICATE_TRASH_DIR`. -/
def trashDir : String := ".landfill"

/-- What the heal knows, and what the children do when the counters are erased. -/
structure Config (n : Nat) where
  childUp : Fin n → Bool
  choice : SourceChoice n
  /-- the path is "/" -/
  isRoot : Bool
  xattr : Fin n → Option (Xattrs (Fin n))
  eraseFail : Fin n → Option (Nat × Errno)

namespace Config

variable (cfg : Config n)

/-- `sh->source`. -/
def source : Option (Fin n) := cfg.choice.source

/-- An active sink. -/
def sink (i : Fin n) : Bool := !cfg.choice.sources i && cfg.childUp i

/-- `sh->success`, as `afr_sh_entry_sync_prepare` leaves it. -/
def success (i : Fin n) : Bool := cfg.sink i || decide (cfg.source = some i)

/-- The names that are not inspected. -/
def skipped (name : String) : Bool := name == "." || name == ".." || (cfg.isRoot && name == trashDir)

/-- The children that are asked for an entry read from `src`. -/
def target (src i : Fin n) : Bool := decide (i ≠ src) && cfg.sink i

end Config

/-- `afr_self_heal_entry` up to the choice of a source: all children that are up have to grant the lock, and those
    that answer the lookup bring their counters. -/
def afrSelfHealEntry (childUp : Fin n → Bool) (isRoot forcedMerge : Bool) (lock : Fin n → Bool)
    (lookup : Fin n → Option (Stat × Xattrs (Fin n))) (childErrno : Fin n → Bool)
    (eraseFail : Fin n → Option (Nat × Errno)) : Option (Config n) :=
  if (List.finRange n).any fun i => childUp i && !lock i then none
  else
    let answers i := if childUp i then lookup i else none
    let xattr i := (answers i).map Prod.snd
    let buf i := ((answers i).map Prod.fst).getD ⟨0, 0⟩
    (afrShEntryFix forcedMerge buf xattr childErrno).map fun choice =>
      ⟨childUp, choice, isRoot, xattr, eraseFail⟩

/-! ## The state -/

/-- The call the frame of an entry has out for a child while entries are created. -/
inductive Impunge where
  | lookup
  | lookupSource
  | mknod (content : Content)
  | mkdir (content : Content)
  | readlink
  | readlinkSink
  | unlink
  | symlink (linkname : String)
  | xattrop
  | setattr
  deriving DecidableEq, Repr

/-- The call the frame of an entry has out while entries are removed. -/
inductive Expunge where
  | lookupSource
  | lookup
  | lookupTrash
  | mkdirTrash
  | rename
  | setattr
  deriving DecidableEq, Repr

/-- The frame of `afr_sh_entry_impunge_entry`. `isLink` is what `impunging_entry_mode` says. -/
structure ImpungeFrame (n : Nat) where
  name : String
  isLink : Bool
  linkname : String
  callCount : Nat
  calls : Fin n → Option Impunge

/-- The frame of `afr_sh_entry_expunge_entry`. -/
structure ExpungeFrame where
  name : String
  call : Option Expunge

/-- Where the heal is. In a `Read` phase the next batch from `off` is being read. `finished` is
    `afr_sh_entry_finish` with the counters left alone. -/
inductive Phase (n : Nat) where
  | opening (pending : Fin n → Bool)
  | impungeRead (src : Fin n) (off : Nat)
  | impunge (src : Fin n) (off callCount : Nat) (frames : List (ImpungeFrame n))
  | expungeRead (sink : Fin n) (off : Nat)
  | expunge (sink : Fin n) (off callCount : Nat) (frames : List ExpungeFrame)
  | erased
  | finished

inductive Pass where
  | impunge
  | expunge
  deriving DecidableEq, Repr

/-- What a `readdir` brings: an `op_ret` of 0 is the end of the directory. -/
inductive ReadResult where
  | batch
  | complete
  | failed
  deriving DecidableEq, Repr

/-- An answer, and whether it was a success. -/
inductive Answer (n : Nat) where
  | opendir (i : Fin n) (ok : Bool)
  | readdir (pass : Pass) (i : Fin n) (result : ReadResult)
  | impunge (call : Impunge) (i : Fin n) (name : String) (ok : Bool)
  | expunge (call : Expunge) (i : Fin n) (name : String) (ok : Bool)
  deriving DecidableEq, Repr

/-- The answer was a success. That a name is not there is a success for the calls that ask for it. -/
def Answer.ok : Answer n → Bool
  | .opendir _ ok => ok
  | .readdir _ _ result => result != .failed
  | .impunge _ _ _ ok => ok
  | .expunge _ _ _ ok => ok

/-- The heal and the children. `trash` says which children have the trash directory, if it is not one of the entries of
    the directory that is healed. -/
structure State (n : Nat) where
  phase : Phase n
  opFailed : Bool
  dirs : Fin n → Dir
  trash : Fin n → Bool
  store : FileStore n
  log : List (Answer n)

def State.heard (s : State n) (a : Answer n) : State n := { s with log := a :: s.log }

def State.goto (s : State n) (phase : Phase n) : State n := { s with phase := phase }

/-! ## The loops over the children -/

section

variable (cfg : Config n)

def afrShEntryErasePending (store : FileStore n) : FileStore n := fun i =>
  match cfg.xattr i with
  | none => store i
  | some xattr =>
    let k := TransactionType.entry.index
    (doXattrop (deltaToXattr (deltaRow xattr cfg.success k (List.finRange n) none) k) (cfg.eraseFail i)
      (store i)).1

variable (s : State n)

/-- The heal ends with the counters erased. -/
def erasePending : State n :=
  { s with phase := .erased, store := afrShEntryErasePending cfg s.store }

variable (current : Option (Fin n))

/-- `next_active_sink`, and the loop of `next_active_source`; `none` is -1. -/
def nextActiveSink : Option (Fin n) :=
  (List.finRange n).find? fun i => cfg.sink i && current.all fun c => decide (c < i)

def nextActiveSource : Option (Fin n) :=
  match cfg.source with
  | some src => if current = some src then none else some src
  | none => nextActiveSink cfg current

/-- `afr_sh_entry_expunge_all`. -/
def expungeAll : State n :=
  match cfg.source with
  | none => erasePending cfg s
  | some _ =>
    match nextActiveSink cfg current with
    | none => erasePending cfg s
    | some sink => if s.opFailed then erasePending cfg s else s.goto (.expungeRead sink 0)

/-- `afr_sh_entry_impunge_all`. -/
def impungeAll : State n :=
  if s.opFailed then s.goto .finished
  else
    match nextActiveSource cfg current with
    | none => expungeAll cfg s none
    | some src => s.goto (.impungeRead src 0)

/-- `afr_sh_entry_opendir_cbk`. -/
def opendirCbk (pending : Fin n → Bool) (i : Fin n) (ok : Bool) : State n :=
  let s' := { s.heard (.opendir i ok) with opFailed := s.opFailed || !ok }
  let pending' := Function.update pending i false
  if anyPending pending' then s'.goto (.opening pending')
  else if s'.opFailed then s'.goto .finished
  else impungeAll cfg s' none

/-! ## Creating what is missing -/

/-- `afr_sh_entry_impunge_entry`; no frame for a name that is not inspected. -/
def impungeEntry (src : Fin n) (entry : Listing.Slot String Content) : Option (ImpungeFrame n) :=
  if cfg.skipped entry.key then none
  else some
    { name := entry.key
      isLink := decide (entry.val.type = .lnk)
      linkname := ""
      callCount := (List.finRange n).countP (cfg.target src)
      calls := fun i => if cfg.target src i then some .lookup else none }

/-- `afr_sh_entry_impunge_readdir_cbk`. An entry that is not inspected is counted and done at once. -/
def impungeReaddirCbk (src : Fin n) (off count : Nat) (ok : Bool) : State n :=
  if !ok then impungeAll cfg (s.heard (.readdir .impunge src .failed)) (some src)
  else
    let batch := (s.dirs src).readFrom off (count + 1)
    if batch.isEmpty then impungeAll cfg (s.heard (.readdir .impunge src .complete)) (some src)
    else
      let s' := s.heard (.readdir .impunge src .batch)
      let off' := Listing.nextOffset off batch
      let frames := batch.filterMap (impungeEntry cfg src)
      if frames.length = 0 then s'.goto (.impungeRead src off')
      else s'.goto (.impunge src off' frames.length frames)

/-- What an answer to a call of a frame leads to: the directories, `impunge_sh->linkname`, and the next call. -/
structure Impunged (n : Nat) where
  dirs : Fin n → Dir
  linkname : String
  next : Option Impunge
  ok : Bool

section

variable (src i : Fin n) (fr : ImpungeFrame n) (dirs : Fin n → Dir)

variable (ok : Bool)

def impungeOut : Impunged n := ⟨dirs, fr.linkname, none, ok⟩

def impungeNext (next : Impunge) : Impunged n := ⟨dirs, fr.linkname, some next, true⟩

/-- `afr_sh_entry_impunge_entry_cbk`. -/
def impungeEntryCbk : Impunged n :=
  -- a symlink's target might have changed
  if fr.isLink then ⟨dirs, fr.linkname, some .lookupSource, ok⟩
  else if !ok then impungeOut fr dirs false
  else if (dirs i).Has fr.name then impungeOut fr dirs true
  else impungeNext fr dirs .lookupSource

/-- `afr_sh_entry_impunge_recreate_lookup_cbk`. -/
def impungeRecreateLookupCbk : Impunged n :=
  if !ok then impungeOut fr dirs false
  else
    match (dirs src).find? fr.name with
    | none => impungeOut fr dirs false
    | some content =>
      match content.type with
      | .sock => impungeNext fr dirs (.mknod content)
      | .reg => impungeNext fr dirs (.mknod content)
      | .blk => impungeNext fr dirs (.mknod content)
      | .chr => impungeNext fr dirs (.mknod content)
      | .fifo => impungeNext fr dirs (.mknod content)
      | .lnk => impungeNext fr dirs .readlink
      | .dir => impungeNext fr dirs (.mkdir content)
      | .other _ => impungeOut fr dirs false

/-- A creation on the child, at the position `pos` of its directory, and `afr_sh_entry_impunge_newfile_cbk`. -/
def impungeNewfileCbk (content : Content) (ok : Bool) (pos : Nat) : Impunged n :=
  if !ok || decide ((dirs i).Has fr.name) then impungeOut fr dirs false
  else ⟨Function.update dirs i ((dirs i).put pos fr.name content), fr.linkname, some .xattrop, true⟩

/-- `afr_sh_entry_impunge_readlink_cbk`. -/
def impungeReadlinkCbk : Impunged n :=
  if !ok then impungeOut fr dirs false
  else
    match (dirs src).find? fr.name with
    | some ⟨.lnk, target⟩ => ⟨dirs, target, some .readlinkSink, true⟩
    | _ => impungeOut fr dirs false

/-- `afr_sh_entry_impunge_readlink_sink_cbk`. -/
def impungeReadlinkSinkCbk : Impunged n :=
  if !ok then impungeOut fr dirs false
  else
    match (dirs i).find? fr.name with
    | none => impungeNext fr dirs (.symlink fr.linkname)
    | some ⟨.lnk, target⟩ => if target = fr.linkname then impungeOut fr dirs true else impungeNext fr dirs .unlink
    -- `EINVAL`
    | some _ => impungeOut fr dirs false

/-- `afr_sh_entry_impunge_symlink_unlink_cbk`. -/
def impungeSymlinkUnlinkCbk : Impunged n :=
  if !ok || !decide ((dirs i).Has fr.name) then impungeOut fr dirs false
  else ⟨Function.update dirs i ((dirs i).erase fr.name), fr.linkname, some (.symlink fr.linkname), true⟩

def impungeCall (pos : Nat) : Impunge → Impunged n
  | .lookup => impungeEntryCbk i fr dirs ok
  | .lookupSource => impungeRecreateLookupCbk src fr dirs ok
  | .mknod content => impungeNewfileCbk i fr dirs content ok pos
  | .mkdir content => impungeNewfileCbk i fr dirs content ok pos
  | .readlink => impungeReadlinkCbk src fr dirs ok
  | .readlinkSink => impungeReadlinkSinkCbk i fr dirs ok
  | .unlink => impungeSymlinkUnlinkCbk i fr dirs ok
  | .symlink linkname => impungeNewfileCbk i fr dirs ⟨.lnk, linkname⟩ ok pos
  -- the callbacks of the last two calls do not look at the result
  | .xattrop => ⟨dirs, fr.linkname, some .setattr, ok⟩
  | .setattr => impungeOut fr dirs ok

end

/-- The frame after an answer for child `i`. -/
def ImpungeFrame.answered (fr : ImpungeFrame n) (i : Fin n) (r : Impunged n) : ImpungeFrame n :=
  { fr with
    linkname := r.linkname
    calls := Function.update fr.calls i r.next
    callCount := if r.next.isSome then fr.callCount else fr.callCount - 1 }

/-- The state after an answer for child `i`. -/
def State.impunged (s : State n) (call : Impunge) (i : Fin n) (name : String) (r : Impunged n) : State n :=
  { s with dirs := r.dirs, log := .impunge call i name r.ok :: s.log }

/-- An answer for child `i` in frame `f`, and `afr_sh_entry_impunge_entry_done` when the frame is done. -/
def impungeCbk (s : State n) (src : Fin n) (off callCount : Nat) (frames : List (ImpungeFrame n)) (f : Nat)
    (fr : ImpungeFrame n) (i : Fin n) (call : Impunge) (ok : Bool) (pos : Nat) : State n :=
  let r := impungeCall src i fr s.dirs ok pos call
  let s' := s.impunged call i fr.name r
  let fr' := fr.answered i r
  if r.next.isNone && decide (fr'.callCount = 0) then
    if callCount - 1 = 0 then s'.goto (.impungeRead src off)
    else s'.goto (.impunge src off (callCount - 1) (frames.set f fr'))
  else s'.goto (.impunge src off callCount (frames.set f fr'))

/-! ## Removing what the source does not have -/

/-- `afr_sh_entry_expunge_entry`. -/
def expungeEntry (entry : Listing.Slot String Content) : Option ExpungeFrame :=
  if cfg.skipped entry.key then none else some ⟨entry.key, some .lookupSource⟩

/-- `afr_sh_entry_expunge_readdir_cbk`. -/
def expungeReaddirCbk (s : State n) (sink : Fin n) (off count : Nat) (ok : Bool) : State n :=
  if !ok then expungeAll cfg (s.heard (.readdir .expunge sink .failed)) (some sink)
  else
    let batch := (s.dirs sink).readFrom off (count + 1)
    if batch.isEmpty then expungeAll cfg (s.heard (.readdir .expunge sink .complete)) (some sink)
    else
      let s' := s.heard (.readdir .expunge sink .batch)
      let off' := Listing.nextOffset off batch
      let frames := batch.filterMap (expungeEntry cfg)
      if frames.length = 0 then s'.goto (.expungeRead sink off')
      else s'.goto (.expunge sink off' frames.length frames)

/-- What an answer to a call of a frame leads to. -/
structure Expunged (n : Nat) where
  dirs : Fin n → Dir
  trash : Fin n → Bool
  next : Option Expunge
  ok : Bool

section

variable (src sink : Fin n) (name : String) (dirs : Fin n → Dir) (trash : Fin n → Bool)

/-- The child has the trash directory. -/
def hasTrash : Bool := if cfg.isRoot then decide ((dirs sink).Has trashDir) else trash sink

variable (ok : Bool)

/-- `afr_sh_entry_expunge_entry_cbk`. -/
def expungeEntryCbk : Expunged n :=
  if !ok then ⟨dirs, trash, none, false⟩
  else if (dirs src).Has name then ⟨dirs, trash, none, true⟩
  else ⟨dirs, trash, some .lookup, true⟩

/-- `afr_sh_entry_expunge_lookup_cbk`. `cached` is the result of `inode_grep`. -/
def expungeLookupCbk (ok cached : Bool) : Expunged n :=
  if !ok then ⟨dirs, trash, none, false⟩
  else
    match (dirs sink).find? name with
    | none => ⟨dirs, trash, none, false⟩
    | some ⟨.other _, _⟩ => ⟨dirs, trash, none, false⟩
    | some _ => ⟨dirs, trash, some (if cached then .rename else .lookupTrash), true⟩

/-- `afr_sh_entry_expunge_lookup_trash_cbk`. -/
def expungeLookupTrashCbk : Expunged n :=
  if !ok then ⟨dirs, trash, none, false⟩
  else if hasTrash cfg sink dirs trash then ⟨dirs, trash, some .rename, true⟩
  else ⟨dirs, trash, some .mkdirTrash, true⟩

/-- `afr_sh_entry_expunge_mkdir_cbk`. -/
def expungeMkdirCbk (pos : Nat) : Expunged n :=
  if !ok || hasTrash cfg sink dirs trash then ⟨dirs, trash, none, false⟩
  else if cfg.isRoot then
    ⟨Function.update dirs sink ((dirs sink).put pos trashDir ⟨.dir, ""⟩), trash, some .rename, true⟩
  else ⟨dirs, Function.update trash sink true, some .rename, true⟩

/-- `afr_sh_entry_expunge_rename_cbk`, which goes on whatever the result was. -/
def expungeRenameCbk : Expunged n :=
  if ok && hasTrash cfg sink dirs trash && decide ((dirs sink).Has name) then
    ⟨Function.update dirs sink ((dirs sink).erase name), trash, some .setattr, true⟩
  else ⟨dirs, trash, some .setattr, false⟩

def expungeCall (ok cached : Bool) (pos : Nat) : Expunge → Expunged n
  | .lookupSource => expungeEntryCbk src name dirs trash ok
  | .lookup => expungeLookupCbk sink name dirs trash ok cached
  | .lookupTrash => expungeLookupTrashCbk cfg sink dirs trash ok
  | .mkdirTrash => expungeMkdirCbk cfg sink dirs trash ok pos
  | .rename => expungeRenameCbk cfg sink name dirs trash ok
  | .setattr => ⟨dirs, trash, none, ok⟩

end

/-- The state after an answer about the entry `name` of the sink. -/
def State.expunged (s : State n) (call : Expunge) (sink : Fin n) (name : String) (r : Expunged n) : State n :=
  { s with dirs := r.dirs, trash := r.trash, log := .expunge call sink name r.ok :: s.log }

/-- An answer in frame `f`, and `afr_sh_entry_expunge_entry_done` when the frame is done. -/
def expungeCbk (s : State n) (src sink : Fin n) (off callCount : Nat) (frames : List ExpungeFrame) (f : Nat)
    (name : String) (call : Expunge) (ok cached : Bool) (pos : Nat) : State n :=
  let r := expungeCall cfg src sink name s.dirs s.trash ok cached pos call
  let s' := s.expunged call sink name r
  let frames' := frames.set f ⟨name, r.next⟩
  if r.next.isNone then
    if callCount - 1 = 0 then s'.goto (.expungeRead sink off) else s'.goto (.expunge sink off (callCount - 1) frames')
  else s'.goto (.expunge sink off callCount frames')

/-! ## Runs -/

/-- An answer of a child. `ok` says that the child executes the call, and its directory decides what comes of it; otherwise
    the call fails with an error other than `ENOENT`. -/
inductive Action (n : Nat) where
  | opendir (i : Fin n) (ok : Bool)
  | readdir (count : Nat) (ok : Bool)
  | impunge (f : Nat) (i : Fin n) (ok : Bool) (pos : Nat)
  | expunge (f : Nat) (ok cached : Bool) (pos : Nat)
  deriving DecidableEq, Repr

/-- One answer is taken in; there is none to what was not asked. -/
def step (s : State n) : Action n → Except Unit (State n)
  | .opendir i ok =>
    match s.phase with
    | .opening pending => if pending i then .ok (opendirCbk cfg s pending i ok) else .error ()
    | _ => .error ()
  | .readdir count ok =>
    match s.phase with
    | .impungeRead src off => .ok (impungeReaddirCbk cfg s src off count ok)
    | .expungeRead sink off => .ok (expungeReaddirCbk cfg s sink off count ok)
    | _ => .error ()
  | .impunge f i ok pos =>
    match s.phase with
    | .impunge src off callCount frames =>
      match frames[f]? with
      | none => .error ()
      | some fr =>
        match fr.calls i with
        | none => .error ()
        | some call => .ok (impungeCbk s src off callCount frames f fr i call ok pos)
    | _ => .error ()
  | .expunge f ok cached pos =>
    match s.phase, cfg.source with
    | .expunge sink off callCount frames, some src =>
      match frames[f]? with
      | some ⟨name, some call⟩ => .ok (expungeCbk cfg s src sink off callCount frames f name call ok cached pos)
      | _ => .error ()
    | _, _ => .error ()

/-- `afr_sh_entry_sync_prepare` and `afr_sh_entry_open`. -/
def afrShEntrySyncPrepare (dirs : Fin n → Dir) (trash : Fin n → Bool) (store : FileStore n) : State n :=
  let s : State n := ⟨.opening cfg.success, false, dirs, trash, store, []⟩
  let activeSinks := (List.finRange n).countP cfg.sink
  if activeSinks = 0 then s.goto .finished
  else if cfg.source = none ∧ activeSinks < 2 then s.goto .finished
  else s

end

end EntryHeal

end GlusterFS.Afr
