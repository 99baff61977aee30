import GlusterFS.Dht.Directory
import GlusterFS.Dht.Rename

/-!
# `Dht.Lookup` — looking up a name, with what the subvolumes have

`Dht.Directory` has the callbacks of `dht_lookup` and leaves open what the subvolumes answer. Here they answer
from what they have under the name: nothing, a file (or a directory), or a link file with the name of a
subvolume in it. A request can fail as well, with any error, and then does nothing.

The search on all subvolumes deletes the link files it meets. `dht_linkfile_unlink` sends the `unlink` in a
frame of its own: nobody waits for it, and it is executed at any time after. What was deleted is kept beside
the store, and so is the error the client gets.
-/

namespace GlusterFS.Dht

variable {ξ : Type}

/-! ## What the subvolumes have -/

/-- What every subvolume has under the name. A link file has the name of a subvolume in it, if any. -/
abbrev NameStore (ξ : Type) := ξ → Option (Obj Name Stat)

/-- A link file as `dht_linkfile_create` makes it. -/
def newLinkfileStat : Stat := ⟨0, 0o101000, 0⟩

def newDirStat : Stat := ⟨0, 0o040755, 0⟩

theorem missing_pos : 0 < 2 := by decide

/-- `ENOENT`, as the error of an answer. -/
def missingReply : DirReply := .failed 2 missing_pos

/-- `EEXIST`, as the error of an answer. -/
def existsReply : DirReply := .failed eexist (by decide)

def lookupReply : Option (Obj Name Stat) → DirReply
  | none => missingReply
  | some (.data stat) => .ok stat (some ⟨none, none⟩)
  | some (.linkfile linkto) => .ok newLinkfileStat (some ⟨none, linkto⟩)

section

variable [DecidableEq ξ] (env : DirEnv ξ)

/-- A request that is executed: the answer, and what the subvolumes have then. `cached` is `linkfile.srcvol`. -/
def execute (cached : Option ξ) (store : NameStore ξ) (x : ξ) : DirCall → DirReply × NameStore ξ
  | .lookup | .linkfile | .everywhere | .directory | .revalidate => (lookupReply (store x), store)
  | .linkfileMknod =>
    match store x with
    | some _ => (existsReply, store)
    | none => (.ok newLinkfileStat none, Function.update store x (some (.linkfile none)))
  | .linkfileSetxattr =>
    match store x with
    | none => (missingReply, store)
    | some (.data stat) => (.ok stat none, store)
    | some (.linkfile _) =>
      (.ok newLinkfileStat none, Function.update store x (some (.linkfile (cached.map env.volname))))
  | .mkdirHashed | .mkdir | .healMkdir =>
    match store x with
    | some _ => (existsReply, store)
    | none => (.ok newDirStat none, Function.update store x (some (.data newDirStat)))
  | .healSetxattr =>
    match store x with
    | none => (missingReply, store)
    | some _ => (.ok newDirStat none, store)

/-- The request fails with `err`, or is executed if that is 0. -/
def respond (cached : Option ξ) (store : NameStore ξ) (x : ξ) (call : DirCall) (err : Nat) : DirReply × NameStore ξ :=
  if h : 0 < err then (.failed err h, store) else execute env cached store x call

end

/-! ## The error of the answer -/

/-- `EUCLEAN`, with which `dht_local_init` begins. -/
def euclean : Int := 117

def eio : Int := 5

def einval : Int := 22

/-- `local->op_errno` after an answer. -/
def noteErrno (searchUnhashed : Bool) (inodeMode : BitVec 32) (opErrno : Int) : DirCall → DirReply → Int
  | .lookup, .failed errno _ => if (errno : Int) = enoent ∧ searchUnhashed then enoent else opErrno
  | .everywhere, .failed errno _ => if (errno : Int) ≠ enoent then errno else opErrno
  | .directory, .failed _ _ => enoent
  | .revalidate, .failed errno _ => errno
  | .revalidate, .ok stat _ => if sIfmt &&& (stat.mode ^^^ inodeMode) ≠ 0 then einval else opErrno
  | _, _ => opErrno

/-- The `op_errno` of the callback's `DHT_STACK_UNWIND`, for an `op_ret` of -1. -/
def unwoundErrno (frame : DirLocal ξ) (opErrno : Int) (call : DirCall) (reply : DirReply) : Int :=
  match call with
  | .lookup | .linkfile => reply.err
  | .everywhere => if frame.fileCount ≠ 0 ∧ frame.dirCount ≠ 0 then eio else enoent
  | .revalidate => if frame.layoutMismatch then estale else opErrno
  | _ => opErrno

/-! ## Runs -/

/-- A lookup and the subvolumes. `unlinking` are those that have been sent the `unlink` of a link file,
    `removed` what was deleted. -/
structure NameLookup (ξ : Type) where
  frame : DirLocal ξ
  opErrno : Int
  errno : Option Int
  store : NameStore ξ
  unlinking : List ξ
  removed : List (ξ × Obj Name Stat)

/-- A subvolume answers a request of the lookup, with an error unless `err` is 0; or it executes an `unlink`,
    or fails to. -/
inductive NameEvent (ξ : Type) where
  | answer (subvol : ξ) (call : DirCall) (err : Nat)
  | unlink (subvol : ξ) (ok : Bool)
  deriving DecidableEq, Repr

/-- The answer is one of the search and shows a link file. -/
def isStaleLinkfile : DirCall → DirReply → Bool
  | .everywhere, .ok stat _ => checkIsLinkfile stat
  | _, _ => false

/-- The lookup is about to be sent. -/
def NameLookup.start (frame : DirLocal ξ) (store : NameStore ξ) : NameLookup ξ where
  frame := frame
  opErrno := euclean
  errno := none
  store := store
  unlinking := []
  removed := []

section

variable [DecidableEq ξ] (env : DirEnv ξ)

/-- What an answer changes besides the frame. -/
def NameLookup.answered (s : NameLookup ξ) (x : ξ) (call : DirCall) (r : DirReply × NameStore ξ)
    (frame : DirLocal ξ) : NameLookup ξ :=
  let opErrno := noteErrno env.searchUnhashed s.frame.inodeMode s.opErrno call r.1
  { frame := frame
    opErrno := opErrno
    errno :=
      if s.frame.result = none ∧ frame.result = some (-1) then some (unwoundErrno frame opErrno call r.1)
      else s.errno
    store := r.2
    unlinking := if isStaleLinkfile call r.1 then x :: s.unlinking else s.unlinking
    removed := s.removed }

/-- An `unlink` that is executed. -/
def NameLookup.unlinked (s : NameLookup ξ) (x : ξ) : NameLookup ξ :=
  { s with
    store := Function.update s.store x none
    unlinking := s.unlinking.erase x
    removed := ((s.store x).map fun o => (x, o)).toList ++ s.removed }

def nameStep (s : NameLookup ξ) : NameEvent ξ → Except DirFault (NameLookup ξ)
  | .answer x call err =>
    let r := respond env s.frame.cachedSubvol s.store x call err
    (dirStep env s.frame ⟨x, call, r.1, false⟩).map (s.answered env x call r)
  | .unlink x ok =>
    if x ∈ s.unlinking then
      .ok (if ok then s.unlinked x else { s with unlinking := s.unlinking.erase x })
    else .error .refused

end

end GlusterFS.Dht
