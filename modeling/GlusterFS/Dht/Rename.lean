import GlusterFS.Lib.Run

/-!
# `Dht.Rename` — renaming a file (`dht-rename.c`)

A file has its data on one subvolume (*cached*), and a name is looked up on another one (*hashed*), where a link
file tells the first. A rename makes a link file and a hard link where they will be needed, renames on one
subvolume, and removes what is left of the old name and of the file that was replaced. The subvolumes are asked
at the same time and answer in any order.

A request that succeeds does to its subvolume what the system call does; one that fails does nothing.
-/

namespace GlusterFS.Dht

variable {ξ ν φ : Type}

/-! ## What the subvolumes have -/

/-- What is under a name: the data of a file, or a link file with its `trusted.glusterfs.dht.linkto`. -/
inductive Obj (ξ φ : Type) where
  | data (file : φ)
  | linkfile (linkto : Option ξ)
  deriving DecidableEq, Repr

abbrev Store (ξ ν φ : Type) := ξ → ν → Option (Obj ξ φ)

/-- The four roles; without a destination file there is no `dst_cached`. -/
structure Roles (ξ : Type) where
  srcHashed : ξ
  srcCached : ξ
  dstHashed : ξ
  dstCached : Option ξ
  deriving DecidableEq, Repr

inductive Request (ξ : Type) where
  | mknod (subvol : ξ)
  | setxattr (subvol : ξ)
  | link (subvol : ξ)
  | rename (subvol : ξ)
  | unlinkOld (subvol : ξ)
  | unlinkNew (subvol : ξ)
  deriving DecidableEq, Repr

variable [DecidableEq ξ] [DecidableEq ν] [DecidableEq φ]

instance (q : Request ξ) (p : List (Request ξ)) : Decidable (q ∈ p) := inferInstance

/-- The name on the subvolume is given another object, or none. -/
def Store.set (store : Store ξ ν φ) (x : ξ) (n : ν) (o : Option (Obj ξ φ)) : Store ξ ν φ :=
  fun x' n' => if x' = x ∧ n' = n then o else store x' n'

/-- Two names of one file: `rename` does nothing then. -/
def sameFile : Obj ξ φ → Option (Obj ξ φ) → Bool
  | .data file, some (.data file') => file == file'
  | _, _ => false

section

variable (old new : ν) (roles : Roles ξ)

/-- What a request does that succeeds; `none` if it cannot. The xattr is set on a link file that was just
    made. -/
def exec (store : Store ξ ν φ) : Request ξ → Option (Store ξ ν φ)
  | .mknod x => if (store x old).isNone then some (store.set x old (some (.linkfile none))) else none
  | .setxattr x =>
    match store x old with
    | some (.linkfile _) => some (store.set x old (some (.linkfile (some roles.srcCached))))
    | _ => none
  | .link x =>
    match store x old, store x new with
    | some o, none => some (store.set x new (some o))
    | _, _ => none
  | .rename x =>
    match store x old with
    | none => none
    | some o =>
      if sameFile o (store x new) then some store else some ((store.set x new (some o)).set x old none)
  | .unlinkOld x => if (store x old).isSome then some (store.set x old none) else none
  | .unlinkNew x => if (store x new).isSome then some (store.set x new none) else none

end

/-! ## The rename -/

/-- The frame of a rename: `op_ret` (whether it is still 0), `call_cnt`, the requests that were not answered, and
    the answer to the client. -/
structure Renaming (ξ ν φ : Type) where
  store : Store ξ ν φ
  opRet : Bool
  callCnt : Nat
  pending : List (Request ξ)
  result : Option Bool

/-- `DHT_STACK_UNWIND`. -/
def Renaming.unwind (s : Renaming ξ ν φ) : Renaming ξ ν φ := { s with result := some s.opRet }

namespace Roles

variable (roles : Roles ξ)

def renameSubvol : ξ := if some roles.srcCached = roles.dstCached then roles.srcCached else roles.dstHashed

/-- A link file of the old name is made on the destination's hashed subvolume. -/
def makesLinkfile : Prop := roles.dstHashed ≠ roles.srcHashed ∧ roles.dstHashed ≠ roles.srcCached

/-- A hard link is made on the source's cached subvolume. -/
def makesLink : Prop := roles.srcCached ≠ roles.dstHashed

instance : Decidable roles.makesLinkfile := inferInstanceAs (Decidable (_ ∧ _))

instance : Decidable roles.makesLink := inferInstanceAs (Decidable (_ ≠ _))

/-- What `dht_rename_create_links` asks for. -/
def links : List (Request ξ) :=
  (if roles.makesLinkfile then [.mknod roles.dstHashed] else []) ++
    if roles.makesLink then [.link roles.srcCached] else []

/-- What `dht_rename_cbk` asks for: the old data, the old link file and the data of the destination. -/
def unlinks : List (Request ξ) :=
  (if roles.srcCached ≠ roles.dstHashed ∧ some roles.srcCached ≠ roles.dstCached then
    [.unlinkOld roles.srcCached] else []) ++
  (if roles.srcHashed ≠ roles.renameSubvol ∧ roles.srcHashed ≠ roles.srcCached then
    [.unlinkOld roles.srcHashed] else []) ++
  match roles.dstCached with
  | none => []
  | some d => if d ≠ roles.dstHashed ∧ d ≠ roles.srcCached then [.unlinkNew d] else []

variable (s : Renaming ξ ν φ)

def dhtDoRename : Renaming ξ ν φ :=
  { s with pending := s.pending ++ [.rename roles.renameSubvol] }

def dhtRenameLinksCbk (ok : Bool) : Renaming ξ ν φ :=
  let s' := { s with opRet := s.opRet && ok, callCnt := s.callCnt - 1 }
  if s'.callCnt = 0 then
    if s'.opRet then dhtDoRename roles s' else s'.unwind
  else s'

/-- `dht_rename_create_links`, for a file (`dht_rename` has set `op_ret` to 0). -/
def dhtRenameCreateLinks (store : Store ξ ν φ) : Renaming ξ ν φ :=
  let s : Renaming ξ ν φ := ⟨store, true, 0, [], none⟩
  if some roles.srcCached = roles.dstCached then dhtDoRename roles s
  else
    let s' := { s with callCnt := roles.links.length, pending := roles.links }
    if s'.callCnt = 0 then dhtDoRename roles s' else s'

def dhtRenameCbk (ok : Bool) : Renaming ξ ν φ :=
  if ok then
    let s' := { s with callCnt := s.callCnt + roles.unlinks.length, pending := s.pending ++ roles.unlinks }
    if s'.callCnt = 0 then s'.unwind else s'
  else { s with opRet := false }.unwind

/-- `dht_rename_unlink_cbk`: a failure is only logged. -/
def dhtRenameUnlinkCbk : Renaming ξ ν φ :=
  let s' := { s with callCnt := s.callCnt - 1 }
  if s'.callCnt = 0 then s'.unwind else s'

/-- What comes of an answer. `dht_linkfile_create_cbk` goes on with the xattr. -/
def callback : Request ξ → Bool → Renaming ξ ν φ
  | .mknod x, true => { s with pending := s.pending ++ [.setxattr x] }
  | .mknod _, false => dhtRenameLinksCbk roles s false
  | .setxattr _, ok => dhtRenameLinksCbk roles s ok
  | .link _, ok => dhtRenameLinksCbk roles s ok
  | .rename _, ok => dhtRenameCbk roles s ok
  | .unlinkOld _, _ => dhtRenameUnlinkCbk s
  | .unlinkNew _, _ => dhtRenameUnlinkCbk s

/-- One step: a request is answered, with success or not. -/
def renameStep (old new : ν) (s : Renaming ξ ν φ) : Request ξ × Bool → Except Unit (Renaming ξ ν φ)
  | (req, ok) =>
    if req ∈ s.pending then
      match if ok then exec old new roles s.store req else some s.store with
      | none => .error ()
      | some store => .ok (callback roles { s with store := store, pending := s.pending.erase req } req ok)
    else .error ()

end Roles

/-! ## What a name is -/

/-- A name is looked up: on the hashed subvolume, or where the link file there points. -/
def resolve (store : Store ξ ν φ) (hashed : ξ) (name : ν) : Option φ :=
  match store hashed name with
  | some (.data file) => some file
  | some (.linkfile (some x)) =>
    match store x name with
    | some (.data file) => some file
    | _ => none
  | _ => none

end GlusterFS.Dht
