import GlusterFS.Lib.Run
import GlusterFS.Afr.Lookup

/-!
# `Afr.SelfHeal.MissingEntries` — creating a name where it is missing (`afr_self_heal_missing_entries`)

A lookup that finds a name on some children and not on others starts with this heal: it locks the name on all children
that are up, looks it up once more, and creates it on those that answer `ENOENT`, with the type it has on the
first child that has it. The counters of the parent directory are not read.

A history of a name is a list of unlinks and lookups. An unlink is an entry transaction on the parent directory, which
leaves its marks there. Between the lookup and the locks of its heal other clients may do something to the name, so the answers
to the lookup itself are arbitrary, and those under the locks are by what the children have.
-/

namespace GlusterFS.Afr

open GlusterFS.Storage

variable {n : Nat}

/-! ## The heal -/

/-- What the loop of `sh_missing_entries_create` keeps. -/
structure CreateScan (n : Nat) where
  enoentCount : Nat
  type : Option FileType
  source : Option (Fin n)
  govinda : Bool

/-- The body of the loop; `errno` is `sh->child_errno` and `bits` the type bits in `sh->buf`, both zero for a
    child that was not asked. -/
def createScanStep (errno : Fin n → Option LookupErrno) (bits : Fin n → Option FileType) (st : CreateScan n)
    (i : Fin n) : CreateScan n :=
  match errno i with
  | some e => if e = .enoent then { st with enoentCount := st.enoentCount + 1 } else st
  | none =>
    match st.type with
    | some type => if bits i = some type then st else { st with govinda := true }
    | none => { st with source := some i, type := bits i }

def createScan (errno : Fin n → Option LookupErrno) (bits : Fin n → Option FileType) : CreateScan n :=
  (List.finRange n).foldl (createScanStep errno bits) ⟨0, none, none, false⟩

/-- The rest of `sh_missing_entries_create`: the type to create, if any. `readlink` says whether the source
    returns the target of a symbolic link, and `isRoot` that the path is "/". -/
def shMissingEntriesCreate (errno : Fin n → Option LookupErrno) (bits : Fin n → Option FileType)
    (readlink isRoot : Bool) : Option FileType :=
  let st := createScan errno bits
  if st.govinda then none
  else
    match st.type with
    -- subvolumes down and/or file does not exist
    | none => none
    | some type =>
      if st.enoentCount = 0 then none
      else
        match type with
        | .sock => some type
        | .reg => some type
        | .blk => some type
        | .chr => some type
        | .fifo => some type
        | .lnk => if readlink then some type else none
        | .dir => if isRoot then none else some type
        | .other _ => none

/-- `local->govinda_gOvinda`: the types differ, or the switch does not know the type. -/
def shMissingEntriesGovinda (errno : Fin n → Option LookupErrno) (bits : Fin n → Option FileType) : Bool :=
  let st := createScan errno bits
  st.govinda || st.enoentCount != 0 && match st.type with
    | some (.other _) => true
    | _ => false

def FileType.isDevice : FileType → Bool
  | .blk => true
  | .chr => true
  | _ => false

/-- What a child has under the name. `st_rdev` is zero if it is no device. -/
structure Object where
  type : FileType
  rdev : Nat
  plain : type.isDevice = false → rdev = 0

/-- What `mknod`, `mkdir` and `symlink` make; only devices get the number. -/
def Object.made (type : FileType) (dev : Nat) : Object :=
  ⟨type, if type.isDevice then dev else 0, fun h => if_neg (by rw [h]; exact Bool.false_ne_true)⟩

section

variable (childUp : Fin n → Bool) (has : Fin n → Option Object)

/-- `sh->child_errno` when no lookup fails. -/
def missingErrno (i : Fin n) : Option LookupErrno := if childUp i && (has i).isNone then some .enoent else none

/-- The type bits in `sh->buf` when no lookup fails. -/
def missingBits (i : Fin n) : Option FileType := if childUp i then (has i).map Object.type else none

/-- `sh_missing_entries_mknod` and its siblings on a name that is not "/", when everything succeeds. The number `mknod`
    gets is the `st_dev` of the source. -/
def shMissingEntriesMade (stDev : Fin n → Nat) (i : Fin n) : Option Object :=
  let errno := missingErrno childUp has
  let bits := missingBits childUp has
  match shMissingEntriesCreate errno bits true false, (createScan errno bits).source with
  | some type, some source => if errno i = some .enoent then some (.made type (stDev source)) else has i
  | _, _ => has i

end

/-! ## Histories of a name -/

/-- A name in a directory: what each child has under it, the counters, and from which children an unlink has removed it. -/
structure NameState (n : Nat) where
  entry : Fin n → Option FileType
  store : Store n
  deleted : Fin n → Bool

/-- An unlink: the children that are up and the configuration, what the children answer, and the children that
    execute it although their answer is an error. -/
structure UnlinkRun (n : Nat) where
  priv : Priv n
  env : Env n
  applied : Fin n → Bool

/-- A lookup and its heal. -/
structure LookupRun (n : Nat) where
  params : LookupParams n
  childUp : Fin n → Bool
  /-- the answers to the lookup, in the order they come -/
  replies : Fin n → LookupReply n
  order : List (Fin n)
  readChild : Option (Fin n)
  /-- the children that grant the entry lock -/
  lock : Fin n → Bool
  /-- the children that fail the lookup under the locks -/
  fails : Fin n → Option LookupErrno
  /-- the children on which the creation succeeds -/
  creates : Fin n → Bool
  readlink : Bool
  isRoot : Bool

inductive NameEvent (n : Nat) where
  | unlink (u : UnlinkRun n)
  | lookup (r : LookupRun n)

/-- The unlink of `name` in `parent`. -/
def unlinkOf (parent name : Path) : Transaction := ⟨.unlink, name, parent, parent⟩

/-- The children that execute an unlink. -/
def UnlinkRun.removes (u : UnlinkRun n) (out : Outcome n) (i : Fin n) : Bool :=
  match out.wound with
  | none => false
  | some l => l.childUp i && (u.env.fop i == .ok || u.applied i)

/-- The application is told that the name is gone. -/
def UnlinkRun.acks (u : UnlinkRun n) (out : Outcome n) : Bool :=
  match out.wound with
  | none => false
  | some l => (List.finRange n).any fun i => l.childUp i && u.env.fop i == .ok

def NameState.unlink (parent name : Path) (s : NameState n) (u : UnlinkRun n) : NameState n :=
  let out := afrTransaction u.priv (unlinkOf parent name) u.env s.store
  { entry := fun i => if u.removes out i then none else s.entry i
    store := out.store
    deleted := fun i => s.deleted i || (u.removes out i && (s.entry i).isSome) }

variable (r : LookupRun n)

variable (s : NameState n)

/-- `sh->child_errno`. -/
def LookupRun.errno (i : Fin n) : Option LookupErrno :=
  if r.childUp i then (r.fails i).or (if (s.entry i).isNone then some .enoent else none) else none

/-- The type bits in `sh->buf`. -/
def LookupRun.bits (i : Fin n) : Option FileType :=
  if r.childUp i && (r.fails i).isNone then s.entry i else none

/-- All children that are up grant the lock. -/
def LookupRun.locked : Bool := (List.finRange n).all fun i => !r.childUp i || r.lock i

/-- `afr_self_heal` begins with the missing entries. -/
def LookupRun.heals : Bool :=
  let (done, l) := afrLookup r.params r.replies r.order r.readChild
  done == .selfHeal && (l.successCount != 0 && l.enoentCount != 0)

/-- `afr_self_heal_missing_entries`: what each child has under the name afterwards. -/
def LookupRun.missingEntries (i : Fin n) : Option FileType :=
  match shMissingEntriesCreate (r.errno s) (r.bits s) r.readlink r.isRoot with
  | none => s.entry i
  | some type => if r.errno s i = some .enoent ∧ r.creates i = true ∧ s.entry i = none then some type else s.entry i

def NameState.lookup (r : LookupRun n) : NameState n :=
  if r.heals && r.locked then { s with entry := r.missingEntries s } else s

def nameStep (parent name : Path) (s : NameState n) : NameEvent n → Except Empty (NameState n)
  | .unlink u => .ok (s.unlink parent name u)
  | .lookup r => .ok (s.lookup r)

end GlusterFS.Afr
