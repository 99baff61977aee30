import GlusterFS.Dht.Helper
import GlusterFS.Dht.Layout

/-!
# `Dht.Readdir` — listing a directory (`dht_readdirp`)

A directory is on all subvolumes, and a listing goes from one to the next. The cursor of the client names the
subvolume and the offset there (`dht_itransform`). What one subvolume answers is filtered: link files are not
shown, and directories only from the first subvolume that is up. If nothing is left of an answer the next
part is asked for, or the next subvolume, and the client waits (`dht_readdirp_cbk`).

The client reads on from the last entry it got until it gets none. A subvolume answers with as many entries as
it likes of those that fit into the size, and with one at least if it fits (`posix_do_readdir` takes all of
them).
-/

namespace GlusterFS.Dht

/-! ## Entries -/

/-- `struct stat`, as far as it is looked at. -/
structure Stat where
  ino : BitVec 64
  mode : BitVec 32
  size : Nat
  deriving DecidableEq, Repr

/-- `gf_dirent_t`. -/
structure Dirent where
  name : Name
  ino : BitVec 64
  off : BitVec 64
  len : BitVec 32
  type : BitVec 32
  stat : Stat
  deriving DecidableEq, Repr

def sIfmt : BitVec 32 := 0o170000

def sIfdir : BitVec 32 := 0o040000

/-- `DHT_LINKFILE_MODE`, which is `S_ISVTX`. -/
def dhtLinkfileMode : BitVec 32 := 0o1000

def checkIsLinkfile (s : Stat) : Bool := s.mode &&& ~~~sIfmt == dhtLinkfileMode && s.size == 0

def checkIsDir (s : Stat) : Bool := s.mode &&& sIfmt == sIfdir

variable {ξ : Type} [DecidableEq ξ]

/-! ## The answer of a subvolume -/

section

variable (conf : Conf ξ) (prev : ξ)

def skipped (e : Dirent) : Bool := checkIsLinkfile e.stat || checkIsDir e.stat && some prev != conf.dhtFirstUpSubvol

/-- The entry as the client gets it. -/
def shownEntry (e : Dirent) : Dirent :=
  let ino := conf.dhtItransform prev e.ino
  { e with ino := ino, off := conf.dhtItransform prev e.off, stat := { e.stat with ino := ino } }

/-- The loop of `dht_readdirp_cbk`: `next_offset` and the entries for the client. -/
def readdirpLoop : List Dirent → BitVec 64 × List Dirent → BitVec 64 × List Dirent
  | [], acc => acc
  | e :: es, (_, entries) =>
    if skipped conf prev e then readdirpLoop es (e.off, entries)
    else readdirpLoop es (e.off, entries ++ [shownEntry conf prev e])

/-- What comes of an answer: another request, or an answer to the client. -/
inductive Outcome (ξ : Type) where
  | wind (subvol : ξ) (off : BitVec 64)
  | unwind (entries : List Dirent)
  deriving DecidableEq, Repr

/-- `dht_readdirp_cbk`; `none` is an error. -/
def dhtReaddirpCbk (reply : Option (List Dirent)) : Outcome ξ :=
  let r : BitVec 64 × List Dirent := match reply with
    | none => (0, [])
    | some origEntries => readdirpLoop conf prev origEntries (0, [])
  if r.2.length = 0 then
    -- a `next_offset` other than zero: the end of this subvolume is not reached
    let nextSubvol := if r.1 = 0 then conf.dhtSubvolNext prev else some prev
    match nextSubvol with
    | none => .unwind r.2
    | some subvol => .wind subvol r.1
  else .unwind r.2

end

/-! ## What a subvolume has -/

/-- The entries behind an offset (`rewinddir`, `seekdir`): the offset of an entry is the place behind it. -/
def behind (entries : List Dirent) (off : BitVec 64) : List Dirent :=
  if off = 0 then entries else (entries.dropWhile fun e => e.off ≠ off).drop 1

/-- The loop of `posix_do_readdir`: entries are taken while they fit. -/
def posixFill (direntSize : Dirent → Nat) (size : Nat) : Nat → List Dirent → List Dirent
  | _, [] => []
  | filled, e :: es =>
    if filled ≤ size then
      if direntSize e + filled > size then []
      else e :: posixFill direntSize size (filled + direntSize e) es
    else []

/-- A subvolume may answer with the first `n` of the entries it has left: they fit, and there is one if the
    first one fits. -/
def Answers (direntSize : Dirent → Nat) (size : Nat) (rest : List Dirent) (n : Nat) : Prop :=
  n ≤ rest.length ∧ ((rest.take n).map direntSize).sum ≤ size ∧
    (n = 0 → ∀ e ∈ rest.head?, size < direntSize e)
deriving Decidable

/-- **A volume whose contents do not change.** In a subvolume the names and the offsets are distinct, no offset
    is zero, and the cursors fit into 64 bits. -/
structure Volume (ξ : Type) [DecidableEq ξ] where
  conf : Conf ξ
  contents : ξ → List Dirent
  direntSize : Dirent → Nat
  names : ∀ x ∈ conf.subvolumes, ((contents x).map Dirent.name).Nodup
  offsets : ∀ x ∈ conf.subvolumes, (0 :: (contents x).map Dirent.off).Nodup
  small : ∀ x ∈ conf.subvolumes, ∀ e ∈ contents x,
    e.off.toNat * conf.subvolumeCnt + conf.subvolumes.idxOf x < 2 ^ 64

/-! ## A client that lists a directory -/

/-- The client's cursor and what it has got so far; the request that is under way, with its size. -/
structure Listing (ξ : Type) where
  cursor : BitVec 64
  request : Option (ξ × BitVec 64)
  size : Nat
  listed : List Dirent
  ended : Bool
  deriving DecidableEq, Repr

/-- Before the first `readdirp`. -/
def Listing.start : Listing ξ := ⟨0, none, 0, [], false⟩

/-- The client calls `readdirp`, or a subvolume answers with the next `n` entries. -/
inductive ListAction where
  | readdirp (size : Nat)
  | answer (n : Nat)
  deriving DecidableEq, Repr

def Listing.take (s : Listing ξ) : Outcome ξ → Listing ξ
  | .wind subvol off => { s with request := some (subvol, off) }
  | .unwind [] => { s with request := none, ended := true }
  | .unwind (e :: es) =>
    { s with
      request := none
      cursor := ((e :: es).getLast (by simp)).off
      listed := s.listed ++ e :: es }

/-- One step. A client that is waiting or has finished does not call, and only a subvolume that was asked
    answers; one that is down answers with an error. -/
def listStep (vol : Volume ξ) (s : Listing ξ) : ListAction → Except Unit (Listing ξ)
  | .readdirp size =>
    if s.request.isNone ∧ s.ended = false ∧ 0 < size then
      .ok { s with request := some (vol.conf.dhtDeitransform s.cursor), size := size }
    else .error ()
  | .answer n =>
    match s.request with
    | none => .error ()
    | some (prev, off) =>
      if vol.conf.subvolumeStatus prev then
        let rest := behind (vol.contents prev) off
        if Answers vol.direntSize s.size rest n then
          .ok (s.take (dhtReaddirpCbk vol.conf prev (some (rest.take n))))
        else .error ()
      else .ok (s.take (dhtReaddirpCbk vol.conf prev none))

end GlusterFS.Dht
