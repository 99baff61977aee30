import GlusterFS.Dht.Lookup

/-!
# `Dht.Remove` — removing a name (`dht_unlink`, `dht_rmdir`)

`dht_unlink` asks the cached subvolume, which has the file, and the hashed one, which has the link file if it is
another one, at the same time, and returns 0 if one of them has succeeded.

A directory is on all subvolumes. `dht_rmdir` opens and reads it everywhere, to see whether it is empty, and then
asks all subvolumes to remove it. It fails if one of them fails, and makes the directory again where the layout
says (`dht_selfheal_restore`), unless the only error was `ENOENT`.

A request that fails does nothing. Not in the model: the merged `struct stat`, and allocations that fail.
-/

namespace GlusterFS.Dht

variable {ξ : Type}

/-! ## `dht_unlink` -/

/-- The frame of a `dht_unlink`, the requests that are not answered, the answer to the client, and what the
    subvolumes have under the name. -/
structure UnlinkLocal (ξ : Type) where
  opRet : Int
  opErrno : Int
  callCnt : Nat
  pending : List ξ
  result : Option (Int × Int)
  store : NameStore ξ

/-- A subvolume answers the `unlink`, with an error unless `err` is 0. -/
structure UnlinkAnswer (ξ : Type) where
  subvol : ξ
  err : Nat
  deriving DecidableEq, Repr

section

variable [DecidableEq ξ]

/-- The error of the answer, which is `ENOENT` if the request is executed and finds nothing. -/
def unlinkErr (store : NameStore ξ) (a : UnlinkAnswer ξ) : Nat :=
  if a.err = 0 ∧ store a.subvol = none then 2 else a.err

omit [DecidableEq ξ] in
def dhtUnlinkCbk (s : UnlinkLocal ξ) (err : Nat) : UnlinkLocal ξ :=
  let s := if err ≠ 0 then { s with opErrno := err } else { s with opRet := 0 }
  let s := { s with callCnt := s.callCnt - 1 }
  if s.callCnt = 0 then { s with result := some (s.opRet, s.opErrno) } else s

/-- One step: a subvolume that was asked answers. -/
def unlinkStep (s : UnlinkLocal ξ) (a : UnlinkAnswer ξ) : Except DirFault (UnlinkLocal ξ) :=
  if a.subvol ∈ s.pending then
    let err := unlinkErr s.store a
    .ok (dhtUnlinkCbk
      { s with
        pending := s.pending.erase a.subvol
        store := if err = 0 then Function.update s.store a.subvol none else s.store } err)
  else .error .refused

/-- `dht_unlink`; without a cached or a hashed subvolume it is refused. -/
def dhtUnlink (hashedSubvol cachedSubvol : Option ξ) (store : NameStore ξ) : UnlinkLocal ξ :=
  match cachedSubvol, hashedSubvol with
  | some cached, some hashed =>
    let subvols := if hashed ≠ cached then [cached, hashed] else [cached]
    ⟨-1, euclean, subvols.length, subvols, none, store⟩
  | _, _ => ⟨-1, einval, 0, [], some (-1, einval), store⟩

end

/-! ## `dht_rmdir` -/

/-- The callback that waits for an answer. -/
inductive RmdirCall where
  | opendir
  | readdir
  | rmdir
  | healMkdir
  | healSetxattr
  deriving DecidableEq, Repr

/-- What every subvolume has: no directory, or one with a number of entries besides `.` and `..`. -/
abbrev DirStore (ξ : Type) := ξ → Option Nat

/-- The frame of a `dht_rmdir`, the requests that are not answered, the answer to the client, what the subvolumes
    have, and the errors with which they have answered the `rmdir`. `layout` is the one of the inode. -/
structure RmdirLocal (ξ : Type) where
  opRet : Int
  opErrno : Int
  callCnt : Nat
  needSelfheal : Bool
  layout : Layout ξ
  pending : List (ξ × RmdirCall)
  result : Option (Int × Int)
  dirs : DirStore ξ
  rmdirs : List (ξ × Nat)

/-- An answer. `readdir` returns the number of entries or -1; the others fail unless `err` is 0. -/
inductive RmdirAnswer (ξ : Type) where
  | opendir (subvol : ξ) (err : Nat)
  | readdir (subvol : ξ) (opRet : Int)
  | rmdir (subvol : ξ) (err : Nat)
  | healMkdir (subvol : ξ) (err : Nat)
  | healSetxattr (subvol : ξ) (err : Nat)
  deriving DecidableEq, Repr

/-- Who answers, and which callback. -/
def RmdirAnswer.asked : RmdirAnswer ξ → ξ × RmdirCall
  | .opendir x _ => (x, .opendir)
  | .readdir x _ => (x, .readdir)
  | .rmdir x _ => (x, .rmdir)
  | .healMkdir x _ => (x, .healMkdir)
  | .healSetxattr x _ => (x, .healSetxattr)

def enotempty : Int := 39

namespace RmdirLocal

variable (s : RmdirLocal ξ)

/-- `DHT_STACK_UNWIND`. -/
def unwind : RmdirLocal ξ := { s with result := some (s.opRet, s.opErrno) }

/-- `STACK_WIND`, to each of the subvolumes. -/
def wind (subvols : List ξ) (call : RmdirCall) : RmdirLocal ξ :=
  { s with pending := s.pending ++ subvols.map fun x => (x, call) }

/-- `dht_frame_return`: one answer less is missing. -/
def frameReturn : RmdirLocal ξ := { s with callCnt := s.callCnt - 1 }

end RmdirLocal

section

variable (conf : Conf ξ)

/-- The error of an `rmdir`, which is executed if `err` is 0: nothing is there, or it is not empty. -/
def rmdirErr (dirs : DirStore ξ) (x : ξ) (err : Nat) : Nat :=
  if err = 0 then
    match dirs x with
    | none => 2
    | some 0 => 0
    | some _ => 39
  else err

variable (s : RmdirLocal ξ)

/-- `dht_selfheal_dir_xattr`, which ends in `dht_rmdir_selfheal_cbk`. -/
def rmdirHealXattr : RmdirLocal ξ :=
  let missing := s.layout.list.filter Entry.written
  if missing.length = 0 then s.unwind
  else { s with callCnt := missing.length }.wind (missing.filterMap Entry.xlator) .healSetxattr

/-- `dht_selfheal_restore`: `dht_selfheal_dir_mkdir`, forced. -/
def dhtSelfhealRestore : RmdirLocal ξ :=
  if s.layout.list.length = 0 then rmdirHealXattr s
  else { s with callCnt := s.layout.list.length }.wind (s.layout.list.filterMap Entry.xlator) .healMkdir

def dhtRmdirDo : RmdirLocal ξ :=
  if s.opRet = -1 then s.unwind
  else { s with callCnt := conf.subvolumeCnt }.wind conf.subvolumes .rmdir

/-- The end of `dht_rmdir_opendir_cbk` and `dht_rmdir_readdir_cbk`. -/
def rmdirChecked : RmdirLocal ξ :=
  let s := s.frameReturn
  if s.callCnt = 0 then dhtRmdirDo conf s else s

def dhtRmdirOpendirCbk (x : ξ) (err : Nat) : RmdirLocal ξ :=
  if err ≠ 0 then rmdirChecked conf s else s.wind [x] .readdir

def dhtRmdirReaddirCbk (opRet : Int) : RmdirLocal ξ :=
  rmdirChecked conf (if 2 < opRet then { s with opRet := -1, opErrno := enotempty } else s)

/-- What `dht_rmdir_cbk` notes of an answer. -/
def noteRmdir (err : Nat) : RmdirLocal ξ :=
  if err ≠ 0 then
    { s with opErrno := err, opRet := -1, needSelfheal := s.needSelfheal || (err : Int) != enoent }
  else s

def dhtRmdirCbk (err : Nat) : RmdirLocal ξ :=
  let s := (noteRmdir s err).frameReturn
  if s.callCnt = 0 then
    if s.needSelfheal then dhtSelfhealRestore s else s.unwind
  else s

variable [DecidableEq ξ]

/-- `dht_selfheal_dir_mkdir_cbk`. -/
def rmdirHealMkdirCbk (s : RmdirLocal ξ) (x : ξ) (err : Nat) : RmdirLocal ξ :=
  let list := if err = 0 ∨ err = eexist then setErr x (-1) s.layout.list else s.layout.list
  let s := { s with layout.list := list }.frameReturn
  if s.callCnt = 0 then rmdirHealXattr s else s

/-- `dht_selfheal_dir_xattr_cbk`. -/
def rmdirHealXattrCbk (s : RmdirLocal ξ) (x : ξ) (err : Nat) : RmdirLocal ξ :=
  let s := { s with layout.list := setErr x err s.layout.list }.frameReturn
  if s.callCnt = 0 then s.unwind else s

/-- The subvolume executes the `rmdir`, or fails. -/
def RmdirLocal.removed (s : RmdirLocal ξ) (x : ξ) (err : Nat) : RmdirLocal ξ :=
  { s with
    dirs := if err = 0 then Function.update s.dirs x none else s.dirs
    rmdirs := (x, err) :: s.rmdirs }

/-- The subvolume makes the directory, if there is none. -/
def RmdirLocal.made (s : RmdirLocal ξ) (x : ξ) (err : Nat) : RmdirLocal ξ :=
  { s with dirs := if err = 0 then Function.update s.dirs x ((s.dirs x).or (some 0)) else s.dirs }

def rmdirCallback (s : RmdirLocal ξ) : RmdirAnswer ξ → RmdirLocal ξ
  | .opendir x err => dhtRmdirOpendirCbk conf s x err
  | .readdir _ opRet => dhtRmdirReaddirCbk conf s opRet
  | .rmdir x err => dhtRmdirCbk (s.removed x (rmdirErr s.dirs x err)) (rmdirErr s.dirs x err)
  | .healMkdir x err => rmdirHealMkdirCbk (s.made x err) x (if err = 0 ∧ s.dirs x ≠ none then eexist else err)
  | .healSetxattr x err => rmdirHealXattrCbk s x err

/-- One step: a subvolume that was asked answers. -/
def rmdirStep (s : RmdirLocal ξ) (a : RmdirAnswer ξ) : Except DirFault (RmdirLocal ξ) :=
  if a.asked ∈ s.pending then .ok (rmdirCallback conf { s with pending := s.pending.erase a.asked } a)
  else .error .refused

omit [DecidableEq ξ] in
def dhtRmdir (layout : Layout ξ) (dirs : DirStore ξ) : RmdirLocal ξ :=
  RmdirLocal.wind ⟨0, euclean, conf.subvolumeCnt, false, layout, [], none, dirs, []⟩ conf.subvolumes .opendir

end

end GlusterFS.Dht
