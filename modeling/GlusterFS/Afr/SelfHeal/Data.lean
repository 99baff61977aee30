import GlusterFS.Afr.FdTransaction
import GlusterFS.Lib.Run
import GlusterFS.Lib.SparseFile

/-!
# `Afr.SelfHeal.Data` — copying the data of a file from its source (`afr_sh_algo_full`, `afr_sh_algo_diff`)

The file is copied in blocks, up to a window of them at a time. The loop of a block reads it from the source
and writes it to the sinks; the *diff* algorithm first asks the source and the sinks for checksums and writes
only where they differ. A block of zeros is not written if the source has holes. When all loops have returned
the sinks are truncated to the size of the source, and then the counters that accuse the sinks are taken back
(`afr_sh_data_erase_pending`).

The answers come in any order, one `HealAction` each. What is sent to a child is remembered beside the state
of the source (`summed`, `fetched`, `wrote`, `trimmed`); no function reads it.
-/

namespace GlusterFS.Afr

open GlusterFS.Storage
open Sparse (File)
open Function (update)

variable {n : Nat} {δ : Type}

/-! ## What a heal starts from -/

/-- The two members of `afr_self_heal_algorithms`. -/
inductive Algorithm where
  | full
  | diff
  deriving DecidableEq, Repr

/-- What `afr_sh_data_fix` has found out, and what the children do when the counters are erased. -/
structure HealConfig (n : Nat) (δ : Type) where
  algo : Algorithm
  source : Fin n
  sources : Fin n → Bool
  source_marked : sources source = true
  childUp : Fin n → Bool
  blockSize : Nat
  windowSize : Nat
  fileSize : Nat
  stBlocks : Nat
  strongChecksum : List UInt8 → δ
  xattr : Fin n → Option (Xattrs (Fin n))
  eraseFail : Fin n → Option (Nat × Errno)

namespace HealConfig

variable (cfg : HealConfig n δ)

/-- An active sink. -/
def sink (i : Fin n) : Bool := !cfg.sources i && cfg.childUp i

/-- The children that are asked for a checksum. -/
def summer (i : Fin n) : Bool := decide (i = cfg.source) || cfg.sink i

def fileHasHoles : Bool := decide (cfg.stBlocks * 512 < cfg.fileSize)

/-- `sh->success`, as `afr_sh_data_sync_prepare` leaves it. -/
def success (i : Fin n) : Bool := cfg.sink i || decide (i = cfg.source)

/-- The length of the block at `off`. -/
def want (off : Nat) : Nat := min cfg.blockSize (cfg.fileSize - off)

end HealConfig

/-! ## The state -/

inductive SubOp where
  | unsent
  | sent
  | complete
  | incomplete
  deriving DecidableEq, Repr

/-- What the loop of a block waits for. The `Bool`s are the children that have not answered, and for a read
    those that get the block. -/
inductive Stage (n : Nat) (δ : Type) where
  | checksum (pending : Fin n → Bool) (digest : Fin n → δ)
  | read (writeNeeded : Fin n → Bool)
  | write (data : List UInt8) (pending : Fin n → Bool)
  | returned

structure Loop (n : Nat) (δ : Type) where
  offset : Nat
  stage : Stage n δ

/-- Where the heal is: `finished` is `afr_sh_data_finish` with the counters left alone. -/
inductive HealPhase (n : Nat) where
  | copying
  | trimming (pending : Fin n → Bool)
  | erased
  | finished

/-- `afr_self_heal_t` and the private part of the algorithm. The loops are numbered as they are spawned. -/
structure Healing (n : Nat) (δ : Type) where
  offset : Nat
  loopsRunning : Nat
  opFailed : Bool
  spawned : Nat
  loops : Nat → Option (Loop n δ)
  phase : HealPhase n
  files : Fin n → File
  store : FileStore n
  summed : Nat → Fin n → SubOp
  fetched : Nat → SubOp
  wrote : Nat → Fin n → SubOp
  trimmed : Fin n → SubOp

def anyPending (pending : Fin n → Bool) : Bool := (List.finRange n).any pending

def sentTo (children : Fin n → Bool) (i : Fin n) : SubOp := if children i then .sent else .unsent

def answered (done : Bool) : SubOp := if done then .complete else .incomplete

/-! ## The locks -/

/-- What the lock phase keeps; `granted` are the children that granted a lock. -/
structure DataLocks (n : Nat) where
  lockedNodes : Fin n → Bool
  lockCount : Nat
  granted : List (Fin n)

section

variable (childUp : Fin (n + 1) → Bool) (servers : Nat) (grant : Fin (n + 1) → Fin (n + 1) → Bool)

/-- `afr_sh_data_lock_rec` and its callback for the children that are left. A lock is asked for with the index of its
    child as the cookie, but of child `i`, and `i` stays 0. The answer depends on both. -/
def afrShDataLockRec : List (Fin (n + 1)) → DataLocks (n + 1) → DataLocks (n + 1)
  | [], s => s
  | childIndex :: rest, s =>
    if childUp childIndex = false then afrShDataLockRec rest s
    else if s.lockCount = servers then s
    else
      let i : Fin (n + 1) := 0
      if grant i childIndex then afrShDataLockRec rest
        ⟨update s.lockedNodes childIndex true, s.lockCount + 1, s.granted ++ [i]⟩
      else afrShDataLockRec rest { s with lockedNodes := update s.lockedNodes childIndex false }

/-- `afr_sh_data_lock`, if the caller holds no lock. -/
def afrShDataLock : DataLocks (n + 1) :=
  afrShDataLockRec childUp servers grant (List.finRange (n + 1)) ⟨fun _ => false, 0, []⟩

end

/-- The children `afr_sh_data_unlock` sends an unlock to. -/
def afrShDataUnlock (s : DataLocks n) : List (Fin n) := (List.finRange n).filter s.lockedNodes

/-! ## Erasing the counters -/

/-- One row of `afr_sh_pending_to_delta`. A key that is missing leaves `pending` as the key before it did. -/
def deltaRow (xattr : Xattrs (Fin n)) (success : Fin n → Bool) (k : Fin 3) :
    List (Fin n) → Option Counters → List (Fin n × BitVec 32)
  | [], _ => []
  | j :: js, pending =>
    let pending' := (xattr j).or pending
    (j, if success j then -((pending'.map fun c => c k).getD 0) else 0) :: deltaRow xattr success k js pending'

/-- `afr_sh_delta_to_xattr`: the dictionary for one child. -/
def deltaToXattr (row : List (Fin n × BitVec 32)) (k : Fin 3) : List (Fin n × Counters) :=
  row.map fun x => (x.1, update (fun _ => 0) k x.2)

def afrShDataErasePending (cfg : HealConfig n δ) (store : FileStore n) : FileStore n := fun i =>
  match cfg.xattr i with
  | none => store i
  | some xattr =>
    let k := TransactionType.data.index
    (doXattrop (deltaToXattr (deltaRow xattr cfg.success k (List.finRange n) none) k) (cfg.eraseFail i)
      (store i)).1

/-! ## The loops -/

section

variable [Inhabited δ] (cfg : HealConfig n δ)

variable (s : Healing n δ)

/-- `sh_full_read_write` or `sh_diff_checksum` for the next block. -/
def spawn : Healing n δ :=
  let s' := { s with
    offset := s.offset + cfg.blockSize
    loopsRunning := s.loopsRunning + 1
    spawned := s.spawned + 1 }
  match cfg.algo with
  | .full => { s' with
      loops := update s.loops s.spawned (some ⟨s.offset, .read cfg.sink⟩)
      fetched := update s.fetched s.spawned .sent }
  | .diff => { s' with
      loops := update s.loops s.spawned (some ⟨s.offset, .checksum cfg.summer fun _ => default⟩)
      summed := update s.summed s.spawned (sentTo cfg.summer) }

/-- The part of the driver behind `spawn:`. The first argument is the room in the window. -/
def spawnLoops : Nat → Healing n δ → Healing n δ
  | 0, s => s
  | room + 1, s => if s.offset < cfg.fileSize then spawnLoops room (spawn cfg s) else s

def afrShDataTrimSinks : Healing n δ :=
  { s with phase := .trimming cfg.sink, trimmed := sentTo cfg.sink }

/-- `sh_full_loop_driver` and `sh_diff_loop_driver`. -/
def loopDriver : Healing n δ :=
  if s.opFailed then
    if s.loopsRunning = 0 then { s with phase := .finished } else s
  else if cfg.fileSize ≤ s.offset then
    if s.loopsRunning = 0 then afrShDataTrimSinks cfg s else s
  else spawnLoops cfg (cfg.windowSize - s.loopsRunning) s

/-- The stage of loop `b`. -/
def Healing.setStage (b off : Nat) (stage : Stage n δ) : Healing n δ :=
  { s with loops := update s.loops b (some ⟨off, stage⟩) }

/-- `sh_full_loop_return` and `sh_diff_loop_return`, up to the call of the driver. -/
def Healing.returned (b off : Nat) : Healing n δ :=
  { s.setStage b off .returned with loopsRunning := s.loopsRunning - 1 }

/-- `sh_full_loop_return` and `sh_diff_loop_return`. -/
def loopReturn (b off : Nat) : Healing n δ := loopDriver cfg (s.returned b off)

/-! ## The callbacks -/

/-- The first `k` bytes that are in the block at `off` of child `i`. -/
def readPart (i : Fin n) (off k : Nat) : List UInt8 := ((s.files i).read off cfg.blockSize).take k

/-- `posix_rchecksum` of what was read; the buffer is as long as the block and zero behind it. -/
def rchecksum (data : List UInt8) : δ := cfg.strongChecksum (data ++ List.replicate (cfg.blockSize - data.length) 0)

/-- The checksums that were read are kept. -/
def checksumAnswered (b off : Nat) (i : Fin n) (reply : Option Nat) : Healing n δ :=
  { s with
    opFailed := s.opFailed || reply.isNone
    summed := update s.summed b (update (s.summed b) i
      (answered (reply.any fun k => decide (((s.files i).read off cfg.blockSize).length ≤ k)))) }

/-- The checksum of a reply; an error leaves the old one. -/
def digestAnswered (off : Nat) (digest : Fin n → δ) (i : Fin n) (reply : Option Nat) : Fin n → δ :=
  match reply with
  | none => digest
  | some k => update digest i (rchecksum cfg (readPart cfg s i off k))

/-- The sinks whose checksum differs from that of the source. -/
def writeNeeded [DecidableEq δ] (digest : Fin n → δ) (i : Fin n) : Bool :=
  cfg.sink i && decide (digest i ≠ digest cfg.source)

def Healing.readSent (b : Nat) : Healing n δ :=
  { s with fetched := update s.fetched b .sent }

def shDiffChecksumCbk [DecidableEq δ] (s : Healing n δ) (b off : Nat) (pending : Fin n → Bool)
    (digest : Fin n → δ) (i : Fin n) (reply : Option Nat) : Healing n δ :=
  let s' := checksumAnswered cfg s b off i reply
  let pending' := update pending i false
  let digest' := digestAnswered cfg s off digest i reply
  if anyPending pending' then s'.setStage b off (.checksum pending' digest')
  else if anyPending (writeNeeded cfg digest') && !s'.opFailed then
    (s'.readSent b).setStage b off (.read (writeNeeded cfg digest'))
  else loopReturn cfg s' b off

/-- The bytes a read brought; an error brings none. -/
def readData (off : Nat) (reply : Option Nat) : List UInt8 :=
  (reply.map fun k => readPart cfg s cfg.source off k).getD []

def readAnswered (b off : Nat) (data : List UInt8) : Healing n δ :=
  { s with fetched := update s.fetched b (answered (decide (cfg.want off ≤ data.length))) }

/-- An empty read fails the full algorithm. -/
def readEmpty : Healing n δ :=
  { s with opFailed := s.opFailed || decide (cfg.algo = .full) }

def Healing.writesSent (b : Nat) (needed : Fin n → Bool) : Healing n δ :=
  { s with wrote := update s.wrote b (sentTo needed) }

/-- `sh_full_read_cbk` and `sh_diff_read_cbk`. They differ in what they make of an `op_ret` of 0 or -1: only
    the first takes it for a failure of the heal. -/
def shReadCbk (b off : Nat) (needed : Fin n → Bool) (reply : Option Nat) : Healing n δ :=
  let data := readData cfg s off reply
  let s' := readAnswered cfg s b off data
  if data = [] then loopReturn cfg (readEmpty cfg s') b off
  else if cfg.algo = .diff ∧ anyPending needed = false then loopReturn cfg s' b off
  else if cfg.fileHasHoles && data.all (fun x => x == 0) then loopReturn cfg s' b off
  else (s'.writesSent b needed).setStage b off (.write data needed)

def writeAnswered (b off : Nat) (data : List UInt8) (i : Fin n) (reply : Option Nat) : Healing n δ :=
  { s with
    opFailed := s.opFailed || reply.isNone
    files := update s.files i ((s.files i).write off (data.take (reply.getD 0)))
    wrote := update s.wrote b (update (s.wrote b) i
      (answered (reply.any fun k => decide (data.length ≤ k)))) }

/-- `sh_full_write_cbk` and `sh_diff_write_cbk`. -/
def shWriteCbk (b off : Nat) (data : List UInt8) (pending : Fin n → Bool) (i : Fin n)
    (reply : Option Nat) : Healing n δ :=
  let s' := writeAnswered s b off data i reply
  let pending' := update pending i false
  if anyPending pending' then s'.setStage b off (.write data pending') else loopReturn cfg s' b off

def trimAnswered (i : Fin n) (ok : Bool) : Healing n δ :=
  { s with
    files := if ok then update s.files i ((s.files i).truncate cfg.fileSize) else s.files
    trimmed := update s.trimmed i (answered ok) }

/-- `afr_sh_data_trim_cbk`: a failure is logged. -/
def afrShDataTrimCbk (pending : Fin n → Bool) (i : Fin n) (ok : Bool) : Healing n δ :=
  let s' := trimAnswered cfg s i ok
  let pending' := update pending i false
  if anyPending pending' then { s' with phase := .trimming pending' }
  else { s' with phase := .erased, store := afrShDataErasePending cfg s'.store }

/-! ## Runs -/

/-- An answer of a child. `none` is an `op_ret` of -1, `some k` says how many bytes were read or written at
    most. -/
inductive HealAction (n : Nat) where
  | checksum (b : Nat) (i : Fin n) (reply : Option Nat)
  | read (b : Nat) (reply : Option Nat)
  | write (b : Nat) (i : Fin n) (reply : Option Nat)
  | trim (i : Fin n) (ok : Bool)
  deriving DecidableEq, Repr

/-- One answer is taken in; there is none to what was not asked. -/
def healStep [DecidableEq δ] (s : Healing n δ) : HealAction n → Except Unit (Healing n δ)
  | .checksum b i reply =>
    match s.loops b with
    | some ⟨off, .checksum pending digest⟩ =>
      if pending i then .ok (shDiffChecksumCbk cfg s b off pending digest i reply) else .error ()
    | _ => .error ()
  | .read b reply =>
    match s.loops b with
    | some ⟨off, .read needed⟩ => .ok (shReadCbk cfg s b off needed reply)
    | _ => .error ()
  | .write b i reply =>
    match s.loops b with
    | some ⟨off, .write data pending⟩ =>
      if pending i then .ok (shWriteCbk cfg s b off data pending i reply) else .error ()
    | _ => .error ()
  | .trim i ok =>
    match s.phase with
    | .trimming pending => if pending i then .ok (afrShDataTrimCbk cfg s pending i ok) else .error ()
    | _ => .error ()

/-- `sh_priv` is all zeros, and nothing was sent. -/
def Healing.fresh (files : Fin n → File) (store : FileStore n) : Healing n δ where
  offset := 0
  loopsRunning := 0
  opFailed := false
  spawned := 0
  loops := fun _ => none
  phase := .copying
  files := files
  store := store
  summed := fun _ _ => .unsent
  fetched := fun _ => .unsent
  wrote := fun _ _ => .unsent
  trimmed := fun _ => .unsent

def afrShDataSyncPrepare (files : Fin n → File) (store : FileStore n) : Healing n δ :=
  if anyPending cfg.sink then loopDriver cfg (.fresh files store)
  else { Healing.fresh files store with phase := .finished }

end

end GlusterFS.Afr
