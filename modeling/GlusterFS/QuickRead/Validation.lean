import GlusterFS.Common.Timer

/-!
# `QuickRead.Validation` — how long cached content is served

`quick-read` keeps the content of a small file and the time it was installed or validated. A read that comes
`cache_timeout` seconds later first has an `fstat` compare the modification times. But the seconds that have elapsed
are returned as a `char`: only their lowest byte is compared, with its sign.
-/

namespace GlusterFS.QuickRead

open Common

/-- `qr_file_t`. -/
structure QrFile where
  content : Option (List UInt8)
  mtime : Int
  tv : Timeval

/-- What comes of a read. -/
inductive ReadEvent where
  | served (bytes : List UInt8)
  | forwarded
  | fstat
  | confirmed
  | changed
  | failed
  deriving DecidableEq

/-- The answer of an `fstat`: the modification time or an error, when it came and when the read is resumed. -/
structure FstatReply where
  mtime : Option Int
  tv : Timeval
  now : Timeval

def qrTimeElapsed (now then' : Timeval) : BitVec 8 := .ofInt 8 (now.sec - then'.sec)

variable (timeout : Int) (size offset : Nat)

def qrNeedValidation (file : QrFile) (now : Timeval) : Prop := timeout ≤ (qrTimeElapsed now file.tv).toInt
deriving Decidable

/-- `qr_readv`, and `qr_validate_cache_cbk` for every `fstat` that answers. -/
def qrReadv (file : QrFile) (now : Timeval) (replies : List FstatReply) : List ReadEvent :=
  match file.content with
  | none => [.forwarded]
  | some content =>
    if qrNeedValidation timeout file now then
      .fstat :: match replies with
      | [] => []
      | ⟨none, _, _⟩ :: _ => [.failed]
      | ⟨some mtime, tv, resumed⟩ :: replies =>
        if file.mtime = mtime then .confirmed :: qrReadv { file with tv } resumed replies
        else .changed :: qrReadv { file with content := none, tv } resumed replies
    -- the bytes of the `iovec`s, which are of a page each
    else [.served ((content.drop offset).take size)]

/-- Nothing is served before the first confirmation. -/
def Validated : List ReadEvent → Prop
  | .served _ :: _ => False
  | [] | .confirmed :: _ => True
  | _ :: events => Validated events

/-- A read that has sent an `fstat` only gets content that was confirmed. -/
theorem qrReadv_validated {file : QrFile} {now : Timeval} (h : qrNeedValidation timeout file now)
    (replies : List FstatReply) : Validated (qrReadv timeout size offset file now replies) := by
  unfold qrReadv
  split
  · trivial
  rw [if_pos h]
  split
  · trivial
  · trivial
  split
  · trivial
  unfold qrReadv
  trivial

/-- **Old content is only served after an `fstat`** if and only if the lowest byte of the seconds is in range. -/
theorem old_content_validated_iff (content : List UInt8) (mtime : Int) (tv now : Timeval) (hmin : 1 ≤ timeout)
    (_hmax : timeout ≤ 60) (_hold : timeout * 1000000 < (now.ts : Int) - tv.ts) :
    (∀ replies, Validated (qrReadv timeout size offset ⟨some content, mtime, tv⟩ now replies)) ↔
      timeout ≤ ((now.sec : Int) - tv.sec) % 256 ∧ ((now.sec : Int) - tv.sec) % 256 < 128 := by
  refine Iff.trans (b := qrNeedValidation timeout ⟨some content, mtime, tv⟩ now) ⟨?_, ?_⟩ ?_
  · intro hall
    by_contra hnot
    have hserved := hall []
    simp only [qrReadv, if_neg hnot] at hserved
    exact hserved
  · exact qrReadv_validated timeout size offset
  simp only [qrNeedValidation, qrTimeElapsed, BitVec.toInt_ofInt, Int.bmod_def]
  split <;> omega

/-- Content of two seconds is validated. -/
theorem two_seconds_validated : Validated (qrReadv 1 1 0 ⟨some [7], 0, ⟨0, 0⟩⟩ ⟨2, 0⟩ []) :=
  (old_content_validated_iff 1 1 0 [7] 0 ⟨0, 0⟩ ⟨2, 0⟩ (by decide) (by decide) (by decide)).mpr (by decide) []

/-- Content of more than four minutes is served as it is. -/
theorem four_minutes_served : qrReadv 1 1 0 ⟨some [7], 0, ⟨0, 0⟩⟩ ⟨256, 0⟩ [] = [.served [7]] := by
  decide +kernel

end GlusterFS.QuickRead
