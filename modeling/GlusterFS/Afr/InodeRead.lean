import Mathlib.Data.List.FinRange

/-!
# `Afr.InodeRead` — reads that fail over to the other children

A read goes to the child recorded for the inode, and when it fails its callback asks the others in turn. The cursor
(`last_tried`) is in the frame's `local`, which `afr_access` allocates but never puts there.
-/

namespace GlusterFS.Afr

open List

variable {n : Nat} {ε α : Type}

inductive ReadEvent (n : Nat) (ε α : Type) where
  | asked (i : Fin n)
  | answered (reply : Except ε α)
  /-- The callback looks for the cursor and `local` is `NULL`. -/
  | crashed
  deriving DecidableEq

variable (children : Fin n → Except ε α) (readChild : Fin n)

/-- **The read fails over.** The recorded child is asked, then the others in their order, as long as they fail; the
    last one that is asked gives the answer, and a failure only when nobody is left. -/
def FailsOver (trace : List (ReadEvent n ε α)) : Prop :=
  ∃ tried last, trace = (tried ++ [last]).map .asked ++ [.answered (children last)] ∧
    tried ++ [last] <+: readChild :: (finRange n).filter (· ≠ readChild) ∧
    (∀ i ∈ tried, (children i).isOk = false) ∧
    ((children last).isOk = false → tried ++ [last] = readChild :: (finRange n).filter (· ≠ readChild))

variable {children readChild}

theorem FailsOver.head {trace : List (ReadEvent n ε α)} (h : FailsOver children readChild trace) :
    trace.head? = some (.asked readChild) ∧ .crashed ∉ trace := by
  obtain ⟨tried, last, rfl, hprefix, -⟩ := h
  refine ⟨?_, by simp⟩
  cases tried with
  | nil => simpa using hprefix
  | cons i tried =>
    obtain ⟨rfl, -⟩ := cons_prefix_cons.mp hprefix
    rfl

end GlusterFS.Afr
