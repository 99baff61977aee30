import GlusterFS.Locks.Types

/-!
# `Locks.Domain` — the lock domains of an inode (`get_domain`)

`dom_list` is searched by name; a domain that is missing is allocated and put at the head of the list. A
call works on one domain through a pointer: `putDomain` is what the list looks like afterwards.
-/

namespace GlusterFS.Locks

open List

variable {domList : List Dom} {volume : String} {d : Dom}

def allocateDomain (volume : String) : Dom :=
  { domain := volume, entrylkList := [], blockedEntrylks := [], inodelkList := [], blockedInodelks := [] }

/-- `get_domain`; `mem` says whether a new domain can be allocated. -/
def getDomain (domList : List Dom) (volume : String) (mem : Bool) : Option Dom :=
  match domList.find? fun d => d.domain == volume with
  | some d => some d
  | none => if mem then some (allocateDomain volume) else none

/-- Write through the pointer to the domain of `d`'s name. -/
def setDomain (d : Dom) : List Dom → List Dom
  | [] => []
  | x :: xs => if x.domain = d.domain then d :: xs else x :: setDomain d xs

/-- The list once the domain `get_domain` returned has become `d`. -/
def putDomain (domList : List Dom) (d : Dom) : List Dom :=
  match domList.find? fun x => x.domain == d.domain with
  | some _ => setDomain d domList
  | none => d :: domList

/-- The domain of a name, empty if there is none yet. -/
def domOf (domList : List Dom) (volume : String) : Dom :=
  (domList.find? fun d => d.domain == volume).getD (allocateDomain volume)

/-! ## Looking up and writing back -/

theorem getDomain_eq {mem : Bool} (h : getDomain domList volume mem = some d) : d = domOf domList volume := by
  unfold getDomain at h
  unfold domOf
  cases hf : domList.find? fun d => d.domain == volume with
  | some x =>
    rw [hf] at h
    cases h
    rfl
  | none =>
    rw [hf] at h
    cases mem with
    | true =>
      cases h
      rfl
    | false => cases h

theorem domOf_domain (domList : List Dom) (volume : String) : (domOf domList volume).domain = volume := by
  unfold domOf
  cases hf : domList.find? fun d => d.domain == volume with
  | some d => simpa using find?_some hf
  | none => rfl

theorem domOf_mem (domList : List Dom) (volume : String) :
    domOf domList volume ∈ domList ∨ domOf domList volume = allocateDomain volume := by
  unfold domOf
  cases hf : domList.find? fun d => d.domain == volume with
  | some d => exact .inl (mem_of_find?_eq_some hf)
  | none => exact .inr rfl

theorem mem_setDomain {x : Dom} (h : x ∈ setDomain d domList) : x = d ∨ x ∈ domList := by
  induction domList with
  | nil => cases h
  | cons y ys ih =>
    unfold setDomain at h
    split at h
    · rcases mem_cons.mp h with rfl | h
      · exact .inl rfl
      · exact .inr (by simp [h])
    rcases mem_cons.mp h with rfl | h
    · exact .inr (by simp)
    rcases ih h with rfl | h
    · exact .inl rfl
    · exact .inr (by simp [h])

theorem mem_putDomain {x : Dom} (h : x ∈ putDomain domList d) : x = d ∨ x ∈ domList := by
  unfold putDomain at h
  split at h
  · exact mem_setDomain h
  · exact mem_cons.mp h

theorem find?_setDomain_self (h : domList.find? (fun x => x.domain == d.domain) ≠ none) :
    (setDomain d domList).find? (fun x => x.domain == d.domain) = some d := by
  induction domList with
  | nil => exact absurd rfl h
  | cons y ys ih =>
    unfold setDomain
    by_cases hy : y.domain = d.domain
    · rw [if_pos hy, find?_cons_of_pos (by simp)]
    rw [if_neg hy, find?_cons_of_neg (by simpa using hy)]
    rw [find?_cons_of_neg (by simpa using hy)] at h
    exact ih h

theorem find?_setDomain_other (hv : volume ≠ d.domain) : (setDomain d domList).find? (fun x => x.domain == volume) =
      domList.find? fun x => x.domain == volume := by
  induction domList with
  | nil => rfl
  | cons y ys ih =>
    unfold setDomain
    by_cases hy : y.domain = d.domain
    · have hyv : ¬ y.domain = volume := fun h => hv (h.symm.trans hy)
      rw [if_pos hy, find?_cons_of_neg (by simpa using hv.symm), find?_cons_of_neg (by simpa using hyv)]
    rw [if_neg hy]
    by_cases hyv : y.domain = volume
    · rw [find?_cons_of_pos (by simpa using hyv), find?_cons_of_pos (by simpa using hyv)]
    rw [find?_cons_of_neg (by simpa using hyv), find?_cons_of_neg (by simpa using hyv)]
    exact ih

theorem domOf_putDomain_self (domList : List Dom) (d : Dom) : domOf (putDomain domList d) d.domain = d := by
  unfold domOf putDomain
  cases hf : domList.find? fun x => x.domain == d.domain with
  | some y =>
    rw [find?_setDomain_self (by rw [hf]; simp)]
    rfl
  | none =>
    rw [find?_cons_of_pos (by simp)]
    rfl

theorem domOf_putDomain_other (hv : volume ≠ d.domain) : domOf (putDomain domList d) volume = domOf domList volume := by
  unfold domOf putDomain
  cases hf : domList.find? fun x => x.domain == d.domain with
  | some y =>
    rw [find?_setDomain_other hv]
  | none =>
    rw [find?_cons_of_neg (by simpa using hv.symm)]

/-! ## Sums over the domains -/

/-- A quantity summed over all domains. -/
def domSum (m : Dom → Nat) (domList : List Dom) : Nat := (domList.map m).sum

theorem domSum_setDomain {m : Dom → Nat} {y : Dom} (h : domList.find? (fun x => x.domain == d.domain) = some y) :
    domSum m (setDomain d domList) + m y = domSum m domList + m d := by
  induction domList with
  | nil => cases h
  | cons x xs ih =>
    unfold setDomain
    by_cases hx : x.domain = d.domain
    · rw [find?_cons_of_pos (by simpa using hx)] at h
      cases h
      rw [if_pos hx]
      simp only [domSum, map_cons, sum_cons]
      omega
    rw [find?_cons_of_neg (by simpa using hx)] at h
    rw [if_neg hx]
    have hxs := ih h
    simp only [domSum, map_cons, sum_cons] at hxs ⊢
    omega

theorem domSum_putDomain {m : Dom → Nat} (hm : m (allocateDomain d.domain) = 0) :
    domSum m (putDomain domList d) + m (domOf domList d.domain) = domSum m domList + m d := by
  unfold putDomain domOf
  cases hf : domList.find? fun x => x.domain == d.domain with
  | some y => exact domSum_setDomain hf
  | none =>
    simp only [Option.getD_none, hm, domSum, map_cons, sum_cons]
    omega

end GlusterFS.Locks
