import Mathlib.Data.List.Forall2
import Mathlib.Data.List.Nodup

/-!
# `Afr.SelfHeal.Trash` — where an entry self-heal moves what it expunges (`make_trash_path`)

An object the source does not have is renamed into one directory on the child that has it. Its new name is its path,
with the slashes between the components made dashes; a dash that was in the path already looks the same.
-/

namespace GlusterFS.Afr

open List

/-- `GF_REPLICATE_TRASH_DIR`. -/
def trashDir : List Char := ".landfill".toList

/-- The loop of `make_trash_path`: `c` is tested, and the character behind it is rewritten. -/
def trashLoop (c : Char) : List Char → List Char
  | [] => [c]
  | d :: rest => c :: trashLoop (if d = '/' then '-' else d) rest

/-- `make_trash_path` of a path with a slash in it. -/
def makeTrashPath (path : List Char) : List Char :=
  let tp := trashDir ++ path
  match tp.dropWhile (· ≠ '/') with
  | slash :: c :: rest => tp.takeWhile (· ≠ '/') ++ slash :: trashLoop c rest
  | _ => tp

/-- Two paths that differ only in dashes for slashes, behind the first character of the first name. -/
def DashForSlash (p q : List Char) : Prop :=
  p.take 2 = q.take 2 ∧ Forall₂ (fun a b => a = b ∨ a ∈ ['/', '-'] ∧ b ∈ ['/', '-']) (p.drop 2) (q.drop 2)

theorem trashLoop_eq (c : Char) (rest : List Char) :
    trashLoop c rest = c :: rest.map fun d => if d = '/' then '-' else d := by
  induction rest generalizing c with
  | nil => rfl
  | cons d rest ih => rw [trashLoop, ih, map_cons]

theorem makeTrashPath_eq (path : List Char) : makeTrashPath ('/' :: path) =
    trashDir ++ '/' :: (path.take 1 ++ (path.drop 1).map fun d => if d = '/' then '-' else d) := by
  cases path with
  | nil => rfl
  | cons c rest =>
    show trashDir ++ '/' :: trashLoop c rest = _
    rw [trashLoop_eq]
    rfl

/-- **When two names in the trash are the same.** -/
theorem makeTrashPath_inj {p q : List Char} (hp : p.head? = some '/') (hq : q.head? = some '/') :
    makeTrashPath p = makeTrashPath q ↔ DashForSlash p q := by
  obtain ⟨p, rfl⟩ := head?_eq_some_iff.mp hp
  obtain ⟨q, rfl⟩ := head?_eq_some_iff.mp hq
  have hdash (a b : Char) : (if a = '/' then '-' else a) = (if b = '/' then '-' else b) ↔
      a = b ∨ a ∈ ['/', '-'] ∧ b ∈ ['/', '-'] := by
    grind
  rw [makeTrashPath_eq, makeTrashPath_eq, append_right_inj, cons_inj_right, DashForSlash]
  simp only [← hdash, take_succ_cons, drop_succ_cons, cons_inj_right]
  rw [← forall₂_map_left_iff (R := fun a b => a = if b = '/' then '-' else b), ← forall₂_map_right_iff (R := Eq),
    forall₂_eq_eq_eq]
  cases p with
  | nil => cases q <;> simp
  | cons c p => cases q <;> simp

/-- **Expunged objects keep apart** exactly if no two of their paths differ in dashes for slashes only. Then no rename
    replaces an object that was moved into the trash before. -/
theorem expunged_apart_iff (paths : List (List Char)) (habs : ∀ p ∈ paths, p.head? = some '/')
    (hdistinct : paths.Nodup) :
    (paths.map makeTrashPath).Nodup ∧
      (∀ pre p post, paths = pre ++ p :: post → makeTrashPath p ∉ pre.map makeTrashPath) ↔
    ∀ p ∈ paths, ∀ q ∈ paths, p ≠ q → ¬ DashForSlash p q := by
  have hinj : (paths.map makeTrashPath).Nodup ↔ ∀ p ∈ paths, ∀ q ∈ paths, p ≠ q → ¬ DashForSlash p q := by
    rw [nodup_map_iff_inj_on hdistinct]
    refine forall₂_congr fun p hp => forall₂_congr fun q hq => ?_
    rw [makeTrashPath_inj (habs p hp) (habs q hq), not_imp_not]
  rw [← hinj, and_iff_left_iff_imp]
  rintro hnodup pre p post rfl
  rw [map_append, map_cons] at hnodup
  exact (nodup_middle.mp hnodup).notMem ∘ mem_append_left _

/-- Two files of one directory. -/
theorem siblings_apart : (["/d/a".toList, "/d/b".toList].map makeTrashPath).Nodup := by
  refine ((expunged_apart_iff _ (by decide) (by decide)).mpr ?_).1
  simp [DashForSlash]

/-- A file in a directory, and one whose name has a dash: the second rename replaces what the first one moved. -/
theorem expunged_replaced : ∃ paths : List (List Char), (∀ p ∈ paths, p.head? = some '/') ∧ paths.Nodup ∧
    ¬ (paths.map makeTrashPath).Nodup :=
  ⟨["/d/a".toList, "/d-a".toList], by decide, by decide, by decide⟩

end GlusterFS.Afr
