import GlusterFS.Dht.Rename

/-!
# `Dht.Correctness.Rename` — a rename in which every request succeeds

While requests are under way, what the subvolumes have is determined by those that were not answered yet, in
whatever order the others were (`afterLinks`, `afterUnlinks`). In the end it does not depend on how the roles
coincide either: the data has the new name on the source's cached subvolume, and the destination's hashed
subvolume is the same one or has a link file to it.
-/

namespace GlusterFS.Dht

open Transition List

variable {ξ ν φ : Type} [DecidableEq ξ] [DecidableEq ν]

variable {x : ξ} {k : Nat} {s : Renaming ξ ν φ}

/-- **Before the rename**: the data of the source is on its cached subvolume and a link file on the hashed one,
    if that is another; and so for the destination, if there is one, which is another file. -/
structure Start (roles : Roles ξ) (old new : ν) (src dst : φ) (store : Store ξ ν φ) : Prop where
  names : old ≠ new
  files : src ≠ dst
  old : ∀ x, store x old = if x = roles.srcCached then some (.data src)
    else if x = roles.srcHashed then some (.linkfile (some roles.srcCached)) else none
  absent : roles.dstCached = none → ∀ x, store x new = none
  present : ∀ d, roles.dstCached = some d → ∀ x, store x new =
    if x = d then some (.data dst) else if x = roles.dstHashed then some (.linkfile (some d)) else none

section

variable (roles : Roles ξ) (old new : ν) (src : φ) (store : Store ξ ν φ)

/-- The links are made, but for the requests `p`. -/
def afterLinks (p : List (Request ξ)) : Store ξ ν φ := fun x n =>
  if some roles.srcCached ≠ roles.dstCached ∧ roles.makesLinkfile ∧ x = roles.dstHashed ∧ n = old then
    if .mknod x ∈ p then none else some (.linkfile (if .setxattr x ∈ p then none else some roles.srcCached))
  else if some roles.srcCached ≠ roles.dstCached ∧ roles.makesLink ∧ x = roles.srcCached ∧ n = new then
    if .link x ∈ p then none else some (.data src)
  else store x n

/-- The file has its new name and nothing else is left, but for the requests `p`. -/
def afterUnlinks (p : List (Request ξ)) : Store ξ ν φ := fun x n =>
  if n = old then if .unlinkOld x ∈ p then store x old else none
  else if n = new then
    if .unlinkNew x ∈ p then store x new
    else if x = roles.srcCached then some (.data src)
    else if x = roles.dstHashed then some (.linkfile (some roles.srcCached)) else none
  else store x n

end

variable {q : Request ξ}

variable {p : List (Request ξ)}

section

variable {roles : Roles ξ} {old new : ν} {src dst : φ} {store : Store ξ ν φ}

section

omit [DecidableEq ν]

theorem Start.linkfile_free (hstart : Start roles old new src dst store) (hmakes : roles.makesLinkfile) :
    store roles.dstHashed old = none := by
  rw [hstart.old, if_neg hmakes.2, if_neg hmakes.1]

theorem Start.link_free (hstart : Start roles old new src dst store)
    (hdiffer : some roles.srcCached ≠ roles.dstCached) (hmakes : roles.makesLink) :
    store roles.srcCached new = none := by
  cases hdst : roles.dstCached with
  | none => exact hstart.absent hdst _
  | some d =>
    have hd : roles.srcCached ≠ d := fun h => hdiffer (by rw [h, hdst])
    rw [hstart.present d hdst, if_neg hd, if_neg hmakes]

end

/-! ## The links -/

/-- The requests for links that may be under way together. -/
structure LinkRequests (roles : Roles ξ) (p : List (Request ξ)) : Prop where
  differ : some roles.srcCached ≠ roles.dstCached
  nodup : p.Nodup
  known : ∀ q ∈ p, (q = .mknod roles.dstHashed ∨ q = .setxattr roles.dstHashed) ∧ roles.makesLinkfile ∨
    q = .link roles.srcCached ∧ roles.makesLink
  single : .mknod roles.dstHashed ∈ p → .setxattr roles.dstHashed ∉ p

theorem LinkRequests.erase (hp : LinkRequests roles p) (q : Request ξ) : LinkRequests roles (p.erase q) where
  differ := hp.differ
  nodup := hp.nodup.erase q
  known := fun r hr => hp.known r (mem_of_mem_erase hr)
  single := fun hm hx => hp.single (mem_of_mem_erase hm) (mem_of_mem_erase hx)

theorem LinkRequests.xattr_asked (hp : LinkRequests roles p) (hq : .mknod roles.dstHashed ∈ p) :
    LinkRequests roles (p.erase (.mknod roles.dstHashed) ++ [.setxattr roles.dstHashed]) := by
  have hmakes : roles.makesLinkfile := by simpa using hp.known _ hq
  refine ⟨hp.differ, ?_, ?_, ?_⟩
  · rw [nodup_append]
    refine ⟨hp.nodup.erase _, by simp, ?_⟩
    rintro a ha b hb rfl
    rw [mem_singleton.mp hb] at ha
    exact hp.single hq (mem_of_mem_erase ha)
  · intro q hmem
    rcases mem_append.mp hmem with hmem | hmem
    · exact hp.known q (mem_of_mem_erase hmem)
    · exact Or.inl ⟨Or.inr (mem_singleton.mp hmem), hmakes⟩
  intro hmem
  simp [hp.nodup.mem_erase_iff] at hmem

/-- The old name on the destination's hashed subvolume, while its link file is made. -/
theorem afterLinks_linkfile (hdiffer : some roles.srcCached ≠ roles.dstCached)
    (hmakes : roles.makesLinkfile) : afterLinks roles old new src store p roles.dstHashed old =
      if .mknod roles.dstHashed ∈ p then none
      else some (.linkfile (if .setxattr roles.dstHashed ∈ p then none else some roles.srcCached)) := by
  simp [afterLinks, hdiffer, hmakes]

/-- The new name on the source's cached subvolume, while the hard link is made. -/
theorem afterLinks_link (hnames : old ≠ new)
    (hdiffer : some roles.srcCached ≠ roles.dstCached) (hmakes : roles.makesLink) :
    afterLinks roles old new src store p roles.srcCached new =
      if .link roles.srcCached ∈ p then none else some (.data src) := by
  simp [afterLinks, hdiffer, hmakes, hnames.symm]

theorem afterLinks_data (hstart : Start roles old new src dst store) :
    afterLinks roles old new src store p roles.srcCached old = some (.data src) := by
  have hnot : ¬ (roles.makesLinkfile ∧ roles.srcCached = roles.dstHashed) := by
    rintro ⟨hmakes, hsame⟩
    exact hmakes.2 hsame.symm
  have hold := hstart.old roles.srcCached
  simp only [if_true] at hold
  simp [afterLinks, hstart.names, hold]
  tauto

theorem set_eq {store store' : Store ξ ν φ} {n : ν} {o : Option (Obj ξ φ)} (hthere : store' x n = o)
    (helse : ∀ x' n', ¬ (x' = x ∧ n' = n) → store' x' n' = store x' n') : store.set x n o = store' := by
  funext x' n'
  unfold Store.set
  split
  next h =>
    obtain ⟨rfl, rfl⟩ := h
    exact hthere.symm
  next h => exact (helse x' n' h).symm

/-! ## The rename and the unlinks -/

/-- What is removed: the old name where it is left, and the new one where the destination's data is. -/
theorem mem_unlinks : q ∈ roles.unlinks ↔
    ((roles.srcCached ≠ roles.dstHashed ∧ some roles.srcCached ≠ roles.dstCached) ∧ q = .unlinkOld roles.srcCached) ∨
    ((roles.srcHashed ≠ roles.renameSubvol ∧ roles.srcHashed ≠ roles.srcCached) ∧ q = .unlinkOld roles.srcHashed) ∨
    ∃ d, roles.dstCached = some d ∧ (d ≠ roles.dstHashed ∧ d ≠ roles.srcCached) ∧ q = .unlinkNew d := by
  unfold Roles.unlinks
  cases roles.dstCached <;>
    simp only [mem_append, mem_ite_nil_right, mem_singleton, or_assoc] <;> simp

theorem unlinkOld_mem : .unlinkOld x ∈ roles.unlinks ↔
    ((roles.srcCached ≠ roles.dstHashed ∧ some roles.srcCached ≠ roles.dstCached) ∧ x = roles.srcCached) ∨
      ((roles.srcHashed ≠ roles.renameSubvol ∧ roles.srcHashed ≠ roles.srcCached) ∧ x = roles.srcHashed) := by
  simp [mem_unlinks]

theorem unlinkNew_mem : .unlinkNew x ∈ roles.unlinks ↔
    roles.dstCached = some x ∧ x ≠ roles.dstHashed ∧ x ≠ roles.srcCached := by
  simp [mem_unlinks]

/-- After the rename the old name is where it will be removed, and nowhere else. -/
theorem renamed_old (hstart : Start roles old new src dst store) (x : ξ) :
    (if x = roles.renameSubvol then none else afterLinks roles old new src store [] x old) =
      if .unlinkOld x ∈ roles.unlinks then store x old else none := by
  have hold := hstart.old x
  have hnames := hstart.names
  simp only [unlinkOld_mem]
  by_cases hsame : some roles.srcCached = roles.dstCached
  · have hsubvol : roles.renameSubvol = roles.srcCached := if_pos hsame
    have hlinks : afterLinks roles old new src store [] x old = store x old := by simp [afterLinks, hsame]
    rw [hlinks, hsubvol]
    grind
  have hsubvol : roles.renameSubvol = roles.dstHashed := if_neg hsame
  have hlinks : x ≠ roles.dstHashed → afterLinks roles old new src store [] x old = store x old := by
    intro hx
    simp [afterLinks, hx, hnames]
  rw [hsubvol]
  grind

/-- After the rename the new name is where it will be removed, and where it belongs. -/
theorem renamed_new (hstart : Start roles old new src dst store) (x : ξ) :
    (if x = roles.renameSubvol then afterLinks roles old new src store [] x old
      else afterLinks roles old new src store [] x new) = if .unlinkNew x ∈ roles.unlinks then store x new
      else if x = roles.srcCached then some (.data src)
      else if x = roles.dstHashed then some (.linkfile (some roles.srcCached)) else none := by
  have hold := hstart.old x
  have hnames := hstart.names
  simp only [unlinkNew_mem]
  by_cases hsame : some roles.srcCached = roles.dstCached
  · have hsubvol : roles.renameSubvol = roles.srcCached := if_pos hsame
    have hlinks : ∀ n, afterLinks roles old new src store [] x n = store x n := by simp [afterLinks, hsame]
    have hnew := hstart.present _ hsame.symm x
    rw [hlinks, hlinks, hsubvol]
    grind
  have hsubvol : roles.renameSubvol = roles.dstHashed := if_neg hsame
  have hthere : afterLinks roles old new src store [] roles.dstHashed old =
      if roles.dstHashed = roles.srcCached then some (.data src)
      else some (.linkfile (some roles.srcCached)) := by
    have hdst := hstart.old roles.dstHashed
    by_cases hmakes : roles.makesLinkfile
    · rw [afterLinks_linkfile hsame hmakes]
      simp [hmakes.2]
    have hlinks : afterLinks roles old new src store [] roles.dstHashed old = store roles.dstHashed old := by
      simp [afterLinks, hmakes, hnames]
    rw [hlinks, hdst]
    unfold Roles.makesLinkfile at hmakes
    grind
  have hnew : x ≠ roles.dstHashed → afterLinks roles old new src store [] x new =
      if x = roles.srcCached then some (.data src) else store x new := by
    intro hx
    unfold afterLinks Roles.makesLink
    grind
  rw [hsubvol]
  by_cases hx : x = roles.dstHashed
  · subst hx
    simp [hthere]
  by_cases hsrc : x = roles.srcCached
  · rw [if_neg hx, hnew hx, if_pos hsrc, if_neg (fun h => h.2.2 hsrc), if_pos hsrc]
  -- elsewhere the new name is the destination's, and its data is removed
  rw [if_neg hx, hnew hx]
  simp only [hx, hsrc, if_false, ne_eq, not_false_eq_true, and_true]
  cases hdst : roles.dstCached with
  | none => simp [hstart.absent hdst x]
  | some d =>
    rw [hstart.present d hdst x, if_neg hx]
    simp [eq_comm]

/-! ## The requests -/

variable [DecidableEq φ]

theorem exec_mknod (hp : LinkRequests roles p) (hq : .mknod roles.dstHashed ∈ p) :
    exec old new roles (afterLinks roles old new src store p) (.mknod roles.dstHashed) =
      some (afterLinks roles old new src store (p.erase (.mknod roles.dstHashed) ++ [.setxattr roles.dstHashed])) := by
  have hmakes : roles.makesLinkfile := by simpa using hp.known _ hq
  have hfree : afterLinks roles old new src store p roles.dstHashed old = none := by
    rw [afterLinks_linkfile hp.differ hmakes, if_pos hq]
  simp only [exec, hfree, Option.isNone_none, if_true]
  congr 1
  apply set_eq
  · rw [afterLinks_linkfile hp.differ hmakes]
    simp [hp.nodup.mem_erase_iff]
  intro x n hxn
  simp only [afterLinks, hp.nodup.mem_erase_iff, mem_append, mem_singleton]
  simp [hxn]

theorem exec_setxattr (hp : LinkRequests roles p) (hq : .setxattr roles.dstHashed ∈ p) :
    exec old new roles (afterLinks roles old new src store p) (.setxattr roles.dstHashed) =
      some (afterLinks roles old new src store (p.erase (.setxattr roles.dstHashed))) := by
  have hmakes : roles.makesLinkfile := by simpa using hp.known _ hq
  have hmade : .mknod roles.dstHashed ∉ p := fun h => hp.single h hq
  have hfile : afterLinks roles old new src store p roles.dstHashed old = some (.linkfile none) := by
    rw [afterLinks_linkfile hp.differ hmakes, if_neg hmade, if_pos hq]
  simp only [exec, hfile]
  congr 1
  apply set_eq
  · rw [afterLinks_linkfile hp.differ hmakes]
    simp [hp.nodup.mem_erase_iff, hmade]
  intro x n hxn
  simp only [afterLinks, hp.nodup.mem_erase_iff]
  simp [hxn]

section

variable (hstart : Start roles old new src dst store)
include hstart

theorem exec_link (hp : LinkRequests roles p) (hq : .link roles.srcCached ∈ p) :
    exec old new roles (afterLinks roles old new src store p) (.link roles.srcCached) =
      some (afterLinks roles old new src store (p.erase (.link roles.srcCached))) := by
  have hmakes : roles.makesLink := by simpa using hp.known _ hq
  have hfree : afterLinks roles old new src store p roles.srcCached new = none := by
    rw [afterLinks_link hstart.names hp.differ hmakes, if_pos hq]
  simp only [exec, afterLinks_data hstart, hfree]
  congr 1
  apply set_eq
  · rw [afterLinks_link hstart.names hp.differ hmakes]
    simp [hp.nodup.mem_erase_iff]
  intro x n hxn
  simp only [afterLinks, hp.nodup.mem_erase_iff]
  simp [hxn]

omit [DecidableEq φ] in
theorem renameSubvol_old : afterLinks roles old new src store [] roles.renameSubvol old =
      some (if roles.renameSubvol = roles.srcCached then .data src else .linkfile (some roles.srcCached)) := by
  have hnew := renamed_new hstart roles.renameSubvol
  have hsubvol : roles.renameSubvol = roles.srcCached ∨ roles.renameSubvol = roles.dstHashed := by
    unfold Roles.renameSubvol
    split <;> simp
  have hkept : .unlinkNew roles.renameSubvol ∉ roles.unlinks := by
    rw [unlinkNew_mem]
    rintro ⟨-, hdst, hsrc⟩
    exact hsubvol.elim hsrc hdst
  rw [if_pos rfl, if_neg hkept] at hnew
  rw [hnew]
  grind

theorem renameSubvol_new :
    sameFile (if roles.renameSubvol = roles.srcCached then .data src else .linkfile (some roles.srcCached))
      (afterLinks roles old new src store [] roles.renameSubvol new) = false := by
  by_cases hsubvol : roles.renameSubvol = roles.srcCached
  · -- no hard link was made there, and the destination is another file
    have hlinks : afterLinks roles old new src store [] roles.srcCached new = store roles.srcCached new := by
      unfold Roles.renameSubvol at hsubvol
      unfold afterLinks Roles.makesLink
      have hnames := hstart.names
      grind
    rw [if_pos hsubvol, hsubvol, hlinks]
    match hdst : roles.dstCached with
    | none => simp [hstart.absent hdst, sameFile]
    | some d =>
      rw [hstart.present d hdst]
      have hfiles := hstart.files
      split
      · simpa [sameFile] using hfiles
      · split <;> rfl
  rw [if_neg hsubvol]
  rfl

/-- **The rename.** -/
theorem exec_rename : exec old new roles (afterLinks roles old new src store []) (.rename roles.renameSubvol) =
      some (afterUnlinks roles old new src store roles.unlinks) := by
  have hnames := hstart.names
  simp only [exec, renameSubvol_old hstart, renameSubvol_new hstart]
  rw [← renameSubvol_old hstart, if_neg (by simp)]
  congr 1
  funext x n
  have hold := renamed_old hstart x
  have hnew := renamed_new hstart x
  unfold Store.set afterUnlinks
  by_cases hn : n = old
  · subst hn
    rw [if_pos rfl, ← hold]
    grind
  by_cases hn' : n = new
  · subst hn'
    rw [if_neg hn, if_pos rfl, ← hnew]
    grind
  · simp [hn, hn', afterLinks]

end

theorem exec_unlinkOld (hp : p.Nodup) (hq : .unlinkOld x ∈ p) (hthere : (store x old).isSome = true) :
    exec old new roles (afterUnlinks roles old new src store p) (.unlinkOld x) =
      some (afterUnlinks roles old new src store (p.erase (.unlinkOld x))) := by
  have hsome : (afterUnlinks roles old new src store p x old).isSome = true := by
    simpa [afterUnlinks, hq] using hthere
  simp only [exec, hsome, if_true]
  congr 1
  apply set_eq
  · simp [afterUnlinks, hp.mem_erase_iff]
  intro x' n hxn
  simp only [afterUnlinks, hp.mem_erase_iff]
  grind

theorem exec_unlinkNew (hnames : old ≠ new) (hp : p.Nodup)
    (hq : .unlinkNew x ∈ p) (hsrc : x ≠ roles.srcCached) (hdst : x ≠ roles.dstHashed)
    (hthere : (store x new).isSome = true) :
    exec old new roles (afterUnlinks roles old new src store p) (.unlinkNew x) =
      some (afterUnlinks roles old new src store (p.erase (.unlinkNew x))) := by
  have hsome : (afterUnlinks roles old new src store p x new).isSome = true := by
    simpa [afterUnlinks, hq, hnames.symm] using hthere
  simp only [exec, hsome, if_true]
  congr 1
  apply set_eq
  · simp [afterUnlinks, hp.mem_erase_iff, hnames.symm, hsrc, hdst]
  intro x' n hxn
  simp only [afterUnlinks, hp.mem_erase_iff]
  grind

/-! ## Stages -/

/-- A request for an xattr will follow. -/
def Request.isMknod : Request ξ → Bool
  | .mknod _ => true
  | _ => false

/-- The requests for links, with the one for the xattr that is still to come. -/
def linkWeight (p : List (Request ξ)) : Nat := p.length + p.countP Request.isMknod

/-- **The stages of a rename in which nothing fails**, after `k` answers. -/
inductive Stage (roles : Roles ξ) (old new : ν) (src : φ) (store : Store ξ ν φ) : Nat → Renaming ξ ν φ → Prop
  | links {k : Nat} {p : List (Request ξ)} (hp : LinkRequests roles p) (hne : p ≠ [])
      (hk : k + linkWeight p ≤ 3) :
      Stage roles old new src store k ⟨afterLinks roles old new src store p, true, p.length, p, none⟩
  | rename {k : Nat} (hk : k ≤ 3) : Stage roles old new src store k
        ⟨afterLinks roles old new src store [], true, 0, [.rename roles.renameSubvol], none⟩
  | unlinks {k : Nat} {p : List (Request ξ)} (hne : p ≠ []) (hnodup : p.Nodup)
      (hsub : ∀ q ∈ p, q ∈ roles.unlinks) (hk : k + p.length ≤ 7) :
      Stage roles old new src store k ⟨afterUnlinks roles old new src store p, true, p.length, p, none⟩
  | done {k : Nat} (hk : k ≤ 7) :
      Stage roles old new src store k ⟨afterUnlinks roles old new src store [], true, 0, [], some true⟩

theorem mem_links : q ∈ roles.links ↔
    (roles.makesLinkfile ∧ q = .mknod roles.dstHashed) ∨ (roles.makesLink ∧ q = .link roles.srcCached) := by
  simp only [Roles.links, mem_append, mem_ite_nil_right, mem_singleton]

theorem links_requests (hdiffer : some roles.srcCached ≠ roles.dstCached) : LinkRequests roles roles.links where
  differ := hdiffer
  nodup := by
    unfold Roles.links
    split <;> split <;> simp
  known := by
    intro q hq
    rcases mem_links.mp hq with ⟨hmakes, rfl⟩ | ⟨hmakes, rfl⟩
    · exact Or.inl ⟨Or.inl rfl, hmakes⟩
    · exact Or.inr ⟨rfl, hmakes⟩
  single := by
    intro _
    simp [mem_links]

section

omit [DecidableEq φ]

theorem afterLinks_links (hstart : Start roles old new src dst store) :
    afterLinks roles old new src store roles.links = store := by
  funext x n
  unfold afterLinks
  split
  next h =>
    obtain ⟨-, hmakes, rfl, rfl⟩ := h
    rw [if_pos (mem_links.mpr (Or.inl ⟨hmakes, rfl⟩)), hstart.linkfile_free hmakes]
  split
  next h =>
    obtain ⟨hdiffer, hmakes, rfl, rfl⟩ := h
    rw [if_pos (mem_links.mpr (Or.inr ⟨hmakes, rfl⟩)), hstart.link_free hdiffer hmakes]
  · rfl

theorem afterLinks_same (hsame : some roles.srcCached = roles.dstCached) (p : List (Request ξ)) :
    afterLinks roles old new src store p = store := by
  funext x n
  simp [afterLinks, hsame]

end

theorem linkWeight_erase (hq : q ∈ p) : linkWeight (p.erase q) + 1 ≤ linkWeight p := by
  have hlen := length_erase_of_mem hq
  have hpos := length_pos_of_mem hq
  have hcnt : (p.erase q).countP Request.isMknod ≤ p.countP Request.isMknod := erase_sublist.countP_le
  unfold linkWeight
  omega

theorem length_xattr_asked (hq : .mknod roles.dstHashed ∈ p) :
    (p.erase (.mknod roles.dstHashed) ++ [Request.setxattr roles.dstHashed]).length = p.length := by
  have hpos := length_pos_of_mem hq
  have herase := length_erase_of_mem hq
  simp only [length_append, length_singleton]
  omega

theorem linkWeight_xattr_asked (hq : .mknod roles.dstHashed ∈ p) :
    linkWeight (p.erase (.mknod roles.dstHashed) ++ [.setxattr roles.dstHashed]) + 1 ≤ linkWeight p := by
  have hlen := length_xattr_asked hq
  have hcnt : p.countP Request.isMknod = (p.erase (.mknod roles.dstHashed)).countP Request.isMknod + 1 := by
    rw [(perm_cons_erase hq).countP_eq, countP_cons_of_pos rfl]
  unfold linkWeight
  rw [hlen, countP_append]
  simp only [countP_singleton, Request.isMknod, Bool.false_eq_true, if_false]
  omega

section

omit [DecidableEq φ]

theorem Stage.start (hstart : Start roles old new src dst store) :
    Stage roles old new src store 0 (roles.dhtRenameCreateLinks store) := by
  unfold Roles.dhtRenameCreateLinks
  by_cases hsame : some roles.srcCached = roles.dstCached
  · rw [if_pos hsame]
    have hstage : Stage roles old new src store 0 _ := .rename (Nat.zero_le 3)
    rw [afterLinks_same hsame] at hstage
    exact hstage
  rw [if_neg hsame]
  have hstore := afterLinks_links hstart
  by_cases hlinks : roles.links = []
  · have hstage : Stage roles old new src store 0 _ := .rename (Nat.zero_le 3)
    rw [hlinks] at hstore
    rw [hstore] at hstage
    simpa [hlinks, Roles.dhtDoRename] using hstage
  have hweight : linkWeight roles.links ≤ 3 := by
    unfold linkWeight Roles.links
    split <;> split <;> simp [countP_cons, Request.isMknod]
  have hstage : Stage roles old new src store 0 _ := .links (links_requests hsame) hlinks (by omega)
  rw [hstore] at hstage
  have hlen : ¬ roles.links.length = 0 := by simpa using hlinks
  simpa only [if_neg hlen] using hstage

theorem Stage.mknod_answered (hp : LinkRequests roles p) (hk : k + linkWeight p ≤ 3) (hq : .mknod roles.dstHashed ∈ p) :
    Stage roles old new src store (k + 1)
      ⟨afterLinks roles old new src store (p.erase (.mknod roles.dstHashed) ++ [.setxattr roles.dstHashed]),
        true, p.length, p.erase (.mknod roles.dstHashed) ++ [.setxattr roles.dstHashed], none⟩ := by
  have hlen := length_xattr_asked hq
  have hweight := linkWeight_xattr_asked hq
  have hstage : Stage roles old new src store (k + 1) _ := .links (hp.xattr_asked hq) (by simp) (by omega)
  rw [hlen] at hstage
  exact hstage

/-- A link was made: the next one is waited for, or the rename is asked for. -/
theorem Stage.links_answered (hp : LinkRequests roles p) (hk : k + linkWeight p ≤ 3) (hq : q ∈ p) :
    Stage roles old new src store (k + 1) (roles.dhtRenameLinksCbk
      ⟨afterLinks roles old new src store (p.erase q), true, p.length, p.erase q, none⟩ true) := by
  have hlen := length_erase_of_mem hq
  have hweight := linkWeight_erase hq
  unfold Roles.dhtRenameLinksCbk
  simp only [Bool.and_true, if_true, ← hlen]
  by_cases hnil : p.erase q = []
  · simp only [hnil, length_nil, if_true, Roles.dhtDoRename, nil_append]
    exact .rename (by omega)
  have hlen' : ¬ (p.erase q).length = 0 := by simpa using hnil
  simp only [if_neg hlen']
  exact .links (hp.erase q) hnil (by omega)

/-- A name was removed: the next one is waited for, or the rename is done. -/
theorem Stage.unlinks_answered (hnd : p.Nodup)
    (hsub : ∀ q ∈ p, q ∈ roles.unlinks) (hk : k + p.length ≤ 7) (hq : q ∈ p) :
    Stage roles old new src store (k + 1) (Roles.dhtRenameUnlinkCbk
      ⟨afterUnlinks roles old new src store (p.erase q), true, p.length, p.erase q, none⟩) := by
  have hlen := length_erase_of_mem hq
  have hpos := length_pos_of_mem hq
  unfold Roles.dhtRenameUnlinkCbk
  simp only [← hlen]
  by_cases hnil : p.erase q = []
  · simp only [hnil, length_nil, if_true, Renaming.unwind]
    exact .done (by omega)
  have hlen' : ¬ (p.erase q).length = 0 := by simpa using hnil
  simp only [if_neg hlen']
  exact .unlinks hnil (hnd.erase q) (fun r hr => hsub r (mem_of_mem_erase hr)) (by omega)

theorem Stage.renamed (hk : k ≤ 3) : Stage roles old new src store (k + 1) (roles.dhtRenameCbk
    ⟨afterUnlinks roles old new src store roles.unlinks, true, 0, [], none⟩ true) := by
  have hnd : roles.unlinks.Nodup := by
    unfold Roles.unlinks
    split <;> split <;> split <;> try split
    all_goals simp_all [eq_comm]
  have hlen : roles.unlinks.length ≤ 3 := by
    unfold Roles.unlinks
    split <;> split <;> split <;> try split
    all_goals simp
  unfold Roles.dhtRenameCbk
  simp only [if_true, Nat.zero_add, nil_append]
  by_cases hnil : roles.unlinks = []
  · simp only [hnil, length_nil, if_true, Renaming.unwind]
    exact .done (by omega)
  have hlen' : ¬ roles.unlinks.length = 0 := by simpa using hnil
  simp only [if_neg hlen']
  exact .unlinks hnil hnd (fun _ h => h) (by omega)

end

theorem renameStep_ok {store' : Store ξ ν φ} (hq : q ∈ s.pending) (hexec : exec old new roles s.store q = some store') :
    roles.renameStep old new s (q, true) =
      .ok (roles.callback { s with store := store', pending := s.pending.erase q } q true) := by
  simp [Roles.renameStep, hq, hexec]

/-- **Every request that is under way can succeed, and leads to the next stage.** -/
theorem Stage.answer (hstart : Start roles old new src dst store)
    (hstage : Stage roles old new src store k s) (hq : q ∈ s.pending) :
    ∃ s', roles.renameStep old new s (q, true) = .ok s' ∧ Stage roles old new src store (k + 1) s' := by
  cases hstage with
  | @links p hp hne hk =>
    rcases hp.known q hq with ⟨rfl | rfl, hmakes⟩ | ⟨rfl, hmakes⟩
    · exact ⟨_, renameStep_ok hq (exec_mknod hp hq), Stage.mknod_answered hp hk hq⟩
    · exact ⟨_, renameStep_ok hq (exec_setxattr hp hq), Stage.links_answered hp hk hq⟩
    · exact ⟨_, renameStep_ok hq (exec_link hstart hp hq), Stage.links_answered hp hk hq⟩
  | rename hk =>
    obtain rfl := mem_singleton.mp hq
    refine ⟨_, renameStep_ok hq (exec_rename hstart), ?_⟩
    have herase : [Request.rename roles.renameSubvol].erase (.rename roles.renameSubvol) = [] := by simp
    simp only [Roles.callback, herase]
    exact Stage.renamed hk
  | @unlinks p hne hnd hsub hk =>
    rcases mem_unlinks.mp (hsub q hq) with ⟨-, rfl⟩ | ⟨-, rfl⟩ | ⟨x, hx, hkept, rfl⟩
    · have hthere : (store roles.srcCached old).isSome = true := by simp [hstart.old]
      exact ⟨_, renameStep_ok hq (exec_unlinkOld hnd hq hthere), Stage.unlinks_answered hnd hsub hk hq⟩
    · have hthere : (store roles.srcHashed old).isSome = true := by
        rw [hstart.old]
        split <;> simp
      exact ⟨_, renameStep_ok hq (exec_unlinkOld hnd hq hthere), Stage.unlinks_answered hnd hsub hk hq⟩
    have hthere : (store x new).isSome = true := by
      rw [hstart.present x hx x]
      simp
    exact ⟨_, renameStep_ok hq (exec_unlinkNew hstart.names hnd hq hkept.2 hkept.1 hthere),
      Stage.unlinks_answered hnd hsub hk hq⟩
  | done hk => simp at hq

/-- **Every run of answers goes through the stages.** -/
theorem rename_stage (hstart : Start roles old new src dst store) {as : List (Request ξ × Bool)} (hall : Along (roles.renameStep old new) (fun _ a => a.2 = true)
      (roles.dhtRenameCreateLinks store) as)
    (hrun : run (roles.renameStep old new) (roles.dhtRenameCreateLinks store) as = .ok s) :
    Stage roles old new src store as.length s := by
  have hstep : ∀ k (s : Renaming ξ ν φ) (a : Request ξ × Bool) (s' : Renaming ξ ν φ),
      Stage roles old new src store k s → a.2 = true → roles.renameStep old new s a = .ok s' →
        Stage roles old new src store (k + 1) s' := by
    rintro k s ⟨q, ok⟩ s' hstage rfl h
    have hq : q ∈ s.pending := by
      by_contra hnot
      simp [Roles.renameStep, hnot] at h
    obtain ⟨s1, h1, hnext⟩ := hstage.answer hstart hq
    rw [h1] at h
    cases h
    exact hnext
  simpa using run_invariant_counted hstep (Stage.start hstart) hall hrun

/-- **A rename in which every request succeeds.** It takes seven answers at most, and every request can succeed.
    Then the client is told so; the new name leads from its hashed subvolume to the data of the source; the old name
    is nowhere; the data of the destination has neither name anywhere; a link file of either name points where
    the data is; and no other name has changed. -/
theorem rename_succeeds (roles : Roles ξ) (old new : ν) (src dst : φ) (store : Store ξ ν φ)
    (hstart : Start roles old new src dst store) (as : List (Request ξ × Bool)) (s : Renaming ξ ν φ)
    (hall : Along (roles.renameStep old new) (fun _ a => a.2 = true) (roles.dhtRenameCreateLinks store) as)
    (hrun : run (roles.renameStep old new) (roles.dhtRenameCreateLinks store) as = .ok s) : as.length ≤ 7 ∧
    (s.result = none → ∃ q s', roles.renameStep old new s (q, true) = .ok s') ∧ ∀ r, s.result = some r → r = true ∧
      resolve s.store roles.dstHashed new = some src ∧ (∀ x, s.store x old = none) ∧
      (∀ x, s.store x old ≠ some (.data dst) ∧ s.store x new ≠ some (.data dst)) ∧
      (∀ x n linkto, n = old ∨ n = new → s.store x n = some (.linkfile linkto) →
        ∃ y, linkto = some y ∧ s.store y n = some (.data src)) ∧
      ∀ x n, n ≠ old → n ≠ new → s.store x n = store x n := by
  have hstage := rename_stage hstart hall hrun
  refine ⟨?_, ?_, ?_⟩
  · cases hstage with
    | links hp hne hk | rename hk | unlinks hne hnodup hsub hk => omega
    | done hk => exact hk
  · intro hresult
    have hpending : s.pending ≠ [] := by
      cases hstage with
      | links hp hne hk => exact hne
      | rename hk => simp
      | unlinks hne hnodup hsub hk => exact hne
      | done hk => cases hresult
    obtain ⟨q, hq⟩ := exists_mem_of_ne_nil _ hpending
    obtain ⟨s', h, -⟩ := hstage.answer hstart hq
    exact ⟨q, s', h⟩
  intro r hresult
  have hnames := hstart.names
  have hfiles := hstart.files
  cases hstage with
  | links hp hne hk | rename hk | unlinks hne hnodup hsub hk => cases hresult
  | done hk =>
    have hnew : ∀ x, afterUnlinks roles old new src store [] x new = if x = roles.srcCached then some (.data src)
        else if x = roles.dstHashed then some (.linkfile (some roles.srcCached)) else none := by
      intro x
      simp [afterUnlinks, hnames.symm]
    have hold : ∀ x, afterUnlinks roles old new src store [] x old = none := by
      intro x
      simp [afterUnlinks]
    dsimp only at hresult ⊢
    refine ⟨(Option.some.inj hresult).symm, ?_, hold, ?_, ?_, ?_⟩
    · by_cases hsame : roles.dstHashed = roles.srcCached
      all_goals simp [resolve, hnew, hsame]
    · intro x
      rw [hold, hnew]
      grind
    · rintro x n linkto (rfl | rfl) hlink
      · rw [hold] at hlink
        cases hlink
      refine ⟨roles.srcCached, ?_, ?_⟩
      · rw [hnew] at hlink
        grind
      · rw [hnew, if_pos rfl]
    intro x n hn hn'
    simp [afterUnlinks, hn, hn']

end

/-- Four subvolumes, one for each role. -/
def apart : Roles (Fin 4) := ⟨0, 1, 2, some 3⟩

/-- The source (`true`) and the destination (`false`), each with a link file. -/
def apartStore : Store (Fin 4) Bool Bool := fun x n =>
  if n then if x = 1 then some (.data true) else if x = 0 then some (.linkfile (some 1)) else none
  else if x = 3 then some (.data false) else if x = 2 then some (.linkfile (some 3)) else none

/-- The longest rename. -/
theorem rename_succeeds_apart :
    let as : List (Request (Fin 4) × Bool) := [(.mknod 2, true), (.link 1, true), (.setxattr 2, true),
      (.rename 2, true), (.unlinkNew 3, true), (.unlinkOld 1, true), (.unlinkOld 0, true)]
    ∃ s, run (apart.renameStep true false) (apart.dhtRenameCreateLinks apartStore) as = .ok s ∧
      s.result = some true ∧ resolve s.store 2 false = some true := by
  intro as
  have hstart : Start apart true false true false apartStore := by
    refine ⟨by decide, by decide, by decide, nofun, ?_⟩
    intro d hd
    obtain rfl := Option.some.inj hd
    decide
  refine ⟨_, rfl, rfl, ?_⟩
  have hall : Along (apart.renameStep true false) (fun _ a => a.2 = true)
      (apart.dhtRenameCreateLinks apartStore) as := by decide +kernel
  have hdone := (rename_succeeds apart true false true false apartStore hstart as _ hall rfl).2.2 true rfl
  exact hdone.2.1

end GlusterFS.Dht
