import GlusterFS.Dht.Correctness.Rename

/-!
# `Dht.Correctness.RenameFailure` — a rename in which one request fails

A request that fails leaves the store as if it had not been answered, so `afterLinks` describes it here too: the
request that failed stays among those that are missing (`Stopped`). The client is told of the failure, but
nothing is taken back. The link file and the hard link that were made for the rename stay, and both names lead
where they led before.
-/

namespace GlusterFS.Dht

open Transition List

variable {ξ ν φ : Type} [DecidableEq ξ] [DecidableEq ν]

variable {k : Nat} {s s' : Renaming ξ ν φ}

def Request.isUnlink : Request ξ → Bool
  | .unlinkOld _ => true
  | .unlinkNew _ => true
  | _ => false

/-- Every name of a subvolume was there before. -/
def NothingNew (before after : Store ξ ν φ) : Prop := ∀ x n, after x n ≠ none → before x n ≠ none

variable {q : Request ξ}

variable {p : List (Request ξ)}

section

variable {roles : Roles ξ} {old new : ν} {src dst : φ} {store : Store ξ ν φ}

/-! ## What the links change -/

omit [DecidableEq ξ] in
theorem LinkRequests.perm {p' : List (Request ξ)} (h : p.Perm p') (hp : LinkRequests roles p) :
    LinkRequests roles p' where
  differ := hp.differ
  nodup := h.nodup_iff.mp hp.nodup
  known := fun q hq => hp.known q (h.mem_iff.mpr hq)
  single := fun hm hx => hp.single (h.mem_iff.mpr hm) (h.mem_iff.mpr hx)

theorem afterLinks_perm {p' : List (Request ξ)} (h : p.Perm p') :
    afterLinks roles old new src store p = afterLinks roles old new src store p' := by
  funext x n
  simp only [afterLinks, h.mem_iff]

section

variable (hstart : Start roles old new src dst store)
include hstart

/-- **Which links are new**: all that were asked for, unless the request for them is missing. -/
theorem nothingNew_afterLinks : NothingNew store (afterLinks roles old new src store p) ↔
      (some roles.srcCached ≠ roles.dstCached →
        (roles.makesLinkfile → .mknod roles.dstHashed ∈ p) ∧ (roles.makesLink → .link roles.srcCached ∈ p)) := by
  constructor
  · intro hnothing hdiffer
    constructor
    · intro hmakes
      by_contra hmade
      apply hnothing roles.dstHashed old _ (hstart.linkfile_free hmakes)
      simp [afterLinks_linkfile hdiffer hmakes, hmade]
    intro hmakes
    by_contra hmade
    apply hnothing roles.srcCached new _ (hstart.link_free hdiffer hmakes)
    simp [afterLinks_link hstart.names hdiffer hmakes, hmade]
  intro hmiss x n hsome
  unfold afterLinks at hsome
  split at hsome
  next h =>
    obtain ⟨hdiffer, hmakes, rfl, -⟩ := h
    rw [if_pos ((hmiss hdiffer).1 hmakes)] at hsome
    exact absurd rfl hsome
  split at hsome
  next h =>
    obtain ⟨hdiffer, hmakes, rfl, -⟩ := h
    rw [if_pos ((hmiss hdiffer).2 hmakes)] at hsome
    exact absurd rfl hsome
  · exact hsome

/-- The links lead nobody astray: the old name is where it was. -/
theorem resolve_old : resolve (afterLinks roles old new src store p) roles.srcHashed old = some src := by
  have hhashed : afterLinks roles old new src store p roles.srcHashed old = store roles.srcHashed old := by
    have hnot : ¬ (roles.makesLinkfile ∧ roles.srcHashed = roles.dstHashed) := fun h => h.1.1 h.2.symm
    unfold afterLinks
    rw [if_neg (fun h => hnot ⟨h.2.1, h.2.2.1⟩), if_neg (fun h => hstart.names h.2.2.2)]
  unfold resolve
  rw [hhashed, hstart.old]
  by_cases hsame : roles.srcHashed = roles.srcCached
  · simp [hsame]
  · simp [hsame, afterLinks_data hstart]

theorem resolve_new {d : ξ} (hdst : roles.dstCached = some d) :
    resolve (afterLinks roles old new src store p) roles.dstHashed new = some dst := by
  -- the hard link is on neither of the two subvolumes
  have hkept : ∀ x, x = roles.dstHashed ∨ x = d → afterLinks roles old new src store p x new = store x new := by
    intro x hx
    unfold afterLinks
    rw [if_neg (fun h => hstart.names h.2.2.2.symm), if_neg]
    rintro ⟨hdiffer, hmakes, rfl, -⟩
    rcases hx with hx | rfl
    · exact hmakes hx
    · exact hdiffer hdst.symm
  unfold resolve
  rw [hkept _ (Or.inl rfl), hstart.present d hdst]
  by_cases hsame : roles.dstHashed = d
  · simp [hsame]
  · simp [hsame, hkept d (Or.inr rfl), hstart.present d hdst]

end

/-! ## The stages after a failure -/

variable [DecidableEq φ]

/-- **The stages after the request `q` has failed**, after `k` answers. -/
inductive Stopped (roles : Roles ξ) (old new : ν) (src : φ) (store : Store ξ ν φ) :
    Request ξ → Nat → Renaming ξ ν φ → Prop
  | links {q : Request ξ} {k : Nat} {p : List (Request ξ)} (hp : LinkRequests roles (q :: p)) (hne : p ≠ [])
      (hk : k + linkWeight p ≤ 3) : Stopped roles old new src store q k
        ⟨afterLinks roles old new src store (q :: p), false, p.length, p, none⟩
  | unwound {q : Request ξ} {k : Nat} (hp : LinkRequests roles [q]) (hk : k ≤ 3) : Stopped roles old new src store q k
        ⟨afterLinks roles old new src store [q], false, 0, [], some false⟩
  | rename {k : Nat} (hk : k ≤ 4) : Stopped roles old new src store (.rename roles.renameSubvol) k
        ⟨afterLinks roles old new src store [], false, 0, [], some false⟩

omit [DecidableEq φ] in
/-- `dht_rename_links_cbk` after a failure: the next answer is waited for, or the client is told. -/
theorem Stopped.links_answered {ok : Bool} {opRet : Bool}
    (hp : LinkRequests roles (q :: p)) (hk : k + linkWeight p ≤ 3) (hfail : (opRet && ok) = false) :
    Stopped roles old new src store q k (roles.dhtRenameLinksCbk
      ⟨afterLinks roles old new src store (q :: p), opRet, p.length + 1, p, none⟩ ok) := by
  unfold Roles.dhtRenameLinksCbk
  simp only [hfail, Nat.add_sub_cancel]
  by_cases hnil : p = []
  · subst hnil
    exact .unwound hp (by omega)
  have hlen : ¬ p.length = 0 := by simpa using hnil
  simp only [if_neg hlen]
  exact .links hp hnil hk

theorem renameStep_failed (h : roles.renameStep old new s (q, false) = .ok s') :
    q ∈ s.pending ∧ s' = roles.callback { s with pending := s.pending.erase q } q false := by
  simp only [Roles.renameStep] at h
  split at h
  next hq => exact ⟨hq, (Except.ok.inj h).symm⟩
  · cases h

/-- **The request fails.** -/
theorem Stopped.failed (hstage : Stage roles old new src store k s) (hearly : ∀ r ∈ s.pending, r.isUnlink = false)
    (h : roles.renameStep old new s (q, false) = .ok s') : Stopped roles old new src store q (k + 1) s' := by
  obtain ⟨hq, rfl⟩ := renameStep_failed h
  cases hstage with
  | @links p hp hne hk =>
    have hperm : p.Perm (q :: p.erase q) := perm_cons_erase hq
    have hweight : linkWeight (p.erase q) + 1 ≤ linkWeight p := linkWeight_erase hq
    have hstop : Stopped roles old new src store q (k + 1) (roles.dhtRenameLinksCbk
        ⟨afterLinks roles old new src store (q :: p.erase q), true, (p.erase q).length + 1, p.erase q, none⟩
        false) :=
      .links_answered (hp.perm hperm) (by omega) rfl
    have hlen : (p.erase q).length + 1 = p.length := hperm.length_eq.symm
    rw [← afterLinks_perm hperm, hlen] at hstop
    rcases hp.known q hq with ⟨rfl | rfl, -⟩ | ⟨rfl, -⟩ <;> exact hstop
  | rename hk =>
    obtain rfl := mem_singleton.mp hq
    have herase : [Request.rename roles.renameSubvol].erase (.rename roles.renameSubvol) = [] := by simp
    simp only [Roles.callback, Roles.dhtRenameCbk, herase]
    exact .rename (by omega)
  | @unlinks p hne hnd hsub hk =>
    -- not before the rename
    have hunlink := hearly q hq
    rcases mem_unlinks.mp (hsub q hq) with ⟨-, rfl⟩ | ⟨-, rfl⟩ | ⟨x, -, -, rfl⟩ <;> cases hunlink
  | done hk => cases hq

/-- **Every request that is under way after a failure can succeed**, and the rename stays stopped. -/
theorem Stopped.answer (hstart : Start roles old new src dst store) (hstop : Stopped roles old new src store q k s) {r : Request ξ}
    (hr : r ∈ s.pending) :
    ∃ s', roles.renameStep old new s (r, true) = .ok s' ∧ Stopped roles old new src store q (k + 1) s' := by
  cases hstop with
  | @links _ _ p hp hne hk =>
    have hr : r ∈ p := hr
    have hneq : q ≠ r := fun h => (nodup_cons.mp hp.nodup).1 (h ▸ hr)
    have herase : (q :: p).erase r = q :: p.erase r := erase_cons_tail (by simpa using hneq)
    have hmem : r ∈ q :: p := mem_cons_of_mem q hr
    have hlen : (p.erase r).length + 1 = p.length := (perm_cons_erase hr).length_eq.symm
    have hweight := linkWeight_erase hr
    rcases hp.known r hmem with ⟨rfl | rfl, -⟩ | ⟨rfl, -⟩
    · have hexec : exec old new roles (afterLinks roles old new src store (q :: p)) _ = _ := exec_mknod hp hmem
      have hasked := hp.xattr_asked hmem
      rw [herase, cons_append] at hexec hasked
      have hweight := linkWeight_xattr_asked hr
      have hstop : Stopped roles old new src store q (k + 1) _ := .links hasked (by simp) (by omega)
      rw [length_xattr_asked hr] at hstop
      exact ⟨_, renameStep_ok hr hexec, hstop⟩
    · have hexec : exec old new roles (afterLinks roles old new src store (q :: p)) _ = _ :=
        exec_setxattr hp hmem
      have hrest := hp.erase (.setxattr roles.dstHashed)
      rw [herase] at hexec hrest
      refine ⟨_, renameStep_ok hr hexec, ?_⟩
      simp only [Roles.callback, ← hlen]
      exact .links_answered hrest (by omega) rfl
    have hexec := exec_link hstart hp hmem
    have hrest := hp.erase (.link roles.srcCached)
    rw [herase] at hexec hrest
    refine ⟨_, renameStep_ok hr hexec, ?_⟩
    simp only [Roles.callback, ← hlen]
    exact .links_answered hrest (by omega) rfl
  | unwound hp hk | rename hk => cases hr

/-! ## Runs -/

theorem early_step (hearly : ∀ r ∈ s.pending, r.isUnlink = false)
    (hq : ∀ x, q ≠ .rename x) (h : roles.renameStep old new s (q, true) = .ok s') :
    ∀ r ∈ s'.pending, r.isUnlink = false := by
  simp only [Roles.renameStep] at h
  split at h
  next hmem =>
    split at h
    · cases h
    next store' hexec =>
      obtain rfl := Except.ok.inj h
      have hrest : ∀ r ∈ s.pending.erase q, r.isUnlink = false := fun r hr => hearly r (mem_of_mem_erase hr)
      have hlinks : ∀ r ∈ (roles.dhtRenameLinksCbk
          { s with store := store', pending := s.pending.erase q } true).pending, r.isUnlink = false := by
        unfold Roles.dhtRenameLinksCbk
        dsimp only
        split
        · split
          · exact forall_mem_append.mpr ⟨hrest, forall_mem_singleton.mpr rfl⟩
          · exact hrest
        · exact hrest
      cases q with
      | mknod x =>
        exact forall_mem_append.mpr ⟨hrest, forall_mem_singleton.mpr rfl⟩
      | setxattr x | link x => exact hlinks
      | rename x => exact absurd rfl (hq x)
      | unlinkOld x | unlinkNew x => cases hearly _ hmem
  · cases h

omit [DecidableEq ν] [DecidableEq φ] in
theorem early_start (store : Store ξ ν φ) : ∀ r ∈ (roles.dhtRenameCreateLinks store).pending, r.isUnlink = false := by
  have hrename : ∀ r ∈ [Request.rename roles.renameSubvol], r.isUnlink = false := by
    intro r hr
    rw [mem_singleton.mp hr]
    rfl
  unfold Roles.dhtRenameCreateLinks
  dsimp only
  split
  · exact hrename
  split
  next hnil =>
    rw [length_eq_zero_iff] at hnil
    simpa [Roles.dhtDoRename, hnil] using hrename
  · intro r hr
    rcases mem_links.mp hr with ⟨-, rfl⟩ | ⟨-, rfl⟩ <;> rfl

/-- **Every run with one failure before the rename goes through these stages.** -/
theorem rename_stopped (hstart : Start roles old new src dst store) {pre post : List (Request ξ × Bool)} (hpre : ∀ a ∈ pre, a.2 = true) (hpost : ∀ a ∈ post, a.2 = true)
    (hbefore : ∀ x, (.rename x, true) ∉ pre)
    (hrun : run (roles.renameStep old new) (roles.dhtRenameCreateLinks store) (pre ++ (q, false) :: post) = .ok s) :
    Stopped roles old new src store q (pre.length + 1 + post.length) s := by
  obtain ⟨s1, hrun1, hrun2⟩ := run_append_ok.mp hrun
  obtain ⟨s2, hfail, hrun3⟩ := run_cons_ok.mp hrun2
  have hstage := rename_stage hstart (along_of_forall fun a ha _ => hpre a ha) hrun1
  have hearly : ∀ r ∈ s1.pending, r.isUnlink = false := by
    have hall : Along (roles.renameStep old new) (fun _ a => a.2 = true ∧ ∀ x, a.1 ≠ .rename x)
        (roles.dhtRenameCreateLinks store) pre := by
      apply along_of_forall
      rintro ⟨r, ok⟩ ha _
      obtain rfl : ok = true := hpre _ ha
      exact ⟨rfl, fun x hx => hbefore x (hx ▸ ha)⟩
    apply run_invariant (I := fun s => ∀ r ∈ s.pending, r.isUnlink = false) _ (early_start store) hall hrun1
    rintro s ⟨r, ok⟩ s' hearly ⟨rfl, hr⟩ h
    exact early_step hearly hr h
  have hstop := Stopped.failed hstage hearly hfail
  apply run_invariant_counted _ hstop (along_of_forall fun a ha _ => hpost a ha) hrun3
  rintro k s ⟨r, ok⟩ s' hstop rfl h
  have hr : r ∈ s.pending := by
    by_contra hnot
    simp [Roles.renameStep, hnot] at h
  obtain ⟨s3, h3, hnext⟩ := hstop.answer hstart hr
  rw [h3] at h
  cases h
  exact hnext

omit [DecidableEq ξ] in
theorem makesLink_of_makesLinkfile (h : roles.makesLinkfile) : roles.makesLink := h.2.symm

omit [DecidableEq ν] [DecidableEq φ] in
theorem first_requests (store : Store ξ ν φ) : (roles.dhtRenameCreateLinks store).pending =
    if some roles.srcCached = roles.dstCached ∨ ¬ roles.makesLink then [.rename roles.renameSubvol]
    else roles.links := by
  unfold Roles.dhtRenameCreateLinks
  by_cases hsame : some roles.srcCached = roles.dstCached
  · simp [hsame, Roles.dhtDoRename]
  by_cases hmakes : roles.makesLink
  · have hne : roles.links.length ≠ 0 := by simp [Roles.links, hmakes]
    simp [hsame, hmakes, hne]
  have hnone : roles.links = [] := by
    simp [Roles.links, hmakes, mt makesLink_of_makesLinkfile hmakes]
  simp [hsame, hmakes, hnone, Roles.dhtDoRename]

omit [DecidableEq φ] in
/-- **Nothing is left exactly if nothing else was asked for.** -/
theorem Stopped.nothingNew_iff (hstart : Start roles old new src dst store) (hstop : Stopped roles old new src store q k s) (hres : s.result ≠ none) :
    NothingNew store s.store ↔ (roles.dhtRenameCreateLinks store).pending = [q] := by
  rw [first_requests]
  cases hstop with
  | links hp hne hk => exact absurd rfl hres
  | unwound hp hk =>
    have hdiffer := hp.differ
    rw [nothingNew_afterLinks hstart]
    rcases hp.known q mem_cons_self with ⟨hq, hmakes⟩ | ⟨rfl, hmakes⟩
    · have hlink := makesLink_of_makesLinkfile hmakes
      rcases hq with rfl | rfl <;> simp [hdiffer, hmakes, hlink, Roles.links]
    · by_cases hlinkfile : roles.makesLinkfile <;> simp [hdiffer, hmakes, hlinkfile, Roles.links]
  | rename hk =>
    rw [nothingNew_afterLinks hstart]
    by_cases hsame : some roles.srcCached = roles.dstCached
    · simp [hsame]
    by_cases hmakes : roles.makesLink
    · by_cases hlinkfile : roles.makesLinkfile <;> simp [hsame, hmakes, hlinkfile, Roles.links]
    · simp [hsame, hmakes, mt makesLink_of_makesLinkfile hmakes]

/-- **A rename in which one request fails before the rename is done.** There are four answers at most, and every
    request can succeed. Then the client is told of the error, and the old name, the new one if it was there, and
    every other name lead where they did. Names are left over that were not there before, unless the request
    that failed was the only one. -/
theorem rename_fails (roles : Roles ξ) (old new : ν) (src dst : φ) (store : Store ξ ν φ)
    (hstart : Start roles old new src dst store) (pre post : List (Request ξ × Bool)) (q : Request ξ)
    (s : Renaming ξ ν φ) (hpre : ∀ a ∈ pre, a.2 = true) (hpost : ∀ a ∈ post, a.2 = true)
    (hbefore : ∀ x, (.rename x, true) ∉ pre)
    (hrun : run (roles.renameStep old new) (roles.dhtRenameCreateLinks store) (pre ++ (q, false) :: post) = .ok s) :
    pre.length + 1 + post.length ≤ 4 ∧ (s.result = none → ∃ r s', roles.renameStep old new s (r, true) = .ok s') ∧
    ∀ r, s.result = some r → r = false ∧ resolve s.store roles.srcHashed old = some src ∧
      (roles.dstCached ≠ none → resolve s.store roles.dstHashed new = some dst) ∧
      (∀ x n, n ≠ old → n ≠ new → s.store x n = store x n) ∧
      (NothingNew store s.store ↔ (roles.dhtRenameCreateLinks store).pending = [q]) := by
  have hstopped := rename_stopped hstart hpre hpost hbefore hrun
  refine ⟨?_, ?_, ?_⟩
  · cases hstopped with
    | links hp hne hk | unwound hp hk => omega
    | rename hk => exact hk
  · intro hresult
    have hpending : s.pending ≠ [] := by
      cases hstopped with
      | links hp hne hk => exact hne
      | unwound hp hk | rename hk => cases hresult
    obtain ⟨r, hr⟩ := exists_mem_of_ne_nil _ hpending
    obtain ⟨s', h, -⟩ := hstopped.answer hstart hr
    exact ⟨r, s', h⟩
  intro r hresult
  have hiff := hstopped.nothingNew_iff hstart (by simp [hresult])
  have hlinks : r = false ∧ ∃ p, s.store = afterLinks roles old new src store p := by
    cases hstopped with
    | links hp hne hk => cases hresult
    | unwound hp hk | rename hk => exact ⟨(Option.some.inj hresult).symm, _, rfl⟩
  obtain ⟨hfalse, p, hstore⟩ := hlinks
  refine ⟨hfalse, ?_, ?_, ?_, hiff⟩
  · rw [hstore]
    exact resolve_old hstart
  · intro hdst
    obtain ⟨d, hd⟩ := Option.ne_none_iff_exists'.mp hdst
    rw [hstore]
    exact resolve_new hstart hd
  intro x n hold hnew
  rw [hstore]
  simp [afterLinks, hold, hnew]

end

/-- Both names are looked up on one subvolume, and the data is on the other. -/
def together : Roles Bool := ⟨false, true, false, none⟩

/-- The source, with its link file. -/
def togetherStore : Store Bool Bool Bool := fun x n =>
  if n then if x then some (.data true) else some (.linkfile (some true)) else none

/-- The hard link fails; nothing else was asked for, and nothing is left. -/
theorem rename_fails_together :
    ∃ s, run (together.renameStep true false) (together.dhtRenameCreateLinks togetherStore) [(.link true, false)] =
        .ok s ∧ s.result = some false ∧ NothingNew togetherStore s.store := by
  have hstart : Start together true false true false togetherStore :=
    ⟨by decide, by decide, by decide, (fun _ => by decide), nofun⟩
  refine ⟨_, rfl, rfl, ?_⟩
  have hfails := rename_fails together true false true false togetherStore hstart [] [] (.link true) _
    nofun nofun nofun rfl
  exact (hfails.2.2 false rfl).2.2.2.2.mpr rfl

/-- **A rename that failed leaves names behind.** The link file cannot be made, and the file keeps a second hard
    link under the new name on its subvolume; or the rename fails after both links were made. -/
theorem failed_rename_leaves_links : (∃ s, run (apart.renameStep true false) (apart.dhtRenameCreateLinks apartStore)
        [(.mknod 2, false), (.link 1, true)] = .ok s ∧ s.result = some false ∧
      apartStore 1 false = none ∧ s.store 1 false = some (.data true)) ∧
    ∃ s, run (apart.renameStep true false) (apart.dhtRenameCreateLinks apartStore)
        [(.mknod 2, true), (.setxattr 2, true), (.link 1, true), (.rename 2, false)] = .ok s ∧
      s.result = some false ∧ apartStore 2 true = none ∧ s.store 2 true = some (.linkfile (some 1)) ∧
      apartStore 1 false = none ∧ s.store 1 false = some (.data true) :=
  ⟨⟨_, rfl, rfl, rfl, rfl⟩, _, rfl, rfl, rfl, rfl, rfl, rfl⟩

end GlusterFS.Dht
