import GlusterFS.Lib.Run
import GlusterFS.Inode.Correctness.Cascade

/-!
# `Inode.Correctness.Accounting` — the lists and counters of the inode table

Between calls every inode is on exactly one list, it is active exactly if it has references, and the three
counters count. That holds for all runs of callers that drop only what they have, under two conditions.

No counter may wrap. The counter of the root needs the condition most: it is never decremented.

And the root must have a reference, or the table no limit, when something is pruned. A new table has the root
on `lru`, like any other inode nobody uses, and `inode_table_prune` takes the inodes of `lru` from the front.
`__inode_unref` leaves the root alone, `__inode_retire` does not.
-/

namespace GlusterFS.Inode

open Transition List

variable {s' : Table} {parent : Addr} {name : Name}

section

variable {s : Table} {held : Addr → Nat} {x y : Addr} {d : DentryT}

/-! ## Taking a reference -/

theorem inodeRefLocked_inode (s : Table) (x y : Addr) : (inodeRefLocked s x).inode y =
      if y = x then { s.inode y with ref := (s.inode y).ref + 1 } else s.inode y := by
  unfold inodeRefLocked
  split <;> rfl

theorem inodeRefLocked_ino (s : Table) (x y : Addr) : ((inodeRefLocked s x).inode y).ino = (s.inode y).ino := by
  rw [inodeRefLocked_inode]
  split <;> rfl

/-- What taking a reference does not touch. -/
structure SameDentries (s s' : Table) : Prop where
  dentries : s'.dentries = s.dentries
  heap : s'.heap = s.heap
  next : s'.next = s.next
  root : s'.root = s.root
  lruLimit : s'.lruLimit = s.lruLimit

theorem inodeRefLocked_same (s : Table) (x : Addr) : SameDentries s (inodeRefLocked s x) := by
  unfold inodeRefLocked
  split <;> exact ⟨rfl, rfl, rfl, rfl, rfl⟩

theorem inodeRefLocked_hashed (s : Table) (x y : Addr) : isInodeHashed (inodeRefLocked s x) y = isInodeHashed s y := by
  unfold inodeRefLocked
  split <;> rfl

/-- An inode that is not about to be freed is active or on `lru`. -/
theorem Sound.active_or_lru (h : Sound s held) (hx : x ∈ s.heap) (hpurge : x ∉ s.purge) : x ∈ s.active ∨ x ∈ s.lru := by
  have hmem := (h.heap x).mp hx
  rw [mem_append, mem_append] at hmem
  exact hmem.resolve_right hpurge

theorem toNat_add_one {r : BitVec 32} (h : r.toNat + 1 < 2 ^ 32) : (r + 1).toNat = r.toNat + 1 := by
  bv_omega

section

variable (h : Sound s held)
include h

theorem Sound.counted_ref (hroom : (s.inode x).ref.toNat + 1 < 2 ^ 32) (y : Addr) :
    gain held x y + children s y ≤ ((inodeRefLocked s x).inode y).ref.toNat := by
  have hcnt := h.counted y
  rw [inodeRefLocked_inode]
  unfold gain
  by_cases hy : y = x
  · have hadd := toNat_add_one hroom
    rw [hy] at hcnt ⊢
    rw [if_pos rfl, if_pos rfl]
    dsimp only
    omega
  rw [if_neg hy, if_neg hy]
  exact hcnt

theorem Sound.active_ref (hroom : (s.inode x).ref.toNat + 1 < 2 ^ 32) (y : Addr) :
    y = x ∨ y ∈ s.active ↔ ((inodeRefLocked s x).inode y).ref ≠ 0 := by
  rw [inodeRefLocked_inode]
  by_cases hy : y = x
  · have hadd := toNat_add_one hroom
    rw [hy, if_pos rfl]
    refine iff_of_true (.inl rfl) fun hzero => ?_
    dsimp only at hzero
    rw [hzero] at hadd
    simp at hadd
  rw [if_neg hy, or_iff_right hy]
  exact h.active y

/-- **A reference more.** -/
theorem Sound.ref (hx : x ∈ s.heap) (hpurge : x ∉ s.purge)
    (hroom : (s.inode x).ref.toNat + 1 < 2 ^ 32) : Sound (inodeRefLocked s x) (gain held x) := by
  have hcounted := h.counted_ref hroom
  have hactive := h.active_ref hroom
  by_cases hzero : (s.inode x).ref = 0
  · have hnot : x ∉ s.active := by
      rw [h.active, not_not]
      exact hzero
    have hlru : x ∈ s.lru := (h.active_or_lru hx hpurge).resolve_left hnot
    have hdel := perm_listDel h.lru_nodup hlru
    have hperm : (x :: s.active ++ listDel x s.lru ++ s.purge).Perm (s.active ++ s.lru ++ s.purge) :=
      (perm_middle.symm.trans (hdel.symm.append_left s.active)).append_right s.purge
    have heq : inodeRefLocked s x = { s with
          inode := (inodeRefLocked s x).inode
          active := x :: s.active
          activeSize := s.activeSize + 1
          lru := listDel x s.lru
          lruSize := s.lruSize - 1 } := by
      simp [inodeRefLocked, inodeActivate, Table.detach, Table.modify, hzero, listDel_of_notMem hnot,
        listDel_of_notMem hpurge]
    rw [heq]
    exact
      { h with
        nodup := hperm.nodup_iff.mpr h.nodup
        heap := fun y => (h.heap y).trans hperm.mem_iff.symm
        active := fun y => mem_cons.trans (hactive y)
        counted := hcounted
        hash := by
          intro y hy
          by_cases hyx : y = x
          · exact .inl (by simp [hyx])
          rcases h.hash y hy with hmem | hmem
          · exact .inl (mem_cons_of_mem x hmem)
          · exact .inr (mem_listDel.mpr ⟨hmem, hyx⟩)
        activeSize := size_add h.activeSize (.refl _)
        lruSize := size_del h.lruSize hdel }
  have hmem : x ∈ s.active := (h.active x).mpr hzero
  have heq : inodeRefLocked s x = { s with inode := (inodeRefLocked s x).inode } := by
    simp only [inodeRefLocked, if_neg hzero, Table.modify]
  rw [heq]
  exact
    { h with
      active := fun y => (or_iff_right_of_imp fun hy => hy ▸ hmem).symm.trans (hactive y)
      counted := hcounted }

/-! ## New inodes -/

theorem Sound.create : Sound (inodeCreate s).2 held := by
  have hfresh : s.next ∉ s.heap := fun hmem => lt_irrefl _ (h.fresh s.next hmem)
  have hnot : s.next ∉ s.active ++ s.lru ++ s.purge := fun hmem => hfresh ((h.heap s.next).mpr hmem)
  have hperm : (s.active ++ s.next :: s.lru ++ s.purge).Perm (s.next :: (s.active ++ s.lru ++ s.purge)) :=
    perm_middle.append_right s.purge
  have hzero : (s.inode s.next).ref = 0 := by
    have hinactive : s.next ∉ s.active := fun hmem => hnot (by simp [hmem])
    rwa [h.active, not_not] at hinactive
  have href : ∀ y, ((inodeCreate s).2.inode y).ref = (s.inode y).ref := by
    intro y
    show (if y = s.next then (⟨0, 0, 0, 0⟩ : InodeT) else s.inode y).ref = _
    split
    next hy => rw [hy, hzero]
    · rfl
  exact
    { h with
      nodup := hperm.nodup_iff.mpr (nodup_cons.mpr ⟨hnot, h.nodup⟩)
      heap := by
        intro y
        show y ∈ s.next :: s.heap ↔ y ∈ s.active ++ s.next :: s.lru ++ s.purge
        rw [hperm.mem_iff, mem_cons, mem_cons, h.heap]
      fresh := by
        intro y hy
        rcases mem_cons.mp hy with rfl | hy
        · exact Nat.lt_succ_self _
        · exact Nat.lt_succ_of_lt (h.fresh y hy)
      active := fun y => by
        rw [href]
        exact h.active y
      counted := fun y => by
        rw [href]
        exact h.counted y
      hash := by
        intro y hy
        exact (h.hash y hy).imp_right (mem_cons_of_mem s.next)
      lruSize := size_add h.lruSize (.refl _) }

/-! ## Linking -/

theorem Sound.congr (heq : s' = { s with inode := s'.inode, inodeHash := s'.inodeHash, attic := s'.attic })
    (href : ∀ y, (s'.inode y).ref = (s.inode y).ref)
    (hhash : ∀ y, isInodeHashed s' y = true → y ∈ s.active ∨ y ∈ s.lru) : Sound s' held := by
  rw [heq] at hhash ⊢
  exact
    { h with
      active := fun y => by
        rw [href]
        exact h.active y
      counted := fun y => by
        rw [href]
        exact h.counted y
      hash := hhash }

end

theorem isInodeHashed_hashInode (s : Table) (x y : Addr) :
    isInodeHashed (hashInode s x) y = true ↔ y = x ∨ isInodeHashed s y = true := by
  by_cases hy : y = x <;> simp [isInodeHashed, hashInode, inodeUnhash, hy]

theorem isInodeHashed_inodeAtticize (s : Table) (x y : Addr) :
    isInodeHashed (inodeAtticize s x) y = true ↔ y = x ∨ isInodeHashed s y = true := by
  by_cases hy : y = x <;> simp [isInodeHashed, inodeAtticize, inodeUnhash, hy]

/-- **The inode that is linked**: it is not about to be freed, and nothing changes but the hash and the number
    of an inode that was in no hash. -/
structure Linked (s : Table) (r : Addr × Table) : Prop where
  eq : r.2 = { s with inode := r.2.inode, inodeHash := r.2.inodeHash, attic := r.2.attic }
  refs : ∀ y, (r.2.inode y).ref = (s.inode y).ref
  ino : ∀ y, isInodeHashed s y = true → (r.2.inode y).ino = (s.inode y).ino
  hashed : ∀ y, isInodeHashed s y = true → isInodeHashed r.2 y = true
  alive : ∀ y, y = r.1 ∨ isInodeHashed r.2 y = true → y ∈ s.active ∨ y ∈ s.lru

theorem linkInode_linked (h : Sound s held) (hx : x ∈ s.active ∨ x ∈ s.lru) (stbuf : Stat) :
    Linked s (linkInode s x stbuf) := by
  unfold linkInode
  split
  · refine ⟨rfl, fun _ => rfl, fun _ _ => rfl, fun _ => id, ?_⟩
    rintro y (rfl | hy)
    · exact hx
    · exact h.hash y hy
  next hnot =>
  set t := s.modify x fun i => { i with ino := stbuf.ino, generation := stbuf.dev } with ht
  have href : ∀ y, (t.inode y).ref = (s.inode y).ref := by
    intro y
    by_cases hy : y = x <;> simp [ht, Table.modify, hy]
  have hino : ∀ y, isInodeHashed s y = true → (t.inode y).ino = (s.inode y).ino := by
    intro y hy
    have hne : y ≠ x := fun heq => hnot (heq ▸ hy)
    simp [ht, Table.modify, hne]
  have hsame : ∀ y, isInodeHashed t y = isInodeHashed s y := fun _ => rfl
  dsimp only
  split
  · refine ⟨rfl, href, hino, fun y hy => (isInodeHashed_hashInode t x y).mpr (.inr hy), ?_⟩
    intro y hy
    rcases hy with rfl | hy
    · exact hx
    rcases (isInodeHashed_hashInode t x y).mp hy with rfl | hy
    · exact hx
    · exact h.hash y hy
  next old hold =>
    have hmem : old ∈ s.inodeHash := mem_of_find?_eq_some hold
    have holdHashed : isInodeHashed s old = true := by simp [isInodeHashed, hmem]
    split
    · refine ⟨rfl, href, hino, ?_, ?_⟩
      · intro y hy
        rw [isInodeHashed_hashInode, isInodeHashed_inodeAtticize]
        exact .inr (.inr hy)
      intro y hy
      rcases hy with rfl | hy
      · exact hx
      rw [isInodeHashed_hashInode, isInodeHashed_inodeAtticize] at hy
      rcases hy with rfl | rfl | hy
      · exact hx
      · exact h.hash _ holdHashed
      · exact h.hash y hy
    refine ⟨rfl, href, hino, fun _ => id, ?_⟩
    rintro y (rfl | hy)
    · exact h.hash _ holdHashed
    · exact h.hash y hy

theorem Linked.sound {r : Addr × Table} (hlinked : Linked s r) (h : Sound s held) : Sound r.2 held :=
  h.congr hlinked.eq hlinked.refs fun y hy => hlinked.alive y (.inr hy)

theorem Linked.rootIn {r : Addr × Table} (hlinked : Linked s r) (hroot : RootIn s) : RootIn r.2 := by
  have heq : r.2.root = s.root := by rw [hlinked.eq]
  unfold RootIn
  rw [heq]
  exact ⟨(hlinked.ino _ hroot.2).trans hroot.1, hlinked.hashed _ hroot.2⟩

/-- No two dentries of a directory have the same name. -/
def Unique (s : Table) : Prop := (s.dentries.map fun d => (d.parent, d.name)).Nodup

theorem Unique.sublist (h : Unique s) (hsub : s'.dentries.Sublist s.dentries) : Unique s' :=
  List.Nodup.sublist (hsub.map _) h

theorem dentryHash_dentryCreate (s : Table) (x parent : Addr) (name : Name) :
    dentryHash (dentryCreate s x parent name).2 (dentryCreate s x parent name).1 =
      { inodeRefLocked s parent with dentries := ⟨x, parent, name, true⟩ :: s.dentries } := by
  simp [dentryHash, dentryCreate, (inodeRefLocked_same s parent).dentries]

theorem Sound.addDentry (h : Sound s (gain held parent)) (hnew : (⟨x, parent, name, true⟩ : DentryT) ∉ s.dentries) :
    Sound { s with dentries := ⟨x, parent, name, true⟩ :: s.dentries } held :=
  { h with
    counted := by
      intro y
      have hcnt := h.counted y
      have hcons : children { s with dentries := ⟨x, parent, name, true⟩ :: s.dentries } y =
          children s y + if parent = y then 1 else 0 := by
        simp [children, countP_cons]
      rw [hcons]
      unfold gain at hcnt
      by_cases hy : y = parent
      · rw [if_pos hy] at hcnt
        rw [if_pos hy.symm]
        dsimp only
        omega
      rw [if_neg hy] at hcnt
      rw [if_neg (Ne.symm hy)]
      exact hcnt
    hashed := by
      intro d hd
      rcases mem_cons.mp hd with rfl | hd
      · rfl
      · exact h.hashed d hd
    distinct := nodup_cons.mpr ⟨hnew, h.distinct⟩ }

/-- `__inode_unref` of the root, or of an inode with more references than this one: nothing cascades. -/
theorem inodeUnrefLocked_more (s : Table) (x : Addr) (hmore : (s.inode x).ino = 1 ∨ 2 ≤ (s.inode x).ref.toNat) :
    ∃ inode, inodeUnrefLocked s x = .ok { s with inode := inode } ∧ (∀ y, (inode y).ino = (s.inode y).ino) ∧
      ∀ y, (inode y).ref.toNat ≤ (s.inode y).ref.toNat ∧
        (s.inode y).ref.toNat ≤ (inode y).ref.toNat + if y = x then 1 else 0 := by
  unfold inodeUnrefLocked inodeUnrefFuel
  split
  · exact ⟨s.inode, rfl, fun _ => rfl, fun _ => ⟨Nat.le_refl _, Nat.le_add_right _ _⟩⟩
  next hino =>
  replace hmore := hmore.resolve_left hino
  have hne : (s.inode x).ref ≠ 0 := by
    intro hzero
    rw [hzero] at hmore
    simp at hmore
  have hsub := toNat_sub_one hne
  have hlast : (s.inode x).ref - 1 ≠ 0 := by
    intro hzero
    have hnone : (0 : BitVec 32).toNat = 0 := rfl
    rw [hzero, hnone] at hsub
    omega
  rw [if_neg hne]
  dsimp only
  rw [modify_self, if_neg hlast]
  refine ⟨(s.modify x fun i => { i with ref := i.ref - 1 }).inode, rfl, ?_, ?_⟩
  · intro y
    by_cases hy : y = x <;> simp [Table.modify, hy]
  intro y
  by_cases hy : y = x
  · rw [hy, modify_self, if_pos rfl]
    dsimp only
    omega
  rw [modify_of_ne hy, if_neg hy]
  exact ⟨Nat.le_refl _, Nat.le_refl _⟩

/-- What a new dentry changes. -/
structure Relinked (s s' : Table) : Prop where
  purge : s'.purge = s.purge
  heap : s'.heap = s.heap
  root : s'.root = s.root
  lruLimit : s'.lruLimit = s.lruLimit
  hashed : ∀ y, isInodeHashed s' y = isInodeHashed s y
  ino : ∀ y, (s'.inode y).ino = (s.inode y).ino
  refs : ∀ y, (s.inode y).ref.toNat ≤ (s'.inode y).ref.toNat ∧ (s'.inode y).ref.toNat ≤ (s.inode y).ref.toNat + 1

theorem Relinked.refl (s : Table) : Relinked s s :=
  ⟨rfl, rfl, rfl, rfl, fun _ => rfl, fun _ => rfl, fun _ => ⟨le_rfl, Nat.le_succ _⟩⟩

theorem Relinked.rootIn (h : Relinked s s') (hroot : RootIn s) : RootIn s' := by
  unfold RootIn
  rw [h.root, h.ino, h.hashed]
  exact hroot

theorem Relinked.rootSafe (h : Relinked s s') (hsafe : RootSafe s) : RootSafe s' := by
  unfold RootSafe
  rw [h.root, h.lruLimit]
  refine hsafe.imp_right fun hne hzero => hne ?_
  have hle := (h.refs s.root).1
  rw [hzero] at hle
  exact BitVec.eq_of_toNat_eq (Nat.le_zero.mp hle)

theorem toNat_ref_locked (hroom : (s.inode x).ref.toNat + 1 < 2 ^ 32) (y : Addr) :
    ((inodeRefLocked s x).inode y).ref.toNat = (s.inode y).ref.toNat + if y = x then 1 else 0 := by
  rw [inodeRefLocked_inode]
  by_cases hy : y = x
  · rw [if_pos hy, if_pos hy]
    rw [hy, toNat_add_one hroom]
  rw [if_neg hy, if_neg hy]
  rfl

theorem inodeRefLocked_purge (hpurge : x ∉ s.purge) : (inodeRefLocked s x).purge = s.purge := by
  unfold inodeRefLocked
  split
  · exact listDel_of_notMem hpurge
  · rfl

theorem relinked_ref (hpurge : x ∉ s.purge) (hroom : (s.inode x).ref.toNat + 1 < 2 ^ 32) :
    Relinked s (inodeRefLocked s x) := by
  have hsame := inodeRefLocked_same s x
  refine ⟨inodeRefLocked_purge hpurge, hsame.heap, hsame.root, hsame.lruLimit, inodeRefLocked_hashed s x,
    inodeRefLocked_ino s x, ?_⟩
  intro y
  rw [toNat_ref_locked hroom]
  split <;> omega

theorem mem_of_dentryGrep (h : dentryGrep s parent name = some d) :
    d ∈ s.dentries ∧ d.parent = parent ∧ d.name = name := by
  have hkey := find?_some h
  simp only [Bool.and_eq_true, beq_iff_eq] at hkey
  exact ⟨mem_of_find?_eq_some h, hkey.1.2, hkey.2⟩

theorem dentryGrep_eq_none (h : Sound s held)
    (hnone : dentryGrep s parent name = none) : ∀ e ∈ s.dentries, ¬ (e.parent = parent ∧ e.name = name) := by
  intro e he hkey
  have hnot := find?_eq_none.mp hnone e he
  simp [h.hashed e he, hkey.1, hkey.2] at hnot

theorem Unique.eq (h : Unique s) {e : DentryT} (hd : d ∈ s.dentries) (he : e ∈ s.dentries)
    (hkey : d.parent = e.parent ∧ d.name = e.name) : d = e := inj_on_of_nodup_map h hd he (Prod.ext hkey.1 hkey.2)

/-- **The dentry that is linked.** -/
theorem linkDentry_sound (h : Sound s held) (hunique : Unique s) (hheap : parent ∈ s.heap)
    (hpurge : parent ∉ s.purge) (hroom : (s.inode parent).ref.toNat + 1 < 2 ^ 32) (x : Addr) (name : Name) :
    ∃ s', linkDentry s x parent name = .ok s' ∧ Sound s' held ∧ Unique s' ∧ Relinked s s' ∧
      s'.dentries ⊆ ⟨x, parent, name, true⟩ :: s.dentries := by
  have hsame := inodeRefLocked_same s parent
  have hlink := relinked_ref hpurge hroom
  have href := h.ref hheap hpurge hroom
  set new : DentryT := ⟨x, parent, name, true⟩
  set t : Table := { inodeRefLocked s parent with dentries := new :: s.dentries } with ht
  have hcreate : dentryHash (dentryCreate s x parent name).2 (dentryCreate s x parent name).1 = t :=
    dentryHash_dentryCreate s x parent name
  have hsound : new ∉ s.dentries → Sound t held := by
    intro hnot
    rw [← hsame.dentries] at hnot
    have hadd := href.addDentry hnot
    rwa [hsame.dentries] at hadd
  unfold linkDentry
  dsimp only
  rw [hcreate]
  cases hgrep : dentryGrep s parent name with
  | none =>
    have hfree := dentryGrep_eq_none h hgrep
    refine ⟨t, rfl, hsound fun hmem => hfree new hmem ⟨rfl, rfl⟩, ?_, ?_, Subset.refl _⟩
    · refine nodup_cons.mpr ⟨?_, hunique⟩
      intro hmem
      obtain ⟨e, he, hkey⟩ := mem_map.mp hmem
      exact hfree e he (Prod.mk.inj hkey)
    exact ⟨hlink.purge, hlink.heap, hlink.root, hlink.lruLimit, hlink.hashed, hlink.ino,
      hlink.refs⟩
  | some old =>
    obtain ⟨hold, hparent, hname⟩ := mem_of_dentryGrep hgrep
    by_cases hother : old.inode ≠ x
    swap
    · refine ⟨s, ?_, h, hunique, .refl s, subset_cons_self _ _⟩
      dsimp only
      rw [if_neg hother]
    have hnot : new ∉ s.dentries := by
      intro hmem
      have heq : old = new := hunique.eq hold hmem ⟨hparent, hname⟩
      rw [heq] at hother
      exact hother rfl
    have hne : old ≠ new := fun heq => hnot (heq ▸ hold)
    have hmem : old ∈ t.dentries := mem_cons_of_mem new hold
    have herase : t.dentries.erase old = new :: s.dentries.erase old := erase_cons_tail (by simpa using hne.symm)
    -- the old dentry has a reference to the directory too, so this is not the last one
    have hchild : 1 ≤ children s parent := by
      apply countP_pos_iff.mpr
      exact ⟨old, hold, by simpa using hparent⟩
    have hcnt := h.counted parent
    have hmore : 2 ≤ (({ t with dentries := t.dentries.erase old } : Table).inode old.parent).ref.toNat := by
      rw [hparent]
      show 2 ≤ ((inodeRefLocked s parent).inode parent).ref.toNat
      rw [toNat_ref_locked hroom, if_pos rfl]
      omega
    obtain ⟨inode, hunref, hino, hrefs⟩ := inodeUnrefLocked_more _ _ (.inr hmore)
    obtain ⟨s', hstep, hsound', hcasc⟩ :=
      dentryUnset_sound (inodeUnrefLocked_drops t.dentries.length) (Nat.le_refl _) (hsound hnot) hmem
    have hs' : s' = { t with dentries := t.dentries.erase old, inode := inode } := by
      have hother' : dentryUnset inodeUnrefLocked t old = .ok { t with dentries := t.dentries.erase old, inode := inode } := by
        unfold dentryUnset
        rw [if_pos hmem]
        exact hunref
      exact Except.ok.inj (hstep.symm.trans hother')
    refine ⟨s', ?_, hsound', ?_, ?_, ?_⟩
    · dsimp only
      rw [if_pos hother]
      exact hstep
    · rw [hs']
      show (List.map _ (t.dentries.erase old)).Nodup
      rw [herase]
      refine nodup_cons.mpr ⟨?_, List.Nodup.sublist (erase_sublist.map _) hunique⟩
      intro hin
      obtain ⟨e, he, hnamed⟩ := mem_map.mp hin
      obtain ⟨hp, hn⟩ := Prod.mk.inj hnamed
      have heq : e = old := hunique.eq (mem_of_mem_erase he) hold ⟨hp.trans hparent.symm, hn.trans hname.symm⟩
      rw [heq] at he
      exact h.distinct.not_mem_erase he
    · rw [hs']
      refine ⟨hlink.purge, hlink.heap, hlink.root, hlink.lruLimit, hlink.hashed, ?_, ?_⟩
      · intro y
        exact (hino y).trans (hlink.ino y)
      intro y
      have hle := hrefs y
      have hlocked : (t.inode y).ref.toNat = _ := toNat_ref_locked hroom y
      rw [hparent] at hle
      dsimp only at hle ⊢
      rw [hlocked] at hle
      split at hle <;> omega
    rw [hs']
    exact erase_subset

/-- The dentries are old ones, or have one of these names. -/
def NamesFrom (names : List Name) (s s' : Table) : Prop := ∀ d ∈ s'.dentries, d ∈ s.dentries ∨ d.name ∈ names

/-! ## Between calls -/

/-- **A table between calls.** -/
structure Rest (s : Table) (held : Addr → Nat) : Prop where
  sound : Sound s held
  unique : Unique s
  rootIn : RootIn s
  settled : Settled s
  purged : s.purge = []
  small : s.heap.length < 2 ^ 32

theorem Sound.length_le (h : Sound s held) : (s.active ++ s.lru ++ s.purge).length ≤ s.heap.length := by
  have hsubset : s.active ++ s.lru ++ s.purge ⊆ s.heap := fun y hy => (h.heap y).mpr hy
  exact (h.nodup.subperm hsubset).length_le

theorem inodeTablePrune_rest (h : Sound s held) (hunique : Unique s) (hroot : RootIn s) (hsafe : RootSafe s)
    (hsmall : s.heap.length < 2 ^ 32) : ∃ s', inodeTablePrune s = .ok s' ∧ Rest s' held ∧ s'.dentries ⊆ s.dentries := by
  obtain ⟨s1, hloop, hsound, hcasc, -, hsettled⟩ := pruneLoop_sound le_rfl h
  replace hcasc := hcasc hroot hsafe
  refine ⟨destroyPurged s1, by simp [inodeTablePrune, hloop], ?_, hcasc.dentries.subset⟩
  have hroot1 := hcasc.rootIn hroot
  exact
    { sound := hsound.destroyPurged
      unique := hunique.sublist hcasc.dentries
      rootIn := by
        refine ⟨?_, hroot1.2⟩
        show ((if s1.root ∈ s1.purge then { s1.inode s1.root with nlookup := 0 } else s1.inode s1.root) : InodeT).ino = 1
        split <;> exact hroot1.1
      settled := hsettled
      purged := rfl
      small := by
        have hheap : s1.heap = s.heap := hcasc.heap
        refine lt_of_le_of_lt ?_ hsmall
        rw [← hheap]
        exact length_filter_le .. }

/-- No counter of the table is about to wrap. -/
def Room (s : Table) : Prop := (∀ x ∈ s.active, (s.inode x).ref.toNat + 2 < 2 ^ 32) ∧ s.heap.length + 1 < 2 ^ 32
deriving Decidable

theorem Room.ref_lt (hroom : Room s) (h : Sound s held) (x : Addr) : (s.inode x).ref.toNat + 2 < 2 ^ 32 := by
  by_cases hx : x ∈ s.active
  · exact hroom.1 x hx
  rw [h.active, not_not] at hx
  rw [hx]
  decide

namespace Rest

variable (h : Rest s held)

include h

theorem notMem_purge (x : Addr) : x ∉ s.purge := by
  rw [h.purged]
  exact not_mem_nil

theorem mem_heap (hx : x ∈ s.active ∨ x ∈ s.lru) : x ∈ s.heap := by
  rw [h.sound.heap, mem_append, mem_append]
  exact .inl hx

theorem root_alive : s.root ∈ s.active ∨ s.root ∈ s.lru := h.sound.hash _ h.rootIn.2

theorem held_alive (hx : 0 < held x) : x ∈ s.active := by
  rw [h.sound.active]
  intro hzero
  have hcnt := h.sound.counted x
  rw [hzero, BitVec.ofNat_eq_ofNat, BitVec.toNat_ofNat] at hcnt
  simp at hcnt
  omega

theorem ref (hx : x ∈ s.heap) (hlt : (s.inode x).ref.toNat + 1 < 2 ^ 32) : Rest (inodeRefLocked s x) (gain held x) := by
  have hsame := inodeRefLocked_same s x
  have hlink := relinked_ref (h.notMem_purge x) hlt
  exact
    { sound := h.sound.ref hx (h.notMem_purge x) hlt
      unique := by
        unfold Unique
        rw [hsame.dentries]
        exact h.unique
      rootIn := hlink.rootIn h.rootIn
      settled := by
        have hsettled := h.settled
        unfold Settled at hsettled ⊢
        rw [hsame.lruLimit]
        unfold inodeRefLocked
        split
        next hzero =>
          -- the inode was on `lru`, so `lru_size` is not zero
          have hlru : x ∈ s.lru := by
            refine (h.sound.active_or_lru hx (h.notMem_purge x)).resolve_left ?_
            rw [h.sound.active, not_not]
            exact hzero
          have hpos : 0 < s.lru.length := length_pos_of_mem hlru
          have hlen := h.sound.length_le
          have hsize : s.lruSize.toNat = s.lru.length := by
            rw [h.sound.lruSize, BitVec.toNat_ofNat, Nat.mod_eq_of_lt]
            have hsmall := h.small
            simp only [length_append] at hlen
            omega
          rintro ⟨hlimit, hless⟩
          refine hsettled ⟨hlimit, ?_⟩
          have hless' : s.lruLimit < s.lruSize - 1 := hless
          bv_omega
        · exact hsettled
      purged := (inodeRefLocked_purge (h.notMem_purge x)).trans h.purged
      small := by
        rw [hsame.heap]
        exact h.small }

theorem new (hroom : Room s) : Rest (inodeNew s).2 (gain held (inodeNew s).1) := by
  have hcreate := h.sound.create
  have hzero : ((inodeCreate s).2.inode s.next).ref = 0 := by
    show (if s.next = s.next then (⟨0, 0, 0, 0⟩ : InodeT) else s.inode s.next).ref = 0
    rw [if_pos rfl]
  have hpurge : s.next ∉ (inodeCreate s).2.purge := h.notMem_purge s.next
  have hlt : ((inodeCreate s).2.inode s.next).ref.toNat + 1 < 2 ^ 32 := by
    rw [hzero]
    decide
  have hsame := inodeRefLocked_same (inodeCreate s).2 s.next
  have hlink := relinked_ref hpurge hlt
  have hroot : s.root < s.next := h.sound.fresh _ (h.mem_heap h.root_alive)
  exact
    { sound := hcreate.ref mem_cons_self hpurge hlt
      unique := by
        unfold Unique
        show (List.map _ (inodeRefLocked (inodeCreate s).2 s.next).dentries).Nodup
        rw [hsame.dentries]
        exact h.unique
      rootIn := by
        refine hlink.rootIn ⟨?_, h.rootIn.2⟩
        show (if s.root = s.next then (⟨0, 0, 0, 0⟩ : InodeT) else s.inode s.root).ino = 1
        rw [if_neg (ne_of_lt hroot)]
        exact h.rootIn.1
      settled := by
        have hsize : (inodeRefLocked (inodeCreate s).2 s.next).lruSize = s.lruSize := by
          unfold inodeRefLocked
          rw [if_pos hzero]
          show s.lruSize + 1 - 1 = s.lruSize
          exact BitVec.add_sub_cancel ..
        show Settled (inodeRefLocked (inodeCreate s).2 s.next)
        unfold Settled
        rw [hsame.lruLimit, hsize]
        exact h.settled
      purged := (inodeRefLocked_purge hpurge).trans h.purged
      small := by
        show (inodeRefLocked (inodeCreate s).2 s.next).heap.length < 2 ^ 32
        rw [hsame.heap]
        exact hroom.2 }

theorem unref {held' : Addr → Nat} (heq : held = gain held' x) (hsafe : RootSafe s) :
    ∃ s', inodeUnref s x = .ok s' ∧ Rest s' held' ∧ s'.dentries ⊆ s.dentries := by
  have hsound := h.sound
  rw [heq] at hsound
  obtain ⟨s1, hdrop, hsound1, hcasc⟩ := inodeUnrefLocked_drops (s.dentries.length + 1) s held' x
    (Nat.lt_succ_self _) hsound
  have hsmall : s1.heap.length < 2 ^ 32 := by
    rw [hcasc.heap]
    exact h.small
  obtain ⟨s', hprune, hrest, hsubset⟩ := inodeTablePrune_rest hsound1 (h.unique.sublist hcasc.dentries)
    (hcasc.rootIn h.rootIn) (hcasc.rootSafe h.rootIn hsafe) hsmall
  refine ⟨s', ?_, hrest, List.Subset.trans hsubset hcasc.dentries.subset⟩
  unfold inodeUnref
  rw [hdrop]
  exact hprune

theorem modify (x : Addr) (f : InodeT → InodeT) (href : ∀ i, (f i).ref = i.ref) (hino : ∀ i, (f i).ino = i.ino) :
    Rest (s.modify x f) held := by
  have hsameRef : ∀ y, ((s.modify x f).inode y).ref = (s.inode y).ref := by
    intro y
    by_cases hy : y = x
    · rw [hy, modify_self, href]
    · rw [modify_of_ne hy]
  have hsameIno : ∀ y, ((s.modify x f).inode y).ino = (s.inode y).ino := by
    intro y
    by_cases hy : y = x
    · rw [hy, modify_self, hino]
    · rw [modify_of_ne hy]
  exact
    { sound := h.sound.congr rfl hsameRef h.sound.hash
      unique := h.unique
      rootIn := ⟨(hsameIno s.root).trans h.rootIn.1, h.rootIn.2⟩
      settled := h.settled
      purged := h.purged
      small := h.small }

theorem forget {nlookup : BitVec 64} (hle : nlookup ≤ (s.inode x).nlookup) (hsafe : RootSafe s) :
    ∃ s', inodeForget s x nlookup = .ok s' ∧ Rest s' held ∧ s'.dentries ⊆ s.dentries := by
  unfold inodeForget
  rw [if_pos hle]
  have hrest := h.modify x (fun i => { i with nlookup := if nlookup = 0 then 0 else i.nlookup - nlookup })
    (fun _ => rfl) (fun _ => rfl)
  apply inodeTablePrune_rest hrest.sound hrest.unique hrest.rootIn _ hrest.small
  show s.lruLimit = 0 ∨ ((s.modify x _).inode s.root).ref ≠ 0
  refine hsafe.imp_right fun hne => ?_
  by_cases hy : s.root = x
  · rw [hy, modify_self]
    exact hy ▸ hne
  · rwa [modify_of_ne hy]

theorem linkLocked {parent : Option Addr} (hx : x ∈ s.heap) (hparent : ∀ p ∈ parent, p ∈ s.heap)
    (hroom : Room s) (name : Name) (stbuf : Stat) :
    ∃ r, inodeLinkLocked s x parent name stbuf = .ok r ∧ Sound r.2 held ∧ Unique r.2 ∧ RootIn r.2 ∧
      (RootSafe s → RootSafe r.2) ∧ r.2.heap = s.heap ∧ r.1 ∈ s.heap ∧ r.2.purge = [] ∧
      (∀ y, (r.2.inode y).ref.toNat ≤ (s.inode y).ref.toNat + 1) ∧ NamesFrom [name] s r.2 := by
  have halive := h.sound.active_or_lru hx (h.notMem_purge x)
  have hlinked := linkInode_linked h.sound halive stbuf
  set r := linkInode s x stbuf with hr
  have hheap : r.2.heap = s.heap := by rw [hlinked.eq]
  have hpurge : r.2.purge = [] := by rw [hlinked.eq]; exact h.purged
  have hdentries : r.2.dentries = s.dentries := by rw [hlinked.eq]
  have hunique : Unique r.2 := by rw [hlinked.eq]; exact h.unique
  have hmem : r.1 ∈ s.heap := h.mem_heap (hlinked.alive _ (.inl rfl))
  have hsafe : RootSafe s → RootSafe r.2 := by
    have hroot : r.2.root = s.root := by rw [hlinked.eq]
    have hlimit : r.2.lruLimit = s.lruLimit := by rw [hlinked.eq]
    unfold RootSafe
    rw [hroot, hlimit, hlinked.refs]
    exact id
  unfold inodeLinkLocked
  rw [← hr]
  cases parent with
  | none =>
    refine ⟨r, rfl, hlinked.sound h.sound, hunique, hlinked.rootIn h.rootIn, hsafe, hheap, hmem, hpurge, ?_,
      fun d hd => .inl (hdentries ▸ hd)⟩
    intro y
    rw [hlinked.refs]
    exact Nat.le_succ _
  | some p =>
    have hp : p ∈ r.2.heap := by rw [hheap]; exact hparent p rfl
    have hlt : (r.2.inode p).ref.toNat + 1 < 2 ^ 32 := by
      rw [hlinked.refs]
      exact Nat.lt_of_succ_lt (hroom.ref_lt h.sound p)
    obtain ⟨s', hdentry, hsound, hunique', hlink, hsubset⟩ :=
      linkDentry_sound (hlinked.sound h.sound) hunique hp (by simp [hpurge]) hlt r.1 name
    refine ⟨(r.1, s'), by simp [hdentry], hsound, hunique', hlink.rootIn (hlinked.rootIn h.rootIn),
      fun hs => hlink.rootSafe (hsafe hs), hlink.heap.trans hheap, hmem, hlink.purge.trans hpurge, ?_, ?_⟩
    · intro y
      have hle := (hlink.refs y).2
      rwa [hlinked.refs] at hle
    intro d hd
    rcases mem_cons.mp (hsubset hd) with rfl | hold
    · exact .inr mem_cons_self
    · exact .inl (hdentries ▸ hold)

theorem link {parent : Option Addr} (hx : x ∈ s.heap) (hparent : ∀ p ∈ parent, p ∈ s.heap)
    (hroom : Room s) (hsafe : RootSafe s) (name : Name) (stbuf : Stat) :
    ∃ r, inodeLink s x parent name stbuf = .ok r ∧ Rest r.2 (gain held r.1) ∧ NamesFrom [name] s r.2 := by
  obtain ⟨⟨y, s1⟩, hlink, hsound, hunique, hroot, hsafe1, hheap, hmem, hpurge, hrefs, hnames⟩ :=
    h.linkLocked hx hparent hroom name stbuf
  have hnot : y ∉ s1.purge := by
    have hnil : s1.purge = [] := hpurge
    rw [hnil]
    exact not_mem_nil
  have hlt : (s1.inode y).ref.toNat + 1 < 2 ^ 32 := by
    have hle := hrefs y
    have hroom' := hroom.ref_lt h.sound y
    dsimp only at hle
    omega
  have hrelinked := relinked_ref hnot hlt
  have hunique1 : Unique (inodeRefLocked s1 y) := by
    unfold Unique
    rw [(inodeRefLocked_same s1 y).dentries]
    exact hunique
  have hsmall : (inodeRefLocked s1 y).heap.length < 2 ^ 32 := by
    rw [(inodeRefLocked_same s1 y).heap, hheap]
    exact h.small
  obtain ⟨s', hprune, hrest, hsubset⟩ := inodeTablePrune_rest (hsound.ref (hheap ▸ hmem) hnot hlt) hunique1
    (hrelinked.rootIn hroot) (hrelinked.rootSafe (hsafe1 hsafe)) hsmall
  refine ⟨(y, s'), ?_, hrest, fun d hd => hnames d ((inodeRefLocked_same s1 y).dentries ▸ hsubset hd)⟩
  unfold inodeLink
  rw [hlink]
  simp only [bind, Except.bind, hprune]
  rfl

end Rest

theorem unlink_rest (h : Sound s held) (hunique : Unique s) (hroot : RootIn s) (hsafe : RootSafe s)
    (hsmall : s.heap.length < 2 ^ 32) (x parent : Addr) (name : Name) :
    ∃ s', inodeUnlink s x parent name = .ok s' ∧ Rest s' held ∧ s'.dentries ⊆ s.dentries := by
  unfold inodeUnlink inodeUnlinkLocked
  cases hsearch : dentrySearchForInode s x (s.inode parent).ino name with
  | none => exact inodeTablePrune_rest h hunique hroot hsafe hsmall
  | some d =>
    have hd : d ∈ s.dentries := mem_of_mem_filter (mem_of_find?_eq_some hsearch)
    obtain ⟨s1, hunset, hsound, hcasc⟩ :=
      dentryUnset_sound (inodeUnrefLocked_drops s.dentries.length) le_rfl h hd
    have hsmall1 : s1.heap.length < 2 ^ 32 := by
      rw [hcasc.heap]
      exact hsmall
    obtain ⟨s', hprune, hrest, hsubset⟩ := inodeTablePrune_rest hsound (hunique.sublist hcasc.dentries)
      (hcasc.rootIn hroot) (hcasc.rootSafe hroot hsafe) hsmall1
    refine ⟨s', ?_, hrest, List.Subset.trans hsubset hcasc.dentries.subset⟩
    simp only [hunset]
    exact hprune

theorem Rest.rename (h : Rest s held) (srcdir : Addr) {dstdir : Addr} (hx : x ∈ s.heap) (hdst : dstdir ∈ s.heap)
    (hroom : Room s) (hsafe : RootSafe s) (srcname dstname : Name) (stbuf : Stat) :
    ∃ s', inodeRename s srcdir srcname dstdir dstname x stbuf = .ok s' ∧ Rest s' held ∧
      NamesFrom [srcname, dstname] s s' := by
  have hparent : ∀ p ∈ some dstdir, p ∈ s.heap := fun p hp => Option.some.inj hp ▸ hdst
  obtain ⟨⟨y, s1⟩, hlink, hsound, hunique, hroot, hsafe1, hheap, -, -, -, hnames⟩ :=
    h.linkLocked hx hparent hroom dstname stbuf
  have hsmall : s1.heap.length < 2 ^ 32 := by
    have heq : s1.heap = s.heap := hheap
    rw [heq]
    exact h.small
  obtain ⟨s', hunlink, hrest, hsubset⟩ := unlink_rest hsound hunique hroot (hsafe1 hsafe) hsmall x srcdir srcname
  refine ⟨s', ?_, hrest, fun d hd => (hnames d (hsubset hd)).imp_right (mem_cons_of_mem _)⟩
  unfold inodeRename
  rw [hlink]
  exact hunlink

end

/-! ## Runs -/

theorem gain_drop {held : Addr → Nat} {x : Addr} (hx : 0 < held x) : held = gain (drop held x) x := by
  funext y
  unfold gain drop
  by_cases hy : y = x
  · rw [if_pos hy, if_pos hy, hy]
    omega
  · rw [if_neg hy, if_neg hy]

def Op.names : Op → List Name
  | .link _ _ name _ => [name]
  | .unlink _ _ name => [name]
  | .rename _ srcname _ dstname _ _ => [srcname, dstname]
  | _ => []

def Op.prunes : Op → Bool
  | .new => false
  | .ref _ => false
  | .lookup _ => false
  | _ => true

/-- A call that prunes is safe while somebody has a reference to the root or `lru` has no limit. Every call
    needs room for the references it takes. -/
def Safe (c : Client) (op : Op) : Prop := (op.prunes = true → RootSafe c.table) ∧ Room c.table
deriving Decidable

section

variable {c : Client} {op : Op}

section

variable (h : Rest c.table c.held)
include h

theorem Rest.mayUse {x : Addr} (hx : c.mayUse x = true) : x ∈ c.table.heap := by
  unfold Client.mayUse at hx
  rcases (Bool.or_eq_true ..).mp hx with hheld | hroot
  · exact h.mem_heap (.inl (h.held_alive (of_decide_eq_true hheld)))
  rw [beq_iff_eq] at hroot
  rw [hroot]
  exact h.mem_heap h.root_alive

theorem Rest.args_alive (hop : c.allowed op = true) : ∀ x ∈ op.args, x ∈ c.table.heap := by
  intro x hx
  cases op with
  | unref y =>
    have hheld : 0 < c.held y := of_decide_eq_true hop
    rw [mem_singleton.mp hx]
    exact h.mem_heap (.inl (h.held_alive hheld))
  | forget y nlookup =>
    rw [mem_singleton.mp hx]
    exact h.mayUse ((Bool.and_eq_true ..).mp hop).1
  | new | prune => cases hx
  | ref y | lookup y | link y parent name stbuf | unlink y parent name | rename srcdir srcname dstdir dstname y stbuf =>
    exact h.mayUse (all_eq_true.mp hop x hx)

theorem Rest.call (hop : c.allowed op = true) (hsafe : Safe c op) :
    ∃ c', c.call op = .ok c' ∧ Rest c'.table c'.held ∧ NamesFrom op.names c.table c'.table := by
  obtain ⟨hroot, hroom⟩ := hsafe
  have halive := h.args_alive hop
  cases op with
  | new => exact ⟨_, rfl, h.new hroom, fun d hd => .inl ((inodeRefLocked_same (inodeCreate c.table).2 _).dentries ▸ hd)⟩
  | ref x =>
    exact ⟨_, rfl, h.ref (halive x mem_cons_self) (Nat.lt_of_succ_lt (hroom.ref_lt h.sound x)),
      fun d hd => .inl ((inodeRefLocked_same c.table x).dentries ▸ hd)⟩
  | lookup x =>
    have hrest := h.modify x (fun i => { i with nlookup := i.nlookup + 1 }) (fun _ => rfl) fun _ => rfl
    exact ⟨⟨inodeLookup c.table x, c.held⟩, rfl, hrest, fun _ => .inl⟩
  | unref x =>
    have hheld : 0 < c.held x := of_decide_eq_true hop
    obtain ⟨s', hok, hrest, hsubset⟩ := h.unref (gain_drop hheld) (hroot rfl)
    exact ⟨⟨s', drop c.held x⟩, by simp only [Client.call, hok, Except.map], hrest, fun _ hd => .inl (hsubset hd)⟩
  | forget x nlookup =>
    have hle : nlookup ≤ (c.table.inode x).nlookup := of_decide_eq_true ((Bool.and_eq_true ..).mp hop).2
    obtain ⟨s', hok, hrest, hsubset⟩ := h.forget hle (hroot rfl)
    exact ⟨⟨s', c.held⟩, by simp only [Client.call, hok, Except.map], hrest, fun _ hd => .inl (hsubset hd)⟩
  | link x parent name stbuf =>
    have hparent : ∀ p ∈ parent, p ∈ c.table.heap := fun p hp =>
      halive p (mem_cons_of_mem x (Option.mem_toList.mpr hp))
    obtain ⟨r, hok, hrest, hnames⟩ := h.link (halive x mem_cons_self) hparent hroom (hroot rfl) name stbuf
    exact ⟨⟨r.2, gain c.held r.1⟩, by simp only [Client.call, hok, Except.map], hrest, hnames⟩
  | unlink x parent name =>
    obtain ⟨s', hok, hrest, hsubset⟩ := unlink_rest h.sound h.unique h.rootIn (hroot rfl) h.small x parent name
    exact ⟨⟨s', c.held⟩, by simp only [Client.call, hok, Except.map], hrest, fun _ hd => .inl (hsubset hd)⟩
  | rename srcdir srcname dstdir dstname x stbuf =>
    have hx : x ∈ c.table.heap := halive x (by simp [Op.args])
    have hdst : dstdir ∈ c.table.heap := halive dstdir (by simp [Op.args])
    obtain ⟨s', hok, hrest, hnames⟩ := h.rename srcdir hx hdst hroom (hroot rfl) srcname dstname stbuf
    exact ⟨⟨s', c.held⟩, by simp only [Client.call, hok, Except.map], hrest, hnames⟩
  | prune =>
    obtain ⟨s', hok, hrest, hsubset⟩ := inodeTablePrune_rest h.sound h.unique h.rootIn (hroot rfl) h.small
    exact ⟨⟨s', c.held⟩, by simp only [Client.call, hok, Except.map], hrest, fun _ hd => .inl (hsubset hd)⟩

/-- **One step.** It is refused, or it returns and leaves the table at rest. -/
theorem Rest.step (hsafe : Safe c op) :
    (∃ c', c.step op = .ok c' ∧ Rest c'.table c'.held ∧ NamesFrom op.names c.table c'.table) ∨
      c.step op = .error .refused := by
  unfold Client.step
  by_cases hop : c.allowed op = true
  · have halive : (op.args.all fun x => x ∈ c.table.heap) = true := by
      rw [all_eq_true]
      exact fun x hx => decide_eq_true (h.args_alive hop x hx)
    rw [if_pos hop, if_pos halive]
    exact .inl (h.call hop hsafe)
  rw [if_neg hop]
  exact .inr rfl

end

end

/-- **What the table accounts for.** Every inode is on exactly one list, on `active` if and only if there is a
    reference; the sizes are those of the lists; the root is there and is not about to be freed. -/
structure Accounted (s : Table) : Prop where
  once : (s.active ++ s.lru ++ s.purge).Nodup
  listed : ∀ x, x ∈ s.heap ↔ x ∈ s.active ∨ x ∈ s.lru ∨ x ∈ s.purge
  active : ∀ x ∈ s.heap, x ∈ s.active ↔ 0 < (s.inode x).ref
  activeSize : s.activeSize.toNat = s.active.length
  lruSize : s.lruSize.toNat = s.lru.length
  purgeSize : s.purgeSize.toNat = s.purge.length
  root : s.root ∈ s.heap ∧ s.root ∉ s.purge

end GlusterFS.Inode
