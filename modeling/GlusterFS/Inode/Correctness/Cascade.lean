import Mathlib.Data.List.Perm.Subperm
import Mathlib.Data.List.Nodup
import GlusterFS.Inode.Table

/-!
# `Inode.Correctness.Cascade` — what dropping a reference does to the table

`Sound s held` says that the table's books are right when its callers have the references `held`: an inode is
active exactly if it has references, at least as many as callers and dentries have to it, and the counters
count their lists. A dropped reference may retire the inode, its dentries drop theirs, and so on upwards.
`Cascade` says what that leaves alone: above all the dentries of inodes without references, so that the loop
over the dentries of an inode that is being retired never meets one that is gone.
-/

namespace GlusterFS.Inode

open List

variable {l : List Addr} {gone : DentryT → Prop} {s' : Table} {unref : Table → Addr → Except Fault Table} {n : Nat}

/-! ## Lists -/

@[simp] theorem mem_listDel {x y : Addr} : y ∈ listDel x l ↔ y ∈ l ∧ y ≠ x := by
  simp [listDel]

theorem listDel_of_notMem {x : Addr} (h : x ∉ l) : listDel x l = l := by
  apply filter_eq_self.mpr
  intro y hy
  have hne : y ≠ x := fun heq => h (heq ▸ hy)
  simpa using hne

theorem perm_listDel {x : Addr} (hnd : l.Nodup) (hx : x ∈ l) : l.Perm (x :: listDel x l) := by
  have herase : l.erase x = listDel x l := by
    rw [hnd.erase_eq_filter]
    apply filter_congr
    intro y _
    by_cases hy : y = x <;> simp [hy]
  rw [← herase]
  exact perm_cons_erase hx

/-! ## The books -/

/-- The number of dentries that have a reference to an inode. -/
def children (s : Table) (x : Addr) : Nat := s.dentries.countP fun d => d.parent = x

/-- **The books are right**, when the callers have these references. -/
structure Sound (s : Table) (held : Addr → Nat) : Prop where
  nodup : (s.active ++ s.lru ++ s.purge).Nodup
  heap : ∀ x, x ∈ s.heap ↔ x ∈ s.active ++ s.lru ++ s.purge
  fresh : ∀ x ∈ s.heap, x < s.next
  active : ∀ x, x ∈ s.active ↔ (s.inode x).ref ≠ 0
  counted : ∀ x, held x + children s x ≤ (s.inode x).ref.toNat
  hashed : ∀ d ∈ s.dentries, d.hashed = true
  distinct : s.dentries.Nodup
  hash : ∀ x, isInodeHashed s x = true → x ∈ s.active ∨ x ∈ s.lru
  activeSize : s.activeSize = BitVec.ofNat 32 s.active.length
  lruSize : s.lruSize = BitVec.ofNat 32 s.lru.length
  purgeSize : s.purgeSize = BitVec.ofNat 32 s.purge.length

/-- **What a cascade leaves alone**; `gone` are the dentries it started with. -/
structure Cascade (gone : DentryT → Prop) (s s' : Table) : Prop where
  dentries : s'.dentries.Sublist s.dentries
  kept : ∀ d ∈ s.dentries, ¬ gone d → (s.inode d.inode).ref = 0 → d ∈ s'.dentries
  ino : ∀ x, (s'.inode x).ino = (s.inode x).ino
  refs : ∀ x, (s'.inode x).ref.toNat ≤ (s.inode x).ref.toNat
  rootKept : (s.inode s.root).ino = 1 → (s'.inode s.root).ref = (s.inode s.root).ref ∧
    (isInodeHashed s s.root = true → isInodeHashed s' s.root = true)
  heap : s'.heap = s.heap
  next : s'.next = s.next
  root : s'.root = s.root
  lruLimit : s'.lruLimit = s.lruLimit
  unpurged : s'.active.length + s'.lru.length ≤ s.active.length + s.lru.length

namespace Cascade

theorem refl (gone : DentryT → Prop) (s : Table) : Cascade gone s s where
  dentries := .refl _
  kept := fun _ hd _ _ => hd
  ino := fun _ => rfl
  refs := fun _ => le_rfl
  rootKept := fun _ => ⟨rfl, id⟩
  heap := rfl
  next := rfl
  root := rfl
  lruLimit := rfl
  unpurged := le_rfl

theorem ref_zero {s : Table} (h : Cascade gone s s') {x : Addr} (hx : (s.inode x).ref = 0) : (s'.inode x).ref = 0 := by
  have hle := h.refs x
  rw [hx] at hle
  exact BitVec.eq_of_toNat_eq (Nat.le_zero.mp hle)

theorem trans {g g' : DentryT → Prop} {s s'' : Table} (h : Cascade g s s') (h' : Cascade g' s' s'')
    (hgone : ∀ d ∈ s.dentries, (s.inode d.inode).ref = 0 → g d ∨ g' d → gone d) : Cascade gone s s'' where
  dentries := h'.dentries.trans h.dentries
  kept := by
    intro d hd hnot href
    have hneither : ¬ g d ∧ ¬ g' d := not_or.mp fun hg => hnot (hgone d hd href hg)
    exact h'.kept d (h.kept d hd hneither.1 href) hneither.2 (h.ref_zero href)
  ino := fun x => (h'.ino x).trans (h.ino x)
  refs := fun x => (h'.refs x).trans (h.refs x)
  rootKept := by
    intro hroot
    obtain ⟨href, hhash⟩ := h.rootKept hroot
    have hnext := h'.rootKept
    rw [h.root] at hnext
    obtain ⟨href', hhash'⟩ := hnext ((h.ino s.root).trans hroot)
    exact ⟨href'.trans href, hhash' ∘ hhash⟩
  heap := h'.heap.trans h.heap
  next := h'.next.trans h.next
  root := h'.root.trans h.root
  lruLimit := h'.lruLimit.trans h.lruLimit
  unpurged := h'.unpurged.trans h.unpurged

end Cascade

section

variable {s : Table} {held : Addr → Nat} {x : Addr} {d : DentryT}

/-! ## Freeing a dentry -/

theorem children_erase (hd : d ∈ s.dentries) (y : Addr) :
    children s y = children { s with dentries := s.dentries.erase d } y + if d.parent = y then 1 else 0 := by
  have hperm := (perm_cons_erase hd).countP_eq fun e : DentryT => decide (e.parent = y)
  rw [countP_cons] at hperm
  simpa [children] using hperm

theorem Sound.erase (h : Sound s held) (hd : d ∈ s.dentries) :
    Sound { s with dentries := s.dentries.erase d } (gain held d.parent) := { h with
  counted := by
    intro y
    have hcnt := h.counted y
    rw [children_erase hd y] at hcnt
    unfold gain
    by_cases hy : y = d.parent
    · simp [hy] at hcnt ⊢
      omega
    simp [hy, Ne.symm hy] at hcnt ⊢
    omega
  hashed := fun e he => h.hashed e (mem_of_mem_erase he)
  distinct := h.distinct.erase d }

theorem Cascade.erase (s : Table) (d : DentryT) : Cascade (· = d) s { s with dentries := s.dentries.erase d } :=
  { Cascade.refl (· = d) s with
    dentries := erase_sublist
    kept := fun _ he hne _ => (mem_erase_of_ne hne).mpr he }

/-! ## Dropping a reference -/

@[simp] theorem modify_self (s : Table) (x : Addr) (f : InodeT → InodeT) :
    (s.modify x f).inode x = f (s.inode x) := by simp [Table.modify]

theorem modify_of_ne {y : Addr} (hy : y ≠ x) (s : Table) (f : InodeT → InodeT) :
    (s.modify x f).inode y = s.inode y := by simp [Table.modify, hy]

theorem toNat_sub_one {r : BitVec 32} (h : r ≠ 0) : (r - 1).toNat + 1 = r.toNat := by
  bv_omega

theorem ofNat_succ_sub_one (k : Nat) : BitVec.ofNat 32 (k + 1) - 1 = BitVec.ofNat 32 k := by
  rw [BitVec.ofNat_add]
  simp

theorem ofNat_succ (k : Nat) : BitVec.ofNat 32 k + 1 = BitVec.ofNat 32 (k + 1) := (BitVec.ofNat_add ..).symm

section

variable {size : BitVec 32} (h : size = BitVec.ofNat 32 l.length)
include h

theorem size_del {l' : List Addr} (hdel : l.Perm (x :: l')) : size - 1 = BitVec.ofNat 32 l'.length := by
  rw [h, hdel.length_eq]
  exact ofNat_succ_sub_one _

theorem size_add {l' : List Addr} (hadd : l'.Perm (x :: l)) : size + 1 = BitVec.ofNat 32 l'.length := by
  rw [h, hadd.length_eq]
  exact ofNat_succ _

theorem size_same (hx : x ∉ l) : size = BitVec.ofNat 32 (listDel x l).length := by rw [listDel_of_notMem hx, h]

theorem size_snoc (hx : x ∉ l) : size + 1 = BitVec.ofNat 32 (listDel x l ++ [x]).length :=
  size_add (size_same h hx) (perm_append_singleton x _)

end

/-- `__inode_retire`, before the loop. -/
def toPurge (s : Table) (x : Addr) : Table :=
  inodeUnhash { s.detach x with purge := listDel x s.purge ++ [x], purgeSize := s.purgeSize + 1 } x

/-- `__inode_passivate`, before the loop. -/
def toLru (s : Table) (x : Addr) : Table :=
  { s.detach x with lru := listDel x s.lru ++ [x], lruSize := s.lruSize + 1 }

namespace Sound

theorem mono (h : Sound s (gain held x)) : Sound s held :=
  { h with
    counted := by
      intro y
      have hcnt := h.counted y
      unfold gain at hcnt
      split at hcnt <;> omega }

theorem active_nodup (h : Sound s held) : s.active.Nodup := (nodup_append.mp (nodup_append.mp h.nodup).1).1

theorem lru_nodup (h : Sound s held) : s.lru.Nodup := (nodup_append.mp (nodup_append.mp h.nodup).1).2.1

theorem notMem_of_active (h : Sound s held) (hx : x ∈ s.active) : x ∉ s.lru ∧ x ∉ s.purge := by
  have hnd := h.nodup
  rw [append_assoc, nodup_append] at hnd
  have hne := hnd.2.2 x hx
  constructor
  · exact fun hlru => hne x (mem_append_left _ hlru) rfl
  · exact fun hpurge => hne x (mem_append_right _ hpurge) rfl

theorem notMem_of_lru (h : Sound s held) (hx : x ∈ s.lru) : x ∉ s.active ∧ x ∉ s.purge := by
  have hnd := h.nodup
  constructor
  · exact fun hactive => (h.notMem_of_active hactive).1 hx
  rw [nodup_append] at hnd
  exact fun hpurge => hnd.2.2 x (mem_append_right _ hx) x hpurge rfl

theorem counted_drop (h : Sound s (gain held x)) (hne : (s.inode x).ref ≠ 0) (y : Addr) :
    held y + children s y ≤ ((s.modify x fun i => { i with ref := i.ref - 1 }).inode y).ref.toNat := by
  have hcnt := h.counted y
  by_cases hy : y = x
  · have hsub := toNat_sub_one hne
    rw [hy] at hcnt ⊢
    rw [modify_self]
    simp only [gain, if_true] at hcnt
    dsimp only
    omega
  rw [modify_of_ne hy]
  simpa [gain, hy] using hcnt

theorem dropped (h : Sound s (gain held x)) (hne : (s.inode x).ref ≠ 0) (hlast : (s.inode x).ref - 1 ≠ 0) :
    Sound (s.modify x fun i => { i with ref := i.ref - 1 }) held :=
  { h with
    active := by
      intro y
      by_cases hy : y = x
      · rw [hy, modify_self]
        exact iff_of_true ((h.active x).mpr hne) hlast
      rw [modify_of_ne hy]
      exact h.active y
    counted := h.counted_drop hne }

theorem active_drop (h : Sound s held) (hlast : (s.inode x).ref - 1 = 0) (y : Addr) :
    y ∈ listDel x s.active ↔ ((s.modify x fun i => { i with ref := i.ref - 1 }).inode y).ref ≠ 0 := by
  by_cases hy : y = x
  · rw [hy, modify_self]
    exact iff_of_false (by simp) (not_not.mpr hlast)
  rw [modify_of_ne hy, mem_listDel, and_iff_left hy]
  exact h.active y

theorem perm_toLru (h : Sound s held) (hx : x ∈ s.active) :
    (listDel x s.active ++ (s.lru ++ [x]) ++ s.purge).Perm (s.active ++ s.lru ++ s.purge) := by
  have hfront : (listDel x s.active ++ s.lru ++ [x]).Perm (s.active ++ s.lru) :=
    (perm_append_singleton x _).trans ((perm_listDel h.active_nodup hx).symm.append_right s.lru)
  rw [← append_assoc]
  exact hfront.append_right s.purge

theorem perm_toPurge {l' : List Addr} (hperm : l.Perm (x :: l')) : (l' ++ (s.purge ++ [x])).Perm (l ++ s.purge) := by
  rw [← append_assoc]
  exact (perm_append_singleton x _).trans (hperm.symm.append_right s.purge)

theorem passivated (h : Sound s (gain held x)) (hne : (s.inode x).ref ≠ 0) (hlast : (s.inode x).ref - 1 = 0) :
    Sound (toLru { s.modify x (fun i => { i with ref := i.ref - 1 }) with
      activeSize := s.activeSize - 1 } x) held := by
  have hx : x ∈ s.active := (h.active x).mpr hne
  obtain ⟨hlru, hpurge⟩ := h.notMem_of_active hx
  have hdel := perm_listDel h.active_nodup hx
  have hperm : (listDel x s.active ++ (listDel x s.lru ++ [x]) ++ listDel x s.purge).Perm
      (s.active ++ s.lru ++ s.purge) := by
    rw [listDel_of_notMem hlru, listDel_of_notMem hpurge]
    exact h.perm_toLru hx
  exact
    { h with
      nodup := hperm.nodup_iff.mpr h.nodup
      heap := fun y => (h.heap y).trans hperm.mem_iff.symm
      active := h.active_drop hlast
      counted := h.counted_drop hne
      hash := by
        intro y hy
        by_cases heq : y = x
        · exact .inr (by simp [toLru, heq])
        rcases h.hash y hy with hactive | hmem
        · exact .inl (mem_listDel.mpr ⟨hactive, heq⟩)
        · exact .inr (mem_append_left _ (mem_listDel.mpr ⟨hmem, heq⟩))
      activeSize := size_del h.activeSize hdel
      lruSize := size_snoc h.lruSize hlru
      purgeSize := size_same h.purgeSize hpurge }

theorem hash_toPurge (h : Sound s held) (y : Addr) (hy : isInodeHashed (toPurge s x) y = true) :
    y ∈ (toPurge s x).active ∨ y ∈ (toPurge s x).lru := by
  simp only [isInodeHashed, toPurge, inodeUnhash, Table.detach, mem_listDel, Bool.or_eq_true, decide_eq_true_eq,
    ← or_and_right] at hy
  rcases h.hash y (by simpa [isInodeHashed] using hy.1) with hactive | hlru
  · exact .inl (mem_listDel.mpr ⟨hactive, hy.2⟩)
  · exact .inr (mem_listDel.mpr ⟨hlru, hy.2⟩)

theorem retired (h : Sound s (gain held x)) (hne : (s.inode x).ref ≠ 0) (hlast : (s.inode x).ref - 1 = 0) :
    Sound (toPurge { s.modify x (fun i => { i with ref := i.ref - 1 }) with
      activeSize := s.activeSize - 1 } x) held := by
  have hx : x ∈ s.active := (h.active x).mpr hne
  obtain ⟨hlru, hpurge⟩ := h.notMem_of_active hx
  have hdel := perm_listDel h.active_nodup hx
  have hperm : (listDel x s.active ++ listDel x s.lru ++ (listDel x s.purge ++ [x])).Perm
      (s.active ++ s.lru ++ s.purge) := by
    rw [listDel_of_notMem hlru, listDel_of_notMem hpurge]
    exact perm_toPurge (hdel.append_right s.lru)
  exact
    { h with
      nodup := hperm.nodup_iff.mpr h.nodup
      heap := fun y => (h.heap y).trans hperm.mem_iff.symm
      active := h.active_drop hlast
      counted := h.counted_drop hne
      hash := h.hash_toPurge
      activeSize := size_del h.activeSize hdel
      lruSize := size_same h.lruSize hlru
      purgeSize := size_snoc h.purgeSize hpurge }

theorem retired_lru (h : Sound s held) (hx : x ∈ s.lru) :
    Sound (toPurge { s with lruSize := s.lruSize - 1 } x) held := by
  obtain ⟨hactive, hpurge⟩ := h.notMem_of_lru hx
  have hdel := perm_listDel h.lru_nodup hx
  have hperm : (listDel x s.active ++ listDel x s.lru ++ (listDel x s.purge ++ [x])).Perm
      (s.active ++ s.lru ++ s.purge) := by
    rw [listDel_of_notMem hactive, listDel_of_notMem hpurge]
    exact perm_toPurge ((hdel.append_left s.active).trans perm_middle)
  exact
    { h with
      nodup := hperm.nodup_iff.mpr h.nodup
      heap := fun y => (h.heap y).trans hperm.mem_iff.symm
      active := by
        show ∀ y, y ∈ listDel x s.active ↔ _
        rw [listDel_of_notMem hactive]
        exact h.active
      hash := h.hash_toPurge
      activeSize := size_same h.activeSize hactive
      lruSize := size_del h.lruSize hdel
      purgeSize := size_snoc h.purgeSize hpurge }

end Sound

/-! ## The cascade -/

/-- What `__inode_unref` does, as long as there is fuel for the dentries. -/
def Drops (unref : Table → Addr → Except Fault Table) (n : Nat) : Prop :=
  ∀ s held x, s.dentries.length < n → Sound s (gain held x) →
    ∃ s', unref s x = .ok s' ∧ Sound s' held ∧ Cascade (fun _ => False) s s'

theorem dentryUnset_sound (hunref : Drops unref n)
    (hn : s.dentries.length ≤ n) (h : Sound s held) (hd : d ∈ s.dentries) :
    ∃ s', dentryUnset unref s d = .ok s' ∧ Sound s' held ∧ Cascade (· = d) s s' := by
  have hlen : (s.dentries.erase d).length < n := by
    have herase := length_erase_of_mem hd
    have hpos := length_pos_of_mem hd
    omega
  obtain ⟨s', hstep, hsound, hcasc⟩ := hunref _ held d.parent hlen (h.erase hd)
  refine ⟨s', ?_, hsound, (Cascade.erase s d).trans hcasc ?_⟩
  · simp [dentryUnset, hd, hstep]
  rintro e - - (rfl | hfalse)
  · rfl
  · exact hfalse.elim

/-- **The loop over the dentries of an inode without references**: each one is still there when its turn
    comes. -/
theorem unsetAll_sound (hunref : Drops unref n) :
    ∀ {ds : List DentryT} {s : Table}, s.dentries.length ≤ n → Sound s held → (∀ d ∈ ds, d ∈ s.dentries) →
      ds.Nodup → (∀ d ∈ ds, (s.inode d.inode).ref = 0) →
      ∃ s', unsetAll unref s ds = .ok s' ∧ Sound s' held ∧ Cascade (· ∈ ds) s s' := by
  intro ds
  induction ds with
  | nil =>
    intro s _ h _ _ _
    exact ⟨s, rfl, h, .refl _ s⟩
  | cons d ds ih =>
    intro s hn h hmem hnd hzero
    obtain ⟨hd, hds⟩ := nodup_cons.mp hnd
    obtain ⟨s1, hstep, hsound, hcasc⟩ := dentryUnset_sound hunref hn h (hmem d mem_cons_self)
    have hn1 : s1.dentries.length ≤ n := hcasc.dentries.length_le.trans hn
    have hmem1 : ∀ e ∈ ds, e ∈ s1.dentries := by
      intro e he
      have hne : e ≠ d := fun heq => hd (heq ▸ he)
      exact hcasc.kept e (hmem e (mem_cons_of_mem d he)) hne (hzero e (mem_cons_of_mem d he))
    have hzero1 : ∀ e ∈ ds, (s1.inode e.inode).ref = 0 := fun e he =>
      hcasc.ref_zero (hzero e (mem_cons_of_mem d he))
    obtain ⟨s', hrest, hsound', hcascade'⟩ := ih hn1 hsound hmem1 hds hzero1
    refine ⟨s', ?_, hsound', hcasc.trans hcascade' ?_⟩
    · simp [unsetAll, hstep, hrest]
    rintro e - - (rfl | he)
    · exact mem_cons_self
    · exact mem_cons_of_mem d he

theorem length_listDel_le (x : Addr) (l : List Addr) : (listDel x l).length ≤ l.length := length_filter_le ..

theorem Cascade.toPurge (gone : DentryT → Prop) (hroot : (s.inode s.root).ino = 1 → x ≠ s.root) :
    Cascade gone s (toPurge s x) :=
  { Cascade.refl gone s with
    rootKept := by
      intro hino
      refine ⟨rfl, fun hhash => ?_⟩
      simpa [isInodeHashed, Inode.toPurge, inodeUnhash, Table.detach, (hroot hino).symm] using hhash
    unpurged := Nat.add_le_add (length_listDel_le x s.active) (length_listDel_le x s.lru) }

theorem Cascade.drop (gone : DentryT → Prop) (hroot : (s.inode s.root).ino = 1 → x ≠ s.root)
    (hne : (s.inode x).ref ≠ 0) (activeSize : BitVec 32) :
    Cascade gone s { s.modify x (fun i => { i with ref := i.ref - 1 }) with activeSize := activeSize } :=
  { Cascade.refl gone s with
    ino := by
      intro y
      by_cases hy : y = x <;> simp [Table.modify, hy]
    refs := by
      intro y
      by_cases hy : y = x
      · have hsub := toNat_sub_one hne
        simp only [Table.modify, hy, if_true]
        omega
      · simp [Table.modify, hy]
    rootKept := by
      intro hino
      exact ⟨by simp [Table.modify, (hroot hino).symm], id⟩ }

theorem inodeRetire_sound (hunref : Drops unref n)
    (hn : s.dentries.length ≤ n) (h : Sound (toPurge s x) held) (hzero : (s.inode x).ref = 0) :
    ∃ s', inodeRetire unref s x = .ok s' ∧ Sound s' held ∧
      (((s.inode s.root).ino = 1 → x ≠ s.root) → Cascade (fun d => d.inode = x) s s') ∧ s'.lruLimit = s.lruLimit ∧
      s'.active.length + s'.lru.length ≤ (listDel x s.active).length + (listDel x s.lru).length := by
  have hmem : ∀ d ∈ (toPurge s x).dentriesOf x, d ∈ (toPurge s x).dentries ∧ d.inode = x := by
    intro d hd
    simpa [Table.dentriesOf] using hd
  have hloop : ∃ s', unsetAll unref (toPurge s x) ((toPurge s x).dentriesOf x) = .ok s' ∧ Sound s' held ∧
      Cascade (· ∈ (toPurge s x).dentriesOf x) (toPurge s x) s' := by
    have hn' : (toPurge s x).dentries.length ≤ n := hn
    have hzero' : ∀ d ∈ (toPurge s x).dentriesOf x, ((toPurge s x).inode d.inode).ref = 0 := by
      intro d hd
      rw [(hmem d hd).2]
      exact hzero
    exact unsetAll_sound hunref hn' h (fun d hd => (hmem d hd).1) (h.distinct.filter _) hzero'
  obtain ⟨s', hloop, hsound, hcasc⟩ := hloop
  refine ⟨s', hloop, hsound, fun hroot => (Cascade.toPurge (fun _ => False) hroot).trans hcasc ?_,
    hcasc.lruLimit, hcasc.unpurged⟩
  rintro d - - (hfalse | hd)
  · exact hfalse.elim
  · exact (hmem d hd).2

/-- **A dropped reference cascades**: the books are right afterwards, nothing that was gone is touched, and
    what has no references keeps its dentries. -/
theorem inodeUnrefFuel_drops : ∀ n : Nat, Drops (inodeUnrefFuel n) n := by
  intro n
  induction n with
  | zero =>
    intro s held x hlen
    exact absurd hlen (Nat.not_lt_zero _)
  | succ n ih =>
    intro s held x hlen h
    unfold inodeUnrefFuel
    split
    · exact ⟨s, rfl, h.mono, .refl _ s⟩
    next hino =>
    have hpos : (s.inode x).ref ≠ 0 := by
      intro hzero
      have hcnt := h.counted x
      simp [hzero, gain] at hcnt
    have hroot : (s.inode s.root).ino = 1 → x ≠ s.root := by
      intro hone heq
      rw [heq] at hino
      exact hino hone
    rw [if_neg hpos]
    dsimp only
    rw [modify_self]
    by_cases hlast : (s.inode x).ref - 1 = 0
    · rw [if_pos hlast]
      set t : Table := { s.modify x (fun i => { i with ref := i.ref - 1 }) with activeSize := s.activeSize - 1 }
        with ht
      have hdrop : Cascade (fun _ => False) s t := .drop _ hroot hpos _
      have htzero : (t.inode x).ref = 0 := by
        rw [← hlast]
        simp [ht, Table.modify]
      have htroot : (t.inode t.root).ino = 1 → x ≠ t.root := fun hone => hroot ((hdrop.ino s.root).symm.trans hone)
      split
      · -- `__inode_passivate` frees the dentries that are not hashed, and there are none
        have hsound : Sound (toLru t x) held := h.passivated hpos hlast
        have hnone : ((toLru t x).dentriesOf x).filter (fun d => !d.hashed) = [] := by
          apply filter_eq_nil_iff.mpr
          intro d hd
          have hhashed := hsound.hashed d (mem_of_mem_filter hd)
          simp [hhashed]
        refine ⟨toLru t x, ?_, hsound, ?_⟩
        · show unsetAll (inodeUnrefFuel n) (toLru t x) (((toLru t x).dentriesOf x).filter fun d => !d.hashed) = _
          rw [hnone]
          rfl
        exact
          { hdrop with
            unpurged := by
              have hx : x ∈ s.active := (h.active x).mpr hpos
              have hactive : s.active.length = (listDel x s.active).length + 1 :=
                (perm_listDel h.active_nodup hx).length_eq
              have hlru := length_listDel_le x s.lru
              show (listDel x s.active).length + (listDel x s.lru ++ [x]).length ≤ _
              rw [length_append, length_singleton]
              omega }
      have hsound : Sound (toPurge t x) held := h.retired hpos hlast
      have htlength : t.dentries.length ≤ n := Nat.le_of_lt_succ hlen
      obtain ⟨s', hretire, hsound', hcasc, -⟩ := inodeRetire_sound ih htlength hsound htzero
      refine ⟨s', hretire, hsound', hdrop.trans (hcasc htroot) ?_⟩
      rintro d - hzero (hfalse | hd)
      · exact hfalse.elim
      rw [hd] at hzero
      exact hpos hzero
    rw [if_neg hlast]
    exact ⟨_, rfl, h.dropped hpos hlast, .drop _ hroot hpos s.activeSize⟩

/-- `__inode_unref` has fuel for all dentries. -/
theorem inodeUnrefLocked_drops (n : Nat) : Drops inodeUnrefLocked n :=
  fun s held x _ h => inodeUnrefFuel_drops (s.dentries.length + 1) s held x (Nat.lt_succ_self _) h

/-! ## Pruning -/

/-- The root is in the hash, and it is the inode with number 1. -/
def RootIn (s : Table) : Prop := (s.inode s.root).ino = 1 ∧ isInodeHashed s s.root = true

/-- Pruning does not get at the root. -/
def RootSafe (s : Table) : Prop := s.lruLimit = 0 ∨ (s.inode s.root).ref ≠ 0
deriving Decidable

theorem Cascade.rootIn (h : Cascade gone s s') (hroot : RootIn s) : RootIn s' := by
  have hino := h.ino s.root
  unfold RootIn
  rw [h.root]
  exact ⟨hino.trans hroot.1, (h.rootKept hroot.1).2 hroot.2⟩

theorem Cascade.rootSafe (h : Cascade gone s s') (hroot : RootIn s) (hsafe : RootSafe s) : RootSafe s' := by
  unfold RootSafe
  rw [h.root, h.lruLimit, (h.rootKept hroot.1).1]
  exact hsafe

/-- The loop of `inode_table_prune` has nothing to do. -/
def Settled (s : Table) : Prop := ¬ (s.lruLimit ≠ 0 ∧ s.lruLimit < s.lruSize)

theorem pruneLoop_settled (h : Settled s) (fuel : Nat) : pruneLoop fuel s = .ok s := by
  unfold pruneLoop
  exact if_neg h

/-- **Pruning ends and keeps the books right**; it is a cascade if it does not get at the root. -/
theorem pruneLoop_sound : ∀ {fuel : Nat} {s : Table}, s.active.length + s.lru.length ≤ fuel → Sound s held →
    ∃ s', pruneLoop fuel s = .ok s' ∧ Sound s' held ∧ (RootIn s → RootSafe s → Cascade (fun _ => True) s s') ∧
      s'.lruLimit = s.lruLimit ∧ Settled s' := by
  intro fuel
  induction fuel with
  | zero =>
    intro s hfuel h
    have hsettled : Settled s := by
      rintro ⟨-, hlt⟩
      have hnil : s.lru = [] := length_eq_zero_iff.mp (by omega)
      rw [h.lruSize, hnil] at hlt
      exact absurd hlt (BitVec.not_lt_zero)
    exact ⟨s, pruneLoop_settled hsettled 0, h, fun _ _ => .refl _ s, rfl, hsettled⟩
  | succ fuel ih =>
    intro s hfuel h
    by_cases hmore : s.lruLimit ≠ 0 ∧ s.lruLimit < s.lruSize
    swap
    · exact ⟨s, pruneLoop_settled hmore _, h, fun _ _ => .refl _ s, rfl, hmore⟩
    cases hlru : s.lru with
    | nil =>
      obtain ⟨-, hlt⟩ := hmore
      rw [h.lruSize, hlru] at hlt
      exact absurd hlt (BitVec.not_lt_zero)
    | cons entry rest =>
      have hentry : entry ∈ s.lru := by
        rw [hlru]
        exact mem_cons_self
      have hzero : (s.inode entry).ref = 0 := by
        have hnot := (h.notMem_of_lru hentry).1
        rwa [h.active, not_not] at hnot
      set t : Table := { s with lruSize := s.lruSize - 1 } with ht
      obtain ⟨s1, hretire, hsound, hcasc, hlimit, hless⟩ := inodeRetire_sound (s := t)
        (inodeUnrefLocked_drops t.dentries.length) (Nat.le_refl _) (h.retired_lru hentry) hzero
      have hfuel1 : s1.active.length + s1.lru.length ≤ fuel := by
        have hdel : s.lru.length = (listDel entry s.lru).length + 1 := (perm_listDel h.lru_nodup hentry).length_eq
        have hactive := length_listDel_le entry s.active
        have hless' : s1.active.length + s1.lru.length ≤
            (listDel entry s.active).length + (listDel entry s.lru).length := hless
        omega
      obtain ⟨s', hloop, hsound', hcascade', hlimit', hsettled⟩ := ih hfuel1 hsound
      refine ⟨s', ?_, hsound', fun hroot hsafe => ?_, hlimit'.trans hlimit, hsettled⟩
      swap
      · have hne : entry ≠ s.root := by
          rintro rfl
          exact hsafe.elim hmore.1 fun href => href hzero
        have hstart : Cascade (fun _ => True) s t := { Cascade.refl (fun _ => True) s with }
        have hall : Cascade (fun _ => True) s s1 := hstart.trans (hcasc fun _ => hne) fun _ _ _ _ => trivial
        exact hall.trans (hcascade' (hall.rootIn hroot) (hall.rootSafe hroot hsafe)) fun _ _ _ _ => trivial
      have ht' : t = { s with lruSize := s.lruSize - 1, lru := entry :: rest } := by rw [ht, ← hlru]
      unfold pruneLoop
      rw [if_pos hmore, hlru]
      dsimp only
      rw [← ht', hretire]
      exact hloop

theorem Sound.destroyPurged (h : Sound s held) : Sound (destroyPurged s) held := by
  have href : ∀ x, ((Inode.destroyPurged s).inode x).ref = (s.inode x).ref := by
    intro x
    unfold Inode.destroyPurged
    dsimp only
    split <;> rfl
  have hnd : (s.active ++ s.lru).Nodup := (nodup_append.mp h.nodup).1
  exact
    { h with
      nodup := by
        show (s.active ++ s.lru ++ []).Nodup
        rwa [append_nil]
      heap := by
        intro x
        have hdisjoint : x ∈ s.active ++ s.lru → x ∉ s.purge :=
          fun hx hpurge => (nodup_append.mp h.nodup).2.2 x hx x hpurge rfl
        show x ∈ s.heap.filter (fun x => x ∉ s.purge) ↔ x ∈ s.active ++ s.lru ++ []
        rw [append_nil, mem_filter, h.heap x, mem_append]
        constructor
        · rintro ⟨hx, hnot⟩
          exact hx.resolve_right (by simpa using hnot)
        intro hx
        exact ⟨.inl hx, by simpa using hdisjoint hx⟩
      fresh := fun x hx => h.fresh x (mem_of_mem_filter hx)
      active := by
        intro x
        rw [href]
        exact h.active x
      counted := by
        intro x
        rw [href]
        exact h.counted x
      purgeSize := rfl }

end

end GlusterFS.Inode
