import Mathlib.Data.List.Nodup
import Mathlib.Data.BitVec

/-!
# `Dht.Helper` — subvolumes and the numbers that name them (`dht-helper.c`)

An inode number or a directory offset of a subvolume is made one of the volume by `dht_itransform`, which puts
the place of the subvolume into the remainder; `dht_deitransform` takes it apart again.
-/

namespace GlusterFS.Dht

variable {ξ : Type}

/-- `dht_conf_t`: the subvolumes, in the order of the volume file, and which of them are up. -/
structure Conf (ξ : Type) where
  subvolumes : List ξ
  subvolumeStatus : ξ → Bool
  nonempty : subvolumes ≠ []
  distinct : subvolumes.Nodup

namespace Conf

variable (conf : Conf ξ)

def subvolumeCnt : Nat := conf.subvolumes.length

theorem subvolumeCnt_pos : 0 < conf.subvolumeCnt := List.length_pos_iff.mpr conf.nonempty

def dhtFirstUpSubvol : Option ξ := conf.subvolumes.find? conf.subvolumeStatus

variable [DecidableEq ξ]

def dhtSubvolNext (prev : ξ) : Option ξ := conf.subvolumes[conf.subvolumes.idxOf prev + 1]?

def dhtSubvolCnt (subvol : ξ) : Int :=
  if subvol ∈ conf.subvolumes then conf.subvolumes.idxOf subvol else -1

def dhtItransform (subvol : ξ) (x : BitVec 64) : BitVec 64 :=
  if x = BitVec.allOnes 64 then BitVec.allOnes 64
  else x * BitVec.ofNat 64 conf.subvolumeCnt + BitVec.ofInt 64 (conf.dhtSubvolCnt subvol)

/-- What `dht_itransform` makes of a number of the subvolume fits into 64 bits. -/
def Fits (subvol : ξ) (x : BitVec 64) : Prop :=
  x.toNat * conf.subvolumeCnt + conf.subvolumes.idxOf subvol < 2 ^ 64
deriving Decidable

omit [DecidableEq ξ] in
def dhtDeitransform (y : BitVec 64) : ξ × BitVec 64 :=
  (conf.subvolumes.get ⟨y.toNat % conf.subvolumeCnt, Nat.mod_lt _ conf.subvolumeCnt_pos⟩,
    BitVec.ofNat 64 (y.toNat / conf.subvolumeCnt))

end Conf

section

variable [DecidableEq ξ] {conf : Conf ξ}

theorem idxOf_split {pre post : List ξ} {x : ξ} (h : conf.subvolumes = pre ++ x :: post) :
    conf.subvolumes.idxOf x = pre.length := by
  have hnot : x ∉ pre := by
    have hdist := conf.distinct
    rw [h, List.nodup_append] at hdist
    exact fun hx => hdist.2.2 x hx x List.mem_cons_self rfl
  rw [h, List.idxOf_append_of_notMem hnot]
  simp

theorem dhtSubvolNext_split {pre post : List ξ} {x : ξ} (h : conf.subvolumes = pre ++ x :: post) :
    conf.dhtSubvolNext x = post.head? := by
  unfold Conf.dhtSubvolNext
  rw [idxOf_split h, h, List.getElem?_append_right (by omega)]
  simp [List.head?_eq_getElem?]

/-- **What `dht_itransform` makes is taken apart again**, if it fits into 64 bits. -/
theorem dhtDeitransform_dhtItransform {x : ξ} (hx : x ∈ conf.subvolumes) {off : BitVec 64}
    (hfits : off.toNat * conf.subvolumeCnt + conf.subvolumes.idxOf x < 2 ^ 64) :
    conf.dhtDeitransform (conf.dhtItransform x off) = (x, off) := by
  have hidx : conf.subvolumes.idxOf x < conf.subvolumeCnt := List.idxOf_lt_length_of_mem hx
  have hpos := conf.subvolumeCnt_pos
  have hnat : (conf.dhtItransform x off).toNat = off.toNat * conf.subvolumeCnt + conf.subvolumes.idxOf x := by
    unfold Conf.dhtItransform
    split
    next hones =>
      -- the greatest offset fits only if there is one subvolume
      rw [hones, BitVec.toNat_allOnes] at hfits ⊢
      have hone : conf.subvolumeCnt = 1 := by
        by_contra hne
        have htwo : (2 ^ 64 - 1) * 2 ≤ (2 ^ 64 - 1) * conf.subvolumeCnt := Nat.mul_le_mul_left _ (by omega)
        omega
      rw [hone] at hidx ⊢
      omega
    · have hcnt : conf.dhtSubvolCnt x = (conf.subvolumes.idxOf x : Int) := if_pos hx
      rw [hcnt, BitVec.ofInt_natCast, BitVec.toNat_add, BitVec.toNat_mul, BitVec.toNat_ofNat,
        BitVec.toNat_ofNat, Nat.mul_mod_mod, ← Nat.add_mod]
      exact Nat.mod_eq_of_lt hfits
  have hmod : (off.toNat * conf.subvolumeCnt + conf.subvolumes.idxOf x) % conf.subvolumeCnt =
      conf.subvolumes.idxOf x := by
    rw [mul_comm, Nat.mul_add_mod, Nat.mod_eq_of_lt hidx]
  have hdiv : (off.toNat * conf.subvolumeCnt + conf.subvolumes.idxOf x) / conf.subvolumeCnt = off.toNat := by
    rw [mul_comm, Nat.mul_add_div hpos, Nat.div_eq_of_lt hidx, add_zero]
  unfold Conf.dhtDeitransform
  simp only [hnat, hmod, hdiv]
  simp

/-- **`dht_itransform` is reversible exactly where it stays below 2^64**, and there no two pairs of a
    subvolume and a number share a number of the volume. -/
theorem dhtItransform_reversible {x : ξ} (hx : x ∈ conf.subvolumes) (off : BitVec 64) :
    (conf.dhtDeitransform (conf.dhtItransform x off) = (x, off) ↔ conf.Fits x off) ∧
      (conf.Fits x off → ∀ x' ∈ conf.subvolumes, ∀ off', conf.Fits x' off' →
        conf.dhtItransform x' off' = conf.dhtItransform x off → (x', off') = (x, off)) := by
  refine ⟨⟨fun hback => ?_, dhtDeitransform_dhtItransform hx⟩, fun hfits x' hx' off' hfits' heq => ?_⟩
  · -- quotient and remainder of a 64-bit number put together are that number
    generalize conf.dhtItransform x off = y at hback
    obtain ⟨rfl, rfl⟩ := Prod.mk.inj hback
    have hquot : y.toNat / conf.subvolumeCnt < 2 ^ 64 := lt_of_le_of_lt (Nat.div_le_self _ _) y.isLt
    rw [Conf.Fits, BitVec.toNat_ofNat, Nat.mod_eq_of_lt hquot, List.get_eq_getElem, conf.distinct.idxOf_getElem,
      Nat.div_add_mod']
    exact y.isLt
  · rw [← dhtDeitransform_dhtItransform hx' hfits', heq, dhtDeitransform_dhtItransform hx hfits]

end

theorem pair_nonempty : [false, true] ≠ [] := by decide

theorem pair_distinct : [false, true].Nodup := by decide

def sampleConf : Conf Bool := ⟨[false, true], fun _ => true, pair_nonempty, pair_distinct⟩

theorem small_reversible : sampleConf.Fits true 5 ∧
    sampleConf.dhtDeitransform (sampleConf.dhtItransform true 5) = (true, 5) := by
  have hfits : sampleConf.Fits true 5 := by decide
  exact ⟨hfits, (dhtItransform_reversible (by decide) 5).1.mpr hfits⟩

/-- Of two subvolumes, 2^63 and 0 become one number. -/
theorem large_collides : (2 ^ 63 : BitVec 64) ≠ 0 ∧
    sampleConf.dhtItransform false (2 ^ 63) = sampleConf.dhtItransform false 0 ∧
    sampleConf.dhtDeitransform (sampleConf.dhtItransform false (2 ^ 63)) = (false, 0) := by
  decide +kernel

end GlusterFS.Dht
