import Mathlib.Data.BitVec
import Mathlib.Tactic.Common

/-! The regions of metal-compat.h, whose virtual addresses are contiguous and whose pages lie
anywhere in physical memory. An `unsigned long` and a pointer have `w` bits. -/

namespace Lininoio

/-- `struct metal_io_region`. The entries of `physmap` are physical addresses of pages; a NULL
pointer is `none`. -/
structure MetalIoRegion (w : Nat) where
  virt : BitVec w
  physmap : Option (Nat → BitVec w)
  size : BitVec w
  pageShift : BitVec w
  pageMask : BitVec w

variable {w : Nat}

def metalBadOffset : BitVec w := -1

def metalBadPhys : BitVec w := -1

def metalIoVirt (io : MetalIoRegion w) (offset : BitVec w) : BitVec w :=
  if offset ≤ io.size then io.virt + offset else 0

def metalIoVirtToOffset (io : MetalIoRegion w) (virt : BitVec w) : BitVec w :=
  if virt - io.virt < io.size then virt - io.virt else metalBadOffset

def metalIoPhys (io : MetalIoRegion w) (offset : BitVec w) : BitVec w :=
  match io.physmap with
  | none => metalBadPhys
  | some physmap =>
    if offset ≤ io.size ∧ physmap (offset >>> io.pageShift.toNat).toNat ≠ metalBadPhys then
      physmap (offset >>> io.pageShift.toNat).toNat + (offset &&& io.pageMask)
    else metalBadPhys

/-- The loop of `metal_io_phys_to_offset`, for a number of rounds. -/
def physToOffsetFrom (io : MetalIoRegion w) (phys : BitVec w) : Nat → BitVec w → Option (BitVec w)
  | 0, _ => none
  | rounds + 1, offset =>
    if metalIoPhys io offset = phys then some offset
    else if offset + (io.pageMask + 1) < io.size then
      physToOffsetFrom io phys rounds (offset + (io.pageMask + 1))
    else some metalBadOffset

/-- There is no result where the physmap that is read is NULL, or the loop does not end: an offset
comes again after `2 ^ w` rounds. -/
def metalIoPhysToOffset (io : MetalIoRegion w) (phys : BitVec w) : Option (BitVec w) :=
  if io.pageMask = -1 then
    io.physmap.bind fun physmap => physToOffsetFrom io phys (2 ^ w) (phys - physmap 0)
  else physToOffsetFrom io phys (2 ^ w) (phys &&& io.pageMask)

def metalIoPhysToVirt (io : MetalIoRegion w) (phys : BitVec w) : Option (BitVec w) :=
  (metalIoPhysToOffset io phys).map (metalIoVirt io)

def metalIoVirtToPhys (io : MetalIoRegion w) (virt : BitVec w) : BitVec w :=
  metalIoPhys io (metalIoVirtToOffset io virt)

/-- Every page of the region is mapped to a page of its own, and the search for an offset does not
leave the address space. -/
structure MetalIoRegion.Paged (io : MetalIoRegion w) (s : Nat) (physmap : Nat → BitVec w) : Prop where
  map : io.physmap = some physmap
  shift_lt : s < w
  shift : io.pageShift.toNat = s
  mask : io.pageMask.toNat = 2 ^ s - 1
  room : io.size.toNat + 2 ^ s < 2 ^ w
  aligned : ∀ p, p * 2 ^ s < io.size.toNat → 2 ^ s ∣ (physmap p).toNat
  mapped : ∀ p, p * 2 ^ s < io.size.toNat → physmap p ≠ metalBadPhys
  distinct : ∀ p q, p * 2 ^ s < io.size.toNat → q * 2 ^ s < io.size.toNat →
    physmap p = physmap q → p = q

namespace MetalIoRegion.Paged

variable {io : MetalIoRegion w} {s : Nat} {physmap : Nat → BitVec w}

theorem pow_pos (_ : io.Paged s physmap) : 0 < 2 ^ s := Nat.two_pow_pos s

theorem pow_lt (h : io.Paged s physmap) : 2 ^ s < 2 ^ w := Nat.pow_lt_pow_right (by decide) h.shift_lt

theorem toNat_and_mask (h : io.Paged s physmap) (x : BitVec w) :
    (x &&& io.pageMask).toNat = x.toNat % 2 ^ s := by
  rw [BitVec.toNat_and, h.mask, Nat.and_two_pow_sub_one_eq_mod]

theorem toNat_one (h : io.Paged s physmap) : (1 : BitVec w).toNat = 1 :=
  Nat.mod_eq_of_lt (Nat.lt_of_le_of_lt h.pow_pos h.pow_lt)

theorem toNat_mask_add_one (h : io.Paged s physmap) : (io.pageMask + 1).toNat = 2 ^ s := by
  have hpos := h.pow_pos
  have hlt := h.pow_lt
  rw [BitVec.toNat_add, h.mask, h.toNat_one, Nat.mod_eq_of_lt (by omega)]
  omega

theorem mask_ne (h : io.Paged s physmap) : io.pageMask ≠ -1 := by
  intro heq
  have hmask := h.toNat_mask_add_one
  rw [heq] at hmask
  have hpos := h.pow_pos
  have hzero : (-1 + 1 : BitVec w) = 0 := neg_add_cancel 1
  rw [hzero] at hmask
  exact absurd hmask.symm hpos.ne'

theorem toNat_phys (h : io.Paged s physmap) {o : BitVec w} (ho : o ≤ io.size)
    (hp : o.toNat / 2 ^ s * 2 ^ s < io.size.toNat) :
    (metalIoPhys io o).toNat = (physmap (o.toNat / 2 ^ s)).toNat + o.toNat % 2 ^ s := by
  have hpage : (o >>> io.pageShift.toNat).toNat = o.toNat / 2 ^ s := by
    rw [BitVec.toNat_ushiftRight, h.shift, Nat.shiftRight_eq_div_pow]
  have hmapped := h.mapped _ hp
  obtain ⟨c, hc⟩ := h.aligned _ hp
  obtain ⟨d, hd⟩ := Nat.pow_dvd_pow 2 h.shift_lt.le
  have hlt := (physmap (o.toNat / 2 ^ s)).isLt
  have hlow := Nat.mod_lt o.toNat h.pow_pos
  have hcd : c < d := Nat.lt_of_mul_lt_mul_left (hc ▸ hd ▸ hlt)
  have hnext : 2 ^ s * c + 2 ^ s ≤ 2 ^ w := by
    rw [hd, ← Nat.mul_succ]
    exact Nat.mul_le_mul_left _ hcd
  simp only [metalIoPhys, h.map, hpage, ho, true_and, ne_eq, hmapped, not_false_eq_true, if_true]
  rw [BitVec.toNat_add, h.toNat_and_mask, hc, Nat.mod_eq_of_lt (by omega)]

theorem physToOffsetFrom_phys (h : io.Paged s physmap) {o start : BitVec w} {rounds : Nat}
    (ho : o < io.size) (hle : start ≤ o) (hplace : start.toNat % 2 ^ s = o.toNat % 2 ^ s)
    (hrounds : o.toNat / 2 ^ s - start.toNat / 2 ^ s < rounds) :
    physToOffsetFrom io (metalIoPhys io o) rounds start = some o := by
  induction rounds generalizing start with
  | zero => omega
  | succ rounds ih =>
    have hpos := h.pow_pos
    have hroom := h.room
    rw [BitVec.lt_def] at ho
    rw [BitVec.le_def] at hle
    have hpages : start.toNat / 2 ^ s ≤ o.toNat / 2 ^ s := Nat.div_le_div_right hle
    have hdivStart := Nat.div_add_mod' start.toNat (2 ^ s)
    have hdiv := Nat.div_add_mod' o.toNat (2 ^ s)
    have hphys := h.toNat_phys (o := o) (BitVec.le_def.mpr ho.le) (by omega)
    have hphysStart := h.toNat_phys (o := start) (BitVec.le_def.mpr (by omega)) (by omega)
    by_cases heq : start = o
    · rw [physToOffsetFrom, heq, if_pos rfl]
    have hpage : start.toNat / 2 ^ s ≠ o.toNat / 2 ^ s := by
      intro hh
      rw [hh, hplace] at hdivStart
      exact heq (BitVec.eq_of_toNat_eq (hdivStart.symm.trans hdiv))
    have hne : metalIoPhys io start ≠ metalIoPhys io o := by
      intro hh
      rw [hh, hphys, hplace] at hphysStart
      have hmap := BitVec.eq_of_toNat_eq (Nat.add_right_cancel hphysStart)
      exact hpage (h.distinct _ _ (by omega) (by omega) hmap.symm)
    have hmul : (start.toNat / 2 ^ s + 1) * 2 ^ s ≤ o.toNat / 2 ^ s * 2 ^ s :=
      Nat.mul_le_mul_right _ (Nat.lt_of_le_of_ne hpages hpage)
    rw [Nat.add_mul, Nat.one_mul] at hmul
    have hnext : (start + (io.pageMask + 1)).toNat = start.toNat + 2 ^ s := by
      rw [BitVec.toNat_add, h.toNat_mask_add_one, Nat.mod_eq_of_lt (by omega)]
    have hsize : start + (io.pageMask + 1) < io.size := by
      rw [BitVec.lt_def, hnext]
      omega
    rw [physToOffsetFrom, if_neg hne, if_pos hsize]
    refine ih ?_ ?_ ?_
    · rw [BitVec.le_def, hnext]
      omega
    · rw [hnext, Nat.add_mod_right, hplace]
    · rw [hnext, Nat.add_div_right _ hpos]
      omega

theorem physToOffset_phys (h : io.Paged s physmap) {o : BitVec w} (ho : o < io.size) :
    metalIoPhysToOffset io (metalIoPhys io o) = some o := by
  have hlt := BitVec.lt_def.mp ho
  have hdiv := Nat.div_add_mod' o.toNat (2 ^ s)
  have hphys := h.toNat_phys (o := o) (BitVec.le_def.mpr hlt.le) (by omega)
  have hlow : (metalIoPhys io o &&& io.pageMask).toNat = o.toNat % 2 ^ s := by
    obtain ⟨c, hc⟩ := h.aligned (o.toNat / 2 ^ s) (by omega)
    rw [h.toNat_and_mask, hphys, hc, Nat.mul_add_mod, Nat.mod_mod]
  rw [metalIoPhysToOffset, if_neg h.mask_ne]
  refine h.physToOffsetFrom_phys ho ?_ ?_ ?_
  · rw [BitVec.le_def, hlow]
    exact Nat.mod_le _ _
  · rw [hlow, Nat.mod_mod]
  · rw [hlow, Nat.div_eq_of_lt (Nat.mod_lt _ h.pow_pos)]
    exact (Nat.div_le_self _ _).trans_lt o.isLt

theorem physToOffsetFrom_ends (h : io.Paged s physmap) (phys start : BitVec w) {rounds : Nat}
    (hstart : start.toNat + 2 ^ s < 2 ^ w)
    (hrounds : io.size.toNat / 2 ^ s - start.toNat / 2 ^ s < rounds) : ∃ o,
      physToOffsetFrom io phys rounds start = some o ∧
        (o = metalBadOffset ∨ metalIoPhys io o = phys ∧ (o = start ∨ o < io.size)) := by
  induction rounds generalizing start with
  | zero => omega
  | succ rounds ih =>
    by_cases heq : metalIoPhys io start = phys
    · exact ⟨start, by rw [physToOffsetFrom, if_pos heq], .inr ⟨heq, .inl rfl⟩⟩
    by_cases hsize : start + (io.pageMask + 1) < io.size
    · have hpos := h.pow_pos
      have hroom := h.room
      have hnext : (start + (io.pageMask + 1)).toNat = start.toNat + 2 ^ s := by
        rw [BitVec.toNat_add, h.toNat_mask_add_one, Nat.mod_eq_of_lt hstart]
      have hlt := BitVec.lt_def.mp hsize
      rw [hnext] at hlt
      have hpages : start.toNat / 2 ^ s + 1 ≤ io.size.toNat / 2 ^ s := by
        rw [← Nat.add_div_right _ hpos]
        exact Nat.div_le_div_right hlt.le
      obtain ⟨o, ho, hcases⟩ := ih (start + (io.pageMask + 1)) (by omega)
        (by rw [hnext, Nat.add_div_right _ hpos]; omega)
      refine ⟨o, by rw [physToOffsetFrom, if_neg heq, if_pos hsize, ho], ?_⟩
      rcases hcases with hbad | ⟨hphys, rfl | hlt⟩
      · exact .inl hbad
      · exact .inr ⟨hphys, .inr hsize⟩
      · exact .inr ⟨hphys, .inr hlt⟩
    · exact ⟨metalBadOffset, by rw [physToOffsetFrom, if_neg heq, if_neg hsize], .inl rfl⟩

theorem physToOffset_ends (h : io.Paged s physmap) (phys : BitVec w) :
    ∃ o, metalIoPhysToOffset io phys = some o ∧ (o = metalBadOffset ∨
      metalIoPhys io o = phys ∧ (o.toNat < 2 ^ s ∨ o < io.size)) := by
  have hpos := h.pow_pos
  have hlow : (phys &&& io.pageMask).toNat < 2 ^ s := by
    rw [h.toNat_and_mask]
    exact Nat.mod_lt _ hpos
  have hdouble : 2 ^ s * 2 ≤ 2 ^ w := by
    rw [← Nat.pow_succ]
    exact Nat.pow_le_pow_right (by decide) h.shift_lt
  have hroom := h.room
  have hpages : io.size.toNat / 2 ^ s < 2 ^ w := (Nat.div_le_self _ _).trans_lt io.size.isLt
  obtain ⟨o, ho, hcases⟩ := h.physToOffsetFrom_ends phys (phys &&& io.pageMask) (by omega)
    ((Nat.sub_le _ _).trans_lt hpages)
  refine ⟨o, by rw [metalIoPhysToOffset, if_neg h.mask_ne, ho], ?_⟩
  rcases hcases with hbad | ⟨hphys, rfl | hlt⟩
  · exact .inl hbad
  · exact .inr ⟨hphys, .inl hlow⟩
  · exact .inr ⟨hphys, .inr hlt⟩

theorem physToVirt_virtToPhys (h : io.Paged s physmap) {virt : BitVec w}
    (hvirt : virt - io.virt < io.size) :
    metalIoPhysToVirt io (metalIoVirtToPhys io virt) = some virt := by
  rw [metalIoPhysToVirt, metalIoVirtToPhys, metalIoVirtToOffset, if_pos hvirt,
    h.physToOffset_phys hvirt, Option.map_some, metalIoVirt, if_pos (BitVec.le_of_lt hvirt)]
  exact congrArg some (add_sub_cancel io.virt virt)

theorem physToVirt_ends (h : io.Paged s physmap) (phys : BitVec w) :
    ∃ virt, metalIoPhysToVirt io phys = some virt ∧ (virt = 0 ∨
      virt - io.virt < io.size ∧ metalIoVirtToPhys io virt = phys ∨
      virt - io.virt = io.size ∧ io.size.toNat < 2 ^ s) := by
  obtain ⟨o, ho, hcases⟩ := h.physToOffset_ends phys
  refine ⟨metalIoVirt io o, by rw [metalIoPhysToVirt, ho, Option.map_some], ?_⟩
  have hback : io.virt + o - io.virt = o := add_sub_cancel_left io.virt o
  by_cases hle : o ≤ io.size
  · rw [metalIoVirt, if_pos hle, hback]
    rcases hcases with rfl | ⟨hphys, hlt⟩
    · have hroom := h.room
      have hpos := h.pow_pos
      have hbad := BitVec.le_def.mp hle
      rw [metalBadOffset, BitVec.toNat_neg, h.toNat_one,
        Nat.mod_eq_of_lt (by omega)] at hbad
      omega
    by_cases hsize : o < io.size
    · rw [metalIoVirtToPhys, metalIoVirtToOffset, hback, if_pos hsize]
      exact .inr (.inl ⟨hsize, hphys⟩)
    · have heq : o = io.size := BitVec.le_antisymm hle (BitVec.not_lt.mp hsize)
      exact .inr (.inr ⟨heq, heq ▸ hlt.resolve_right hsize⟩)
  · exact .inl (if_neg hle)

end MetalIoRegion.Paged

/-- The region is one block of physical memory, for which the page mask is -1. -/
structure MetalIoRegion.Contiguous (io : MetalIoRegion w) (physmap : Nat → BitVec w) : Prop where
  map : io.physmap = some physmap
  shift_lt : io.pageShift.toNat < w
  mask : io.pageMask = -1
  fits : io.size.toNat < 2 ^ io.pageShift.toNat
  mapped : physmap 0 ≠ metalBadPhys

namespace MetalIoRegion.Contiguous

variable {io : MetalIoRegion w} {physmap : Nat → BitVec w}

theorem phys_eq (h : io.Contiguous physmap) {o : BitVec w} (ho : o ≤ io.size) :
    metalIoPhys io o = physmap 0 + o := by
  have hlt : o.toNat < 2 ^ io.pageShift.toNat := (BitVec.le_def.mp ho).trans_lt h.fits
  have hpage : (o >>> io.pageShift.toNat).toNat = 0 := by
    rw [BitVec.toNat_ushiftRight, Nat.shiftRight_eq_div_pow, Nat.div_eq_of_lt hlt]
  have hlow : o &&& io.pageMask = o := by
    rw [h.mask]
    exact (congrArg (o &&& ·) BitVec.neg_one_eq_allOnes).trans BitVec.and_allOnes
  simp only [metalIoPhys, h.map, hpage, hlow, ho, true_and, ne_eq, h.mapped, not_false_eq_true,
    if_true]

theorem physToOffset_eq (h : io.Contiguous physmap) (phys : BitVec w) :
    metalIoPhysToOffset io phys =
      physToOffsetFrom io phys (2 ^ w - 1 + 1) (phys - physmap 0) := by
  rw [metalIoPhysToOffset, if_pos h.mask, h.map, Option.bind_some, Nat.sub_add_cancel]
  exact Nat.two_pow_pos w

theorem physToVirt_virtToPhys (h : io.Contiguous physmap) {virt : BitVec w}
    (hvirt : virt - io.virt < io.size) :
    metalIoPhysToVirt io (metalIoVirtToPhys io virt) = some virt := by
  have hle := BitVec.le_of_lt hvirt
  have hphys := h.phys_eq hle
  have hback : metalIoPhys io (virt - io.virt) - physmap 0 = virt - io.virt := by
    rw [hphys]
    exact add_sub_cancel_left _ _
  rw [metalIoPhysToVirt, metalIoVirtToPhys, metalIoVirtToOffset, if_pos hvirt, h.physToOffset_eq,
    hback, physToOffsetFrom, if_pos rfl, Option.map_some, metalIoVirt, if_pos hle]
  exact congrArg some (add_sub_cancel io.virt virt)

/-- The search is over after one round: the next offset is the same one. -/
theorem physToVirt_ends (h : io.Contiguous physmap) (phys : BitVec w) :
    ∃ virt, metalIoPhysToVirt io phys = some virt := by
  rw [metalIoPhysToVirt, h.physToOffset_eq, physToOffsetFrom]
  by_cases hhere : metalIoPhys io (phys - physmap 0) = phys
  · exact ⟨_, by rw [if_pos hhere, Option.map_some]⟩
  have hnext : phys - physmap 0 + (io.pageMask + 1) = phys - physmap 0 := by
    rw [h.mask, neg_add_cancel, add_zero]
  have hbeyond : ¬ phys - physmap 0 < io.size := by
    intro hlt
    refine hhere ?_
    rw [h.phys_eq (BitVec.le_of_lt hlt)]
    exact add_sub_cancel _ _
  exact ⟨_, by rw [if_neg hhere, hnext, if_neg hbeyond, Option.map_some]⟩

end MetalIoRegion.Contiguous

/-- The regions for which `metal_io_phys_to_offset` is made. -/
def MetalIoRegion.Mapped (io : MetalIoRegion w) : Prop :=
  ∃ physmap, (∃ s, io.Paged s physmap) ∨ io.Contiguous physmap

theorem MetalIoRegion.Mapped.physToVirt_virtToPhys {io : MetalIoRegion w} (h : io.Mapped)
    {virt : BitVec w} (hvirt : virt - io.virt < io.size) :
    metalIoPhysToVirt io (metalIoVirtToPhys io virt) = some virt := by
  obtain ⟨physmap, ⟨s, hpaged⟩ | hblock⟩ := h
  · exact hpaged.physToVirt_virtToPhys hvirt
  · exact hblock.physToVirt_virtToPhys hvirt

theorem MetalIoRegion.Mapped.physToVirt_ends {io : MetalIoRegion w} (h : io.Mapped)
    (phys : BitVec w) : ∃ virt, metalIoPhysToVirt io phys = some virt := by
  obtain ⟨physmap, ⟨s, hpaged⟩ | hblock⟩ := h
  · obtain ⟨virt, hvirt, -⟩ := hpaged.physToVirt_ends phys
    exact ⟨virt, hvirt⟩
  · exact hblock.physToVirt_ends phys

/-- An address of the region leads to its physical address and back. -/
theorem metal_io_round_trip {io : MetalIoRegion w} {s : Nat} {physmap : Nat → BitVec w}
    (h : io.Paged s physmap) :
    (∀ virt, virt - io.virt < io.size →
      metalIoPhysToVirt io (metalIoVirtToPhys io virt) = some virt) ∧
    ∀ phys, ∃ virt, metalIoPhysToVirt io phys = some virt ∧ (virt = 0 ∨
      virt - io.virt < io.size ∧ metalIoVirtToPhys io virt = phys ∨
      virt - io.virt = io.size ∧ io.size.toNat < 2 ^ s) :=
  ⟨fun _ hvirt => h.physToVirt_virtToPhys hvirt, h.physToVirt_ends⟩

/-- The second page lies before the first in physical memory. -/
def twoPages : MetalIoRegion 32 :=
  ⟨0x1000, some fun p => if p = 0 then 0x20000040 else 0x20000000, 32, 4, 15⟩

theorem twoPages_paged : twoPages.Paged 4 fun p => if p = 0 then 0x20000040 else 0x20000000 where
  map := rfl
  shift_lt := by decide
  shift := rfl
  mask := rfl
  room := by decide
  aligned p _ := by split <;> decide
  mapped p _ := by split <;> decide
  distinct p q hp hq hsame := by
    have hsize : twoPages.size.toNat = 32 := rfl
    by_cases hp0 : p = 0 <;> by_cases hq0 : q = 0
    · rw [hp0, hq0]
    · simp [hp0, hq0] at hsame
    · simp [hp0, hq0] at hsame
    · omega

theorem twoPages_mapped : twoPages.Mapped := ⟨_, .inl ⟨4, twoPages_paged⟩⟩

theorem twoPages_round_trip : metalIoVirtToPhys twoPages 0x1018 = 0x20000008 ∧
    metalIoPhysToVirt twoPages (metalIoVirtToPhys twoPages 0x1018) = some 0x1018 :=
  ⟨rfl, (metal_io_round_trip twoPages_paged).1 0x1018 (by decide)⟩

end Lininoio
