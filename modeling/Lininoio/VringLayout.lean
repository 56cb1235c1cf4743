import Mathlib.Data.BitVec
import Mathlib.Tactic.Common

/-! Where the parts of a ring lie in memory, from virtio_ring.h. An `unsigned long` and a pointer have
`w` bits, an `int` 32. -/

namespace Lininoio

variable {w : Nat}

def vringSize (num : BitVec 32) (align : BitVec w) : BitVec 32 :=
  let size : BitVec 32 := (num.setWidth w * 16).setWidth 32
  let size := (size.signExtend w + (4 + num.setWidth w * 2 + 2)).setWidth 32
  let size := ((size.signExtend w + align - 1) &&& ~~~(align - 1)).setWidth 32
  (size.signExtend w + (4 + num.setWidth w * 8 + 2)).setWidth 32

/-- `struct vring`: the addresses of its parts. -/
structure VringParts (w : Nat) where
  num : BitVec 32
  desc : BitVec w
  avail : BitVec w
  used : BitVec w

def vringInit (num : BitVec 32) (p align : BitVec w) : VringParts w :=
  let avail := p + num.setWidth w * 16
  ⟨num, p, avail, ((avail + 4 + num.setWidth w * 2) + align - 1) &&& ~~~(align - 1)⟩

/-- The address of `vring_used_event`. -/
def VringParts.usedEvent (vr : VringParts w) : BitVec w := vr.avail + 4 + vr.num.setWidth w * 2

/-- The address of `vring_avail_event`. -/
def VringParts.availEvent (vr : VringParts w) : BitVec w := vr.used + 4 + vr.num.setWidth w * 8

theorem toNat_and_not_mask {align : BitVec w} {a : Nat} (halign : align.toNat = 2 ^ a) (x : BitVec w) :
    (x &&& ~~~(align - 1)).toNat = x.toNat / 2 ^ a * 2 ^ a := by
  have hlt : 2 ^ a < 2 ^ w := halign ▸ align.isLt
  have hpos := Nat.two_pow_pos a
  have hmask : (align - 1).toNat = 2 ^ a - 1 := by
    have hone : (1 : BitVec w).toNat = 1 := Nat.mod_eq_of_lt (Nat.lt_of_le_of_lt hpos hlt)
    rw [BitVec.toNat_sub_of_le (by rw [BitVec.le_def, hone, halign]; exact hpos), halign, hone]
  apply Nat.eq_of_testBit_eq
  intro i
  have hbit : (align - 1).getLsbD i = decide (i < a) := by
    rw [BitVec.getLsbD, hmask, Nat.testBit_two_pow_sub_one]
  rw [BitVec.testBit_toNat, BitVec.getLsbD_and, BitVec.getLsbD_not, hbit, Nat.testBit_mul_two_pow,
    Nat.testBit_div_two_pow]
  by_cases hi : i < a
  · simp [hi]
  · have hle : a ≤ i := Nat.le_of_not_lt hi
    have hback : i - a + a = i := Nat.sub_add_cancel hle
    simp only [hi, decide_false, Bool.not_false, Bool.and_true, hle, decide_true, Bool.true_and, hback,
      BitVec.testBit_toNat]
    by_cases hw : i < w
    · simp [hw]
    · simp [BitVec.getLsbD_of_ge x i (Nat.le_of_not_lt hw)]

def roundedUp (a x : Nat) : Nat := (x + 2 ^ a - 1) / 2 ^ a * 2 ^ a

theorem roundedUp_spec (a x : Nat) :
    2 ^ a ∣ roundedUp a x ∧ x ≤ roundedUp a x ∧ roundedUp a x < x + 2 ^ a := by
  have hpos := Nat.two_pow_pos a
  have hle := Nat.div_mul_le_self (x + 2 ^ a - 1) (2 ^ a)
  have hlt := Nat.lt_div_mul_add (a := x + 2 ^ a - 1) hpos
  refine ⟨⟨(x + 2 ^ a - 1) / 2 ^ a, Nat.mul_comm ..⟩, ?_, ?_⟩
  · rw [roundedUp]
    omega
  · rw [roundedUp]
    omega

theorem roundedUp_le {a x y : Nat} (hy : 2 ^ a ∣ y) (hle : x ≤ y) : roundedUp a x ≤ y := by
  obtain ⟨hdvd, -, hlt⟩ := roundedUp_spec a x
  by_contra hh
  have hgap : 2 ^ a ∣ roundedUp a x - y := Nat.dvd_sub hdvd hy
  have hnext := Nat.le_of_dvd (by omega) hgap
  omega

theorem roundedUp_of_dvd {a x : Nat} (h : 2 ^ a ∣ x) : roundedUp a x = x :=
  le_antisymm (roundedUp_le h le_rfl) (roundedUp_spec a x).2.1

theorem roundedUp_add {a x : Nat} (y : Nat) (h : 2 ^ a ∣ x) :
    roundedUp a (x + y) = x + roundedUp a y := by
  obtain ⟨c, rfl⟩ := h
  have hpos := Nat.two_pow_pos a
  have hsum : 2 ^ a * c + y + 2 ^ a - 1 = y + 2 ^ a - 1 + 2 ^ a * c := by omega
  rw [roundedUp, roundedUp, hsum, Nat.add_mul_div_left _ _ hpos, Nat.add_mul, Nat.add_comm,
    Nat.mul_comm c]

theorem roundedUp_add_two {a x : Nat} (hx : 2 ∣ x) (h : ¬ 2 ^ a ∣ x) :
    x + 2 ≤ roundedUp a x ∧ roundedUp a (x + 2) = roundedUp a x := by
  obtain ⟨hdvd, hle, -⟩ := roundedUp_spec a x
  have heven : 2 ∣ 2 ^ a := by
    refine dvd_pow_self 2 ?_
    rintro rfl
    exact h (one_dvd x)
  have hne : roundedUp a x ≠ x := fun hh => h (hh ▸ hdvd)
  have htwo : x + 2 ≤ roundedUp a x := by
    have hparity := heven.trans hdvd
    omega
  obtain ⟨hdvd', hle', -⟩ := roundedUp_spec a (x + 2)
  exact ⟨htwo, le_antisymm (roundedUp_le hdvd htwo) (roundedUp_le hdvd' (by omega))⟩

theorem toNat_roundUp {align x : BitVec w} {a : Nat} (halign : align.toNat = 2 ^ a)
    (hroom : x.toNat + 2 ^ a < 2 ^ w) :
    ((x + align - 1) &&& ~~~(align - 1)).toNat = roundedUp a x.toNat := by
  have hpos := Nat.two_pow_pos a
  have hone : (1 : BitVec w).toNat = 1 :=
    Nat.mod_eq_of_lt (Nat.lt_of_le_of_lt (hpos.trans_le (Nat.le_add_left _ _)) hroom)
  have hsum : (x + align).toNat = x.toNat + 2 ^ a := by
    rw [BitVec.toNat_add, halign, Nat.mod_eq_of_lt hroom]
  rw [toNat_and_not_mask halign,
    BitVec.toNat_sub_of_le (by rw [BitVec.le_def, hone, hsum]; omega), hsum, hone, roundedUp]

theorem toNat_signExtend (hw : 32 ≤ w) {size : BitVec 32} (h : size.toNat < 2 ^ 31) :
    (size.signExtend w).toNat = size.toNat := by
  have hmsb : size.msb = false := by
    rw [BitVec.msb_eq_false_iff_two_mul_lt]
    omega
  rw [BitVec.signExtend_eq_setWidth_of_msb_false hmsb, BitVec.toNat_setWidth_of_le hw]

/-- `size += x`, for an `int` and a `size_t`. -/
theorem toNat_intAdd (hw : 32 ≤ w) {size : BitVec 32} {x : BitVec w}
    (h : size.toNat + x.toNat < 2 ^ 31) :
    ((size.signExtend w + x).setWidth 32).toNat = size.toNat + x.toNat := by
  have hpow : 2 ^ 32 ≤ 2 ^ w := Nat.pow_le_pow_right (by decide) hw
  rw [BitVec.toNat_setWidth, BitVec.toNat_add, toNat_signExtend hw (by omega),
    Nat.mod_eq_of_lt (Nat.lt_of_lt_of_le (by omega) hpow), Nat.mod_eq_of_lt (by omega)]

theorem toNat_literal (hw : 32 ≤ w) {c : Nat} (hc : c < 2 ^ 32) : (BitVec.ofNat w c).toNat = c := by
  rw [BitVec.toNat_ofNat]
  exact Nat.mod_eq_of_lt (Nat.lt_of_lt_of_le hc (Nat.pow_le_pow_right (by decide) hw))

section Layout

variable {num : BitVec 32} {align p : BitVec w} {a : Nat}

theorem toNat_entries (hw : 32 ≤ w) (num : BitVec 32) {d : BitVec w}
    (h : d.toNat * num.toNat < 2 ^ 32) :
    (num.setWidth w * d).toNat = d.toNat * num.toNat := by
  have hpow : 2 ^ 32 ≤ 2 ^ w := Nat.pow_le_pow_right (by decide) hw
  have hnum : (num.setWidth w).toNat = num.toNat := BitVec.toNat_setWidth_of_le hw
  rw [Nat.mul_comm] at h
  rw [BitVec.toNat_mul_of_lt (by rw [hnum]; exact Nat.lt_of_lt_of_le h hpow), hnum, Nat.mul_comm]

theorem toNat_ringSize (hw : 32 ≤ w) (num : BitVec 32) {d : BitVec w}
    (h : d.toNat * num.toNat + 6 < 2 ^ 32) :
    (4 + num.setWidth w * d + 2).toNat = d.toNat * num.toNat + 6 := by
  have hpow : 2 ^ 32 ≤ 2 ^ w := Nat.pow_le_pow_right (by decide) hw
  have hentries := toNat_entries hw num (d := d) (by omega)
  have htwo : (2 : BitVec w).toNat = 2 := toNat_literal hw (by decide)
  have hfour : (4 : BitVec w).toNat = 4 := toNat_literal hw (by decide)
  have hhead : (4 + num.setWidth w * d).toNat = 4 + d.toNat * num.toNat := by
    rw [BitVec.toNat_add_of_lt (by omega), hfour, hentries]
  rw [BitVec.toNat_add_of_lt (by omega), hhead, htwo]
  omega

theorem toNat_vringSize (hw : 32 ≤ w) (num : BitVec 32) (halign : align.toNat = 2 ^ a)
    (hsize : 26 * num.toNat + 2 ^ a + 12 < 2 ^ 31) :
    (vringSize num align).toNat = roundedUp a (18 * num.toNat + 6) + 8 * num.toNat + 6 := by
  have hpow : 2 ^ 32 ≤ 2 ^ w := Nat.pow_le_pow_right (by decide) hw
  have hround := (roundedUp_spec a (18 * num.toNat + 6)).2.2
  have htwo : (2 : BitVec w).toNat = 2 := toNat_literal hw (by decide)
  have height : (8 : BitVec w).toNat = 8 := toNat_literal hw (by decide)
  have hsixteen : (16 : BitVec w).toNat = 16 := toNat_literal hw (by decide)
  obtain ⟨table, htable⟩ : ∃ table : BitVec 32, table = (num.setWidth w * 16).setWidth 32 := ⟨_, rfl⟩
  have htable' : table.toNat = 16 * num.toNat := by
    rw [htable, BitVec.toNat_setWidth, toNat_entries hw num (by rw [hsixteen]; omega), hsixteen]
    exact Nat.mod_eq_of_lt (by omega)
  obtain ⟨avail, havail⟩ : ∃ avail : BitVec 32,
    avail = (table.signExtend w + (4 + num.setWidth w * 2 + 2)).setWidth 32 := ⟨_, rfl⟩
  have havail' : avail.toNat = 18 * num.toNat + 6 := by
    have hring := toNat_ringSize hw num (d := 2) (by rw [htwo]; omega)
    rw [htwo] at hring
    rw [havail, toNat_intAdd hw (by omega), htable', hring]
    omega
  obtain ⟨padded, hpadded⟩ : ∃ padded : BitVec 32,
    padded = ((avail.signExtend w + align - 1) &&& ~~~(align - 1)).setWidth 32 := ⟨_, rfl⟩
  have hpadded' : padded.toNat = roundedUp a (18 * num.toNat + 6) := by
    have hext : (avail.signExtend w).toNat = 18 * num.toNat + 6 := by
      rw [toNat_signExtend hw (by omega), havail']
    rw [hpadded, BitVec.toNat_setWidth, toNat_roundUp halign (by omega), hext]
    exact Nat.mod_eq_of_lt (by omega)
  have hring := toNat_ringSize hw num (d := 8) (by rw [height]; omega)
  rw [height] at hring
  have hlast : vringSize num align =
      (padded.signExtend w + (4 + num.setWidth w * 8 + 2)).setWidth 32 := by
    rw [hpadded, havail, htable]
    rfl
  rw [hlast, toNat_intAdd hw (by omega), hpadded', hring]
  omega

theorem toNat_usedEvent (hw : 32 ≤ w) (num : BitVec 32) (p align : BitVec w)
    (hroom : p.toNat + 18 * num.toNat + 4 < 2 ^ w) (hnum : 18 * num.toNat < 2 ^ 31) :
    (vringInit num p align).avail.toNat = p.toNat + 16 * num.toNat ∧
    (vringInit num p align).usedEvent.toNat = p.toNat + 18 * num.toNat + 4 := by
  have htwo : (2 : BitVec w).toNat = 2 := toNat_literal hw (by decide)
  have hfour : (4 : BitVec w).toNat = 4 := toNat_literal hw (by decide)
  have hsixteen : (16 : BitVec w).toNat = 16 := toNat_literal hw (by decide)
  have htable := toNat_entries hw num (d := 16) (by rw [hsixteen]; omega)
  have hring := toNat_entries hw num (d := 2) (by rw [htwo]; omega)
  rw [hsixteen] at htable
  rw [htwo] at hring
  have havail : (p + num.setWidth w * 16).toNat = p.toNat + 16 * num.toNat := by
    rw [BitVec.toNat_add_of_lt (by omega), htable]
  have hhead : (p + num.setWidth w * 16 + 4).toNat = p.toNat + 16 * num.toNat + 4 := by
    rw [BitVec.toNat_add_of_lt (by omega), havail, hfour]
  refine ⟨havail, ?_⟩
  change (p + num.setWidth w * 16 + 4 + num.setWidth w * 2).toNat = _
  rw [BitVec.toNat_add_of_lt (by omega), hhead, hring]
  omega

/-- There is no padding behind the available ring. -/
def Cramped (a k : Nat) : Prop := a ≤ 1 ∨ a = 2 ∧ k ≠ 0 ∨ a = 3 ∧ k = 1

theorem pow_dvd_iff {a c x : Nat} (hc : 2 ^ c ∣ x) (hnext : ¬ 2 ^ (c + 1) ∣ x) : 2 ^ a ∣ x ↔ a ≤ c := by
  refine ⟨fun h => ?_, fun h => (Nat.pow_dvd_pow 2 h).trans hc⟩
  by_contra hlt
  exact hnext ((Nat.pow_dvd_pow 2 (Nat.lt_of_not_le hlt)).trans h)

theorem cramped_iff {a k : Nat} : 2 ^ a ∣ 18 * 2 ^ k + 4 ↔ Cramped a k := by
  rw [Cramped]
  match k with
  | 0 =>
    rw [pow_dvd_iff (c := 1) (by decide) (by decide)]
    omega
  | 1 =>
    rw [pow_dvd_iff (c := 3) (by decide) (by decide)]
    omega
  | k + 2 =>
    have hfour : 18 * 2 ^ (k + 2) + 4 = 2 ^ 2 * (18 * 2 ^ k + 1) := by
      rw [Nat.pow_add]
      omega
    rw [pow_dvd_iff (c := 2) (hfour ▸ dvd_mul_right _ _) (by rw [hfour]; omega)]
    omega

/-- The parts of a ring of `n` descriptors from `p` on, the last of which is `r` bytes behind. -/
structure RingPlaced (vr : VringParts w) (p n r : Nat) : Prop where
  desc : vr.desc.toNat = p
  avail : vr.avail.toNat = p + 16 * n
  usedEvent : vr.usedEvent.toNat = p + 18 * n + 4
  used : vr.used.toNat = p + r
  availEvent : vr.availEvent.toNat = p + r + 4 + 8 * n

theorem ringPlaced_vringInit {k : Nat} (hw : 32 ≤ w) (hnum : num.toNat = 2 ^ k)
    (halign : align.toNat = 2 ^ a) (hp : 2 ^ a ∣ p.toNat) (hsize : 26 * 2 ^ k + 2 ^ a + 12 < 2 ^ 31)
    (hroom : p.toNat + 26 * 2 ^ k + 2 ^ a + 12 < 2 ^ w) :
    RingPlaced (vringInit num p align) p.toNat (2 ^ k) (roundedUp a (18 * 2 ^ k + 4)) ∧
    (vringSize num align).toNat = roundedUp a (18 * 2 ^ k + 6) + 8 * 2 ^ k + 6 := by
  obtain ⟨havail, hevent⟩ := toNat_usedEvent hw num p align
    (by rw [hnum]; omega) (by rw [hnum]; omega)
  have hbytes := toNat_vringSize hw num halign (by rw [hnum]; exact hsize)
  have hfour : (4 : BitVec w).toNat = 4 := toNat_literal hw (by decide)
  have height : (8 : BitVec w).toNat = 8 := toNat_literal hw (by decide)
  rw [hnum] at havail hevent hbytes
  have hround := (roundedUp_spec a (18 * 2 ^ k + 4)).2
  have hused : (vringInit num p align).used.toNat = p.toNat + roundedUp a (18 * 2 ^ k + 4) := by
    have hsame : (vringInit num p align).used =
        ((vringInit num p align).usedEvent + align - 1) &&& ~~~(align - 1) := rfl
    rw [hsame, toNat_roundUp halign (by omega), hevent, Nat.add_assoc, roundedUp_add _ hp]
  refine ⟨⟨rfl, havail, hevent, hused, ?_⟩, hbytes⟩
  have hring := toNat_entries hw num (d := 8) (by rw [height, hnum]; omega)
  rw [height, hnum] at hring
  have hhead : ((vringInit num p align).used + 4).toNat =
      p.toNat + roundedUp a (18 * 2 ^ k + 4) + 4 := by
    rw [BitVec.toNat_add_of_lt (by omega), hused, hfour]
  change ((vringInit num p align).used + 4 + num.setWidth w * 8).toNat = _
  rw [BitVec.toNat_add_of_lt (by omega), hhead, hring]

inductive RingField
  | desc (i : Nat)
  | availFlags
  | availIdx
  | availRing (i : Nat)
  | usedEvent
  | usedFlags
  | usedIdx
  | usedRing (i : Nat)
  | availEvent

namespace RingField

def Within (n : Nat) : RingField → Prop
  | desc i | availRing i | usedRing i => i < n
  | _ => True

def start (vr : VringParts w) : RingField → Nat
  | desc i => vr.desc.toNat + 16 * i
  | availFlags => vr.avail.toNat
  | availIdx => vr.avail.toNat + 2
  | availRing i => vr.avail.toNat + 4 + 2 * i
  | usedEvent => vr.usedEvent.toNat
  | usedFlags => vr.used.toNat
  | usedIdx => vr.used.toNat + 2
  | usedRing i => vr.used.toNat + 4 + 8 * i
  | availEvent => vr.availEvent.toNat

def bytes : RingField → Nat
  | desc _ => 16
  | usedRing _ => 8
  | _ => 2

def Apart (vr : VringParts w) (f g : RingField) : Prop :=
  f.start vr + f.bytes ≤ g.start vr ∨ g.start vr + g.bytes ≤ f.start vr

end RingField

section Fields

variable {vr : VringParts w} {n r : Nat} {f g : RingField}

theorem RingPlaced.bounds {q : Nat} (h : RingPlaced vr q n r) (hr : 18 * n + 4 ≤ r) (hf : f.Within n) :
    q ≤ f.start vr ∧ f.start vr + f.bytes ≤ q + r + 8 * n + 6 := by
  obtain ⟨hdesc, havail, hevent, hused, hlast⟩ := h
  cases f <;> simp only [RingField.Within, RingField.start, RingField.bytes] at hf ⊢ <;> omega

theorem RingPlaced.apart {q : Nat} (h : RingPlaced vr q n r) (hr : 18 * n + 6 ≤ r) (hf : f.Within n)
    (hg : g.Within n) (hne : f ≠ g) : f.Apart vr g := by
  obtain ⟨hdesc, havail, hevent, hused, hlast⟩ := h
  cases f <;> cases g <;>
    simp only [RingField.Within, RingField.Apart, RingField.start, RingField.bytes, ne_eq,
      RingField.desc.injEq, RingField.availRing.injEq, RingField.usedRing.injEq,
      not_true_eq_false] at hf hg hne ⊢ <;>
    omega

end Fields

/-- All fields of a ring lie within its size, and no two of them share a byte, except where there is
no padding behind the available ring. The load of a whole `id` for `avail_event` leaves the ring
in all other cases. -/
theorem vring_layout {k : Nat} (hw : 32 ≤ w) (hnum : num.toNat = 2 ^ k) (halign : align.toNat = 2 ^ a)
    (hp : 2 ^ a ∣ p.toNat) (hsize : 26 * 2 ^ k + 2 ^ a + 12 < 2 ^ 31)
    (hroom : p.toNat + 26 * 2 ^ k + 2 ^ a + 12 < 2 ^ w) :
    (∀ f : RingField, f.Within (2 ^ k) → p.toNat ≤ f.start (vringInit num p align) ∧
      f.start (vringInit num p align) + f.bytes ≤ p.toNat + (vringSize num align).toNat) ∧
    ((∀ f g : RingField, f.Within (2 ^ k) → g.Within (2 ^ k) → f ≠ g →
      f.Apart (vringInit num p align) g) ↔ ¬ Cramped a k) ∧
    ((vringInit num p align).availEvent.toNat + 4 ≤ p.toNat + (vringSize num align).toNat ↔
      Cramped a k) := by
  obtain ⟨hplaced, hbytes⟩ := ringPlaced_vringInit hw hnum halign hp hsize hroom
  have hround := (roundedUp_spec a (18 * 2 ^ k + 4)).2.1
  have hround' := (roundedUp_spec a (18 * 2 ^ k + 6)).2.1
  rw [← cramped_iff, hbytes, hplaced.availEvent]
  by_cases hdvd : 2 ^ a ∣ 18 * 2 ^ k + 4
  · have hnone := roundedUp_of_dvd hdvd
    refine ⟨fun f hf => ?_, iff_of_false (fun hh => ?_) (not_not_intro hdvd), ?_⟩
    · have hbounds := hplaced.bounds hround hf
      omega
    · have happart := hh .usedEvent .usedFlags trivial trivial (by simp)
      simp only [RingField.Apart, RingField.start, RingField.bytes, hplaced.usedEvent,
        hplaced.used] at happart
      omega
    · exact iff_of_true (by omega) hdvd
  · obtain ⟨hpadding, hsame⟩ := roundedUp_add_two (by omega) hdvd
    have hsame : roundedUp a (18 * 2 ^ k + 6) = roundedUp a (18 * 2 ^ k + 4) := hsame
    refine ⟨fun f hf => ?_, iff_of_true (fun f g hf hg hne => ?_) hdvd, ?_⟩
    · have hbounds := hplaced.bounds hround hf
      omega
    · exact hplaced.apart hpadding hf hg hne
    · exact iff_of_false (by omega) hdvd

theorem vring_layout_page : RingField.usedEvent.Apart (vringInit 256 (0x10000 : BitVec 32) 4096)
    .usedFlags := by
  have hnum : (256 : BitVec 32).toNat = 2 ^ 8 := rfl
  have halign : (4096 : BitVec 32).toNat = 2 ^ 12 := rfl
  have hp : 2 ^ 12 ∣ (0x10000 : BitVec 32).toNat := by decide
  have hcramped : ¬ Cramped 12 8 := by
    rw [Cramped]
    decide
  exact (vring_layout le_rfl hnum halign hp (by decide) (by decide)).2.1.mpr hcramped
    .usedEvent .usedFlags trivial trivial (by simp)

end Layout

end Lininoio
