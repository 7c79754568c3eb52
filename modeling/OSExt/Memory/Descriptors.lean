import OSExt.Memory.PageWalk

/-!
# Descriptors and the walk

Each encoder puts its attribute bytes below the address bits it keeps, and clear of the
two type bits. So a descriptor of a section, a large or a small page resolves to the base
it was made of, cut to its page size, whatever its attributes are.
-/

namespace OSExt.Memory

open Lib

/-! ## Encoding -/

def newLPD (c b ap : Byte) (baseAddress : Word) : Word :=
  0b1#32 ||| ((c &&& 0b1#8).zeroExtend 32 <<< 3) ||| ((b &&& 0b1#8).zeroExtend 32 <<< 2)
    ||| (ap.zeroExtend 32 <<< 4) ||| (baseAddress &&& 0xffff0000#32)

/-- Attributes below the base leave the base as it is. -/
theorem or_masked {attributes base : Word} {n : Nat} (h : attributes.toNat < 2 ^ n) :
    (attributes ||| (base &&& ~~~(BitVec.ofNat 32 (2 ^ n - 1)))).toNat / 2 ^ n =
      base.toNat / 2 ^ n := by
  rw [or_high h, toNat_and_not_mask, Nat.mul_div_cancel _ (Nat.two_pow_pos n)]

theorem masked_lt (x : Byte) (n : Nat) :
    (x &&& BitVec.ofNat 8 (2 ^ n - 1)).toNat < 2 ^ n := by
  rw [BitVec.toNat_and]
  refine Nat.and_lt_two_pow _ ?_
  rw [BitVec.toNat_ofNat]
  exact Nat.lt_of_le_of_lt (Nat.mod_le _ _) (Nat.sub_lt (Nat.two_pow_pos n) Nat.one_pos)

/-- A field of `n` bits at bit `m`. -/
theorem field_lt (x : Byte) (n m : Nat) :
    ((x &&& BitVec.ofNat 8 (2 ^ n - 1)).zeroExtend 32 <<< m).toNat < 2 ^ (n + m) := by
  rw [BitVec.toNat_shiftLeft, Nat.shiftLeft_eq, BitVec.toNat_setWidth]
  refine Nat.lt_of_le_of_lt (Nat.mod_le _ _) ?_
  rw [Nat.pow_add]
  exact Nat.mul_lt_mul_of_pos_right (Nat.lt_of_le_of_lt (Nat.mod_le _ _) (masked_lt x n))
    (Nat.two_pow_pos m)

/-- The attributes of a section are below its address. -/
theorem newSD_attributes (c b domain ap : Byte) :
    (0b10010#32 ||| ((c &&& 0b1#8).zeroExtend 32 <<< 3) ||| ((b &&& 0b1#8).zeroExtend 32 <<< 2)
      ||| ((domain &&& 0b1111#8).zeroExtend 32 <<< 5)
      ||| ((ap &&& 0b11#8).zeroExtend 32 <<< 10)).toNat < 2 ^ 20 := by
  have hc := field_lt c 1 3
  have hb := field_lt b 1 2
  have hdomain := field_lt domain 4 5
  have hap := field_lt ap 2 10
  exact or_lt (or_lt (or_lt (or_lt (by decide) (Nat.lt_trans hc (by decide)))
    (Nat.lt_trans hb (by omega))) (Nat.lt_trans hdomain (by omega)))
    (Nat.lt_trans hap (by omega))

theorem newSD_base (c b domain ap : Byte) (base : Word) :
    (newSD c b domain ap base).toNat / 2 ^ 20 = base.toNat / 2 ^ 20 := by
  unfold newSD
  rw [show (0b11111111111111111111#32 : Word) = BitVec.ofNat 32 (2 ^ 20 - 1) from rfl]
  exact or_masked (newSD_attributes c b domain ap)

theorem newSD_low (c b domain ap : Byte) (base : Word) :
    (newSD c b domain ap base).toNat % 4 = 2 := by
  unfold newSD
  rw [show (4 : Nat) = 2 ^ 2 from rfl, or_low, or_low (shiftLeft_low _ (by omega) (by omega)),
    or_low (shiftLeft_low _ (by omega) (by omega)), or_low (shiftLeft_low _ (by omega) (by omega)),
    or_low (shiftLeft_low _ (by omega) (by omega))]
  · rfl
  · rw [show (0b11111111111111111111#32 : Word) = BitVec.ofNat 32 (2 ^ 20 - 1) from rfl,
      toNat_and_not_mask]
    omega

/-- The attributes of a large page are those of a small one, with the other type. -/
theorem newLPD_attributes (c b ap : Byte) :
    (0b1#32 ||| ((c &&& 0b1#8).zeroExtend 32 <<< 3) ||| ((b &&& 0b1#8).zeroExtend 32 <<< 2)
      ||| (ap.zeroExtend 32 <<< 4)).toNat < 2 ^ 16 :=
  or_lt (or_lt (or_lt (by decide) (Nat.lt_trans (byte_shiftLeft_lt _ 3) (by decide)))
    (Nat.lt_trans (byte_shiftLeft_lt _ 2) (by omega)))
    (Nat.lt_trans (byte_shiftLeft_lt ap 4) (by omega))

theorem newLPD_base (c b ap : Byte) (base : Word) :
    (newLPD c b ap base).toNat / 2 ^ 16 = base.toNat / 2 ^ 16 := by
  unfold newLPD
  rw [show (0xffff0000#32 : Word) = ~~~(BitVec.ofNat 32 (2 ^ 16 - 1)) from rfl]
  exact or_masked (newLPD_attributes c b ap)

theorem newLPD_low (c b ap : Byte) (base : Word) : (newLPD c b ap base).toNat % 4 = 1 := by
  unfold newLPD
  rw [show (4 : Nat) = 2 ^ 2 from rfl, or_low, or_low (shiftLeft_low _ (by omega) (by omega)),
    or_low (shiftLeft_low _ (by omega) (by omega)), or_low (shiftLeft_low _ (by omega) (by omega))]
  · rfl
  · rw [show (0xffff0000#32 : Word) = ~~~(BitVec.ofNat 32 (2 ^ 16 - 1)) from rfl,
      toNat_and_not_mask]
    omega

/-! ## Decoding -/

/-- A base and an offset below its lowest bit. -/
theorem base_add_offset {x y : Word} {n : Nat} (hx : x.toNat % 2 ^ n = 0) (hn : n ≤ 32)
    (hy : y.toNat < 2 ^ n) : (x + y).toNat = x.toNat + y.toNat := by
  obtain ⟨k, hk⟩ := Nat.dvd_of_mod_eq_zero hx
  obtain ⟨j, hj⟩ : 2 ^ n ∣ 2 ^ 32 := Nat.pow_dvd_pow 2 hn
  have hlt := x.isLt
  rw [BitVec.toNat_add, Nat.mod_eq_of_lt]
  rw [hk, hj] at hlt ⊢
  -- the next multiple of `2 ^ n` is not beyond the top
  have hkj : k + 1 ≤ j := Nat.lt_of_mul_lt_mul_left hlt
  calc 2 ^ n * k + y.toNat < 2 ^ n * k + 2 ^ n := by omega
    _ = 2 ^ n * (k + 1) := (Nat.mul_succ _ _).symm
    _ ≤ 2 ^ n * j := Nat.mul_le_mul_left _ hkj

theorem masked_add {w adr : Word} {n : Nat} (hn : n ≤ 32) :
    ((w &&& ~~~(BitVec.ofNat 32 (2 ^ n - 1))) + (adr &&& BitVec.ofNat 32 (2 ^ n - 1))).toNat =
      w.toNat / 2 ^ n * 2 ^ n + adr.toNat % 2 ^ n := by
  have hbase := toNat_and_not_mask w n
  have hoffset := toNat_and_mask adr hn
  rw [base_add_offset (n := n) _ hn, hbase, hoffset]
  · rw [hoffset]
    exact Nat.mod_lt _ (Nat.two_pow_pos n)
  · rw [hbase, Nat.mul_mod_left]

/-- A section: its base and the offset in it. -/
theorem resolve_section {descriptor : Word} (h : descriptor.toNat % 4 = 2) (adr : Word) :
    (resolve adr (.inl descriptor)).toNat =
      descriptor.toNat / 2 ^ 20 * 2 ^ 20 + adr.toNat % 2 ^ 20 := by
  have hbase : (descriptor >>> 20 <<< 20).toNat = descriptor.toNat / 2 ^ 20 * 2 ^ 20 := by
    rw [BitVec.toNat_shiftLeft, BitVec.toNat_ushiftRight, Nat.shiftRight_eq_div_pow,
      Nat.shiftLeft_eq]
    have hlt := descriptor.isLt
    omega
  have hoffset : (adr <<< 12 >>> 12).toNat = adr.toNat % 2 ^ 20 := by
    rw [BitVec.toNat_ushiftRight, BitVec.toNat_shiftLeft, Nat.shiftRight_eq_div_pow,
      Nat.shiftLeft_eq]
    omega
  rw [resolve, if_pos ((and_three _ 2 (by omega)).mpr h), base_add_offset (n := 20) _ (by omega),
    hbase, hoffset]
  · rw [hoffset]
    omega
  · rw [hbase, Nat.mul_mod_left]

/-- A large page. -/
theorem resolve_largePage {descriptor : Word} (h : descriptor.toNat % 4 = 1) (adr : Word) :
    (resolve adr (.inr descriptor)).toNat =
      descriptor.toNat / 2 ^ 16 * 2 ^ 16 + adr.toNat % 2 ^ 16 := by
  rw [resolve, if_pos ((and_three _ 1 (by omega)).mpr h),
    show (0xffff#32 : Word) = BitVec.ofNat 32 (2 ^ 16 - 1) from rfl]
  exact masked_add (by omega)

/-- A small page. -/
theorem resolve_smallPage {descriptor : Word} (h : descriptor.toNat % 4 = 2) (adr : Word) :
    (resolve adr (.inr descriptor)).toNat =
      descriptor.toNat / 2 ^ 12 * 2 ^ 12 + adr.toNat % 2 ^ 12 := by
  have hother : ¬ descriptor &&& 0b11#32 = 0b1#32 := by
    rw [and_three _ 1 (by omega)]
    omega
  rw [resolve, if_neg hother, if_pos ((and_three _ 2 (by omega)).mpr h),
    show (0xfff#32 : Word) = BitVec.ofNat 32 (2 ^ 12 - 1) from rfl]
  exact masked_add (by omega)

/-! ## The walk -/

section

variable (tt pageTable : Nat → Word) (va : Word)

/-- A first-level entry that is no page table resolves by itself. -/
theorem getPhysicalAddress_first {descriptor : Word} (h : descriptor.toNat % 4 ≠ 1) :
    getPhysicalAddress (Function.update tt (sectionIndex va) descriptor) pageTable va =
      resolve va (.inl descriptor) := by
  have hcoarse : ¬ descriptor &&& 0b11#32 = 0b01#32 := by
    rw [and_three _ 1 (by omega)]
    exact h
  rw [getPhysicalAddress_eq]
  simp only [TwoLevel.lookup, pageWalk, Function.update_self, if_neg hcoarse, Sum.map_inl, id_eq]

/-- Where the walk reads the entry of an address in a page table. -/
def entryAddress (table va : Word) : Nat := table.toNat / 1024 * 1024 + 4 * (pageIndex va).val

/-- With a page table the entry at the address's index resolves. -/
theorem getPhysicalAddress_second (domain : Byte) (table entry : Word) :
    getPhysicalAddress (Function.update tt (sectionIndex va) (newCPTD domain table))
        (Function.update pageTable (entryAddress table va) entry) va =
      resolve va (.inr entry) := by
  have hcoarse : newCPTD domain table &&& 0b11#32 = 0b01#32 :=
    (and_three _ 1 (by omega)).mpr (newCPTD_low domain table)
  rw [getPhysicalAddress_eq, entryAddress, Nat.mul_comm]
  simp only [TwoLevel.lookup, pageWalk, Function.update_self, if_pos hcoarse, Sum.map_inr,
    newCPTD_table]

end

/-- **Encoding and decoding agree**, whatever the attributes are. -/
theorem getPhysicalAddress_descriptors (tt pageTable : Nat → Word) (c b domain ap : Byte)
    (base table va : Word) :
    (getPhysicalAddress (Function.update tt (sectionIndex va) (newSD c b domain ap base))
        pageTable va).toNat = base.toNat / 2 ^ 20 * 2 ^ 20 + va.toNat % 2 ^ 20 ∧
      (getPhysicalAddress (Function.update tt (sectionIndex va) (newCPTD domain table))
        (Function.update pageTable (entryAddress table va) (newSPD c b ap base)) va).toNat =
          base.toNat / 2 ^ 12 * 2 ^ 12 + va.toNat % 2 ^ 12 ∧
      (getPhysicalAddress (Function.update tt (sectionIndex va) (newCPTD domain table))
        (Function.update pageTable (entryAddress table va) (newLPD c b ap base)) va).toNat =
          base.toNat / 2 ^ 16 * 2 ^ 16 + va.toNat % 2 ^ 16 ∧
      getPhysicalAddress (Function.update tt (sectionIndex va) 0) pageTable va = 0 ∧
      getPhysicalAddress (Function.update tt (sectionIndex va) (newCPTD domain table))
        (Function.update pageTable (entryAddress table va) 0) va = 0 ∧
      (newSD c b domain ap base).toNat % 4 = 2 ∧ (newCPTD domain table).toNat % 4 = 1 ∧
      (newLPD c b ap base).toNat % 4 = 1 ∧ (newSPD c b ap base).toNat % 4 = 2 := by
  have hsd := newSD_low c b domain ap base
  refine ⟨?_, ?_, ?_, ?_, ?_, hsd, newCPTD_low domain table, newLPD_low c b ap base,
    newSPD_low c b ap base⟩
  · rw [getPhysicalAddress_first tt pageTable va (by omega), resolve_section hsd, newSD_base]
  · rw [getPhysicalAddress_second, resolve_smallPage (newSPD_low c b ap base)]
    exact congrArg (· * 2 ^ 12 + va.toNat % 2 ^ 12) (newSPD_page c b ap base)
  · rw [getPhysicalAddress_second, resolve_largePage (newLPD_low c b ap base), newLPD_base]
  · exact getPhysicalAddress_first tt pageTable va (by decide)
  · exact getPhysicalAddress_second tt pageTable va domain table 0

end OSExt.Memory
