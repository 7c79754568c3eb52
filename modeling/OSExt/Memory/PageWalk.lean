import OSExt.Lib.TwoLevel
import OSExt.Memory.AddressSpaces

/-!
# The walk of `getPhysicalAddress`

The translation table is a directory and the coarse page tables are its tables,
named by their place in physical memory. `getPhysicalAddress` looks an address up
in it and decodes what it finds. The descriptors are taken apart once here; from
then on only what they denote matters.
-/

namespace OSExt.Memory

open Lib

/-! ## Bits -/

theorem mask_lt {n : Nat} (hn : n ≤ 32) : 2 ^ n - 1 < 2 ^ 32 := by
  have hpow := Nat.pow_le_pow_right (n := 2) (by omega) hn
  have hpos := Nat.two_pow_pos n
  omega

theorem toNat_and_mask (w : Word) {n : Nat} (hn : n ≤ 32) :
    (w &&& BitVec.ofNat 32 (2 ^ n - 1)).toNat = w.toNat % 2 ^ n := by
  rw [BitVec.toNat_and, BitVec.toNat_ofNat, Nat.mod_eq_of_lt (mask_lt hn),
    Nat.and_two_pow_sub_one_eq_mod]

theorem toNat_and_not_mask (w : Word) (n : Nat) :
    (w &&& ~~~(BitVec.ofNat 32 (2 ^ n - 1))).toNat = w.toNat / 2 ^ n * 2 ^ n := by
  refine Nat.eq_of_testBit_eq fun i => ?_
  rw [Nat.testBit_mul_two_pow, Nat.testBit_div_two_pow, ← BitVec.getLsbD, BitVec.getLsbD_and,
    BitVec.getLsbD_not, BitVec.getLsbD_ofNat, Nat.testBit_two_pow_sub_one, ← BitVec.getLsbD]
  by_cases hi : n ≤ i
  · rw [show i - n + n = i by omega]
    by_cases h32 : i < 32
    · simp [hi, h32]
    · simp [BitVec.getLsbD_of_ge w i (by omega)]
  · simp [hi, show i < n by omega]

theorem or_high {x y : Word} {n : Nat} (hx : x.toNat < 2 ^ n) :
    (x ||| y).toNat / 2 ^ n = y.toNat / 2 ^ n := by
  rw [BitVec.toNat_or, Nat.or_div_two_pow, Nat.div_eq_of_lt hx, Nat.zero_or]

theorem or_low {x y : Word} {n : Nat} (hy : y.toNat % 2 ^ n = 0) :
    (x ||| y).toNat % 2 ^ n = x.toNat % 2 ^ n := by
  rw [BitVec.toNat_or, Nat.or_mod_two_pow, hy, Nat.or_zero]

theorem or_lt {x y : Word} {n : Nat} (hx : x.toNat < 2 ^ n) (hy : y.toNat < 2 ^ n) :
    (x ||| y).toNat < 2 ^ n := by
  rw [BitVec.toNat_or]
  exact Nat.or_lt_two_pow hx hy

theorem shiftLeft_low (x : Word) {n m : Nat} (h : n ≤ m) (hn : n ≤ 32) :
    (x <<< m).toNat % 2 ^ n = 0 := by
  rw [BitVec.toNat_shiftLeft, Nat.shiftLeft_eq, Nat.mod_mod_of_dvd _ (Nat.pow_dvd_pow 2 hn)]
  exact Nat.mod_eq_zero_of_dvd (Dvd.dvd.mul_left (Nat.pow_dvd_pow 2 h) _)

theorem byte_shiftLeft_lt (x : Byte) (m : Nat) :
    (x.zeroExtend 32 <<< m).toNat < 2 ^ (m + 8) := by
  rw [BitVec.toNat_shiftLeft, Nat.shiftLeft_eq, BitVec.toNat_setWidth]
  refine Nat.lt_of_le_of_lt (Nat.mod_le _ _) ?_
  rw [Nat.pow_add, Nat.mul_comm]
  refine Nat.mul_lt_mul_of_pos_left ?_ (Nat.two_pow_pos m)
  exact Nat.lt_of_le_of_lt (Nat.mod_le _ _) x.isLt

theorem and_three (w : Word) (n : Nat) (hn : n < 4) :
    w &&& 0b11#32 = BitVec.ofNat 32 n ↔ w.toNat % 4 = n := by
  rw [← BitVec.toNat_inj, show (0b11#32 : Word) = BitVec.ofNat 32 (2 ^ 2 - 1) from rfl,
    toNat_and_mask w (by omega), BitVec.toNat_ofNat]
  omega

/-! ## Descriptors -/

/-- The bits of a coarse page table descriptor below the table. -/
theorem newCPTD_low (domain : Byte) (base : Word) : (newCPTD domain base).toNat % 4 = 1 := by
  unfold newCPTD
  have hbase := toNat_and_not_mask base 10
  rw [show (4 : Nat) = 2 ^ 2 from rfl, or_low, or_low (shiftLeft_low _ (by omega) (by omega))]
  · rfl
  · rw [show (0b1111111111#32 : Word) = BitVec.ofNat 32 (2 ^ 10 - 1) from rfl, hbase]
    omega

theorem newCPTD_table (domain : Byte) (base : Word) :
    (newCPTD domain base).toNat / 1024 = base.toNat / 1024 := by
  unfold newCPTD
  have hdomain : (0b10001#32 ||| ((domain &&& 0b1111#8).zeroExtend 32 <<< 5)).toNat < 2 ^ 10 := by
    refine or_lt (by decide) ?_
    rw [BitVec.toNat_shiftLeft, Nat.shiftLeft_eq, BitVec.toNat_setWidth]
    have hnibble : (domain &&& 0b1111#8).toNat < 16 := by
      rw [BitVec.toNat_and]
      exact Nat.and_lt_two_pow (n := 4) _ (by decide)
    omega
  rw [show (1024 : Nat) = 2 ^ 10 from rfl, or_high hdomain,
    show (0b1111111111#32 : Word) = BitVec.ofNat 32 (2 ^ 10 - 1) from rfl, toNat_and_not_mask]
  omega

/-- The attributes of a small page are below its address. -/
theorem newSPD_attributes (c b ap : Byte) :
    (0b10#32 ||| ((c &&& 0b1#8).zeroExtend 32 <<< 3) ||| ((b &&& 0b1#8).zeroExtend 32 <<< 2)
      ||| (ap.zeroExtend 32 <<< 4)).toNat < 2 ^ 12 :=
  or_lt (or_lt (or_lt (by decide) (Nat.lt_trans (byte_shiftLeft_lt _ 3) (by decide)))
    (Nat.lt_trans (byte_shiftLeft_lt _ 2) (by omega))) (byte_shiftLeft_lt ap 4)

theorem newSPD_low (c b ap : Byte) (page : Word) : (newSPD c b ap page).toNat % 4 = 2 := by
  unfold newSPD
  rw [show (4 : Nat) = 2 ^ 2 from rfl, or_low, or_low (shiftLeft_low _ (by omega) (by omega)),
    or_low (shiftLeft_low _ (by omega) (by omega)), or_low (shiftLeft_low _ (by omega) (by omega))]
  · rfl
  · rw [show (0xfffff000#32 : Word) = ~~~(BitVec.ofNat 32 (2 ^ 12 - 1)) from rfl, toNat_and_not_mask]
    omega

theorem newSPD_page (c b ap : Byte) (page : Word) :
    (newSPD c b ap page).toNat / 4096 = page.toNat / 4096 := by
  unfold newSPD
  rw [show (4096 : Nat) = 2 ^ 12 from rfl, or_high (newSPD_attributes c b ap),
    show (0xfffff000#32 : Word) = ~~~(BitVec.ofNat 32 (2 ^ 12 - 1)) from rfl, toNat_and_not_mask]
  omega

/-! ## Looking up an address -/

/-- What `getPhysicalAddress` makes of what it finds: a first-level descriptor that is no coarse
page table, or an entry of one. -/
def resolve (adr : Word) : Word ⊕ Word → Word
  | .inl descriptor =>
    if descriptor &&& 0b11#32 = 0b10#32 then (descriptor >>> 20 <<< 20) + (adr <<< 12 >>> 12) else 0
  | .inr pageDescriptor =>
    if pageDescriptor &&& 0b11#32 = 0b1#32 then
      (pageDescriptor &&& ~~~0xffff#32) + (adr &&& 0xffff#32)
    else if pageDescriptor &&& 0b11#32 = 0b10#32 then
      (pageDescriptor &&& ~~~0xfff#32) + (adr &&& 0xfff#32)
    else 0

def sectionIndex (adr : Word) : Nat := adr.toNat / sectionSize

def pageIndex (adr : Word) : Fin 256 := ⟨adr.toNat / smallPageSize % 256, by omega⟩

/-- The translation table with the page tables in memory, each named by its 1 KiB block. -/
def pageWalk (tt pageTable : Nat → Word) : TwoLevel Nat Nat (Fin 256) Word Word where
  dir n := if tt n &&& 0b11#32 = 0b01#32 then .inr ((tt n).toNat / 1024) else .inl (tt n)
  mem block j := pageTable (1024 * block + 4 * j.val)

/-- The index `getPhysicalAddress` computes from an address. -/
theorem index_eq (adr : Word) :
    (((adr &&& 0b11111111000000000000#32) >>> 10) / 4).toNat = adr.toNat / 4096 % 256 := by
  have hmask : adr &&& 0b11111111000000000000#32 =
      (adr &&& BitVec.ofNat 32 (2 ^ 20 - 1)) &&& ~~~(BitVec.ofNat 32 (2 ^ 12 - 1)) := by
    rw [BitVec.and_assoc]
    rfl
  rw [hmask, BitVec.toNat_udiv, BitVec.toNat_ushiftRight, toNat_and_not_mask,
    toNat_and_mask adr (by omega), Nat.shiftRight_eq_div_pow, show (4 : Word).toNat = 4 from rfl]
  omega

/-- **`getPhysicalAddress` is a lookup.** -/
theorem getPhysicalAddress_eq (tt pageTable : Nat → Word) (adr : Word) :
    getPhysicalAddress tt pageTable adr =
      resolve adr ((pageWalk tt pageTable).lookup (sectionIndex adr) (pageIndex adr)) := by
  have hsect : (adr >>> 20).toNat = sectionIndex adr := by
    rw [BitVec.toNat_ushiftRight, Nat.shiftRight_eq_div_pow]
    rfl
  unfold getPhysicalAddress TwoLevel.lookup
  simp only [hsect]
  generalize hd : tt (sectionIndex adr) = descriptor
  by_cases hcoarse : descriptor &&& 0b11#32 = 0b01#32
  · have hword : (descriptor &&& ~~~0b1111111111#32).toNat + 4 *
        (((adr &&& 0b11111111000000000000#32) >>> 10) / 4).toNat =
        1024 * (descriptor.toNat / 1024) + 4 * (pageIndex adr).val := by
      rw [index_eq, show (0b1111111111#32 : Word) = BitVec.ofNat 32 (2 ^ 10 - 1) from rfl,
        toNat_and_not_mask, show (pageIndex adr).val = adr.toNat / 4096 % 256 from rfl]
      omega
    have hdir : (pageWalk tt pageTable).dir (sectionIndex adr) = .inr (descriptor.toNat / 1024) := by
      simp only [pageWalk, hd, hcoarse, if_true]
    rw [if_neg (by rw [hcoarse]; decide), if_neg (by rw [hcoarse]; decide), if_pos hcoarse, hdir,
      hword]
    rfl
  · have hdir : (pageWalk tt pageTable).dir (sectionIndex adr) = .inl descriptor := by
      simp only [pageWalk, hd, hcoarse, if_false]
    rw [hdir]
    by_cases hnull : descriptor &&& 0b11#32 = 0b0#32
    · rw [if_pos hnull]
      simp only [resolve, Sum.map_inl, id_eq, hnull]
      rfl
    · rw [if_neg hnull, if_neg hcoarse]
      rfl

/-- A small page: its address and the offset in it. -/
theorem resolve_newSPD (c b ap : Byte) {page : Word} (hpage : page.toNat % 4096 = 0) (adr : Word) :
    resolve adr (.inr (newSPD c b ap page)) = page + (adr &&& 0xfff#32) := by
  have hlow := newSPD_low c b ap page
  have h1 : newSPD c b ap page &&& 0b11#32 ≠ 0b1#32 := by
    rw [Ne, and_three _ 1 (by omega)]
    omega
  have h2 : newSPD c b ap page &&& 0b11#32 = 0b10#32 := (and_three _ 2 (by omega)).mpr hlow
  have hbase : newSPD c b ap page &&& ~~~0xfff#32 = page := by
    rw [← BitVec.toNat_inj, show (0xfff#32 : Word) = BitVec.ofNat 32 (2 ^ 12 - 1) from rfl,
      toNat_and_not_mask, show (2 : Nat) ^ 12 = 4096 from rfl, newSPD_page]
    omega
  simp only [resolve, if_neg h1, if_pos h2, hbase]

theorem resolve_zero (adr : Word) : resolve adr (.inr 0) = 0 := rfl

/-! ## Writes -/

section

variable {tt pageTable : Nat → Word}

theorem pageWalk_update (block : Nat) (j : Fin 256) (w : Word) :
    pageWalk tt (Function.update pageTable (1024 * block + 4 * j.val) w) =
      (pageWalk tt pageTable).write block j w := by
  have hmem : (pageWalk tt (Function.update pageTable (1024 * block + 4 * j.val) w)).mem =
      ((pageWalk tt pageTable).write block j w).mem := by
    funext block' j'
    rw [TwoLevel.mem_write]
    by_cases h : block' = block ∧ j' = j
    · rw [if_pos h, h.1, h.2]
      exact Function.update_self ..
    · rw [if_neg h]
      refine Function.update_of_ne (fun he => h ?_) _ _
      have hj := j.isLt
      have hj' := j'.isLt
      exact ⟨by omega, Fin.ext (by omega)⟩
  exact congrArg (TwoLevel.mk _) hmem

/-- A block of memory given new contents. -/
theorem pageWalk_fill (block : Nat) {pageTable' : Nat → Word} (f : Fin 256 → Word)
    (hin : ∀ j : Fin 256, pageTable' (1024 * block + 4 * j.val) = f j)
    (hout : ∀ a, ¬ (1024 * block ≤ a ∧ a < 1024 * block + 1024) → pageTable' a = pageTable a) :
    pageWalk tt pageTable' = (pageWalk tt pageTable).fill block f := by
  have hmem : (pageWalk tt pageTable').mem = ((pageWalk tt pageTable).fill block f).mem := by
    funext block' j'
    have hj' := j'.isLt
    by_cases h : block' = block
    · subst h
      exact (hin j').trans (by simp [TwoLevel.fill])
    · refine (hout _ (by omega)).trans ?_
      simp [TwoLevel.fill, h, pageWalk]
  exact congrArg (TwoLevel.mk _) hmem

theorem pageWalk_attach (n : Nat) (domain : Byte) (base : Word) :
    pageWalk (Function.update tt n (newCPTD domain base)) pageTable =
      (pageWalk tt pageTable).attach n (base.toNat / 1024) := by
  have hcoarse : newCPTD domain base &&& 0b11#32 = 0b01#32 :=
    (and_three _ 1 (by omega)).mpr (newCPTD_low domain base)
  have hdir : (pageWalk (Function.update tt n (newCPTD domain base)) pageTable).dir =
      ((pageWalk tt pageTable).attach n (base.toNat / 1024)).dir := by
    funext n'
    rw [TwoLevel.dir_attach]
    by_cases hn : n' = n
    · subst hn
      simp only [pageWalk, Function.update_self, hcoarse, if_true, newCPTD_table]
    · simp only [pageWalk, Function.update_of_ne hn, if_neg hn]
  exact congrArg (fun d => TwoLevel.mk d _) hdir

end

end OSExt.Memory
