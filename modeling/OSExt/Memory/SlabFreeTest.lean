import OSExt.Memory.SlabRuns

/-!
# When `isSlabFree` is right

The test looks at as many bytes as there are slots for the object size, and one: for
large objects fewer than have used bits, for small ones also bytes behind them, which may
hold objects. It is right exactly where a used slot has its bit among those, or all bits
that are looked at and all used bits are clear.
-/

namespace OSExt.Memory

open Lib

section

variable (k : Kernel) (s objSize : Nat) (flags : BitVec 16)

/-- The used bit of a slot. -/
def Kernel.SlotUsed (i : Nat) : Prop := usedBit k.mem ((k.slab s).bits objSize flags) i ≠ 0

/-- How many bits `isSlabFree` looks at. -/
def Kernel.bitsInspected : Nat := 8 * ((k.slab s).objs objSize flags / objSize + 1)

/-- The call returns whether no slot is in use, and changes nothing. -/
def SlabFreeRight : Prop :=
  ∃ b, isSlabFree s objSize flags k = (.ok b, k) ∧
    (b = true ↔ ∀ i < (k.slab s).objs objSize flags, ¬ k.SlotUsed s objSize flags i)

/-- A slot in use is seen, or there is nothing to see. -/
structure Inspects : Prop where
  /-- the slab has its used bits -/
  bitmap : onSlab objSize flags = true ∨ (k.slab s).used ≠ 0
  bits : (∃ i < (k.slab s).objs objSize flags, i < k.bitsInspected s objSize flags ∧
      k.SlotUsed s objSize flags i) ∨
    ∀ i, i < (k.slab s).objs objSize flags ∨ i < k.bitsInspected s objSize flags →
      ¬ k.SlotUsed s objSize flags i

end

/-- A byte is zero if its bits are clear. -/
theorem byte_zero_iff {mem : Nat → Byte} {used x : Nat} :
    mem (used + x) = 0 ↔ ∀ i, i / 8 = x → usedBit mem used i = 0 := by
  constructor
  · intro h i heq
    subst heq
    rw [usedBit_eq_zero, h]
    exact BitVec.getLsbD_zero
  · intro h
    refine BitVec.eq_of_getLsbD_eq fun j hj => ?_
    have hbit := h (8 * x + j) (by omega)
    rw [usedBit_eq_zero, show (8 * x + j) / 8 = x by omega,
      show (8 * x + j) % 8 = j by omega] at hbit
    rw [hbit]
    exact BitVec.getLsbD_zero.symm

/-- The bytes that are looked at are zero if their bits are clear. -/
theorem bytesZero_iff_bits {mem : Nat → Byte} {used n : Nat} :
    bytesZero mem used n = true ↔ ∀ i < 8 * n, usedBit mem used i = 0 := by
  rw [bytesZero_iff]
  constructor
  · intro h i hi
    exact byte_zero_iff.mp (h (i / 8) (by omega)) i rfl
  · intro h x hx
    exact byte_zero_iff.mpr fun i hix => h i (by omega)

section

variable {k : Kernel} {s objSize : Nat} {flags : BitVec 16}

/-- With used bits, the call tells whether all bits it looks at are clear. -/
theorem isSlabFree_eq (h : onSlab objSize flags = true ∨ (k.slab s).used ≠ 0) :
    ∃ b, isSlabFree s objSize flags k = (.ok b, k) ∧
      (b = true ↔ ∀ i < k.bitsInspected s objSize flags, ¬ k.SlotUsed s objSize flags i) := by
  refine ⟨bytesZero k.mem ((k.slab s).bits objSize flags)
    ((k.slab s).objs objSize flags / objSize + 1), ?_, ?_⟩
  · have htest : (!onSlab objSize flags && (k.slab s).used == 0) = false := by
      rcases h with h | h
      · rw [h]
        rfl
      · rw [beq_eq_false_iff_ne.mpr h, Bool.and_false]
    unfold isSlabFree
    simp only [bind_eq, gets, htest, Bool.false_eq_true, if_false]
  · rw [bytesZero_iff_bits]
    exact forall_congr' fun i => imp_congr_right fun _ => not_not.symm

/-- Without them it panics. -/
theorem isSlabFree_panics (h : onSlab objSize flags = false) (hused : (k.slab s).used = 0) :
    isSlabFree s objSize flags k =
      (.error (.panicked "slab allocator isfree: used array in slab = NULL!\n"), k) := by
  have htest : (!onSlab objSize flags && (k.slab s).used == 0) = true := by
    rw [h, hused]
    rfl
  unfold isSlabFree
  simp only [bind_eq, gets, htest, if_true]
  rfl

end

/-- **The test is right** exactly if what it looks at tells. -/
theorem slabFreeRight_iff (k : Kernel) (s objSize : Nat) (flags : BitVec 16) :
    SlabFreeRight k s objSize flags ↔ Inspects k s objSize flags := by
  by_cases hbitmap : onSlab objSize flags = true ∨ (k.slab s).used ≠ 0
  · obtain ⟨b, hcall, hb⟩ := isSlabFree_eq (k := k) (s := s) hbitmap
    constructor
    · intro hgiven
      obtain ⟨b', hcall', hb'⟩ := hgiven
      rw [hcall, Prod.mk.injEq, Except.ok.injEq] at hcall'
      obtain ⟨rfl, -⟩ := hcall'
      refine ⟨hbitmap, ?_⟩
      by_cases hall : ∀ i < (k.slab s).objs objSize flags, ¬ k.SlotUsed s objSize flags i
      · have hinspected := hb.mp (hb'.mpr hall)
        exact Or.inr fun i hi => hi.elim (hall i) (hinspected i)
      · -- a slot is in use, so the test has met a set bit
        obtain ⟨j, hj⟩ := not_forall.mp hall
        obtain ⟨hj, hused⟩ := Classical.not_imp.mp hj
        obtain ⟨i, hi⟩ := not_forall.mp fun h => hall (hb'.mp (hb.mpr h))
        obtain ⟨hi, hset⟩ := Classical.not_imp.mp hi
        by_cases hslot : i < (k.slab s).objs objSize flags
        · exact Or.inl ⟨i, hslot, hi, not_not.mp hset⟩
        · exact Or.inl ⟨j, hj, by omega, not_not.mp hused⟩
    · intro h
      refine ⟨b, hcall, hb.trans ?_⟩
      rcases h.bits with ⟨i, hslot, hi, hused⟩ | hclear
      · exact iff_of_false (fun h => h i hi hused) fun h => h i hslot hused
      · exact iff_of_true (fun i hi => hclear i (Or.inr hi)) fun i hi => hclear i (Or.inl hi)
  · obtain ⟨hoff, hnull⟩ := not_or.mp hbitmap
    refine iff_of_false ?_ fun h => hbitmap h.bitmap
    intro hgiven
    obtain ⟨b, hcall, -⟩ := hgiven
    rw [isSlabFree_panics (Bool.eq_false_iff.mpr hoff) (not_not.mp hnull)] at hcall
    exact nomatch hcall

/-! ## Objects of 64 bytes -/

/-- A slab of one page for objects of 64 bytes, with the ninth of its slots in use. -/
def ninthUsed : Kernel :=
  { Clients.bareKernel with
    slab := fun _ => { size := 1, start := 0xe4002000, next := 0, used := 0 }
    mem := fun a => if a = 0xe4002011 then 1 else 0 }

/-- One byte is looked at, so the slab passes for free. -/
theorem ninthUsed_not_right :
    ¬ ∀ (k : Kernel) (s objSize : Nat) (flags : BitVec 16), 1 ≤ objSize →
      (onSlab objSize flags = true ∨ (k.slab s).used ≠ 0) → SlabFreeRight k s objSize flags := by
  intro h
  obtain ⟨b, hcall, hb⟩ := h ninthUsed 0xe4002000 64 0 (by omega) (Or.inl (by decide))
  have htrue : (isSlabFree 0xe4002000 64 0 ninthUsed).1 = .ok true := by decide +kernel
  rw [hcall] at htrue
  have hused : usedBit ninthUsed.mem ((ninthUsed.slab 0xe4002000).bits 64 0) 8 ≠ 0 := by decide
  exact hb.mp (Except.ok.inj htrue) 8 (by decide) hused

end OSExt.Memory
