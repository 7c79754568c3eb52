import OSExt.Memory.Slab

/-!
# Inside one slab

The arithmetic of both layouts: the descriptor and the used bits lie before the
objects, the objects inside the slab's pages. And the used bits: what setting and
clearing one does to the others, and what the two searches over them find.
-/

namespace OSExt.Memory

open Lib

/-! ## Used bits -/

theorem usedBit_eq_zero {mem : Nat → Byte} {used i : Nat} :
    usedBit mem used i = 0 ↔ (mem (used + i / 8)).getLsbD (i % 8) = false := by
  unfold usedBit
  have h8 : i % 8 < 8 := Nat.mod_lt i (by omega)
  constructor
  · intro h
    have h0 := congrArg (fun b : Byte => b.getLsbD 0) h
    simpa using h0
  · intro h
    apply BitVec.eq_of_getLsbD_eq
    intro j hj
    by_cases h0 : j = 0
    · subst h0
      simpa using h
    · simp [h0]

/-- A bit depends on its byte only. -/
theorem usedBit_congr {mem mem' : Nat → Byte} {used i : Nat}
    (h : mem' (used + i / 8) = mem (used + i / 8)) : usedBit mem' used i = usedBit mem used i := by
  unfold usedBit
  rw [h]

theorem setUsedBit_other {mem : Nat → Byte} {used i x : Nat} (h : x ≠ used + i / 8) :
    setUsedBit mem used i x = mem x := Function.update_of_ne h _ _

theorem clearUsedBit_other {mem : Nat → Byte} {used i x : Nat} (h : x ≠ used + i / 8) :
    clearUsedBit mem used i x = mem x := Function.update_of_ne h _ _

theorem usedBit_set_self (mem : Nat → Byte) (used i : Nat) :
    usedBit (setUsedBit mem used i) used i ≠ 0 := by
  have h8 : i % 8 < 8 := Nat.mod_lt i (by omega)
  rw [Ne, usedBit_eq_zero]
  simp [setUsedBit, h8]

theorem usedBit_clear_self (mem : Nat → Byte) (used i : Nat) :
    usedBit (clearUsedBit mem used i) used i = 0 := by
  have h8 : i % 8 < 8 := Nat.mod_lt i (by omega)
  rw [usedBit_eq_zero]
  simp [clearUsedBit, h8]

theorem usedBit_set_other (mem : Nat → Byte) (used : Nat) {i j : Nat} (h : i ≠ j) :
    usedBit (setUsedBit mem used i) used j = usedBit mem used j := by
  by_cases hbyte : j / 8 = i / 8
  · have hbit : j % 8 ≠ i % 8 := by omega
    have hj : j % 8 < 8 := Nat.mod_lt j (by omega)
    have hval : (setUsedBit mem used i (used + j / 8)).getLsbD (j % 8)
        = (mem (used + j / 8)).getLsbD (j % 8) := by
      simp only [setUsedBit, hbyte, Function.update_self, BitVec.getLsbD_or,
        BitVec.getLsbD_shiftLeft, BitVec.getLsbD_one]
      have hoff : ¬ (j % 8 - i % 8 = 0 ∧ ¬ j % 8 < i % 8) := by omega
      by_cases hlt : j % 8 < i % 8
      · simp [hlt]
      · have hne : j % 8 - i % 8 ≠ 0 := by omega
        simp [hlt, hne]
    unfold usedBit
    apply BitVec.eq_of_getLsbD_eq
    intro b _
    by_cases hb : b = 0
    · subst hb
      simpa using hval
    · simp [hb]
  · exact usedBit_congr (setUsedBit_other (by omega))

theorem usedBit_clear_other (mem : Nat → Byte) (used : Nat) {i j : Nat} (h : i ≠ j) :
    usedBit (clearUsedBit mem used i) used j = usedBit mem used j := by
  by_cases hbyte : j / 8 = i / 8
  · have hbit : j % 8 ≠ i % 8 := by omega
    have hj : j % 8 < 8 := Nat.mod_lt j (by omega)
    have hval : (clearUsedBit mem used i (used + j / 8)).getLsbD (j % 8)
        = (mem (used + j / 8)).getLsbD (j % 8) := by
      simp only [clearUsedBit, hbyte, Function.update_self, BitVec.getLsbD_and,
        BitVec.getLsbD_not, BitVec.getLsbD_shiftLeft, BitVec.getLsbD_one]
      by_cases hlt : j % 8 < i % 8
      · simp [hlt, hj]
      · have hne : j % 8 - i % 8 ≠ 0 := by omega
        simp [hlt, hne, hj]
    unfold usedBit
    apply BitVec.eq_of_getLsbD_eq
    intro b _
    by_cases hb : b = 0
    · subst hb
      simpa using hval
    · simp [hb]
  · exact usedBit_congr (clearUsedBit_other (by omega))

/-- The search finds the first clear bit. -/
theorem findClear_some {mem : Nat → Byte} {used j : Nat} : ∀ {n i : Nat},
    findClear mem used i n = some j →
      i ≤ j ∧ j < i + n ∧ usedBit mem used j = 0 ∧ ∀ x, i ≤ x → x < j → usedBit mem used x ≠ 0
  | 0, _, h => absurd h (by simp [findClear])
  | n + 1, i, h => by
      rw [findClear] at h
      split at h
      · rename_i hclear
        obtain rfl := Option.some.inj h
        exact ⟨Nat.le_refl _, by omega, hclear, fun x _ _ => by omega⟩
      · rename_i hset
        obtain ⟨hle, hlt, hclear, hbefore⟩ := findClear_some h
        refine ⟨by omega, by omega, hclear, fun x hx hxj => ?_⟩
        by_cases hxi : x = i
        · rw [hxi]
          exact hset
        · exact hbefore x (by omega) hxj

theorem findClear_none {mem : Nat → Byte} {used : Nat} : ∀ {n i : Nat},
    findClear mem used i n = none ↔ ∀ x, i ≤ x → x < i + n → usedBit mem used x ≠ 0
  | 0, i => by
      rw [findClear]
      exact iff_of_true rfl fun x _ _ => by omega
  | n + 1, i => by
      rw [findClear]
      split
      · rename_i hclear
        exact iff_of_false (by simp) fun h => h i (Nat.le_refl _) (by omega) hclear
      · rename_i hset
        rw [findClear_none]
        constructor
        · intro h x hx hxn
          by_cases hxi : x = i
          · rw [hxi]
            exact hset
          · exact h x (by omega) (by omega)
        · exact fun h x hx hxn => h x (by omega) (by omega)

theorem bytesZero_iff {mem : Nat → Byte} : ∀ {n used : Nat},
    bytesZero mem used n = true ↔ ∀ x < n, mem (used + x) = 0
  | 0, used => by simp [bytesZero]
  | n + 1, used => by
      rw [bytesZero, Bool.and_eq_true, bytesZero_iff, beq_iff_eq]
      constructor
      · intro hgiven x hx
        obtain ⟨h0, hrest⟩ := hgiven
        cases x with
        | zero => exact h0
        | succ x =>
            rw [show used + (x + 1) = used + 1 + x by omega]
            exact hrest x (by omega)
      · intro h
        refine ⟨h 0 (by omega), fun x hx => ?_⟩
        rw [show used + 1 + x = used + (x + 1) by omega]
        exact h (x + 1) (by omega)

/-! ## Layout -/

theorem align4Bytes_bounds (a : Nat) : a ≤ align4Bytes a ∧ align4Bytes a < a + 4 := by
  unfold align4Bytes
  split <;> omega

/-- What makes a descriptor one of a slab of a cache: at least one object fits in. -/
structure Fits (ca : Cache) (d : SlabDesc) : Prop where
  objSize : 0 < ca.objSize
  size : 0 < d.size
  fits : ca.objSize ≤ d.size * smallPageSize

section Layout

variable {ca : Cache} {d : SlabDesc}

/-- The layout functions for a descriptor of a given cache. -/
abbrev SlabDesc.base (d : SlabDesc) (ca : Cache) : Nat := d.objectsStart ca.objSize ca.flags
abbrev SlabDesc.count (d : SlabDesc) (ca : Cache) : Nat := d.objs ca.objSize ca.flags
abbrev SlabDesc.bitmap (d : SlabDesc) (ca : Cache) : Nat := d.bits ca.objSize ca.flags
abbrev Cache.descOnSlab (ca : Cache) : Bool := onSlab ca.objSize ca.flags

/-- The end of the slab's pages. -/
def SlabDesc.pagesEnd (d : SlabDesc) : Nat := d.start + d.size * smallPageSize

theorem onSlab_lt (h : ca.descOnSlab = true) : ca.objSize < 128 := by
  unfold Cache.descOnSlab onSlab at h
  simp only [Bool.and_eq_true, decide_eq_true_eq] at h
  exact h.1

theorem base_onSlab (h : ca.descOnSlab = true) : d.base ca
    = align4Bytes (d.start + 16 + d.size * smallPageSize / ca.objSize / 8 + 1) := by
  unfold SlabDesc.base SlabDesc.objectsStart
  rw [if_pos h]
  rfl

theorem base_offSlab (h : ca.descOnSlab = false) : d.base ca = d.start := by
  unfold SlabDesc.base SlabDesc.objectsStart
  exact if_neg (by rw [show onSlab ca.objSize ca.flags = false from h]; decide)

theorem count_onSlab (h : ca.descOnSlab = true) :
    d.count ca = (d.pagesEnd - d.base ca) / ca.objSize := by
  unfold SlabDesc.count SlabDesc.objs
  rw [if_pos h]
  rfl

theorem count_offSlab (h : ca.descOnSlab = false) :
    d.count ca = d.size * smallPageSize / ca.objSize := by
  unfold SlabDesc.count SlabDesc.objs
  exact if_neg (by rw [show onSlab ca.objSize ca.flags = false from h]; decide)

theorem bitmap_onSlab (h : ca.descOnSlab = true) : d.bitmap ca = d.start + 16 := by
  unfold SlabDesc.bitmap SlabDesc.bits
  rw [if_pos h]
  rfl

theorem bitmap_offSlab (h : ca.descOnSlab = false) : d.bitmap ca = d.used := by
  unfold SlabDesc.bitmap SlabDesc.bits
  exact if_neg (by rw [show onSlab ca.objSize ca.flags = false from h]; decide)

/-- The objects start inside the slab. -/
theorem start_le_base (d : SlabDesc) (ca : Cache) : d.start ≤ d.base ca := by
  cases h : ca.descOnSlab with
  | true =>
      rw [base_onSlab h]
      refine Nat.le_trans ?_ (align4Bytes_bounds _).1
      exact Nat.le_trans (Nat.le_add_right _ _) (Nat.le_add_right _ _) |>.trans (Nat.le_add_right _ _)
  | false => rw [base_offSlab h]

/-- The header of an on-slab slab leaves room for at least one object. -/
theorem base_onSlab_room (hf : Fits ca d) (h : ca.descOnSlab = true) :
    d.base ca + ca.objSize ≤ d.pagesEnd := by
  have hraw : d.size * smallPageSize / ca.objSize ≤ d.size * smallPageSize := Nat.div_le_self _ _
  have hsmall := onSlab_lt h
  have hb := (align4Bytes_bounds (d.start + 16 + d.size * smallPageSize / ca.objSize / 8 + 1)).2
  have hsize := hf.size
  rw [base_onSlab h]
  unfold SlabDesc.pagesEnd
  unfold smallPageSize at *
  omega

theorem count_pos (hf : Fits ca d) : 0 < d.count ca := by
  cases h : ca.descOnSlab with
  | true =>
      rw [count_onSlab h]
      refine Nat.div_pos ?_ hf.objSize
      have := base_onSlab_room hf h
      omega
  | false =>
      rw [count_offSlab h]
      exact Nat.div_pos hf.fits hf.objSize

/-- **The objects end inside the slab.** -/
theorem object_le_end (hf : Fits ca d) {i : Nat} (hi : i < d.count ca) :
    d.base ca + i * ca.objSize + ca.objSize ≤ d.pagesEnd := by
  have hmul : (i + 1) * ca.objSize ≤ d.count ca * ca.objSize := Nat.mul_le_mul_right _ hi
  have hsucc : (i + 1) * ca.objSize = i * ca.objSize + ca.objSize := Nat.succ_mul _ _
  cases h : ca.descOnSlab with
  | true =>
      rw [count_onSlab h] at hmul
      have hdiv := Nat.div_mul_le_self (d.pagesEnd - d.base ca) ca.objSize
      have hroom := base_onSlab_room hf h
      omega
  | false =>
      rw [count_offSlab h] at hmul
      rw [base_offSlab h]
      have hdiv := Nat.div_mul_le_self (d.size * smallPageSize) ca.objSize
      unfold SlabDesc.pagesEnd
      omega

/-- An on-slab bitmap has its bytes between the descriptor and the objects. -/
theorem bitmap_le_base (h : ca.descOnSlab = true) :
    d.start + 16 + d.count ca / 8 + 1 ≤ d.base ca := by
  have hcount : d.count ca ≤ d.size * smallPageSize / ca.objSize := by
    rw [count_onSlab h]
    refine Nat.div_le_div_right ?_
    have := start_le_base d ca
    unfold SlabDesc.pagesEnd
    omega
  have hdiv : d.count ca / 8 ≤ d.size * smallPageSize / ca.objSize / 8 :=
    Nat.div_le_div_right hcount
  have hb := (align4Bytes_bounds (d.start + 16 + d.size * smallPageSize / ca.objSize / 8 + 1)).1
  rw [base_onSlab h]
  omega

/-- Different slots do not overlap. -/
theorem slots_apart {i j : Nat} (size : Nat) (h : i < j) : i * size + size ≤ j * size := by
  have := Nat.mul_le_mul_right size h
  rw [Nat.succ_mul] at this
  exact this

/-- The slot an address of the objects' area falls into. -/
theorem slot_of_address {p base size j : Nat} (hsize : 0 < size) (hb : base ≤ p)
    (hj : (p - base) / size = j) : base + j * size ≤ p ∧ p < base + j * size + size := by
  subst hj
  have h1 := Nat.div_mul_le_self (p - base) size
  have h2 := Nat.lt_div_mul_add hsize (a := p - base)
  omega

end Layout

end OSExt.Memory
