import OSExt.Lib.Arm

/-!
# The interrupt flags

`modes.c`: two bits of the status register turn interrupts off, and a critical section
saves which of them were clear, sets both and puts them back. Sections nest: a section
leaves the flags as it found them, set or not.
-/

namespace OSExt.Libk

open Lib

/-! ## The flags -/

def isIRQ (cpsr : Word) : Bool := if (cpsr >>> 7) &&& 0b1#32 = 1#32 then false else true

def isFIQ (cpsr : Word) : Bool := if (cpsr >>> 6) &&& 0b1#32 = 1#32 then false else true

def enableIRQ (cpsr : Word) : Word := cpsr &&& ~~~0x80#32

def disableIRQ (cpsr : Word) : Word := cpsr ||| 0x80#32

def enableFIQ (cpsr : Word) : Word := cpsr &&& ~~~0x40#32

def disableFIQ (cpsr : Word) : Word := cpsr ||| 0x40#32

/-- `struct irq_state` -/
structure IrqState where
  irq : Bool
  fiq : Bool
deriving DecidableEq, Repr

def irqSaveState (cpsr : Word) : IrqState where
  irq := isIRQ cpsr
  fiq := isFIQ cpsr

def irqDisable (cpsr : Word) : Word := disableIRQ (disableFIQ cpsr)

def irqRestoreState (s : IrqState) (cpsr : Word) : Word :=
  let cpsr := if s.irq then enableIRQ cpsr else cpsr
  if s.fiq then enableFIQ cpsr else cpsr

/-! ## What each does to them -/

/-- Both flags are bits of the register, set to turn the interrupt off. -/
theorem bitClear_eq (cpsr : Word) (i : Nat) :
    (if (cpsr >>> i) &&& 0b1#32 = 1#32 then false else true) = !cpsr.getLsbD i := by
  have hbit : (cpsr >>> i) &&& 0b1#32 = 1#32 ↔ cpsr.getLsbD i = true := by
    rw [BitVec.and_one_eq_setWidth_ofBool_getLsbD, BitVec.getLsbD_ushiftRight]
    cases cpsr.getLsbD (i + 0) <;> decide
  cases h : cpsr.getLsbD i with
  | true =>
      rw [if_pos (hbit.mpr h)]
      rfl
  | false =>
      rw [if_neg fun hb => Bool.false_ne_true (h.symm.trans (hbit.mp hb))]
      rfl

theorem isIRQ_eq (cpsr : Word) : isIRQ cpsr = !cpsr.getLsbD 7 := bitClear_eq cpsr 7

theorem isFIQ_eq (cpsr : Word) : isFIQ cpsr = !cpsr.getLsbD 6 := bitClear_eq cpsr 6

section Flags

variable (cpsr : Word)

@[simp] theorem isIRQ_enableIRQ : isIRQ (enableIRQ cpsr) = true := by
  simp [isIRQ_eq, enableIRQ]

@[simp] theorem isFIQ_enableIRQ : isFIQ (enableIRQ cpsr) = isFIQ cpsr := by
  simp [isFIQ_eq, enableIRQ]

@[simp] theorem isIRQ_disableIRQ : isIRQ (disableIRQ cpsr) = false := by
  simp [isIRQ_eq, disableIRQ]

@[simp] theorem isFIQ_disableIRQ : isFIQ (disableIRQ cpsr) = isFIQ cpsr := by
  simp [isFIQ_eq, disableIRQ]

@[simp] theorem isIRQ_enableFIQ : isIRQ (enableFIQ cpsr) = isIRQ cpsr := by
  simp [isIRQ_eq, enableFIQ]

@[simp] theorem isFIQ_enableFIQ : isFIQ (enableFIQ cpsr) = true := by
  simp [isFIQ_eq, enableFIQ]

@[simp] theorem isIRQ_disableFIQ : isIRQ (disableFIQ cpsr) = isIRQ cpsr := by
  simp [isIRQ_eq, disableFIQ]

@[simp] theorem isFIQ_disableFIQ : isFIQ (disableFIQ cpsr) = false := by
  simp [isFIQ_eq, disableFIQ]

@[simp] theorem isIRQ_irqDisable : isIRQ (irqDisable cpsr) = false := by
  simp [irqDisable]

@[simp] theorem isFIQ_irqDisable : isFIQ (irqDisable cpsr) = false := by
  simp [irqDisable]

/-- Restoring only turns interrupts on. -/
theorem isIRQ_irqRestoreState (s : IrqState) :
    isIRQ (irqRestoreState s cpsr) = (s.irq || isIRQ cpsr) := by
  unfold irqRestoreState
  cases s.irq <;> cases s.fiq <;> simp

theorem isFIQ_irqRestoreState (s : IrqState) :
    isFIQ (irqRestoreState s cpsr) = (s.fiq || isFIQ cpsr) := by
  unfold irqRestoreState
  cases s.irq <;> cases s.fiq <;> simp

/-- The bits of the two masks. -/
theorem getLsbD_masks {j : Nat} (hj : j < 32) :
    (0x80#32).getLsbD j = decide (j = 7) ∧ (0x40#32).getLsbD j = decide (j = 6) := by
  have hmasks : ∀ j < 32,
      (0x80#32).getLsbD j = decide (j = 7) ∧ (0x40#32).getLsbD j = decide (j = 6) := by decide
  exact hmasks j hj

theorem getLsbD_irqDisable {j : Nat} (hj : j < 32) :
    (irqDisable cpsr).getLsbD j = (cpsr.getLsbD j || decide (j = 6) || decide (j = 7)) := by
  rw [irqDisable, disableIRQ, disableFIQ, BitVec.getLsbD_or, BitVec.getLsbD_or,
    (getLsbD_masks hj).1, (getLsbD_masks hj).2]

/-- Restoring clears the bits of the flags that were on. -/
theorem getLsbD_irqRestoreState (s : IrqState) {j : Nat} (hj : j < 32) :
    (irqRestoreState s cpsr).getLsbD j
      = (cpsr.getLsbD j && !(s.irq && decide (j = 7)) && !(s.fiq && decide (j = 6))) := by
  have hirq : ∀ c : Word, (enableIRQ c).getLsbD j = (c.getLsbD j && !decide (j = 7)) := by
    intro c
    rw [enableIRQ, BitVec.getLsbD_and, BitVec.getLsbD_not, (getLsbD_masks hj).1, decide_eq_true hj,
      Bool.true_and]
  have hfiq : ∀ c : Word, (enableFIQ c).getLsbD j = (c.getLsbD j && !decide (j = 6)) := by
    intro c
    rw [enableFIQ, BitVec.getLsbD_and, BitVec.getLsbD_not, (getLsbD_masks hj).2, decide_eq_true hj,
      Bool.true_and]
  unfold irqRestoreState
  cases s.irq <;> cases s.fiq <;> simp [hirq, hfiq]

/-- **Disabling and restoring** puts every bit of the register back. -/
theorem irqRestoreState_irqDisable :
    irqRestoreState (irqSaveState cpsr) (irqDisable cpsr) = cpsr := by
  apply BitVec.eq_of_getLsbD_eq
  intro j hj
  rw [getLsbD_irqRestoreState _ _ hj, getLsbD_irqDisable _ hj, irqSaveState, isIRQ_eq, isFIQ_eq]
  -- a flag's bit is cleared again just where it was clear
  by_cases h7 : j = 7
  · subst h7
    cases cpsr.getLsbD 7 <;> cases cpsr.getLsbD 6 <;> rfl
  · by_cases h6 : j = 6
    · subst h6
      cases cpsr.getLsbD 7 <;> cases cpsr.getLsbD 6 <;> rfl
    · rw [decide_eq_false h7, decide_eq_false h6]
      cases cpsr.getLsbD j <;> simp

end Flags

/-! ## Critical sections -/

/-- Both flags are as they were. -/
structure SameFlags (cpsr cpsr' : Word) : Prop where
  irq : isIRQ cpsr' = isIRQ cpsr
  fiq : isFIQ cpsr' = isFIQ cpsr

namespace SameFlags

variable {c c' c'' : Word}

theorem refl (c : Word) : SameFlags c c := ⟨rfl, rfl⟩

theorem trans (h : SameFlags c c') (h' : SameFlags c' c'') : SameFlags c c'' :=
  ⟨h'.irq.trans h.irq, h'.fiq.trans h.fiq⟩

/-- **A critical section** whose work leaves the flags alone leaves them as it found them,
also inside another one. -/
theorem bracket (h : SameFlags (irqDisable c) c') :
    SameFlags c (irqRestoreState (irqSaveState c) c') := by
  obtain ⟨hirq, hfiq⟩ := h
  rw [isIRQ_irqDisable] at hirq
  rw [isFIQ_irqDisable] at hfiq
  refine ⟨?_, ?_⟩
  · rw [isIRQ_irqRestoreState, hirq, Bool.or_false]
    rfl
  · rw [isFIQ_irqRestoreState, hfiq, Bool.or_false]
    rfl

/-- A section that is left without restoring keeps the flags only where both were off. -/
theorem disable_iff : SameFlags c (irqDisable c) ↔ isIRQ c = false ∧ isFIQ c = false := by
  constructor
  · intro h
    obtain ⟨hirq, hfiq⟩ := h
    rw [isIRQ_irqDisable] at hirq
    rw [isFIQ_irqDisable] at hfiq
    exact ⟨hirq.symm, hfiq.symm⟩
  · intro h
    refine ⟨?_, ?_⟩
    · rw [isIRQ_irqDisable, h.1]
    · rw [isFIQ_irqDisable, h.2]

end SameFlags

end OSExt.Libk
