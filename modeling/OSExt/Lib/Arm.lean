import Mathlib.Tactic

/-!
# Banked ARM registers

The register file of a 32-bit ARM core without a memory: r0-r7 are shared by all
modes, FIQ mode has its own r8-r12, and every exception mode has its own r13,
r14 and spsr. Which register a number names is decided by the mode bits of the
cpsr. The handful of instructions that save and restore contexts are functions
on this state, one per instruction.
-/

namespace OSExt.Lib

abbrev Word := BitVec 32

/-- The register banks; user and system mode share one. -/
inductive Bank where
  | usr | svc | fiq | irq | abt | udf
deriving DecidableEq, Repr

/-- The bank the mode bits of a psr select. -/
def Bank.ofPsr (psr : Word) : Bank :=
  let mode := psr &&& 0b11111#32
  if mode = 0b10011#32 then .svc
  else if mode = 0b10001#32 then .fiq
  else if mode = 0b10010#32 then .irq
  else if mode = 0b10111#32 then .abt
  else if mode = 0b11011#32 then .udf
  else .usr

/-- r0-r12 as user mode sees them, the FIQ copies of r8-r12, and the banked rest. -/
structure Arm where
  shared : Nat → Word
  fiqHigh : Nat → Word
  r13 : Bank → Word
  r14 : Bank → Word
  spsr : Bank → Word
  cpsr : Word
  pc : Word

namespace Arm

def bank (m : Arm) : Bank := Bank.ofPsr m.cpsr

/-- Register `n` of the current mode. -/
def get (m : Arm) (n : Nat) : Word :=
  if n < 8 then m.shared n
  else if n < 13 then (if m.bank = .fiq then m.fiqHigh n else m.shared n)
  else if n = 13 then m.r13 m.bank
  else if n = 14 then m.r14 m.bank
  else m.pc

def set (m : Arm) (n : Nat) (v : Word) : Arm :=
  if n < 8 then { m with shared := Function.update m.shared n v }
  else if n < 13 then
    if m.bank = .fiq then { m with fiqHigh := Function.update m.fiqHigh n v }
    else { m with shared := Function.update m.shared n v }
  else if n = 13 then { m with r13 := Function.update m.r13 m.bank v }
  else if n = 14 then { m with r14 := Function.update m.r14 m.bank v }
  else { m with pc := v }

/-- `mrs rd, cpsr` -/
def mrsCpsr (rd : Nat) (m : Arm) : Arm := m.set rd m.cpsr

/-- `mrs rd, spsr` -/
def mrsSpsr (rd : Nat) (m : Arm) : Arm := m.set rd (m.spsr m.bank)

/-- `msr cpsr, rn` -/
def msrCpsr (rn : Nat) (m : Arm) : Arm := { m with cpsr := m.get rn }

/-- `msr spsr, rn` -/
def msrSpsr (rn : Nat) (m : Arm) : Arm :=
  { m with spsr := Function.update m.spsr m.bank (m.get rn) }

/-- `mov rd, rn` -/
def mov (rd rn : Nat) (m : Arm) : Arm := m.set rd (m.get rn)

/-- `bic rd, rn, #imm` -/
def bic (rd rn : Nat) (imm : Word) (m : Arm) : Arm := m.set rd (m.get rn &&& ~~~imm)

/-- `orr rd, rn, #imm` -/
def orr (rd rn : Nat) (imm : Word) (m : Arm) : Arm := m.set rd (m.get rn ||| imm)

/-- `and rd, rn, #imm` -/
def andImm (rd rn : Nat) (imm : Word) (m : Arm) : Arm := m.set rd (m.get rn &&& imm)

/-- `add rd, rn, #imm` -/
def addImm (rd rn : Nat) (imm : Word) (m : Arm) : Arm := m.set rd (m.get rn + imm)

/-- `sub rd, rn, #imm` -/
def subImm (rd rn : Nat) (imm : Word) (m : Arm) : Arm := m.set rd (m.get rn - imm)

/-- N, Z, C and V after `a` was compared to `b`. -/
def cmpFlags (a b : Word) : Word :=
  (if (a - b).msb then 0x80000000#32 else 0)
    ||| (if a = b then 0x40000000#32 else 0)
    ||| (if b ≤ a then 0x20000000#32 else 0)
    ||| (if a.msb ≠ b.msb ∧ (a - b).msb ≠ a.msb then 0x10000000#32 else 0)

/-- `cmp rn, v`, with `v` an immediate or the value of a register. -/
def cmp (rn : Nat) (v : Word) (m : Arm) : Arm :=
  { m with cpsr := (m.cpsr &&& 0x0fffffff#32) ||| cmpFlags (m.get rn) v }

/-- The condition `eq`. -/
def eq (m : Arm) : Bool := m.cpsr.getLsbD 30

/-- The condition `lo`. -/
def lo (m : Arm) : Bool := !m.cpsr.getLsbD 29

/-- `movs pc, rn` in an exception mode: jump and take the mode's spsr as the cpsr. -/
def movsPc (rn : Nat) (m : Arm) : Arm := { m with pc := m.get rn, cpsr := m.spsr m.bank }

/-- `subs pc, lr, #4` in an exception mode. -/
def subsPcLr4 (m : Arm) : Arm := { m with pc := m.get 14 - 4#32, cpsr := m.spsr m.bank }

/-- The cpsr on entry to an FIQ: FIQ mode, ARM state, both interrupts masked. -/
def fiqPsr (psr : Word) : Word := (psr &&& ~~~0b11111111#32) ||| 0b11010001#32

/-- An FIQ before the instruction at `pc`: the link register is `pc + 4`. -/
def takeFiq (m : Arm) (vector : Word) : Arm :=
  { m with
    r14 := Function.update m.r14 .fiq (m.pc + 4#32)
    spsr := Function.update m.spsr .fiq m.cpsr
    cpsr := fiqPsr m.cpsr
    pc := vector }

/-- The cpsr on entry to a `swi`: SVC mode, ARM state, IRQs masked and FIQs as they were. -/
def svcPsr (psr : Word) : Word := (psr &&& ~~~0b10111111#32) ||| 0b10010011#32

/-- The `swi` at `pc` itself: the link register is the address behind it. -/
def takeSwi (vector : Word) (m : Arm) : Arm :=
  { m with
    r14 := Function.update m.r14 .svc (m.pc + 4#32)
    spsr := Function.update m.spsr .svc m.cpsr
    cpsr := svcPsr m.cpsr
    pc := vector }

/--
A `swi` whose handler has returned: whatever mode it was executed in, r14_svc
now holds its return address and spsr_svc the cpsr it was executed under. `r0`
is the handler's result.
-/
def swi (m : Arm) (return_ r0 : Word) : Arm :=
  { m with
    r14 := Function.update m.r14 .svc return_
    spsr := Function.update m.spsr .svc m.cpsr
    shared := Function.update m.shared 0 r0 }

/-- Registers a stretch of compiled code running in FIQ mode may have changed. -/
structure Scratch where
  /-- r0-r7 -/
  low : Nat → Word
  /-- the FIQ copies of r8-r12 -/
  high : Nat → Word
  sp : Word
  lr : Word
  /-- the condition flags, in the upper five bits -/
  flags : Word

/-- The state such a stretch of code leaves: every other bank and the mode are as they were. -/
def scratch (m : Arm) (c : Scratch) : Arm :=
  { m with
    shared := fun n => if n < 8 then c.low n else m.shared n
    fiqHigh := c.high
    r13 := Function.update m.r13 .fiq c.sp
    r14 := Function.update m.r14 .fiq c.lr
    cpsr := (m.cpsr &&& 0x07ffffff#32) ||| (c.flags &&& 0xf8000000#32) }

/-! ## Modes -/

theorem and_or_and (a b c d : Word) :
    ((a &&& b) ||| c) &&& d = (a &&& (b &&& d)) ||| (c &&& d) := by
  ext i hi
  simp only [BitVec.getElem_and, BitVec.getElem_or]
  rw [Bool.and_or_distrib_right, Bool.and_assoc]

/-- Only the mode bits decide the bank. -/
theorem ofPsr_congr {p q : Word} (h : p &&& 0b11111#32 = q &&& 0b11111#32) :
    Bank.ofPsr p = Bank.ofPsr q := by
  unfold Bank.ofPsr
  rw [h]

/-- Clearing the mode bits and setting new ones selects the bank of the new ones. -/
theorem ofPsr_setMode (psr mode : Word) :
    Bank.ofPsr ((psr &&& ~~~0b11111#32) ||| mode) = Bank.ofPsr mode := by
  apply ofPsr_congr
  rw [and_or_and, show ~~~0b11111#32 &&& 0b11111#32 = 0#32 by decide, BitVec.and_zero,
    BitVec.zero_or]

theorem ofPsr_fiqPsr (psr : Word) : Bank.ofPsr (fiqPsr psr) = .fiq := by
  have h : Bank.ofPsr (fiqPsr psr) = Bank.ofPsr 0b11010001#32 := by
    apply ofPsr_congr
    unfold fiqPsr
    rw [and_or_and, show ~~~0b11111111#32 &&& 0b11111#32 = 0#32 by decide, BitVec.and_zero,
      BitVec.zero_or]
  rw [h]
  decide

/-- Compiled code does not leave FIQ mode. -/
theorem bank_scratch (m : Arm) (c : Scratch) : (m.scratch c).bank = m.bank := by
  unfold bank scratch
  apply ofPsr_congr
  rw [and_or_and, BitVec.and_assoc c.flags,
    show 0x07ffffff#32 &&& 0b11111#32 = 0b11111#32 by decide,
    show 0xf8000000#32 &&& 0b11111#32 = 0#32 by decide, BitVec.and_zero, BitVec.or_zero]

theorem bank_takeSwi (vector : Word) (m : Arm) : (m.takeSwi vector).bank = .svc := by
  have h : Bank.ofPsr (svcPsr m.cpsr) = Bank.ofPsr 0b10010011#32 := by
    apply ofPsr_congr
    unfold svcPsr
    rw [and_or_and, show ~~~0b10111111#32 &&& 0b11111#32 = 0#32 by decide, BitVec.and_zero,
      BitVec.zero_or]
  exact h.trans (by decide)

theorem bank_takeFiq (m : Arm) (vector : Word) : (m.takeFiq vector).bank = .fiq :=
  ofPsr_fiqPsr m.cpsr

@[simp] theorem bank_swi (m : Arm) (return_ r0 : Word) : (m.swi return_ r0).bank = m.bank := rfl

/-! ## Comparisons -/

/-- The flags are not among the other bits of the cpsr. -/
theorem cmpFlags_low (a b : Word) {mask : Word} (h : 0xf0000000#32 &&& mask = 0) :
    cmpFlags a b &&& mask = 0 := by
  have hflags : cmpFlags a b = cmpFlags a b &&& 0xf0000000#32 := by
    unfold cmpFlags
    split <;> split <;> split <;> split <;> rfl
  rw [hflags, BitVec.and_assoc, h]
  exact BitVec.and_zero

/-- A comparison leaves the lower bits of the cpsr as they are. -/
theorem cpsr_cmp_and (rn : Nat) (v : Word) (m : Arm) {mask : Word} (h : 0xf0000000#32 &&& mask = 0)
    (h' : 0x0fffffff#32 &&& mask = mask) : (m.cmp rn v).cpsr &&& mask = m.cpsr &&& mask := by
  unfold cmp
  rw [and_or_and, h', cmpFlags_low _ _ h]
  exact BitVec.or_zero

@[simp] theorem bank_cmp (rn : Nat) (v : Word) (m : Arm) : (m.cmp rn v).bank = m.bank :=
  ofPsr_congr (cpsr_cmp_and rn v m (by decide) (by decide))

theorem eq_cmp (rn : Nat) (v : Word) (m : Arm) : (m.cmp rn v).eq = decide (m.get rn = v) := by
  have hold : (m.cpsr &&& 0x0fffffff#32).getLsbD 30 = false := by
    rw [BitVec.getLsbD_and]
    simp
  unfold eq cmp
  simp only [BitVec.getLsbD_or, hold, Bool.false_or, cmpFlags]
  by_cases h : m.get rn = v
  · simp only [h, if_true, decide_true]
    split <;> split <;> split <;> rfl
  · simp only [h, if_false, decide_false]
    split <;> split <;> split <;> rfl

theorem lo_cmp (rn : Nat) (v : Word) (m : Arm) : (m.cmp rn v).lo = decide (m.get rn < v) := by
  have hold : (m.cpsr &&& 0x0fffffff#32).getLsbD 29 = false := by
    rw [BitVec.getLsbD_and]
    simp
  unfold lo cmp
  simp only [BitVec.getLsbD_or, hold, Bool.false_or, cmpFlags]
  by_cases h : m.get rn < v
  · have hle : ¬ v ≤ m.get rn := BitVec.not_le.mpr h
    simp only [h, hle, if_false, decide_true]
    split <;> split <;> split <;> rfl
  · have hle : v ≤ m.get rn := BitVec.not_lt.mp h
    simp only [h, hle, if_true, decide_false]
    split <;> split <;> split <;> rfl

/-! ## Registers -/

@[simp] theorem cpsr_set (m : Arm) (n : Nat) (v : Word) : (m.set n v).cpsr = m.cpsr := by
  unfold set
  split
  · rfl
  · split
    · split <;> rfl
    · split
      · rfl
      · split <;> rfl

@[simp] theorem spsr_set (m : Arm) (n : Nat) (v : Word) : (m.set n v).spsr = m.spsr := by
  unfold set
  split
  · rfl
  · split
    · split <;> rfl
    · split
      · rfl
      · split <;> rfl

@[simp] theorem bank_set (m : Arm) (n : Nat) (v : Word) : (m.set n v).bank = m.bank := by
  unfold bank
  rw [cpsr_set]

theorem get_set_self (m : Arm) {n : Nat} (h : n < 15) (v : Word) : (m.set n v).get n = v := by
  unfold get
  rw [bank_set]
  unfold set
  by_cases h8 : n < 8
  · simp [h8]
  by_cases h13 : n < 13
  · by_cases hb : m.bank = .fiq
    · simp [h8, h13, hb]
    · simp [h8, h13, hb]
  · obtain rfl | rfl : n = 13 ∨ n = 14 := by omega
    · simp
    · simp

/-- Setting one register leaves the others alone. -/
theorem get_set_ne (m : Arm) {n k : Nat} (h : n ≠ k) (hk : k < 15) (v : Word) :
    (m.set k v).get n = m.get n := by
  unfold get
  rw [bank_set]
  unfold set
  by_cases h8 : k < 8
  · simp only [h8, if_true, Function.update_of_ne h]
  by_cases h13 : k < 13
  · by_cases hb : m.bank = .fiq
    · simp only [h8, h13, hb, if_true, if_false, Function.update_of_ne h]
    · simp only [h8, h13, hb, if_true, if_false, Function.update_of_ne h]
  · obtain rfl | rfl : k = 13 ∨ k = 14 := by omega
    · simp [h]
    · simp [h]

@[simp] theorem eq_set (m : Arm) (n : Nat) (v : Word) : (m.set n v).eq = m.eq := by
  unfold eq
  rw [cpsr_set]

@[simp] theorem spsr_cmp (rn : Nat) (v : Word) (m : Arm) : (m.cmp rn v).spsr = m.spsr := rfl

@[simp] theorem get_cmp (rn : Nat) (v : Word) (m : Arm) (n : Nat) : (m.cmp rn v).get n = m.get n := by
  unfold get
  rw [bank_cmp]
  rfl

@[simp] theorem bank_msrSpsr (rn : Nat) (m : Arm) : (m.msrSpsr rn).bank = m.bank := rfl

@[simp] theorem get_msrSpsr (rn : Nat) (m : Arm) (n : Nat) : (m.msrSpsr rn).get n = m.get n := rfl

@[simp] theorem cpsr_msrSpsr (rn : Nat) (m : Arm) : (m.msrSpsr rn).cpsr = m.cpsr := rfl

@[simp] theorem eq_msrSpsr (rn : Nat) (m : Arm) : (m.msrSpsr rn).eq = m.eq := rfl

@[simp] theorem spsr_msrSpsr (rn : Nat) (m : Arm) :
    (m.msrSpsr rn).spsr = Function.update m.spsr m.bank (m.get rn) := rfl

end Arm

end OSExt.Lib
