import OSExt.Exceptions.Aborts

/-!
# The frame of a hook

`HOOK_DEFINE` makes a naked function: it pushes r0-r12 and the link register, keeps the stack
pointer in a word of its own code, and calls its body. The body ends with `HOOK_RESTORE_RETURN`
wherever its stack pointer is by then. The registers the OS goes on with are the words of the
frame, which `HOOK_SAVED_REGS` lets the body read and write. The flags are not among them.
-/

namespace OSExt.Hooks

open Lib Exceptions

/-- `{r0-r12,lr}` -/
def hookRegs : List Nat := [0, 1, 2, 3, 4, 5, 6, 7, 8, 9, 10, 11, 12, 14]

/-- `str sp` into `__hookname_saved_sp`, which is at `adr`. -/
def saveSp (adr : Word) (c : Cpu) : Cpu × Word :=
  -- r0 is kept below the stack pointer for three instructions
  let below := c.arm.get 13 - 4#32
  let c := { c with stack := Function.update c.stack below (c.arm.get 0) }
  let c := c.ldr 0 adr
  let savedSp := c.arm.get 13
  (c.ldr 0 (c.stack below), savedSp)

/-- A hook up to the call of its body. -/
def hookEntry (adr : Word) (c : Cpu) : Cpu × Word := saveSp adr (c.pushAll hookRegs)

/-- `HOOK_RESTORE_SP`: both words are taken at once, so that lr can be used for the address. -/
def hookRestoreSp (adr savedSp : Word) (c : Cpu) : Cpu :=
  let c := c.push 14
  let c := c.ldr 14 adr
  let c := c.ldr 14 savedSp
  let c := c.push 14
  let base := c.arm.get 13
  let c := c.ldr 13 (c.stack base)
  c.ldr 14 (c.stack (base + 4#32))

/-- `HOOK_RESTORE_RETURN` -/
def hookReturn (adr savedSp endInstrs : Word) (c : Cpu) : Cpu :=
  let c := hookRestoreSp adr savedSp c
  let c := c.popAll hookRegs
  c.on fun m => { m with pc := endInstrs }

/-- `HOOK_SAVED_REGS(hookname)[i]` -/
def savedRegs (savedSp : Word) (c : Cpu) (i : Nat) : Word :=
  c.stack (savedSp + BitVec.ofNat 32 (4 * i))

section

variable {c c1 : Cpu} {adr savedSp : Word}

/-- Only the word below the stack pointer is written. -/
theorem saveSp_spec (adr : Word) (c : Cpu) :
    (∀ n < 15, (saveSp adr c).1.arm.get n = c.arm.get n) ∧
      (saveSp adr c).2 = c.arm.get 13 ∧ (saveSp adr c).1.arm.bank = c.arm.bank ∧
      ∀ x ≠ c.arm.get 13 - 4#32, (saveSp adr c).1.stack x = c.stack x := by
  refine ⟨fun n hn => ?_, ?_, ?_, fun x hx => ?_⟩
  · show ((c.arm.set 0 adr).set 0
      (Function.update c.stack (c.arm.get 13 - 4#32) (c.arm.get 0) (c.arm.get 13 - 4#32))).get n = _
    rw [Function.update_self]
    by_cases h0 : n = 0
    · rw [h0, Arm.get_set_self _ (by omega)]
    · rw [Arm.get_set_ne _ h0 (by omega), Arm.get_set_ne _ h0 (by omega)]
  · show (c.arm.set 0 adr).get 13 = _
    rw [Arm.get_set_ne _ (by omega) (by omega)]
  · show ((c.arm.set 0 adr).set 0 _).bank = _
    rw [Arm.bank_set, Arm.bank_set]
  · exact Function.update_of_ne hx ..

/-- **What a body finds**: the registers as the OS had them, and the frame below its stack. -/
theorem hookEntry_spec (adr : Word) (c : Cpu) :
    (∀ n < 15, n ≠ 13 → (hookEntry adr c).1.arm.get n = c.arm.get n) ∧
      (hookEntry adr c).1.arm.get 13 = (hookEntry adr c).2 ∧
      (hookEntry adr c).2 = c.arm.get 13 - 56#32 ∧
      (hookEntry adr c).1.arm.bank = c.arm.bank ∧
      ∀ i, ∀ hi : i < hookRegs.length,
        savedRegs (hookEntry adr c).2 (hookEntry adr c).1 i = c.arm.get hookRegs[i] := by
  have hpushed := (Pushed.nil c).pushAll hookRegs (by decide) (by decide)
  unfold hookEntry
  obtain ⟨c1, hc1⟩ : ∃ c1, c1 = c.pushAll hookRegs := ⟨_, rfl⟩
  rw [← hc1] at hpushed ⊢
  obtain ⟨hregs, hsaved, hbank, hstack⟩ := saveSp_spec adr c1
  refine ⟨fun n hn h13 => ?_, ?_, ?_, hbank.trans hpushed.bank, fun i hi => ?_⟩
  · exact (hregs n hn).trans (hpushed.regs n (Nat.zero_le n) h13 hn)
  · exact (hregs 13 (by omega)).trans hsaved.symm
  · exact hsaved.trans hpushed.sp
  · have h14 : i < 14 := hi
    have hne : c1.arm.get 13 + BitVec.ofNat 32 (4 * i) ≠ c1.arm.get 13 - 4#32 := by bv_omega
    have hword : c1.frame i = (hookRegs.map c.arm.get ++ []).getD i 0 := hpushed.words i hi
    rw [List.append_nil, List.getD_eq_getElem?_getD, List.getElem?_map,
      List.getElem?_eq_getElem hi] at hword
    unfold savedRegs
    rw [hsaved, hstack _ hne]
    exact hword

/-- The two words `HOOK_RESTORE_SP` pushes are none of the frame. -/
def Clear (savedSp : Word) (c : Cpu) : Prop :=
  ∀ i < 14, c.arm.get 13 - 4#32 ≠ savedSp + BitVec.ofNat 32 (4 * i) ∧
    c.arm.get 13 - 8#32 ≠ savedSp + BitVec.ofNat 32 (4 * i)

/-- The stack pointer and the link register come from the two words pushed. -/
theorem hookRestoreSp_spec (hclear : Clear savedSp c) (adr : Word) :
    (hookRestoreSp adr savedSp c).arm.get 13 = savedSp ∧
      (∀ i < 14, (hookRestoreSp adr savedSp c).frame i = savedRegs savedSp c i) ∧
      (hookRestoreSp adr savedSp c).arm.cpsr = c.arm.cpsr ∧
      (∀ n < 13, (hookRestoreSp adr savedSp c).arm.get n = c.arm.get n) := by
  -- the pushes
  obtain ⟨c1, hc1⟩ : ∃ c1, c1 = ((c.push 14).ldr 14 adr).ldr 14 savedSp := ⟨_, rfl⟩
  have hsp1 : c1.arm.get 13 = c.arm.get 13 - 4#32 := by
    rw [hc1, Cpu.arm_ldr, Arm.get_set_ne _ (by omega) (by omega), Cpu.arm_ldr,
      Arm.get_set_ne _ (by omega) (by omega), Cpu.arm_push, Arm.get_set_self _ (by omega)]
  have hlr1 : c1.arm.get 14 = savedSp := by
    rw [hc1, Cpu.arm_ldr, Arm.get_set_self _ (by omega)]
  have hstack1 : c1.stack = Function.update c.stack (c.arm.get 13 - 4#32) (c.arm.get 14) :=
    hc1 ▸ rfl
  obtain ⟨c2, hc2⟩ : ∃ c2, c2 = c1.push 14 := ⟨_, rfl⟩
  have hsp2 : c2.arm.get 13 = c.arm.get 13 - 8#32 := by
    rw [hc2, Cpu.arm_push, Arm.get_set_self _ (by omega), hsp1]
    bv_omega
  have hstack2 : c2.stack = Function.update c1.stack (c.arm.get 13 - 8#32) savedSp := by
    have haddr : c1.arm.get 13 - 4#32 = c.arm.get 13 - 8#32 := by
      rw [hsp1]
      bv_omega
    rw [← haddr, ← hlr1, hc2]
    rfl
  have hrestore : hookRestoreSp adr savedSp c =
      (c2.ldr 13 (c2.stack (c2.arm.get 13))).ldr 14 (c2.stack (c2.arm.get 13 + 4#32)) := by
    rw [hc2, hc1]
    rfl
  have htop : c2.stack (c2.arm.get 13) = savedSp := by
    rw [hsp2, hstack2, Function.update_self]
  rw [hrestore, htop]
  have hsp : ((c2.ldr 13 savedSp).ldr 14 (c2.stack (c2.arm.get 13 + 4#32))).arm.get 13
      = savedSp := by
    rw [Cpu.arm_ldr, Arm.get_set_ne _ (by omega) (by omega), Cpu.arm_ldr,
      Arm.get_set_self _ (by omega)]
  refine ⟨hsp, fun i hi => ?_, ?_, fun n hn => ?_⟩
  · unfold Cpu.frame savedRegs
    rw [hsp]
    show c2.stack _ = _
    rw [hstack2, Function.update_of_ne (hclear i hi).2.symm, hstack1,
      Function.update_of_ne (hclear i hi).1.symm]
  · rw [Cpu.arm_ldr, Arm.cpsr_set, Cpu.arm_ldr, Arm.cpsr_set, hc2, Cpu.arm_push, Arm.cpsr_set, hc1,
      Cpu.arm_ldr, Arm.cpsr_set, Cpu.arm_ldr, Arm.cpsr_set, Cpu.arm_push, Arm.cpsr_set]
  · rw [Cpu.arm_ldr, Arm.get_set_ne _ (by omega) (by omega), Cpu.arm_ldr,
      Arm.get_set_ne _ (by omega) (by omega), hc2, Cpu.arm_push,
      Arm.get_set_ne _ (by omega) (by omega), hc1, Cpu.arm_ldr,
      Arm.get_set_ne _ (by omega) (by omega), Cpu.arm_ldr, Arm.get_set_ne _ (by omega) (by omega),
      Cpu.arm_push, Arm.get_set_ne _ (by omega) (by omega)]

theorem get_branch (c : Cpu) (target : Word) {n : Nat} (hn : n < 15) :
    (c.on fun m => { m with pc := target }).arm.get n = c.arm.get n := by
  interval_cases n <;> rfl

/-- **The way out of a hook**: whatever the registers of the body are, the OS has those of the
frame, its stack pointer above it, and the flags of the body. -/
theorem hookReturn_spec (hclear : Clear savedSp c) (adr endInstrs : Word) :
    (∀ i, ∀ hi : i < hookRegs.length,
      (hookReturn adr savedSp endInstrs c).arm.get hookRegs[i] = savedRegs savedSp c i) ∧
    (hookReturn adr savedSp endInstrs c).arm.get 13 = savedSp + 56#32 ∧
    (hookReturn adr savedSp endInstrs c).arm.cpsr = c.arm.cpsr ∧
    (hookReturn adr savedSp endInstrs c).arm.pc = endInstrs := by
  obtain ⟨hsp, hframe, hcpsr, -⟩ := hookRestoreSp_spec hclear adr
  obtain ⟨c1, hc1⟩ : ∃ c1, c1 = hookRestoreSp adr savedSp c := ⟨_, rfl⟩
  rw [← hc1] at hsp hframe hcpsr
  obtain ⟨hloaded, -, hsp1, -⟩ := popAll_spec hookRegs c1 (by decide) (by decide)
  have hcpsr1 := cpsr_popAll hookRegs c1
  have hreturn : hookReturn adr savedSp endInstrs c =
      (c1.popAll hookRegs).on fun m => { m with pc := endInstrs } := by
    rw [hc1]
    rfl
  obtain ⟨c2, hc2⟩ : ∃ c2, c2 = c1.popAll hookRegs := ⟨_, rfl⟩
  rw [← hc2] at hloaded hsp1 hcpsr1 hreturn
  rw [hreturn]
  refine ⟨fun i hi => ?_, ?_, hcpsr1.trans hcpsr, rfl⟩
  · have hlt : hookRegs[i] < 15 := by
      have hall : ∀ n ∈ hookRegs, n < 15 := by decide
      exact hall _ (List.getElem_mem hi)
    rw [get_branch _ _ hlt, hloaded i hi, hframe i hi]
  · rw [get_branch _ _ (by omega), hsp1, hsp]
    rfl

/-- A body has run: in the same mode, with the frame as it was. Its registers may be any. -/
structure BodyRan (savedSp : Word) (c c1 : Cpu) : Prop where
  bank : c1.arm.bank = c.arm.bank
  frame : ∀ i < 14, savedRegs savedSp c1 i = savedRegs savedSp c i
  clear : Clear savedSp c1

/-- A body that only returns. -/
theorem bodyRan_refl (adr : Word) (c : Cpu) :
    BodyRan (hookEntry adr c).2 (hookEntry adr c).1 (hookEntry adr c).1 := by
  obtain ⟨-, hsp, -⟩ := hookEntry_spec adr c
  refine ⟨rfl, fun _ _ => rfl, fun i hi => ?_⟩
  rw [hsp]
  exact ⟨by bv_omega, by bv_omega⟩

end

end OSExt.Hooks
