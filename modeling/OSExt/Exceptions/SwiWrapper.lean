import OSExt.Lib.Arm

/-!
# The system call wrapper

The assembly of `syscalls.c`. A `swi` traps into `swi_wrapper`, which counts it and
either calls one of OSExt's own handlers or delegates it to the OS: `real_delegate`
keeps the return state of the call in words among the code, and the OS comes back to
`delegate_end`. Every way back takes the call off the count.

The blocks are kept instruction by instruction over the banked registers, the stack
and the words among the code; the stack does not reach those. What the handlers do in
between is not modelled here: each block starts from the machine it finds.
-/

namespace OSExt.Exceptions

open Lib

/-- The words among the code of `syscalls.c`. -/
structure Words where
  /-- `__syscall_in_progress` -/
  syscallInProgress : Word
  savedLr1 : Word
  savedLr2 : Word
  savedSpsr1 : Word
  savedSpsr2 : Word
  /-- where the OS handler looks for the `swi` instruction -/
  swiInstArm : Word
  swiInstThumb : Word

/-- The program memory the wrapper reads instructions from, by words and halfwords. -/
structure Text where
  word : Word → Word
  half : Word → BitVec 16

/-- `syscall_mask`: OSExt's own system calls have these bits. -/
def syscallMask : Word := 0xf80000#32

structure Cpu where
  arm : Arm
  stack : Word → Word
  words : Words

namespace Cpu

/-- An instruction on registers. -/
def on (c : Cpu) (f : Arm → Arm) : Cpu := { c with arm := f c.arm }

/-- `ldr rn, …`, for the value at the address. -/
def ldr (c : Cpu) (n : Nat) (v : Word) : Cpu := c.on (·.set n v)

/-- `str rn, …`, for one of the words. -/
def str (c : Cpu) (n : Nat) (put : Words → Word → Words) : Cpu :=
  { c with words := put c.words (c.arm.get n) }

/-- `push {rn}` -/
def push (c : Cpu) (n : Nat) : Cpu :=
  let sp := c.arm.get 13 - 4#32
  { c with arm := c.arm.set 13 sp, stack := Function.update c.stack sp (c.arm.get n) }

/-- `pop {rn}` -/
def pop (c : Cpu) (n : Nat) : Cpu :=
  let sp := c.arm.get 13
  { c with arm := (c.arm.set 13 (sp + 4#32)).set n (c.stack sp) }

/-- `push` with several registers: the lowest one ends at the lowest address. -/
def pushAll (c : Cpu) (ns : List Nat) : Cpu := ns.foldr (fun n c => c.push n) c

def popAll (c : Cpu) (ns : List Nat) : Cpu := ns.foldl pop c

end Cpu

/-- `{r2-r12,r14}` -/
def handlerRegs : List Nat := [2, 3, 4, 5, 6, 7, 8, 9, 10, 11, 12, 14]

/-- Where `swi_wrapper` hands a call over. -/
inductive Entered where
  /-- at `bl swi_handler`, with the number in r0 and the register array in r1 -/
  | svc (c : Cpu)
  /-- at `bl swi_handler_usr` -/
  | usr (c : Cpu)
  /-- at `real_delegate` -/
  | delegate (c : Cpu)

def Entered.cpu : Entered → Cpu
  | .svc c => c
  | .usr c => c
  | .delegate c => c

/-- The registers pushed for a handler, as its array. -/
def pushRegs (c : Cpu) : Cpu :=
  let c := c.push 1
  let c := c.on (Arm.mrsSpsr 1)
  let c := c.push 1
  let c := c.pushAll handlerRegs
  c.on (Arm.mov 1 13)

/-- `arm_usermode` -/
def armUsermode (text : Text) (c : Cpu) : Entered :=
  let c := c.ldr 0 (text.word (c.arm.get 14 - 4#32))
  let c := c.on (Arm.bic 0 0 0xff000000#32)
  .usr (pushRegs c)

/-- `thumb_usermode` -/
def thumbUsermode (text : Text) (c : Cpu) : Entered :=
  let c := c.on (Arm.bic 0 0 1#32)
  let c := c.ldr 0 ((text.half (c.arm.get 14 - 2#32)).setWidth 32)
  let c := c.on (Arm.bic 0 0 0xff00#32)
  .usr (pushRegs c)

/-- The bits of the spsr in `mask` are compared to `v`, in r0. -/
def testSpsr (mask v : Word) (c : Cpu) : Cpu :=
  let c := c.on (Arm.mrsSpsr 0)
  let c := c.on (Arm.andImm 0 0 mask)
  c.on (Arm.cmp 0 v)

/-- `thumb_syscall` -/
def thumbSyscall (text : Text) (c : Cpu) : Entered :=
  let c := testSpsr 0b11111#32 0b10000#32 c
  if c.arm.eq then thumbUsermode text c
  else .delegate c

/-- What `swi_wrapper` does first: the call is counted, r0 and the cpsr are pushed. -/
def countCall (c : Cpu) : Cpu :=
  let c := c.push 0
  let c := c.ldr 0 c.words.syscallInProgress
  let c := c.on (Arm.addImm 0 0 1#32)
  let c := c.str 0 (fun w v => { w with syscallInProgress := v })
  let c := c.on (Arm.mrsCpsr 0)
  c.push 0

/-- The number of the `swi` in r0, and r1 on the stack with the mask in its place. -/
def loadNumber (text : Text) (c : Cpu) : Cpu :=
  let c := c.ldr 0 (text.word (c.arm.get 14 - 4#32))
  let c := c.on (Arm.bic 0 0 0xff000000#32)
  let c := c.push 1
  c.ldr 1 syscallMask

/-- A `swi` in ARM state from a privileged mode. -/
def armSvc (text : Text) (c : Cpu) : Entered :=
  let c := loadNumber text c
  let c := c.on (fun m => m.cmp 0 (m.get 1))
  if c.arm.lo then .delegate (c.pop 1)
  else
    let c := c.on (fun m => m.bic 0 0 (m.get 1))
    let c := c.on (Arm.mrsSpsr 1)
    let c := c.push 1
    let c := c.pushAll handlerRegs
    .svc (c.on (Arm.mov 1 13))

/-- `swi_wrapper`, up to the handler. -/
def swiWrapper (text : Text) (c : Cpu) : Entered :=
  let c := testSpsr 0b100000#32 0b100000#32 (countCall c)
  if c.arm.eq then thumbSyscall text c
  else
    let c := testSpsr 0b11111#32 0b10000#32 c
    if c.arm.eq then armUsermode text c
    else armSvc text c

/-- The call is taken off the count, and returns. -/
def countedReturn (c : Cpu) : Cpu :=
  let c := c.ldr 0 c.words.syscallInProgress
  let c := c.on (Arm.subImm 0 0 1#32)
  let c := c.str 0 (fun w v => { w with syscallInProgress := v })
  let c := c.pop 0
  c.on (Arm.movsPc 14)

/-- The spsr, r1 and the cpsr from the stack; the spsr by way of `rn`. -/
def popPsrs (n : Nat) (c : Cpu) : Cpu :=
  let c := c.pop n
  let c := c.on (Arm.msrSpsr n)
  let c := c.pop 1
  let c := c.pop 0
  c.on (Arm.msrCpsr 0)

/-- Behind `bl swi_handler`. -/
def svcReturn (c : Cpu) : Cpu := countedReturn (popPsrs 0 (c.popAll handlerRegs))

/-- Behind both `bl swi_handler_usr`. -/
def usrReturn (c : Cpu) : Cpu := countedReturn (popPsrs 1 (c.popAll handlerRegs))

/-- Is the first place for a return state in use? The source asks twice. -/
def testFirst (c : Cpu) : Cpu :=
  let c := c.ldr 0 c.words.savedLr1
  let c := c.on (Arm.cmp 0 0#32)
  let c := c.ldr 0 c.words.savedLr1
  c.on (Arm.cmp 0 0#32)

/-- The part of `real_delegate` that keeps lr and spsr: in the second words if the first
are in use. -/
def saveReturn (c : Cpu) : Cpu :=
  let c := testFirst c
  let c := if c.arm.eq then c else c.str 14 (fun w v => { w with savedLr2 := v })
  let c := if c.arm.eq then c.str 14 (fun w v => { w with savedLr1 := v }) else c
  let c := c.on (Arm.mrsSpsr 0)
  let c := if c.arm.eq then c else c.str 0 (fun w v => { w with savedSpsr2 := v })
  if c.arm.eq then c.str 0 (fun w v => { w with savedSpsr1 := v }) else c

/--
`real_delegate`, up to the jump to the OS's vector. `behindArm` is the address of the
branch behind `SWI_INST_ARM`, `atThumb` that of `SWI_INST_THUMB`.
-/
def realDelegate (text : Text) (behindArm atThumb : Word) (c : Cpu) : Cpu :=
  let c := saveReturn c
  let c := c.on (Arm.andImm 0 0 0b100000#32)
  let c := c.on (Arm.cmp 0 0b100000#32)
  if c.arm.eq then
    let c := c.pop 0
    let c := c.on (Arm.mrsCpsr 0)
    let c := c.on (Arm.orr 0 0 0b100000#32)
    let c := c.on (Arm.msrSpsr 0)
    let c := c.pop 0
    let c := c.ldr 14 ((text.half (c.arm.get 14 - 2#32)).setWidth 32)
    let c := c.str 14 (fun w v => { w with swiInstThumb := v })
    let c := c.ldr 14 atThumb
    c.ldr 15 0x8#32
  else
    let c := c.pop 0
    let c := c.on (Arm.mrsCpsr 0)
    let c := c.on (Arm.msrSpsr 0)
    let c := c.pop 0
    let c := c.ldr 14 (text.word (c.arm.get 14 - 4#32))
    let c := c.str 14 (fun w v => { w with swiInstArm := v })
    let c := c.ldr 14 behindArm
    c.ldr 15 0x8#32

/-- Is the second place in use? Its lr is loaded. -/
def testSecond (c : Cpu) : Cpu :=
  let c := c.ldr 14 c.words.savedLr2
  let c := c.on (Arm.cmp 14 0#32)
  c.ldr 0 0#32

/-- The part of `delegate_end` that finds lr and spsr, and clears the words they were in. -/
def restoreReturn (c : Cpu) : Cpu :=
  let c := testSecond c
  -- none of the conditional instructions sets the flags
  let c :=
    if c.arm.eq then c
    else
      let c := c.str 0 (fun w v => { w with savedLr2 := v })
      let c := c.ldr 0 c.words.savedSpsr2
      let c := c.on (Arm.msrSpsr 0)
      let c := c.ldr 0 0#32
      c.str 0 (fun w v => { w with savedSpsr2 := v })
  if c.arm.eq then
    let c := c.ldr 14 c.words.savedLr1
    let c := c.str 0 (fun w v => { w with savedLr1 := v })
    let c := c.ldr 0 c.words.savedSpsr1
    let c := c.on (Arm.msrSpsr 0)
    let c := c.ldr 0 0#32
    c.str 0 (fun w v => { w with savedSpsr1 := v })
  else c

/-- The part of `delegate_end` that puts the I bit of the cpsr into the spsr. -/
def carryIrqBit (c : Cpu) : Cpu :=
  let c := c.push 1
  let c := c.on (Arm.mrsCpsr 0)
  let c := c.on (Arm.mrsSpsr 1)
  let c := c.on (Arm.andImm 0 0 0x80#32)
  let c := c.on (Arm.bic 1 1 0x80#32)
  let c := c.on (fun m => m.orr 1 1 (m.get 0))
  let c := c.on (Arm.msrSpsr 1)
  c.pop 1

/-- `delegate_end` -/
def delegateEnd (c : Cpu) : Cpu :=
  let c := c.push 0
  let c := restoreReturn c
  let c := carryIrqBit c
  countedReturn c

/-! ## The count -/

namespace Words

/-- One more system call in progress. -/
def entered (w : Words) : Words := { w with syscallInProgress := w.syscallInProgress + 1#32 }

/-- One less. -/
def left (w : Words) : Words := { w with syscallInProgress := w.syscallInProgress - 1#32 }

end Words

namespace Cpu

variable (c : Cpu) (n : Nat) (v : Word)

@[simp] theorem words_on (f : Arm → Arm) : (c.on f).words = c.words := rfl

@[simp] theorem words_ldr : (c.ldr n v).words = c.words := rfl

@[simp] theorem words_push : (c.push n).words = c.words := rfl

@[simp] theorem words_pop : (c.pop n).words = c.words := rfl

@[simp] theorem words_str (put : Words → Word → Words) :
    (c.str n put).words = put c.words (c.arm.get n) := rfl

@[simp] theorem arm_on (f : Arm → Arm) : (c.on f).arm = f c.arm := rfl

@[simp] theorem arm_ldr : (c.ldr n v).arm = c.arm.set n v := rfl

@[simp] theorem arm_str (put : Words → Word → Words) : (c.str n put).arm = c.arm := rfl

@[simp] theorem arm_push : (c.push n).arm = c.arm.set 13 (c.arm.get 13 - 4#32) := rfl

@[simp] theorem arm_pop : (c.pop n).arm
    = (c.arm.set 13 (c.arm.get 13 + 4#32)).set n (c.stack (c.arm.get 13)) := rfl

@[simp] theorem words_pushAll (ns : List Nat) : (c.pushAll ns).words = c.words := by
  induction ns with
  | nil => rfl
  | cons n ns ih => exact ih

@[simp] theorem words_popAll (ns : List Nat) : (c.popAll ns).words = c.words := by
  induction ns generalizing c with
  | nil => rfl
  | cons n ns ih => exact ih (c.pop n)

end Cpu

theorem words_pushRegs (c : Cpu) : (pushRegs c).words = c.words := by
  -- the kernel would run the pushes one by one to check a simp
  rw [pushRegs, Cpu.words_on, Cpu.words_pushAll, Cpu.words_push, Cpu.words_on, Cpu.words_push]

theorem words_testSpsr (mask v : Word) (c : Cpu) : (testSpsr mask v c).words = c.words := rfl

theorem words_countCall (c : Cpu) : (countCall c).words = c.words.entered := by
  simp [countCall, Arm.addImm, Arm.get_set_self, Words.entered]

theorem words_thumbSyscall (text : Text) (c : Cpu) : (thumbSyscall text c).cpu.words = c.words := by
  unfold thumbSyscall
  dsimp only
  split
  · exact words_pushRegs _
  · rfl

theorem words_loadNumber (text : Text) (c : Cpu) : (loadNumber text c).words = c.words := rfl

theorem words_armSvc (text : Text) (c : Cpu) : (armSvc text c).cpu.words = c.words := by
  unfold armSvc
  dsimp only
  split
  · rw [Entered.cpu, Cpu.words_pop, Cpu.words_on, words_loadNumber]
  · rw [Entered.cpu, Cpu.words_on, Cpu.words_pushAll, Cpu.words_push, Cpu.words_on, Cpu.words_on,
      Cpu.words_on, words_loadNumber]

/-- **Every call is counted on entry.** -/
theorem words_swiWrapper (text : Text) (c : Cpu) :
    (swiWrapper text c).cpu.words = c.words.entered := by
  rw [← words_countCall]
  unfold swiWrapper
  dsimp only
  split
  · rw [words_thumbSyscall, words_testSpsr]
  · split
    · exact words_pushRegs _
    · rw [words_armSvc, words_testSpsr, words_testSpsr]

theorem words_countedReturn (c : Cpu) : (countedReturn c).words = c.words.left := by
  simp [countedReturn, Arm.subImm, Arm.get_set_self, Words.left]

theorem words_popPsrs (n : Nat) (c : Cpu) : (popPsrs n c).words = c.words := rfl

/-- **OSExt's own calls are taken off the count** when their handler returns. -/
theorem words_svcReturn (c : Cpu) : (svcReturn c).words = c.words.left := by
  rw [svcReturn, words_countedReturn, words_popPsrs, Cpu.words_popAll]

theorem words_usrReturn (c : Cpu) : (usrReturn c).words = c.words.left := by
  rw [usrReturn, words_countedReturn, words_popPsrs, Cpu.words_popAll]

end OSExt.Exceptions
