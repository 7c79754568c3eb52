import OSExt.Lib.Arm
import OSExt.Lib.Ring

/-!
# Kernel threads and their scheduler

`thread.c` and `scheduler.c`: the kernel threads form a circular list through
`next`, headed by `running_kernel_thread`. A timeslice tick arrives as an FIQ,
saves the interrupted context into the running thread and picks a thread to
resume; a thread may also give the processor up from a syscall.

The two asm blocks are kept instruction by instruction over the banked register
file; the array `regs[18]` of a thread and the word arrays the handlers push are
functions on their indices. `resume_svc_thread` does not return, so resuming a
thread ends the modelled call.
-/

namespace OSExt.Scheduling

open Lib

/-- `status`: `SVC_THREAD_RUNNABLE`, `SVC_THREAD_WAITING`, `SVC_THREAD_WAITING_FOR`. -/
inductive ThreadStatus where
  | runnable
  /-- waiting for scheduler ticks to pass -/
  | waiting
  /-- waiting for the thread in `status_data` to finish -/
  | waitingFor
deriving DecidableEq, Repr

/-- `struct svc_thread`: 16 registers, cpsr (16) and spsr (17), and the scheduling fields. -/
structure SvcThread where
  regs : Nat → Word
  /-- the original thread of the nucleus OS, which can't be killed -/
  main : Bool
  status : ThreadStatus
  /-- scheduler ticks to wait for, or 0 if not waiting -/
  waiting : Word
  statusData : Nat
  next : Nat

/-- The scheduler's variables, with the threads by address (0 is NULL). -/
structure Scheduler where
  thread : Nat → SvcThread
  runningKernelThread : Nat
  nucGuiTask : Nat
  /-- in milliseconds -/
  timesliceLength : Word
  /-- ghost: the arguments of the `msleep` calls so far, latest first -/
  slept : List Word

namespace Scheduler

def next (s : Scheduler) (t : Nat) : Nat := (s.thread t).next

def status (s : Scheduler) (t : Nat) : ThreadStatus := (s.thread t).status

def waiting (s : Scheduler) (t : Nat) : Word := (s.thread t).waiting

def setThread (s : Scheduler) (t : Nat) (v : SvcThread) : Scheduler :=
  { s with thread := Function.update s.thread t v }

/-- `t->status = RUNNABLE` and so on: the two scheduling fields written together. -/
def setStatus (s : Scheduler) (t : Nat) (st : ThreadStatus) (w : Word) : Scheduler :=
  s.setThread t { s.thread t with status := st, waiting := w }

/-- The running thread's register array is filled. -/
def saveRegs (s : Scheduler) (regs : Nat → Word) : Scheduler :=
  s.setThread s.runningKernelThread { s.thread s.runningKernelThread with regs := regs }

end Scheduler

/-- How a call of the scheduler ends. -/
inductive Outcome where
  /-- it returns to its caller -/
  | returned (m : Arm) (s : Scheduler)
  /-- `resume_svc_thread(t)` -/
  | resumed (m : Arm) (t : Nat) (s : Scheduler)
  | panicked (message : String) (s : Scheduler)
  /-- more loop iterations than the fuel allows -/
  | outOfFuel

/-! ## Saving and resuming a context -/

/-- `resume_svc_thread`, with the address of `regs` in r0. -/
def resumeSvcThread (base : Word) (regs : Nat → Word) (m : Arm) : Arm :=
  let m := m.set 0 base
  let m := m.mrsCpsr 1
  let m := m.bic 1 1 0b11111#32
  let m := m.orr 1 1 0b10011#32
  let m := m.msrCpsr 1
  let m := m.set 1 (regs 17)
  let m := m.msrSpsr 1
  let m := m.set 8 (regs 8)
  let m := m.set 9 (regs 9)
  let m := m.set 10 (regs 10)
  let m := m.set 11 (regs 11)
  let m := m.set 12 (regs 12)
  let m := m.set 13 (regs 13)
  let m := m.set 14 (regs 14)
  let m := m.mrsCpsr 1
  let m := m.bic 1 1 0b11111#32
  let m := m.orr 1 1 0b10001#32
  let m := m.msrCpsr 1
  -- from here r8 and up are the FIQ copies
  let m := m.mov 8 0
  let m := m.set 0 (regs 0)
  let m := m.set 1 (regs 1)
  let m := m.set 2 (regs 2)
  let m := m.set 3 (regs 3)
  let m := m.set 4 (regs 4)
  let m := m.set 5 (regs 5)
  let m := m.set 6 (regs 6)
  let m := m.set 7 (regs 7)
  let m := m.set 9 (regs 16)
  let m := m.msrSpsr 9
  let m := m.set 9 (regs 15)
  m.movsPc 9

/--
The part of `schedule_kernel_thread` that fills the running thread's `regs`: a
loop for r0-r7 out of the FIQ frame, the asm block for r8-r14 and the two psrs
(with the address of `regs+8` in r0), and the pc. The block computes an SVC cpsr in r1 but has no `msr cpsr, r1`.
-/
def saveContext (base : Word) (frame regs : Nat → Word) (m : Arm) : (Nat → Word) × Arm :=
  let regs := fun i => if i ≤ 7 then frame (i + 1) else regs i
  let m := m.set 0 base
  let m := m.mrsCpsr 1
  let m := m.mov 2 1
  let m := m.bic 1 1 31#32
  let m := m.orr 1 1 0b10011#32
  let regs := Function.update regs 8 (m.get 8)
  let regs := Function.update regs 9 (m.get 9)
  let regs := Function.update regs 10 (m.get 10)
  let regs := Function.update regs 11 (m.get 11)
  let regs := Function.update regs 12 (m.get 12)
  let regs := Function.update regs 13 (m.get 13)
  let regs := Function.update regs 14 (m.get 14)
  let m := m.mrsSpsr 3
  let regs := Function.update regs 17 (m.get 3)
  let m := m.msrCpsr 2
  let m := m.mrsSpsr 2
  let regs := Function.update regs 16 (m.get 2)
  (Function.update regs 15 (frame 9 - 4#32), m)

/-! ## The loops over the ring -/

/-- A loop body that only updates the threads. -/
def updateBody (f : Scheduler → Nat → Scheduler) (s : Scheduler) (t : Nat) :
    Empty ⊕ Scheduler := .inr (f s t)

/-- One thread's share of the tick accounting in `schedule_kernel_thread`. -/
def tickThread (s : Scheduler) (t : Nat) : Scheduler :=
  if s.status t = .waiting then
    if s.waiting t = 0 then s.setStatus t .runnable (s.waiting t)
    else if s.waiting t - 1 = 0 then s.setStatus t .runnable (s.waiting t - 1)
    else s.setStatus t .waiting (s.waiting t - 1)
  else s

/-- One thread's share of the accounting after sleeping for `minWait` ticks. -/
def wakeThread (minWait : Word) (s : Scheduler) (t : Nat) : Scheduler :=
  if s.status t = .waiting then
    if s.waiting t ≤ minWait then s.setStatus t .runnable 0
    else s.setStatus t .waiting (s.waiting t - minWait)
  else s

/-- One thread's share of the search for the shortest wait. -/
def minWaitThread (s : Scheduler) (best : Word × Nat) (t : Nat) : Word × Nat :=
  if s.status t = .waiting then
    if s.waiting t < best.1 then (s.waiting t, t)
    else if s.waiting t = best.1 ∧ t ≠ s.runningKernelThread then (best.1, t)
    else best
  else best

/-- `do … while (next != running_kernel_thread)`, leaving at the first thread that passes. -/
def findInRing (fuel : Nat) (s : Scheduler) (test : Nat → Bool) : Option (Option Nat) :=
  (doWhile Scheduler.next s.runningKernelThread
    (fun s t => if test t then .inl t else .inr s) fuel s s.runningKernelThread).map
    (fun r => match r with
      | .inl t => some t
      | .inr _ => none)

/-- The search for the shortest wait, as a loop that carries the best so far. -/
def minWaitLoop (fuel : Nat) (s : Scheduler) : Option (Word × Nat) :=
  (doWhile (fun (_ : Word × Nat) t => s.next t) s.runningKernelThread
    (fun best t => (.inr (minWaitThread s best t) : Empty ⊕ (Word × Nat))) fuel
    (0xffffffff#32, 0) s.runningKernelThread).map
    (fun r => match r with
      | .inr best => best)

/-- The update loop after the sleep. -/
def wakeLoop (fuel : Nat) (minWait : Word) (s : Scheduler) : Option Scheduler :=
  (doWhile Scheduler.next s.runningKernelThread (updateBody (wakeThread minWait)) fuel s
    s.runningKernelThread).map
    (fun r => match r with
      | .inr s => s)

/-- The update loop of `schedule_kernel_thread`: `while (next != running_kernel_thread)`. -/
def tickLoop (fuel : Nat) (s : Scheduler) : Option Scheduler :=
  (whileNe Scheduler.next s.runningKernelThread (updateBody tickThread) fuel s
    s.runningKernelThread).map
    (fun r => match r with
      | .inr s => s)

/-! ## Scheduling -/

/-- `running_kernel_thread = t; resume_svc_thread(t);` -/
def resume (m : Arm) (s : Scheduler) (t : Nat) : Outcome :=
  .resumed (resumeSvcThread (BitVec.ofNat 32 t) (s.thread t).regs m) t
    { s with runningKernelThread := t }

/--
`schedule_kernel_thread_current_saved`. `task` is what the OS answers to
`TCC_Current_Task_Pointer`, whose `swi` returns to `swiReturn`.
-/
def scheduleKernelThreadCurrentSaved (fuel : Nat) (task : Nat) (swiReturn : Word) (m : Arm)
    (s : Scheduler) : Outcome :=
  if s.runningKernelThread = 0 then .returned m s
  else
    let m := m.swi swiReturn (BitVec.ofNat 32 task)
    if task ≠ s.nucGuiTask then .returned m s
    else
      match findInRing fuel s (fun t => s.status t == .runnable) with
      | none => .outOfFuel
      | some (some t) => resume m s t
      | some none =>
        let allBlocked :=
          if s.status s.runningKernelThread = .waiting then some false
          else (findInRing fuel s (fun t => s.status t == .waiting)).map Option.isNone
        match allBlocked with
        | none => .outOfFuel
        | some true =>
          match findInRing fuel s (fun t => (s.thread t).main) with
          | none => .outOfFuel
          | some (some t) => resume m s t
          | some none => .panicked "deadlock and no main thread to return to!n" s
        | some false =>
          match minWaitLoop fuel s with
          | none => .outOfFuel
          | some (minWait, minWaitThread) =>
            if minWaitThread = 0 then
              .panicked "could not find a kernel thread to wait for!\n" s
            else
              let s := { s with slept := minWait * s.timesliceLength :: s.slept }
              match wakeLoop fuel minWait s with
              | none => .outOfFuel
              | some s => resume m s minWaitThread

/-- `syscall_get_reg`: where `swi_wrapper` pushed a register, with the array at `base`. -/
def syscallGetReg (base : Word) (regs : Nat → Word) (reg : Nat) : Word :=
  if 1 < reg ∧ reg < 13 then regs (reg - 2)
  else if reg = 1 then regs 13
  else if reg = 0 then regs 15
  else if reg = 15 then regs 11
  else if reg = 13 then base + 64#32
  else if reg = 16 then regs 12
  else 0

/-- `scheduler_kernel_thread_wait(t, millis, regs)`. -/
def schedulerKernelThreadWait (fuel task : Nat) (swiReturn : Word) (t : Nat) (millis : Word)
    (base : Word) (regs : Nat → Word) (m : Arm) (s : Scheduler) : Outcome :=
  if t = 0 ∨ s.runningKernelThread = 0 then .returned m s
  else
    let ticks := millis / s.timesliceLength
    if ticks = 0 then .returned m s
    else if t = s.runningKernelThread then
      -- `schedule_kernel_thread` will subtract one tick
      let ticks := ticks + 1
      if s.next s.runningKernelThread = s.runningKernelThread then
        .returned m { s with slept := millis :: s.slept }
      else
        let s := s.setStatus s.runningKernelThread .waiting ticks
        let old := (s.thread s.runningKernelThread).regs
        let s := s.saveRegs (fun i => if i ≤ 16 then syscallGetReg base regs i else old i)
        scheduleKernelThreadCurrentSaved fuel task swiReturn m s
    else .returned m (s.setStatus t .waiting ticks)

/--
Where the compiled code of the FIQ handler leaves registers that the handler's
source does not fix: at the first `swi` and at the asm block that saves.
-/
structure Compiled where
  /-- up to the `swi` of `TCC_Current_Task_Pointer` in `schedule_kernel_thread` -/
  atSwi : Arm.Scratch
  /-- the return address of that `swi` -/
  swiReturn : Word
  /-- from there to the asm block that saves the context -/
  atSave : Arm.Scratch

/-- `schedule_kernel_thread(regs)`, run in FIQ mode with `frame` the array `regs` points to. -/
def scheduleKernelThread (fuel : Nat) (task : Nat) (code : Compiled) (frame : Nat → Word)
    (m : Arm) (s : Scheduler) : Outcome :=
  if s.runningKernelThread = 0 then .returned m s
  else
    let m := (m.scratch code.atSwi).swi code.swiReturn (BitVec.ofNat 32 task)
    if task ≠ s.nucGuiTask then .returned m s
    else if s.next s.runningKernelThread = s.runningKernelThread then .returned m s
    else
      let spsr := m.spsr m.bank
      if Bank.ofPsr spsr ≠ .svc then .returned m s
      else
        match tickLoop fuel s with
        | none => .outOfFuel
        | some s =>
          let t := s.runningKernelThread
          let saved := saveContext (BitVec.ofNat 32 (t + 32)) frame (s.thread t).regs
            (m.scratch code.atSave)
          scheduleKernelThreadCurrentSaved fuel task code.swiReturn saved.2 (s.saveRegs saved.1)

end OSExt.Scheduling
