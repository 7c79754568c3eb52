import OSExt.Scheduling.Scheduler

/-!
# The FIQ wrapper around a timeslice tick

`fiq.c`: on entry `fiq_wrapper` resets the FIQ stack and pushes r0-r7, r14 and
then the cpsr; `fiq_handler` gets a pointer to that frame. If the handler
returns, the frame is popped and the interrupted code goes on.
-/

namespace OSExt.Exceptions

open Lib Scheduling

/-- The pushes of `fiq_wrapper`: the frame by index, lowest address first. -/
def fiqEntry (stackReset : Word) (m : Arm) : (Nat → Word) × Arm :=
  let m := m.set 13 stackReset
  let pushed := fun i => if i = 8 then m.get 14 else m.get i
  let m := m.mrsCpsr 0
  (fun i => if i = 0 then m.get 0 else pushed (i - 1), m)

/-- The pops of `fiq_wrapper` and `subs pc, lr, #4`. -/
def fiqExit (frame : Nat → Word) (m : Arm) : Arm :=
  let m := m.set 0 (frame 0)
  let m := m.msrCpsr 0
  let m := m.set 0 (frame 1)
  let m := m.set 1 (frame 2)
  let m := m.set 2 (frame 3)
  let m := m.set 3 (frame 4)
  let m := m.set 4 (frame 5)
  let m := m.set 5 (frame 6)
  let m := m.set 6 (frame 7)
  let m := m.set 7 (frame 8)
  let m := m.set 14 (frame 9)
  m.subsPcLr4

/-- What `fiq_handler` reads of the machine besides the scheduler. -/
structure FiqStatus where
  /-- `timer_irq_status(SCHEDULER_TIMER)` on an FIQ from the first timer -/
  scheduler : Bool
  /-- `__syscall_in_progress` -/
  syscallInProgress : Nat

/-- The scheduler's part of `fiq_handler`'s branch for the first timer. -/
def fiqHandlerTick (status : FiqStatus) (fuel task : Nat) (code : Compiled) (frame : Nat → Word)
    (m : Arm) (s : Scheduler) : Outcome :=
  if status.scheduler && s.runningKernelThread != 0 && status.syscallInProgress == 0 then
    scheduleKernelThread fuel task code frame m s
  else .returned m s

/-- The frame the handler finds, for an interrupted machine. -/
def tickFrame (stackReset vector : Word) (m : Arm) : Nat → Word :=
  (fiqEntry stackReset (m.takeFiq vector)).1

/-- An FIQ that interrupts `m`, up to where the handler returns or resumes a thread. -/
def schedulerFiq (status : FiqStatus) (fuel task : Nat) (code : Compiled)
    (stackReset vector : Word) (m : Arm) (s : Scheduler) : Outcome :=
  fiqHandlerTick status fuel task code (tickFrame stackReset vector m)
    (fiqEntry stackReset (m.takeFiq vector)).2 s

end OSExt.Exceptions
