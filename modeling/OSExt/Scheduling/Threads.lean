import OSExt.Scheduling.Scheduler

/-!
# The life of a kernel thread

Creating and destroying threads, entering them into the ring and taking them out,
waiting for another thread, and turning scheduling on and off: the rest of
`scheduler.c` and `thread.c`, and the system calls in `thread-syscalls.c`.

`request_svc_thread` answers an address of its own choice, here an argument; which
thread objects are requested and not freed, and which were destroyed, is kept in a
ghost. Freeing an object does not touch its contents.
-/

namespace OSExt.Scheduling

open Lib

/-- Ghost: the thread objects in use, and the arguments of `destroy_svc_thread` so
far, latest first. -/
structure Objects where
  live : List Nat
  destroyed : List Nat
deriving DecidableEq

def Objects.request (o : Objects) (t : Nat) : Objects := { o with live := t :: o.live }

/-- `t->next = u` -/
def Scheduler.setNext (s : Scheduler) (t u : Nat) : Scheduler :=
  s.setThread t { s.thread t with next := u }

/-! ## Threads -/

/-- `create_svc_thread`, with `t` the object requested. `destroySelf` is the address of
`scheduler_svc_thread_destroy_self`, where a thread goes when it returns. -/
def createSvcThread (destroySelf stack stacksize entry : Word) (t : Nat) (s : Scheduler) :
    Scheduler :=
  s.setThread t
    { regs := fun i =>
        if i = 13 then ((stack &&& ~~~0b111#32) - 0b1000#32) + stacksize
        else if i = 14 then destroySelf
        else if i = 16 then 0b10010011#32
        else if i = 15 then entry
        else 0
      main := false
      status := .runnable
      waiting := 0
      statusData := 0
      next := 0 }

/-- `destroy_svc_thread` -/
def destroySvcThread (t : Nat) (o : Objects) : Objects :=
  { live := o.live.erase t, destroyed := t :: o.destroyed }

/-! ## Scheduling on and off -/

/-- `scheduler_enable_kernel_thread_scheduling`, with `t` the object for the main thread. -/
def schedulerEnableKernelThreadScheduling (destroySelf : Word) (task t : Nat) (s : Scheduler)
    (o : Objects) : Scheduler × Objects :=
  if s.runningKernelThread ≠ 0 then (s, o)
  else
    let s := { s with nucGuiTask := task }
    let s := createSvcThread destroySelf 0 (1024 * 128) 0 t s
    let s := s.setThread t { s.thread t with main := true }
    let s := s.setNext t t
    ({ s with runningKernelThread := t }, o.request t)

/-- The loop of `scheduler_disable_kernel_thread_scheduling`: the link of a thread is
read before it is destroyed. -/
def destroyLoop (stop : Nat) (s : Scheduler) : Nat → Nat → Objects → Option Objects
  | 0, _, _ => none
  | fuel + 1, t, o =>
    let tmp := s.next t
    let o := destroySvcThread t o
    if tmp = stop then some o else destroyLoop stop s fuel tmp o

def schedulerDisableKernelThreadScheduling (fuel : Nat) (s : Scheduler) (o : Objects) :
    Option (Scheduler × Objects) :=
  if s.runningKernelThread = 0 then some (s, o)
  else if (s.thread s.runningKernelThread).main = false then some (s, o)
  else (destroyLoop s.runningKernelThread s fuel s.runningKernelThread o).map fun o =>
    ({ s with runningKernelThread := 0 }, o)

/-! ## Waiting for a thread -/

/-- `t->status = SVC_THREAD_WAITING_FOR; t->status_data = wait_for` -/
def Scheduler.block (s : Scheduler) (t waitFor : Nat) : Scheduler :=
  s.setThread t { s.thread t with status := .waitingFor, statusData := waitFor }

/-- `scheduler_kernel_thread_wait_thread(t, wait_for, regs)`. -/
def schedulerKernelThreadWaitThread (fuel task : Nat) (swiReturn : Word) (t waitFor : Nat)
    (base : Word) (regs : Nat → Word) (m : Arm) (s : Scheduler) : Outcome :=
  if t = 0 ∨ waitFor = 0 ∨ s.runningKernelThread = 0 ∨ t = waitFor then .returned m s
  else if t = s.runningKernelThread then
    let s := s.block s.runningKernelThread waitFor
    let old := (s.thread s.runningKernelThread).regs
    let s := s.saveRegs (fun i => if i ≤ 16 then syscallGetReg base regs i else old i)
    scheduleKernelThreadCurrentSaved fuel task swiReturn m s
  else .returned m (s.block t waitFor)

/-! ## Into the ring and out of it -/

def schedulerAddKernelThread (t : Nat) (s : Scheduler) : Scheduler :=
  if t = 0 ∨ s.runningKernelThread = 0 then s
  else
    let s := s.setNext t (s.next s.runningKernelThread)
    s.setNext s.runningKernelThread t

/-- A thread that waits for `finished` is released. -/
def release (finished : Nat) (s : Scheduler) (t : Nat) : Scheduler :=
  if s.status t = .waitingFor ∧ (s.thread t).statusData = finished then
    s.setThread t { s.thread t with status := .runnable, statusData := 0 }
  else s

/-- The loop of `scheduler_svc_thread_destroy_self`: it stops at the thread before
`stop`, and releases all it passes. -/
def releaseLoop (stop : Nat) : Nat → Scheduler → Nat → Option (Nat × Scheduler)
  | 0, _, _ => none
  | fuel + 1, s, next =>
    if s.next next = stop then some (next, s)
    else
      let s := release stop s (s.next next)
      releaseLoop stop fuel s (s.next next)

/-- `scheduler_svc_thread_destroy_self` -/
def schedulerSvcThreadDestroySelf (fuel task : Nat) (swiReturn : Word) (m : Arm) (s : Scheduler)
    (o : Objects) : Outcome × Objects :=
  if s.runningKernelThread = 0 ∨ (s.thread s.runningKernelThread).main = true
      ∨ s.next s.runningKernelThread = s.runningKernelThread then (.returned m s, o)
  else
    match releaseLoop s.runningKernelThread fuel s s.runningKernelThread with
    | none => (.outOfFuel, o)
    | some (last, s) =>
      let s := s.setNext last (s.next s.runningKernelThread)
      let this := s.runningKernelThread
      let s := { s with runningKernelThread := s.next s.runningKernelThread }
      let o := destroySvcThread this o
      -- the registers are not saved, the thread is dead
      (scheduleKernelThreadCurrentSaved fuel task swiReturn m s, o)

/-- The search of `scheduler_remove_kernel_thread` for the thread before `t`; behind it
`t` is taken out and those waiting for it are released, in at most `rounds` rounds. -/
def removeLoop (rounds t : Nat) : Nat → Scheduler → Objects → Nat → Option (Scheduler × Objects)
  | 0, _, _, _ => none
  | fuel + 1, s, o, next =>
    if s.next next = t then
      let s := s.setNext next (s.next t)
      let o := destroySvcThread t o
      (doWhile Scheduler.next s.runningKernelThread (updateBody (release t)) rounds s
        s.runningKernelThread).map
        (fun r => match r with
          | .inr s => (s, o))
    else if s.next next = s.runningKernelThread then some (s, o)
    else removeLoop rounds t fuel s o (s.next next)

/-- `scheduler_remove_kernel_thread` -/
def schedulerRemoveKernelThread (fuel task : Nat) (swiReturn : Word) (t : Nat) (m : Arm)
    (s : Scheduler) (o : Objects) : Outcome × Objects :=
  if t = 0 ∨ s.runningKernelThread = 0 ∨ (s.thread t).main = true then (.returned m s, o)
  else if t = s.runningKernelThread then schedulerSvcThreadDestroySelf fuel task swiReturn m s o
  else
    match removeLoop fuel t fuel s o s.runningKernelThread with
    | none => (.outOfFuel, o)
    | some (s, o) => (.returned m s, o)

/-! ## The system calls -/

/-- `syscall_kernel_thread_create`, given the three registers and the object requested:
what is left in r0. -/
def syscallKernelThreadCreate (destroySelf r0 r1 r2 : Word) (t : Nat) (s : Scheduler)
    (o : Objects) : Word × Scheduler × Objects :=
  if r0 = 0 ∨ r1 = 0 ∨ r2 = 0 then (0, s, o)
  else
    let s := createSvcThread destroySelf r0 r1 r2 t s
    let s := schedulerAddKernelThread t s
    (BitVec.ofNat 32 t, s, o.request t)

/-- `syscall_kernel_thread_delete` -/
def syscallKernelThreadDelete (fuel task : Nat) (swiReturn base : Word) (regs : Nat → Word)
    (m : Arm) (s : Scheduler) (o : Objects) : Outcome × Objects :=
  if syscallGetReg base regs 0 = 0 then (.returned m s, o)
  else
    schedulerRemoveKernelThread fuel task swiReturn (syscallGetReg base regs 0).toNat m s o

/-- `syscall_kernel_thread_wait_millis` -/
def syscallKernelThreadWaitMillis (fuel task : Nat) (swiReturn base : Word) (regs : Nat → Word)
    (m : Arm) (s : Scheduler) : Outcome :=
  if syscallGetReg base regs 0 = 0 then .returned m s
  else
    schedulerKernelThreadWait fuel task swiReturn s.runningKernelThread (syscallGetReg base regs 0)
      base regs m s

/-- `syscall_kernel_thread_wait_for` -/
def syscallKernelThreadWaitFor (fuel task : Nat) (swiReturn base : Word) (regs : Nat → Word)
    (m : Arm) (s : Scheduler) : Outcome :=
  if syscallGetReg base regs 0 = 0 then .returned m s
  else
    schedulerKernelThreadWaitThread fuel task swiReturn s.runningKernelThread
      (syscallGetReg base regs 0).toNat base regs m s

end OSExt.Scheduling
