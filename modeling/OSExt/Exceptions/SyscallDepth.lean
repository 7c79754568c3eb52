import OSExt.Exceptions.Delegation
import OSExt.Exceptions.Fiq
import OSExt.Scheduling.ThreadLoops

/-!
# The count of system calls in progress

A handler that means to switch to another thread does not come back to the wrapper, so
it takes its call off the count itself, with `syscall_mark_as_finished`, before it
calls the scheduler. But the scheduler may return: if the OS reports another task, or
if there is no other thread. Then the wrapper takes the call off the count once more.

A run is any order of calls entering and returning, handlers, ends of threads and
timeslice ticks. Which calls are in progress is a ghost.
-/

namespace OSExt.Exceptions

open Lib Scheduling

/-! ## The handlers that mark their call as finished -/

/-- `syscall_mark_as_finished` -/
def syscallMarkAsFinished (w : Words) : Words := w.left

namespace Counted

/-- `schedule_kernel_thread_current_saved`: the `swi` that asks for the current task is
delegated, and returns. -/
def scheduleKernelThreadCurrentSaved (fuel task : Nat) (swiReturn : Word) (m : Arm)
    (s : Scheduler) (w : Words) : Outcome × Words :=
  (Scheduling.scheduleKernelThreadCurrentSaved fuel task swiReturn m s,
    if s.runningKernelThread = 0 then w else w.entered.left)

/-- `scheduler_kernel_thread_wait`, with the count. -/
def schedulerKernelThreadWait (fuel task : Nat) (swiReturn : Word) (t : Nat) (millis : Word)
    (base : Word) (regs : Nat → Word) (m : Arm) (s : Scheduler) (w : Words) : Outcome × Words :=
  if t = 0 ∨ s.runningKernelThread = 0 then (.returned m s, w)
  else
    let ticks := millis / s.timesliceLength
    if ticks = 0 then (.returned m s, w)
    else if t = s.runningKernelThread then
      let ticks := ticks + 1
      if s.next s.runningKernelThread = s.runningKernelThread then
        (.returned m { s with slept := millis :: s.slept }, w)
      else
        let s := s.setStatus s.runningKernelThread .waiting ticks
        let old := (s.thread s.runningKernelThread).regs
        let s := s.saveRegs (fun i => if i ≤ 16 then syscallGetReg base regs i else old i)
        let w := syscallMarkAsFinished w
        scheduleKernelThreadCurrentSaved fuel task swiReturn m s w
    else (.returned m (s.setStatus t .waiting ticks), w)

/-- `scheduler_kernel_thread_wait_thread`, with the count. -/
def schedulerKernelThreadWaitThread (fuel task : Nat) (swiReturn : Word) (t waitFor : Nat)
    (base : Word) (regs : Nat → Word) (m : Arm) (s : Scheduler) (w : Words) : Outcome × Words :=
  if t = 0 ∨ waitFor = 0 ∨ s.runningKernelThread = 0 ∨ t = waitFor then (.returned m s, w)
  else if t = s.runningKernelThread then
    let s := s.block s.runningKernelThread waitFor
    let old := (s.thread s.runningKernelThread).regs
    let s := s.saveRegs (fun i => if i ≤ 16 then syscallGetReg base regs i else old i)
    let w := syscallMarkAsFinished w
    scheduleKernelThreadCurrentSaved fuel task swiReturn m s w
  else (.returned m (s.block t waitFor), w)

/-- `scheduler_svc_thread_destroy_self`, with the count. -/
def schedulerSvcThreadDestroySelf (fuel task : Nat) (swiReturn : Word) (m : Arm) (s : Scheduler)
    (o : Objects) (w : Words) : (Outcome × Objects) × Words :=
  if s.runningKernelThread = 0 ∨ (s.thread s.runningKernelThread).main = true
      ∨ s.next s.runningKernelThread = s.runningKernelThread then ((.returned m s, o), w)
  else
    match releaseLoop s.runningKernelThread fuel s s.runningKernelThread with
    | none => ((.outOfFuel, o), w)
    | some (last, s) =>
      let s := s.setNext last (s.next s.runningKernelThread)
      let this := s.runningKernelThread
      let s := { s with runningKernelThread := s.next s.runningKernelThread }
      let o := destroySvcThread this o
      let r := scheduleKernelThreadCurrentSaved fuel task swiReturn m s w
      ((r.1, o), r.2)

/-- `scheduler_remove_kernel_thread`, with the count. -/
def schedulerRemoveKernelThread (fuel task : Nat) (swiReturn : Word) (t : Nat) (m : Arm)
    (s : Scheduler) (o : Objects) (w : Words) : (Outcome × Objects) × Words :=
  if t = 0 ∨ s.runningKernelThread = 0 ∨ (s.thread t).main = true then ((.returned m s, o), w)
  else if t = s.runningKernelThread then
    let w := syscallMarkAsFinished w
    schedulerSvcThreadDestroySelf fuel task swiReturn m s o w
  else
    match removeLoop fuel t fuel s o s.runningKernelThread with
    | none => ((.outOfFuel, o), w)
    | some (s, o) => ((.returned m s, o), w)

/-- `syscall_kernel_thread_wait_millis`, with the count. -/
def syscallKernelThreadWaitMillis (fuel task : Nat) (swiReturn base : Word) (regs : Nat → Word)
    (m : Arm) (s : Scheduler) (w : Words) : Outcome × Words :=
  if syscallGetReg base regs 0 = 0 then (.returned m s, w)
  else
    schedulerKernelThreadWait fuel task swiReturn s.runningKernelThread (syscallGetReg base regs 0)
      base regs m s w

/-- `syscall_kernel_thread_wait_for`, with the count. -/
def syscallKernelThreadWaitFor (fuel task : Nat) (swiReturn base : Word) (regs : Nat → Word)
    (m : Arm) (s : Scheduler) (w : Words) : Outcome × Words :=
  if syscallGetReg base regs 0 = 0 then (.returned m s, w)
  else
    schedulerKernelThreadWaitThread fuel task swiReturn s.runningKernelThread
      (syscallGetReg base regs 0).toNat base regs m s w

/-- `syscall_kernel_thread_delete`, with the count. -/
def syscallKernelThreadDelete (fuel task : Nat) (swiReturn base : Word) (regs : Nat → Word)
    (m : Arm) (s : Scheduler) (o : Objects) (w : Words) : (Outcome × Objects) × Words :=
  if syscallGetReg base regs 0 = 0 then ((.returned m s, o), w)
  else
    schedulerRemoveKernelThread fuel task swiReturn (syscallGetReg base regs 0).toNat m s o w

/-! The count changes nothing about the scheduler. -/

variable (fuel task : Nat) (swiReturn base : Word) (regs : Nat → Word) (m : Arm) (s : Scheduler)
  (o : Objects) (w : Words)

theorem fst_syscallKernelThreadWaitMillis :
    (syscallKernelThreadWaitMillis fuel task swiReturn base regs m s w).1
      = Scheduling.syscallKernelThreadWaitMillis fuel task swiReturn base regs m s := by
  unfold syscallKernelThreadWaitMillis Scheduling.syscallKernelThreadWaitMillis
    schedulerKernelThreadWait Scheduling.schedulerKernelThreadWait
    scheduleKernelThreadCurrentSaved
  dsimp only
  repeat' split
  all_goals rfl

theorem fst_syscallKernelThreadWaitFor :
    (syscallKernelThreadWaitFor fuel task swiReturn base regs m s w).1
      = Scheduling.syscallKernelThreadWaitFor fuel task swiReturn base regs m s := by
  unfold syscallKernelThreadWaitFor Scheduling.syscallKernelThreadWaitFor
    schedulerKernelThreadWaitThread Scheduling.schedulerKernelThreadWaitThread
    scheduleKernelThreadCurrentSaved
  dsimp only
  repeat' split
  all_goals rfl

theorem fst_schedulerSvcThreadDestroySelf :
    (schedulerSvcThreadDestroySelf fuel task swiReturn m s o w).1
      = Scheduling.schedulerSvcThreadDestroySelf fuel task swiReturn m s o := by
  unfold schedulerSvcThreadDestroySelf Scheduling.schedulerSvcThreadDestroySelf
    scheduleKernelThreadCurrentSaved
  split
  · rfl
  · cases releaseLoop s.runningKernelThread fuel s s.runningKernelThread with
    | none => rfl
    | some p => rfl

theorem fst_syscallKernelThreadDelete :
    (syscallKernelThreadDelete fuel task swiReturn base regs m s o w).1
      = Scheduling.syscallKernelThreadDelete fuel task swiReturn base regs m s o := by
  unfold syscallKernelThreadDelete Scheduling.syscallKernelThreadDelete
    schedulerRemoveKernelThread Scheduling.schedulerRemoveKernelThread
  split
  · rfl
  split
  · rfl
  split
  · exact fst_schedulerSvcThreadDestroySelf fuel task swiReturn m s o (syscallMarkAsFinished w)
  · cases removeLoop fuel (syscallGetReg base regs 0).toNat fuel s o s.runningKernelThread with
    | none => rfl
    | some p => rfl

end Counted

/-! ## Runs -/

/-- The words and the scheduler, and how many calls were entered and have neither
returned nor been abandoned for another thread (a ghost). -/
structure Depth where
  words : Words
  sched : Scheduler
  objects : Objects
  pending : Nat

/-- What a call of the scheduler from a handler finds. -/
structure Attempt where
  fuel : Nat
  /-- what `TCC_Current_Task_Pointer` answers, and where its `swi` returns to -/
  task : Nat
  swiReturn : Word
  /-- the registers pushed by the wrapper -/
  base : Word
  regs : Nat → Word
  arm : Arm

inductive DepthEvent where
  /-- a `swi` goes through `swi_wrapper`, and `real_delegate` if it is delegated -/
  | enter (text : Text) (behindArm atThumb : Word) (x : Syscall)
  /-- a handler comes back to the wrapper, from this machine -/
  | svcReturn (arm : Arm) (stack : Word → Word)
  | usrReturn (arm : Arm) (stack : Word → Word)
  | delegateEnd (arm : Arm) (stack : Word → Word)
  /-- the handlers that may switch to another thread -/
  | waitMillis (a : Attempt)
  | waitFor (a : Attempt)
  | delete (a : Attempt)
  /-- a thread that is not in a system call returns -/
  | threadReturns (a : Attempt)
  | tick (status : Bool) (fuel task : Nat) (code : Compiled) (frame : Nat → Word) (m : Arm)
  /-- anything else that happens to the threads -/
  | other (s : Scheduler) (o : Objects)

namespace Depth

/-- The scheduler after a call of it; after a panic nothing goes on. -/
def goesOn : Outcome → Option Scheduler
  | .returned _ s => some s
  | .resumed _ _ s => some s
  | _ => none

/-- A handler's call of the scheduler has come back or switched to another thread. -/
def settle (d : Depth) (o : Objects) (w : Words) : Outcome → Option Depth
  | .returned _ s => some { d with words := w, sched := s, objects := o }
  | .resumed _ _ s =>
    some { words := w, sched := s, objects := o, pending := d.pending - 1 }
  | _ => none

/-- A call returns by way of the wrapper. -/
def returns (d : Depth) (w : Words) : Option Depth :=
  if d.pending = 0 then none else some { d with words := w, pending := d.pending - 1 }

def step (d : Depth) : DepthEvent → Option Depth
  | .enter text behindArm atThumb x =>
    some { d with words := x.enter text behindArm atThumb d.words, pending := d.pending + 1 }
  | .svcReturn arm stack => d.returns (svcReturn ⟨arm, stack, d.words⟩).words
  | .usrReturn arm stack => d.returns (usrReturn ⟨arm, stack, d.words⟩).words
  | .delegateEnd arm stack => d.returns (delegateEnd ⟨arm, stack, d.words⟩).words
  | .waitMillis a =>
    if d.pending = 0 then none
    else
      let r := Counted.syscallKernelThreadWaitMillis a.fuel a.task a.swiReturn a.base a.regs
        a.arm d.sched d.words
      d.settle d.objects r.2 r.1
  | .waitFor a =>
    if d.pending = 0 then none
    else
      let r := Counted.syscallKernelThreadWaitFor a.fuel a.task a.swiReturn a.base a.regs
        a.arm d.sched d.words
      d.settle d.objects r.2 r.1
  | .delete a =>
    if d.pending = 0 then none
    else
      let r := Counted.syscallKernelThreadDelete a.fuel a.task a.swiReturn a.base a.regs
        a.arm d.sched d.objects d.words
      d.settle r.1.2 r.2 r.1.1
  | .threadReturns a =>
    let r := Counted.schedulerSvcThreadDestroySelf a.fuel a.task a.swiReturn a.arm d.sched
      d.objects d.words
    (goesOn r.1.1).map fun s => { d with words := r.2, sched := s, objects := r.1.2 }
  | .tick status fuel task code frame m =>
    let status := { scheduler := status, syscallInProgress := d.words.syscallInProgress.toNat }
    (goesOn (fiqHandlerTick status fuel task code frame m d.sched)).map fun s =>
      { d with sched := s }
  | .other s o => some { d with sched := s, objects := o }

/-- The count is the number of calls in progress. -/
def Counts (d : Depth) : Prop := d.words.syscallInProgress = BitVec.ofNat 32 d.pending

/-- The handler marks its call as finished before it calls the scheduler: the running
thread waits and there is another one, waits for another one, or deletes itself. -/
def Marks (d : Depth) : DepthEvent → Prop
  | .waitMillis a =>
    syscallGetReg a.base a.regs 0 ≠ 0 ∧ d.sched.runningKernelThread ≠ 0
      ∧ syscallGetReg a.base a.regs 0 / d.sched.timesliceLength ≠ 0
      ∧ d.sched.next d.sched.runningKernelThread ≠ d.sched.runningKernelThread
  | .waitFor a =>
    syscallGetReg a.base a.regs 0 ≠ 0 ∧ d.sched.runningKernelThread ≠ 0
      ∧ d.sched.runningKernelThread ≠ (syscallGetReg a.base a.regs 0).toNat
  | .delete a =>
    syscallGetReg a.base a.regs 0 ≠ 0 ∧ d.sched.runningKernelThread ≠ 0
      ∧ (syscallGetReg a.base a.regs 0).toNat = d.sched.runningKernelThread
      ∧ (d.sched.thread d.sched.runningKernelThread).main = false
  | _ => False

/-- The OS reports the gui task and, if the running thread deletes itself, another one
comes behind it. -/
def CanSwitch (d : Depth) : DepthEvent → Prop
  | .waitMillis a => a.task = d.sched.nucGuiTask
  | .waitFor a => a.task = d.sched.nucGuiTask
  | .delete a =>
    a.task = d.sched.nucGuiTask ∧ d.sched.next d.sched.runningKernelThread ≠ 0
      ∧ d.sched.next d.sched.runningKernelThread ≠ d.sched.runningKernelThread
  | _ => True

end Depth

/-- Consecutive events, with the state each found. -/
inductive DepthRun : Depth → List (Depth × DepthEvent) → Depth → Prop where
  | done (d : Depth) : DepthRun d [] d
  | step {d d' d'' : Depth} {e : DepthEvent} {es : List (Depth × DepthEvent)} :
      d.step e = some d' → DepthRun d' es d'' → DepthRun d ((d, e) :: es) d''

/-! ## When the scheduler returns -/

/-- The call came back to its caller. -/
def Returned : Outcome → Prop
  | .returned _ _ => True
  | _ => False

/-- The call switched to a thread. -/
def Resumed : Outcome → Prop
  | .resumed _ _ _ => True
  | _ => False

theorem not_returned_of_resumed {x : Outcome} (h : Resumed x) : ¬ Returned x := by
  cases x with
  | resumed m t s => exact id
  | _ => exact absurd h id

/-- The scheduler returns at its guards only. -/
theorem currentSaved_returned_iff (fuel task : Nat) (swiReturn : Word) (m : Arm) (s : Scheduler) :
    Returned (Scheduling.scheduleKernelThreadCurrentSaved fuel task swiReturn m s)
      ↔ s.runningKernelThread = 0 ∨ task ≠ s.nucGuiTask := by
  unfold Scheduling.scheduleKernelThreadCurrentSaved
  by_cases hrun : s.runningKernelThread = 0
  · rw [if_pos hrun]
    exact iff_of_true trivial (.inl hrun)
  by_cases htask : task = s.nucGuiTask
  · rw [if_neg hrun, if_neg (not_not.mpr htask)]
    refine iff_of_false ?_ (by simp [hrun, htask])
    dsimp only
    repeat' split
    all_goals exact id
  · rw [if_neg hrun, if_pos htask]
    exact iff_of_true trivial (.inr htask)

@[simp] theorem Words.left_entered (w : Words) : w.left.entered.left = w.left := by
  unfold Words.left Words.entered
  congr 1
  exact congrArg (· - 1#32) (BitVec.sub_add_cancel ..)

/-- What a handler does to the count, given whether it marks its call as finished and
whether the scheduler can switch then. -/
structure Marked (w : Words) (marks canSwitch : Prop) (x : Outcome) (w' : Words) : Prop where
  words : (marks ∧ w' = w.left) ∨ (¬ marks ∧ w' = w)
  returned : Returned x → ¬ (marks ∧ canSwitch)
  resumed : Resumed x → marks ∧ canSwitch

/-- A handler that comes back without marking. -/
theorem Marked.unmarked (w : Words) {marks : Prop} (canSwitch : Prop) (h : ¬ marks) (m : Arm)
    (s : Scheduler) : Marked w marks canSwitch (.returned m s) w :=
  ⟨.inr ⟨h, rfl⟩, fun _ h' => h h'.1, fun h' => absurd h' id⟩

/-- A handler that marks, and calls the scheduler. -/
theorem Marked.scheduled (w : Words) {marks canSwitch : Prop} (h : marks) (fuel task : Nat)
    (swiReturn : Word) (m : Arm) (s : Scheduler)
    (hcan : canSwitch ↔ s.runningKernelThread ≠ 0 ∧ task = s.nucGuiTask) :
    Marked w marks canSwitch
      (Counted.scheduleKernelThreadCurrentSaved fuel task swiReturn m s w.left).1
      (Counted.scheduleKernelThreadCurrentSaved fuel task swiReturn m s w.left).2 := by
  have hret := currentSaved_returned_iff fuel task swiReturn m s
  refine ⟨.inl ⟨h, ?_⟩, fun hx => ?_, fun hx => ⟨h, ?_⟩⟩
  · unfold Counted.scheduleKernelThreadCurrentSaved
    dsimp only
    split
    · rfl
    · rw [Words.left_entered]
  · intro hgiven
    obtain ⟨-, hc⟩ := hgiven
    obtain ⟨hrun, htask⟩ := hcan.mp hc
    exact (hret.mp hx).elim hrun fun hne => hne htask
  · by_contra hc
    refine not_returned_of_resumed hx (hret.mpr ?_)
    by_contra hguards
    exact hc (hcan.mpr (by simpa [not_or] using hguards))

theorem waitMillis_marked (d : Depth) (a : Attempt) :
    Marked d.words (d.Marks (.waitMillis a)) (d.CanSwitch (.waitMillis a))
      (Counted.syscallKernelThreadWaitMillis a.fuel a.task a.swiReturn a.base a.regs a.arm d.sched
        d.words).1
      (Counted.syscallKernelThreadWaitMillis a.fuel a.task a.swiReturn a.base a.regs a.arm d.sched
        d.words).2 := by
  unfold Counted.syscallKernelThreadWaitMillis Counted.schedulerKernelThreadWait
  by_cases h0 : syscallGetReg a.base a.regs 0 = 0
  · rw [if_pos h0]
    exact Marked.unmarked _ _ (fun h => h.1 h0) _ _
  by_cases hrun : d.sched.runningKernelThread = 0
  · rw [if_neg h0, if_pos (.inl hrun)]
    exact Marked.unmarked _ _ (fun h => h.2.1 hrun) _ _
  by_cases hticks : syscallGetReg a.base a.regs 0 / d.sched.timesliceLength = 0
  · rw [if_neg h0, if_neg (by simp [hrun])]
    simp only [hticks, if_true]
    exact Marked.unmarked _ _ (fun h => h.2.2.1 hticks) _ _
  by_cases hone : d.sched.next d.sched.runningKernelThread = d.sched.runningKernelThread
  · rw [if_neg h0, if_neg (by simp [hrun])]
    simp only [hticks, if_false, if_true, hone]
    exact Marked.unmarked _ _ (fun h => h.2.2.2 hone) _ _
  · rw [if_neg h0, if_neg (by simp [hrun])]
    simp only [hticks, if_false, if_true, hone]
    have hmarks : d.Marks (.waitMillis a) := ⟨h0, hrun, hticks, hone⟩
    exact Marked.scheduled _ hmarks _ _ _ _ _ ⟨fun h => ⟨hrun, h⟩, fun h => h.2⟩

theorem waitFor_marked (d : Depth) (a : Attempt) :
    Marked d.words (d.Marks (.waitFor a)) (d.CanSwitch (.waitFor a))
      (Counted.syscallKernelThreadWaitFor a.fuel a.task a.swiReturn a.base a.regs a.arm d.sched
        d.words).1
      (Counted.syscallKernelThreadWaitFor a.fuel a.task a.swiReturn a.base a.regs a.arm d.sched
        d.words).2 := by
  unfold Counted.syscallKernelThreadWaitFor Counted.schedulerKernelThreadWaitThread
  by_cases h0 : syscallGetReg a.base a.regs 0 = 0
  · rw [if_pos h0]
    exact Marked.unmarked _ _ (fun h => h.1 h0) _ _
  have h0' : (syscallGetReg a.base a.regs 0).toNat ≠ 0 := fun h =>
    h0 (BitVec.toNat_inj.mp h)
  by_cases hrun : d.sched.runningKernelThread = 0
  · rw [if_neg h0, if_pos (.inl hrun)]
    exact Marked.unmarked _ _ (fun h => h.2.1 hrun) _ _
  by_cases hself : d.sched.runningKernelThread = (syscallGetReg a.base a.regs 0).toNat
  · rw [if_neg h0, if_pos (.inr (.inr (.inr hself)))]
    exact Marked.unmarked _ _ (fun h => h.2.2 hself) _ _
  · rw [if_neg h0, if_neg (by simp [hrun, h0', hself]), if_pos rfl]
    have hmarks : d.Marks (.waitFor a) := ⟨h0, hrun, hself⟩
    exact Marked.scheduled _ hmarks _ _ _ _ _ ⟨fun h => ⟨hrun, h⟩, fun h => h.2⟩

/-- The release loop ends at a thread that points to `stop`, and changes no link. -/
theorem releaseLoop_stops (stop : Nat) : ∀ (fuel : Nat) (s : Scheduler) (x z : Nat)
    (s' : Scheduler), releaseLoop stop fuel s x = some (z, s') →
    s.next z = stop ∧ s'.next = s.next ∧ s'.runningKernelThread = s.runningKernelThread
      ∧ s'.nucGuiTask = s.nucGuiTask := by
  intro fuel
  induction fuel with
  | zero => exact fun s x z s' h => absurd h (by simp [releaseLoop])
  | succ fuel ih =>
      intro s x z s' h
      rw [releaseLoop] at h
      split at h
      · rename_i hstop
        obtain ⟨rfl, rfl⟩ := Prod.mk.inj (Option.some.inj h)
        exact ⟨hstop, rfl, rfl, rfl⟩
      · obtain ⟨h1, h2, h3, h4⟩ := ih _ _ _ _ h
        have hk := Keeps.release stop s (s.next x)
        rw [hk.next] at h1 h2
        have hrest : (release stop s (s.next x)).runningKernelThread = s.runningKernelThread
            ∧ (release stop s (s.next x)).nucGuiTask = s.nucGuiTask := by
          unfold release
          split <;> exact ⟨rfl, rfl⟩
        exact ⟨h1, h2, h3.trans hrest.1, h4.trans hrest.2⟩

theorem delete_marked (d : Depth) (a : Attempt) :
    Marked d.words (d.Marks (.delete a)) (d.CanSwitch (.delete a))
      (Counted.syscallKernelThreadDelete a.fuel a.task a.swiReturn a.base a.regs a.arm d.sched
        d.objects d.words).1.1
      (Counted.syscallKernelThreadDelete a.fuel a.task a.swiReturn a.base a.regs a.arm d.sched
        d.objects d.words).2 := by
  obtain ⟨t, ht⟩ : ∃ t, t = (syscallGetReg a.base a.regs 0).toNat := ⟨_, rfl⟩
  unfold Counted.syscallKernelThreadDelete Counted.schedulerRemoveKernelThread
  rw [← ht]
  by_cases h0 : syscallGetReg a.base a.regs 0 = 0
  · rw [if_pos h0]
    exact Marked.unmarked _ _ (fun h => h.1 h0) _ _
  have ht0 : t ≠ 0 := by
    rw [ht]
    exact fun h => h0 (BitVec.toNat_inj.mp h)
  rw [if_neg h0]
  by_cases hguard : t = 0 ∨ d.sched.runningKernelThread = 0 ∨ (d.sched.thread t).main = true
  · rw [if_pos hguard]
    refine Marked.unmarked _ _ (fun h => ?_) _ _
    obtain ⟨-, hrun, hself, hmain⟩ := h
    rw [← ht] at hself
    rcases hguard with hz | hz | hm
    · exact ht0 hz
    · exact hrun hz
    · rw [hself, hmain] at hm
      exact absurd hm (by simp)
  rw [if_neg hguard]
  obtain ⟨-, hrun, hmain⟩ : t ≠ 0 ∧ d.sched.runningKernelThread ≠ 0
      ∧ (d.sched.thread t).main ≠ true := by
    simpa [not_or] using hguard
  by_cases hself : t = d.sched.runningKernelThread
  · -- the running thread deletes itself
    have hmarks : d.Marks (.delete a) :=
      ⟨h0, hrun, ht.symm.trans hself, by rw [← hself]; simpa using hmain⟩
    rw [if_pos hself]
    unfold Counted.schedulerSvcThreadDestroySelf
    by_cases hone : d.sched.next d.sched.runningKernelThread = d.sched.runningKernelThread
    · rw [if_pos (.inr (.inr hone))]
      exact ⟨.inl ⟨hmarks, rfl⟩, fun _ h => h.2.2.2 hone, fun h => absurd h id⟩
    rw [hself] at hmain
    rw [if_neg (by simp [hrun, hone, hmain])]
    cases hloop : releaseLoop d.sched.runningKernelThread a.fuel d.sched
        d.sched.runningKernelThread with
    | none => exact ⟨.inl ⟨hmarks, rfl⟩, fun h => absurd h id, fun h => absurd h id⟩
    | some p =>
        obtain ⟨last, s1⟩ := p
        obtain ⟨hlast, hnext, hrun1, hgui⟩ := releaseLoop_stops _ _ _ _ _ _ hloop
        have hne : d.sched.runningKernelThread ≠ last := by
          intro he
          rw [← he] at hlast
          exact hone hlast
        -- the thread behind the running one runs next
        obtain ⟨s2, hs2⟩ : ∃ s2, s2 = s1.setNext last (s1.next s1.runningKernelThread) := ⟨_, rfl⟩
        have hrun2 : s2.next s2.runningKernelThread = d.sched.next d.sched.runningKernelThread := by
          have hr : s2.runningKernelThread = d.sched.runningKernelThread := by rw [hs2]; exact hrun1
          rw [hr, hs2, next_setNext, hnext, Function.update_of_ne hne]
        have hgui2 : s2.nucGuiTask = d.sched.nucGuiTask := by rw [hs2]; exact hgui
        dsimp only
        rw [← hs2]
        refine Marked.scheduled _ hmarks _ _ _ _ _ ?_
        show _ ↔ s2.next s2.runningKernelThread ≠ 0 ∧ a.task = s2.nucGuiTask
        rw [hrun2, hgui2]
        exact ⟨fun h => ⟨h.2.1, h.1⟩, fun h => ⟨h.2, h.1, hone⟩⟩
  · have hnot : ¬ d.Marks (.delete a) := fun h => hself (ht.trans h.2.2.1)
    rw [if_neg hself]
    cases removeLoop a.fuel t a.fuel d.sched d.objects d.sched.runningKernelThread with
    | none => exact ⟨.inr ⟨hnot, rfl⟩, fun h => absurd h id, fun h => absurd h id⟩
    | some p => exact Marked.unmarked _ _ hnot _ _

/-! ## One event -/

theorem count_save (lr spsr : Word) (w : Words) :
    (w.save lr spsr).syscallInProgress = w.syscallInProgress := by
  unfold Words.save
  split <;> rfl

theorem count_cleared (w : Words) : w.cleared.syscallInProgress = w.syscallInProgress := by
  unfold Words.cleared
  split <;> rfl

/-- Delegating a call leaves the count alone. -/
theorem count_realDelegate (text : Text) (behindArm atThumb : Word) (c : Cpu) :
    (realDelegate text behindArm atThumb c).words.syscallInProgress
      = c.words.syscallInProgress := by
  obtain ⟨c1, hc1⟩ : ∃ c1, c1 = saveReturn c := ⟨_, rfl⟩
  have hcount : c1.words.syscallInProgress = c.words.syscallInProgress := by
    rw [hc1, (saveReturn_saves c).2.2, count_save]
  unfold realDelegate
  rw [← hc1, ← hcount]
  dsimp only
  split <;> rfl

theorem count_enter (text : Text) (behindArm atThumb : Word) (x : Syscall) (w : Words) :
    (x.enter text behindArm atThumb w).syscallInProgress = w.syscallInProgress + 1#32 := by
  have hwrap := words_swiWrapper text { arm := x.trap, stack := x.trapStack, words := w }
  unfold Syscall.enter
  cases he : swiWrapper text { arm := x.trap, stack := x.trapStack, words := w } with
  | delegate c =>
      rw [he] at hwrap
      show (realDelegate text behindArm atThumb c).words.syscallInProgress = _
      rw [count_realDelegate]
      exact congrArg Words.syscallInProgress hwrap
  | svc c =>
      rw [he] at hwrap
      exact congrArg Words.syscallInProgress hwrap
  | usr c =>
      rw [he] at hwrap
      exact congrArg Words.syscallInProgress hwrap

namespace Depth

variable {d d' : Depth}

theorem counts_succ {w w' : Words} {n : Nat} (h : w.syscallInProgress = BitVec.ofNat 32 n)
    (hw : w'.syscallInProgress = w.syscallInProgress + 1#32) :
    w'.syscallInProgress = BitVec.ofNat 32 (n + 1) := by
  rw [hw, h, BitVec.ofNat_add]

/-- Taking one off at both is right, at one of them is wrong. -/
theorem count_left {w : Words} {n : Nat} (h : w.syscallInProgress = BitVec.ofNat 32 n)
    (hn : n ≠ 0) : w.left.syscallInProgress = BitVec.ofNat 32 (n - 1)
      ∧ w.left.syscallInProgress ≠ BitVec.ofNat 32 n := by
  obtain ⟨k, rfl⟩ : ∃ k, n = k + 1 := ⟨n - 1, by omega⟩
  have hleft : w.left.syscallInProgress = BitVec.ofNat 32 (k + 1) - 1#32 := by
    rw [← h]
    rfl
  rw [hleft, Nat.add_sub_cancel, BitVec.ofNat_add]
  refine ⟨BitVec.add_sub_cancel _ _, fun he => ?_⟩
  generalize BitVec.ofNat 32 k = v at he
  bv_omega

/-- A call that returns by way of the wrapper is taken off both. -/
theorem counts_returns {w : Words} (hc : d.Counts)
    (hw : w.syscallInProgress = d.words.left.syscallInProgress) (h : d.returns w = some d') :
    d'.Counts := by
  unfold returns at h
  split at h
  · exact absurd h (by simp)
  · rename_i hp
    rw [← Option.some.inj h]
    exact hw.trans (count_left hc hp).1

/-- After a handler the count is right just when it came back unmarked or switched. -/
theorem counts_settle {marks canSwitch : Prop} {o : Objects} {w : Words} {x : Outcome}
    (hc : d.Counts) (hp : d.pending ≠ 0) (hm : Marked d.words marks canSwitch x w)
    (h : d.settle o w x = some d') : d'.Counts ↔ (marks → canSwitch) := by
  obtain ⟨hone, hother⟩ := count_left hc hp
  cases x with
  | returned m s =>
      obtain rfl := Option.some.inj h
      have hnot := hm.returned trivial
      rcases hm.words with ⟨hmarks, rfl⟩ | ⟨hno, rfl⟩
      · exact iff_of_false hother fun hcan => hnot ⟨hmarks, hcan hmarks⟩
      · exact iff_of_true hc fun hmarks => absurd hmarks hno
  | resumed m t s =>
      obtain rfl := Option.some.inj h
      obtain ⟨hmarks, hcan⟩ := hm.resumed trivial
      rcases hm.words with ⟨-, rfl⟩ | ⟨hno, -⟩
      · exact iff_of_true hone fun _ => hcan
      · exact absurd hmarks hno
  | panicked msg s => exact absurd h (by simp [settle])
  | outOfFuel => exact absurd h (by simp [settle])

/-- A handler's step goes through `settle`. -/
theorem settle_of_step {o : Objects} {w : Words} {x : Outcome}
    (h : (if d.pending = 0 then none else d.settle o w x) = some d') :
    d.pending ≠ 0 ∧ d.settle o w x = some d' := by
  split at h
  · exact absurd h (by simp)
  · rename_i hp
    exact ⟨hp, h⟩

theorem count_currentSaved (fuel task : Nat) (swiReturn : Word) (m : Arm) (s : Scheduler)
    (w : Words) :
    (Counted.scheduleKernelThreadCurrentSaved fuel task swiReturn m s w).2.syscallInProgress
      = w.syscallInProgress := by
  unfold Counted.scheduleKernelThreadCurrentSaved
  dsimp only
  split
  · rfl
  · exact BitVec.add_sub_cancel ..

/-- A thread that returns was not in a system call. -/
theorem count_destroySelf (fuel task : Nat) (swiReturn : Word) (m : Arm) (s : Scheduler)
    (o : Objects) (w : Words) :
    (Counted.schedulerSvcThreadDestroySelf fuel task swiReturn m s o w).2.syscallInProgress
      = w.syscallInProgress := by
  unfold Counted.schedulerSvcThreadDestroySelf
  split
  · rfl
  · cases releaseLoop s.runningKernelThread fuel s s.runningKernelThread with
    | none => rfl
    | some p => exact count_currentSaved fuel task swiReturn m _ w

/-- **One event keeps the count right** just when the scheduler can switch if a handler
has marked its call as finished. -/
theorem counts_step {e : DepthEvent} (hc : d.Counts) (h : d.step e = some d') :
    d'.Counts ↔ (d.Marks e → d.CanSwitch e) := by
  cases e with
  | enter text behindArm atThumb x =>
      rw [← Option.some.inj h]
      exact iff_of_true (counts_succ hc (count_enter ..)) fun _ => trivial
  | svcReturn arm stack =>
      refine iff_of_true (counts_returns hc ?_ h) fun _ => trivial
      rw [words_svcReturn]
  | usrReturn arm stack =>
      refine iff_of_true (counts_returns hc ?_ h) fun _ => trivial
      rw [words_usrReturn]
  | delegateEnd arm stack =>
      refine iff_of_true (counts_returns hc ?_ h) fun _ => trivial
      rw [words_delegateEnd]
      exact congrArg (· - 1#32) (count_cleared d.words)
  | waitMillis a =>
      obtain ⟨hp, hs⟩ := settle_of_step h
      exact counts_settle hc hp (waitMillis_marked d a) hs
  | waitFor a =>
      obtain ⟨hp, hs⟩ := settle_of_step h
      exact counts_settle hc hp (waitFor_marked d a) hs
  | delete a =>
      obtain ⟨hp, hs⟩ := settle_of_step h
      exact counts_settle hc hp (delete_marked d a) hs
  | threadReturns a =>
      obtain ⟨s, -, rfl⟩ := Option.map_eq_some_iff.mp h
      exact iff_of_true ((count_destroySelf ..).trans hc) fun _ => trivial
  | tick status fuel task code frame m =>
      obtain ⟨s, -, rfl⟩ := Option.map_eq_some_iff.mp h
      exact iff_of_true hc fun _ => trivial
  | other s o =>
      rw [← Option.some.inj h]
      exact iff_of_true hc fun _ => trivial

end Depth

/-! ## Whole runs -/

/-- A run is right throughout just when each of its events is. -/
theorem DepthRun.counts_iff {d d' : Depth} {es : List (Depth × DepthEvent)}
    (h : DepthRun d es d') : d.Counts →
      (((∀ p ∈ es, p.1.Counts) ∧ d'.Counts) ↔ ∀ p ∈ es, p.1.Marks p.2 → p.1.CanSwitch p.2) := by
  induction h with
  | done d => exact fun hc => iff_of_true ⟨by simp, hc⟩ (by simp)
  | @step d d' d'' e es hstep hrest ih =>
      intro hc
      have hone := Depth.counts_step hc hstep
      constructor
      · intro hgiven p hp
        obtain ⟨hall, hlast⟩ := hgiven
        -- the state after this event is the next one's, or the last one
        have hc' : d'.Counts := by
          cases hrest with
          | done => exact hlast
          | step _ _ => exact hall _ (List.mem_cons_of_mem _ (List.mem_cons_self ..))
        rcases List.mem_cons.mp hp with rfl | hp
        · exact hone.mp hc'
        · exact (ih hc').mp ⟨fun q hq => hall q (List.mem_cons_of_mem _ hq), hlast⟩ p hp
      · intro hall
        have hc' := hone.mpr (hall (d, e) (List.mem_cons_self ..))
        obtain ⟨hmid, hlast⟩ := (ih hc').mpr fun q hq => hall q (List.mem_cons_of_mem _ hq)
        refine ⟨fun p hp => ?_, hlast⟩
        rcases List.mem_cons.mp hp with rfl | hp
        · exact hc
        · exact hmid p hp

/--
**The count is the number of calls in progress throughout a run just when the scheduler
never returns to a handler that has marked its call as finished.**
-/
theorem syscallDepth_iff {d d' : Depth} {es : List (Depth × DepthEvent)} (hrun : DepthRun d es d')
    (hcount : d.words.syscallInProgress = 0) (hpending : d.pending = 0) :
    ((∀ p ∈ es, p.1.Counts) ∧ d'.Counts) ↔ ∀ p ∈ es, p.1.Marks p.2 → p.1.CanSwitch p.2 := by
  refine hrun.counts_iff ?_
  rw [Depth.Counts, hcount, hpending]
  rfl

/-! ## A wait that comes back -/

/-- The main thread runs and another one is there; no call is in progress. -/
def quietDepth : Depth where
  words := idle
  sched := twoThreads .runnable 0
  objects := ⟨[4096, 8192], []⟩
  pending := 0

/-- The running thread waits for 100 milliseconds, while the OS reports `task`. -/
def waits (task : Nat) : Attempt where
  fuel := 2
  task := task
  swiReturn := 0x1000a004#32
  base := 0x7000#32
  regs i := if i = 15 then 100#32 else 0
  arm := inFiq

/-- The thread traps into the wrapper. -/
def trapsIn : DepthEvent := .enter allSwi 0x9000#32 0x9100#32 (osCall 0x1004#32)

theorem syscallDepth_iff_waits : ∃ es d', es.length = 2 ∧ DepthRun quietDepth es d' ∧
    (((∀ p ∈ es, p.1.Counts) ∧ d'.Counts) ↔ ∀ p ∈ es, p.1.Marks p.2 → p.1.CanSwitch p.2) := by
  have hrun : ∃ es d', es.length = 2 ∧ DepthRun quietDepth es d' :=
    ⟨_, _, rfl, .step (e := trapsIn) rfl (.step (e := .waitMillis (waits 1)) rfl (.done _))⟩
  obtain ⟨es, d', hlen, hrun⟩ := hrun
  exact ⟨es, d', hlen, hrun, syscallDepth_iff hrun rfl rfl⟩

/-- **A wait under another task is taken off the count twice.** -/
theorem waits_otherTask : ∃ es d', DepthRun quietDepth es d' ∧ quietDepth.Counts ∧ d'.pending = 0
    ∧ d'.words.syscallInProgress = 0xffffffff#32 ∧ ¬ d'.Counts := by
  have hrun : ∃ es d', DepthRun quietDepth es d' ∧ d'.pending = 0
      ∧ d'.words.syscallInProgress = 0xffffffff#32 :=
    ⟨_, _, .step (e := trapsIn) rfl (.step (e := .waitMillis (waits 2)) rfl
      (.step (e := .svcReturn inFiq fun _ => 0) rfl (.done _))), rfl, rfl⟩
  obtain ⟨es, d', hrun, hpending, hcount⟩ := hrun
  refine ⟨es, d', hrun, rfl, hpending, hcount, fun hc => ?_⟩
  rw [Depth.Counts, hcount, hpending] at hc
  exact absurd hc (by decide)

end OSExt.Exceptions
