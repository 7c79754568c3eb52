import OSExt.Memory.SlabFlags
import OSExt.Modules.OsHooks
import OSExt.Scheduling.DeferredActions

/-!
# Critical sections

The functions that turn interrupts off around their work, `lock.c` among them, save the
flags first and restore them before they return. All but one do so on every path:
`action_do_next` returns from an empty queue with interrupts off.
-/

namespace OSExt.Scheduling

open Lib Libk Memory Modules

/-! ## Locks -/

/-- `lock->lock_count` and `lock->ref_count` -/
def lockCount (lock : Nat) : Nat := lock
def refCount (lock : Nat) : Nat := lock + 4

/-- `*field = f(*field);` for a counter -/
def updateCount (field : Nat) (f : Word → Word) : KernelM Unit :=
  update (fun k => k.setMem (storeWord k.mem field (f (loadWord k.mem field))))

def lockReference (lock : Nat) : KernelM Nat :=
  if lock = 0 then pure 0
  else do
    irqSection fun _ => updateCount (refCount lock) (· + 1)
    pure lock

/-- A lock without references is freed. -/
def lockUnreference (fuel lock : Nat) : KernelM Unit :=
  if lock = 0 then pure ()
  else irqSection fun _ => do
    updateCount (refCount lock) (· - 1)
    let count ← gets (fun k => loadWord k.mem (refCount lock))
    if count = 0 then kfreeHint fuel lock 8 else pure ()

def lockLock (lock : Nat) : KernelM Unit :=
  if lock = 0 then pure ()
  else irqSection fun _ => updateCount (lockCount lock) (· + 1)

def lockUnlock (lock : Nat) : KernelM Unit :=
  if lock = 0 then pure ()
  else irqSection fun _ => do
    let count ← gets (fun k => loadWord k.mem (lockCount lock))
    if count ≠ 0 then updateCount (lockCount lock) (· - 1) else pure ()

section

variable (fuel lock : Nat)

theorem updateCount_keepsCpsr (field : Nat) (f : Word → Word) :
    KeepsCpsr (updateCount field f) := .update fun _ => rfl

theorem lockReference_keepsCpsr : KeepsCpsr (lockReference lock) :=
  .ite (.pure _) (.bind (irqSection_keepsCpsr fun _ => updateCount_keepsCpsr _ _) fun _ => .pure _)

theorem lockUnreference_keepsCpsr : KeepsCpsr (lockUnreference fuel lock) :=
  .ite (.pure _) (irqSection_keepsCpsr fun _ => .bind (updateCount_keepsCpsr _ _) fun _ =>
    .bind (.gets _) fun _ => .ite (kfreeHint_keepsCpsr lock fuel 8) (.pure _))

theorem lockLock_keepsCpsr : KeepsCpsr (lockLock lock) :=
  .ite (.pure _) (irqSection_keepsCpsr fun _ => updateCount_keepsCpsr _ _)

theorem lockUnlock_keepsCpsr : KeepsCpsr (lockUnlock lock) :=
  .ite (.pure _) (irqSection_keepsCpsr fun _ => .bind (.gets _) fun _ =>
    .ite (updateCount_keepsCpsr _ _) (.pure _))

end

/-! ## Hook tables -/

theorem registerFunction_cpsr (function : Nat) (cpsr : Word) (t : HookTable) :
    (registerFunction function cpsr t).2.1 = cpsr := by
  unfold registerFunction
  by_cases hnull : function = 0
  · rw [if_pos hnull]
  · rw [if_neg hnull]
    by_cases hroom : t.num < 99
    · rw [if_pos hroom]
      exact irqRestoreState_irqDisable cpsr
    · rw [if_neg hroom]

/-- Also where the function is not in the table. -/
theorem unregisterFunction_cpsr (function : Nat) (cpsr : Word) (t : HookTable) :
    (unregisterFunction function cpsr t).2.1 = cpsr := by
  unfold unregisterFunction
  by_cases hnull : function = 0
  · rw [if_pos hnull]
  · rw [if_neg hnull]
    cases findEntry t.functions t.num function with
    | some i => exact irqRestoreState_irqDisable cpsr
    | none => exact irqRestoreState_irqDisable cpsr

theorem hookStep_cpsr (op : HookOp) (s : Hooks) : (hookStep op s).2.cpsr = s.cpsr := by
  cases op with
  | registerDraw function => exact registerFunction_cpsr function s.cpsr s.drawhook
  | unregisterDraw function => exact unregisterFunction_cpsr function s.cpsr s.drawhook
  | registerFile function => exact registerFunction_cpsr function s.cpsr s.filehook
  | unregisterFile function => exact unregisterFunction_cpsr function s.cpsr s.filehook

/-! ## Deferred actions -/

/-- An empty queue is extended before the flags are saved. -/
theorem actionAdd_cpsr {fuel queue action : Nat} {s s' : Actions}
    (h : actionAdd fuel queue action s = some s') : s'.cpsr = s.cpsr := by
  unfold actionAdd at h
  by_cases hqueue : queue = 0
  · rw [if_pos hqueue] at h
    rw [← Option.some.inj h]
  · rw [if_neg hqueue] at h
    by_cases hempty : s.queue queue = 0
    · rw [if_pos hempty] at h
      rw [← Option.some.inj h]
    · rw [if_neg hempty] at h
      obtain ⟨next, _, hnext⟩ := Option.map_eq_some_iff.mp h
      rw [← hnext]
      exact irqRestoreState_irqDisable s.cpsr

/-- What deferred functions do, with the flags left alone. -/
structure QuietFunctions where
  call : Nat → Actions → Actions
  flags : ∀ f s, SameFlags s.cpsr (call f s).cpsr

theorem execute_flags (functions : QuietFunctions) (action : Nat) (s : Actions) :
    SameFlags s.cpsr (execute functions.call action s).cpsr := by
  unfold execute actionSyscall
  rw [ite_self]
  dsimp only
  by_cases htype : (s.action action).type = 2
  · rw [if_pos htype]
    exact functions.flags _ s
  · rw [if_neg htype]
    exact .refl _

/-- On an empty queue the flags are restored only where there was nothing to restore. -/
theorem actionDoNext_flags_iff (functions : QuietFunctions) (queue : Nat) (s : Actions) :
    SameFlags s.cpsr (actionDoNext functions.call queue s).2.cpsr ↔
      (queue ≠ 0 → s.queue queue = 0 → isIRQ s.cpsr = false ∧ isFIQ s.cpsr = false) := by
  unfold actionDoNext
  by_cases hqueue : queue = 0
  · rw [if_pos hqueue]
    exact iff_of_true (.refl _) fun h => absurd hqueue h
  · rw [if_neg hqueue]
    by_cases hempty : s.queue queue = 0
    · rw [if_pos (show (s.setCpsr (irqDisable s.cpsr)).queue queue = 0 from hempty)]
      refine Iff.trans SameFlags.disable_iff ?_
      exact ⟨fun h _ _ => h, fun h => h hqueue hempty⟩
    · rw [if_neg (show (s.setCpsr (irqDisable s.cpsr)).queue queue ≠ 0 from hempty)]
      refine iff_of_true ?_ fun _ h => absurd h hempty
      exact SameFlags.bracket
        (execute_flags functions (s.queue queue) (s.setCpsr (irqDisable s.cpsr)))

/-! ## All of them -/

/-- A call of a function with a critical section, with the state it is called in. -/
inductive SectionCall where
  | actionAdd (fuel queue action : Nat) (s : Actions)
  | actionDoNext (functions : QuietFunctions) (queue : Nat) (s : Actions)
  /-- registering and unregistering draw and file functions -/
  | hook (op : HookOp) (s : Hooks)
  | lockReference (lock : Nat) (k : Kernel)
  | lockUnreference (fuel lock : Nat) (k : Kernel)
  | lockLock (lock : Nat) (k : Kernel)
  | lockUnlock (lock : Nat) (k : Kernel)
  | growCache (env : Env) (fuel cache : Nat) (k : Kernel)

/-- The register after a call that returns. -/
def returned {α : Type} : Except Memory.Stop α × Kernel → Option Word
  | (.ok _, k) => some k.cpsr
  | (.error _, _) => none

namespace SectionCall

def entry : SectionCall → Word
  | actionAdd _ _ _ s | actionDoNext _ _ s => s.cpsr
  | hook _ s => s.cpsr
  | lockReference _ k | lockUnreference _ _ k | lockLock _ k | lockUnlock _ k
  | growCache _ _ _ k => k.cpsr

/-- `none` where the call does not return. -/
def exit : SectionCall → Option Word
  | actionAdd fuel queue action s => (Scheduling.actionAdd fuel queue action s).map Actions.cpsr
  | actionDoNext functions queue s =>
    some (Scheduling.actionDoNext functions.call queue s).2.cpsr
  | hook op s => some (hookStep op s).2.cpsr
  | lockReference lock k => returned (Scheduling.lockReference lock k)
  | lockUnreference fuel lock k => returned (Scheduling.lockUnreference fuel lock k)
  | lockLock lock k => returned (Scheduling.lockLock lock k)
  | lockUnlock lock k => returned (Scheduling.lockUnlock lock k)
  | growCache env fuel cache k => returned (Memory.growCache env fuel cache k)

/-- `action_do_next` on an empty queue, with an interrupt enabled. -/
def OnEmptyQueue : SectionCall → Prop
  | actionDoNext _ queue s =>
    queue ≠ 0 ∧ s.queue queue = 0 ∧ (isIRQ s.cpsr = true ∨ isFIQ s.cpsr = true)
  | _ => False

/-- A call that leaves the register alone. -/
theorem flags_of_keeps {α : Type} {x : KernelM α} (hx : KeepsCpsr x) {k : Kernel} {cpsr : Word}
    (h : returned (x k) = some cpsr) : SameFlags k.cpsr cpsr := by
  cases hk : x k with
  | mk result k' =>
      rw [hk] at h
      cases result with
      | ok a =>
          rw [← Option.some.inj h, hx.same k a k' hk]
          exact .refl _
      | error s => exact absurd h (by simp [returned])

/-- **Which calls restore the interrupt state**: all that return, but for `action_do_next`
on an empty queue with an interrupt enabled. -/
theorem flags_restored_iff (call : SectionCall) {cpsr : Word} (h : call.exit = some cpsr) :
    SameFlags call.entry cpsr ↔ ¬ call.OnEmptyQueue := by
  cases call with
  | actionAdd fuel queue action s =>
      obtain ⟨s', hadd, rfl⟩ := Option.map_eq_some_iff.mp h
      refine iff_of_true ?_ id
      rw [entry, actionAdd_cpsr hadd]
      exact .refl _
  | actionDoNext functions queue s =>
      rw [← Option.some.inj h]
      refine Iff.trans (actionDoNext_flags_iff functions queue s) ?_
      unfold OnEmptyQueue
      rw [not_and, not_and, not_or, Bool.not_eq_true, Bool.not_eq_true]
  | hook op s =>
      rw [← Option.some.inj h]
      refine iff_of_true ?_ id
      rw [entry, hookStep_cpsr]
      exact .refl _
  | lockReference lock k => exact iff_of_true (flags_of_keeps (lockReference_keepsCpsr lock) h) id
  | lockUnreference fuel lock k =>
      exact iff_of_true (flags_of_keeps (lockUnreference_keepsCpsr fuel lock) h) id
  | lockLock lock k => exact iff_of_true (flags_of_keeps (lockLock_keepsCpsr lock) h) id
  | lockUnlock lock k => exact iff_of_true (flags_of_keeps (lockUnlock_keepsCpsr lock) h) id
  | growCache env fuel cache k =>
      exact iff_of_true (flags_of_keeps (growCache_keepsCpsr env fuel cache) h) id

/-- Adding to an empty queue, with interrupts on. -/
theorem flags_restored_iff_added :
    SameFlags (actionAdd 1 4 8 Actions.empty).entry 0 ↔
      ¬ (actionAdd 1 4 8 Actions.empty).OnEmptyQueue :=
  flags_restored_iff (actionAdd 1 4 8 Actions.empty) rfl

/-- An empty queue is left with both interrupts off. -/
theorem emptyQueue_disables :
    ∃ cpsr, (actionDoNext ⟨fun _ s => s, fun _ _ => .refl _⟩ 4 Actions.empty).exit = some cpsr
      ∧ isIRQ Actions.empty.cpsr = true ∧ isFIQ Actions.empty.cpsr = true
      ∧ isIRQ cpsr = false ∧ isFIQ cpsr = false :=
  ⟨_, rfl, by decide, by decide, by decide, by decide⟩

end SectionCall

end OSExt.Scheduling
