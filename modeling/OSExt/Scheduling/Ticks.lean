import OSExt.Scheduling.Loops

/-!
# Scheduler ticks

A tick that passes the guards of `schedule_kernel_thread` saves the running
thread and then resumes what `pick` picks. Runs of such ticks, with no other
scheduler call in between, are what the claims about turns and sleeping are
about; over a run the ring stays the same up to where it is entered.
-/

namespace OSExt.Scheduling

open Lib

/-! ## A tick that passes its guards -/

/--
The checks `schedule_kernel_thread` makes in FIQ mode: a thread is running, the
gui task is current, there is another thread, and SVC mode was interrupted.
-/
structure PassesGuards (task : Nat) (m : Arm) (s : Scheduler) : Prop where
  fiq : m.bank = .fiq
  running : s.runningKernelThread ≠ 0
  gui : task = s.nucGuiTask
  another : s.next s.runningKernelThread ≠ s.runningKernelThread
  svc : Bank.ofPsr (m.spsr .fiq) = .svc

theorem passesGuards_saveRegs {task : Nat} {m : Arm} {s : Scheduler} (h : PassesGuards task m s)
    (regs : Nat → Word) : PassesGuards task m (s.saveRegs regs) := by
  have hanother : (s.saveRegs regs).next s.runningKernelThread ≠ s.runningKernelThread := by
    rw [next_saveRegs]
    exact h.another
  exact ⟨h.fiq, h.running, h.gui, hanother, h.svc⟩

/-- What such a tick saves as the running thread's registers. -/
def savedAt (code : Compiled) (task : Nat) (frame : Nat → Word) (m : Arm) (s : Scheduler) :
    (Nat → Word) × Arm :=
  saveContext (BitVec.ofNat 32 (s.runningKernelThread + 32)) frame
    (s.thread s.runningKernelThread).regs
    (((m.scratch code.atSwi).swi code.swiReturn (BitVec.ofNat 32 task)).scratch code.atSave)

/-- Past its guards a tick saves the context and goes on like a thread that gave up the processor. -/
theorem schedule_saves {fuel task : Nat} {code : Compiled} {frame : Nat → Word} {m : Arm}
    {s : Scheduler} (h : PassesGuards task m s) :
    scheduleKernelThread (fuel + 1) task code frame m s
      = scheduleKernelThreadCurrentSaved (fuel + 1) task code.swiReturn
          (savedAt code task frame m s).2 (s.saveRegs (savedAt code task frame m s).1) := by
  have hb : ((m.scratch code.atSwi).swi code.swiReturn (BitVec.ofNat 32 task)).bank = .fiq := by
    rw [Arm.bank_swi, Arm.bank_scratch, h.fiq]
  have hsvc : Bank.ofPsr (((m.scratch code.atSwi).swi code.swiReturn
      (BitVec.ofNat 32 task)).spsr .fiq) = .svc := h.svc
  unfold scheduleKernelThread
  simp only [h.running, h.another, ← h.gui, if_false, ne_eq, not_true_eq_false, hb, hsvc,
    tickLoop_eq]
  rfl

/-- Such a tick resumes what `pick` picks among the threads as they were, or panics. -/
theorem schedule_eq {fuel task : Nat} (code : Compiled) (frame : Nat → Word) {m : Arm}
    {s : Scheduler} {l : List Nat} (hr : Ring s l) (hf : l.length ≤ fuel)
    (h : PassesGuards task m s) :
    (∃ x t s', pick l (s.saveRegs (savedAt code task frame m s).1) = some (t, s') ∧
      scheduleKernelThread fuel task code frame m s = resume x s' t)
    ∨ (pick l (s.saveRegs (savedAt code task frame m s).1) = none ∧
      ∃ msg, scheduleKernelThread fuel task code frame m s
        = .panicked msg (s.saveRegs (savedAt code task frame m s).1)) := by
  obtain ⟨n, rfl⟩ : ∃ n, fuel = n + 1 := by
    have := List.length_pos_of_mem (ring_mem_running hr)
    exact ⟨fuel - 1, by omega⟩
  rw [schedule_saves h]
  rcases currentSaved_eq (ring_saveRegs hr _) hf code.swiReturn (savedAt code task frame m s).2
      h.running h.gui with ⟨t, s', hp, hs⟩ | hp
  · exact .inl ⟨_, t, s', hp, hs⟩
  · exact .inr hp

/-! ## Runs of ticks -/

/-- Consecutive ticks: the state each found the threads in, and the thread it resumed. -/
inductive TickRun (fuel : Nat) : Scheduler → List (Scheduler × Nat) → Scheduler → Prop where
  | done (s : Scheduler) : TickRun fuel s [] s
  | tick {task : Nat} {code : Compiled} {frame : Nat → Word} {m m' : Arm} {t : Nat}
      {ts : List (Scheduler × Nat)} {s s' s'' : Scheduler} :
      PassesGuards task m s →
      scheduleKernelThread fuel task code frame m s = .resumed m' t s' →
      TickRun fuel s' ts s'' → TickRun fuel s ((s, t) :: ts) s''

theorem next_sleepFor (w : Word) : ∀ (l : List Nat) (s : Scheduler),
    (l.foldl (wakeThread w) s).next = s.next
  | [], _ => rfl
  | t :: l, s => by
      rw [List.foldl_cons, next_sleepFor w l, next_wakeThread]

/-- `pick` picks a thread of the ring and leaves the ring as it is. -/
theorem pick_ring {l : List Nat} {s s' : Scheduler} {t : Nat} (h : pick l s = some (t, s')) :
    t ∈ l ∧ s'.next = s.next := by
  unfold pick at h
  split at h
  · rename_i u hu
    obtain ⟨rfl, rfl⟩ := Prod.mk.inj (Option.some.inj h)
    exact ⟨List.mem_of_find?_eq_some hu, rfl⟩
  · split at h
    · obtain ⟨v, hv, he⟩ := Option.map_eq_some_iff.mp h
      obtain ⟨rfl, rfl⟩ := Prod.mk.inj he
      exact ⟨List.mem_of_find?_eq_some hv, rfl⟩
    · dsimp only at h
      split at h
      · exact absurd h (by simp)
      · rename_i hne
        obtain ⟨rfl, rfl⟩ := Prod.mk.inj (Option.some.inj h)
        refine ⟨?_, next_sleepFor _ l _⟩
        rcases minWait_thread s l (0xffffffff#32, 0) with hsame | hfound
        · exact absurd (by rw [hsame]) hne
        · exact hfound.1

/-- After a tick the same threads form the ring, now entered at the one that runs. -/
theorem ring_resumed {fuel task : Nat} {code : Compiled} {frame : Nat → Word} {m m' : Arm}
    {s s' : Scheduler} {l : List Nat} {t : Nat} (hr : Ring s l) (hf : l.length ≤ fuel)
    (hg : PassesGuards task m s)
    (hs : scheduleKernelThread fuel task code frame m s = .resumed m' t s') :
    ∃ l', Ring s' l' ∧ l'.Perm l := by
  rcases schedule_eq code frame hr hf hg with ⟨x, u, s1, hp, hs1⟩ | ⟨_, msg, hs1⟩
  · rw [hs1] at hs
    obtain ⟨-, rfl, rfl⟩ := Outcome.resumed.inj hs
    obtain ⟨hmem, hnext⟩ := pick_ring hp
    obtain ⟨l', hl', hperm⟩ := hr.rotate hmem
    have hnext' : s1.next = s.next := hnext.trans (next_saveRegs s _)
    refine ⟨l', ?_, hperm⟩
    show IsRing s1.next u l'
    rw [hnext']
    exact hl'
  · rw [hs1] at hs
    exact absurd hs (by simp)

/-! ## Two threads -/

/-- A ring of the main thread, running, and one other thread. -/
def twoThreads (status : ThreadStatus) (waiting : Word) : Scheduler where
  thread t :=
    { regs := fun _ => 0
      main := t == 4096
      status := if t = 8192 then status else .runnable
      waiting := if t = 8192 then waiting else 0
      statusData := 0
      next := if t = 4096 then 8192 else 4096 }
  runningKernelThread := 4096
  nucGuiTask := 1
  timesliceLength := 2
  slept := []

theorem ring_twoThreads (status : ThreadStatus) (waiting : Word) :
    Ring (twoThreads status waiting) [4096, 8192] := by
  refine ⟨rfl, ?_, ?_, by decide⟩
  · exact List.isChain_cons_cons.mpr ⟨rfl, List.isChain_singleton _⟩
  · intro z hz
    obtain rfl : 8192 = z := by simpa using hz
    rfl

/-- A handler that leaves zeros wherever it may write. -/
def zeroing : Compiled where
  atSwi := { low := fun _ => 0, high := fun _ => 0, sp := 0, lr := 0, flags := 0 }
  swiReturn := 0x1000a004#32
  atSave := { low := fun _ => 0, high := fun _ => 0, sp := 0, lr := 0, flags := 0 }

/-- An FIQ handler that interrupted SVC mode. -/
def inFiq : Arm where
  shared _ := 0
  fiqHigh _ := 0
  r13 _ := 0
  r14 _ := 0
  spsr _ := 0x93#32
  cpsr := 0xd1#32
  pc := 0x1c#32

theorem passesGuards_twoThreads (status : ThreadStatus) (waiting : Word) :
    PassesGuards 1 inFiq (twoThreads status waiting) where
  fiq := by decide
  running := show 4096 ≠ 0 by omega
  gui := rfl
  another := show 8192 ≠ 4096 by omega
  svc := by decide

end OSExt.Scheduling
