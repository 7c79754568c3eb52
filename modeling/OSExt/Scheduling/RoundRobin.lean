import OSExt.Scheduling.Ticks

/-!
# Who runs after a tick

The search for a RUNNABLE thread begins at the running thread itself. As long as
that one is RUNNABLE no other thread of the ring gets the processor on a tick,
however many ticks there are.
-/

namespace OSExt.Scheduling

open Lib

/-- `s.status t == .runnable`, as the loops test it. -/
def Scheduler.isRunnable (s : Scheduler) (t : Nat) : Bool := s.status t == .runnable

/-- The first RUNNABLE thread after the running one, in ring order. -/
def nextRunnable (l : List Nat) (s : Scheduler) : Option Nat := l.tail.find? s.isRunnable

/-- A tick hands the processor on round-robin. -/
def ResumesNext (l : List Nat) (s : Scheduler) : Outcome → Prop
  | .resumed _ t _ => nextRunnable l s = some t
  | _ => False

/-- Each RUNNABLE thread of the ring is among the resumed ones exactly once. -/
def EachOnce (l : List Nat) (s : Scheduler) (ts : List (Scheduler × Nat)) : Prop :=
  ∀ t ∈ l, s.isRunnable t → (ts.map Prod.snd).count t = 1

/-! ## One tick -/

/-- The ring starts at the running thread. -/
theorem ring_eq_cons {s : Scheduler} {l : List Nat} (h : Ring s l) :
    l = s.runningKernelThread :: l.tail := by
  obtain ⟨a, ha⟩ := List.head?_eq_some_iff.mp h.head
  rw [ha]
  rfl

/-- A RUNNABLE running thread is what `pick` picks. -/
theorem pick_running {s : Scheduler} {l : List Nat} (h : Ring s l)
    (hrun : s.status s.runningKernelThread = .runnable) :
    pick l s = some (s.runningKernelThread, s) := by
  have hfind : l.find? (fun t => s.status t == .runnable) = some s.runningKernelThread := by
    rw [ring_eq_cons h, List.find?_cons]
    simp [hrun]
  unfold pick
  rw [hfind]

/-- **A tick resumes the running thread.** Its saved registers are all that changes. -/
theorem tick_running {s : Scheduler} {l : List Nat} {fuel task : Nat} (code : Compiled)
    (frame : Nat → Word) {m : Arm} (h : Ring s l) (hf : l.length ≤ fuel)
    (hrun : s.status s.runningKernelThread = .runnable) (hg : PassesGuards task m s) :
    ∃ m', scheduleKernelThread fuel task code frame m s
      = .resumed m' s.runningKernelThread (s.saveRegs (savedAt code task frame m s).1) := by
  have hrun' : (s.saveRegs (savedAt code task frame m s).1).status s.runningKernelThread
      = .runnable := by
    rw [status_saveRegs, hrun]
  have hpick := pick_running (ring_saveRegs h (savedAt code task frame m s).1) hrun'
  rcases schedule_eq code frame h hf hg with ⟨x, t, s', hp, hs⟩ | ⟨hp, _⟩
  · rw [hpick] at hp
    obtain ⟨ht, hs'⟩ := Prod.mk.inj (Option.some.inj hp)
    rw [hs, ← ht, ← hs']
    exact ⟨_, rfl⟩
  · rw [hpick] at hp
    exact absurd hp (by simp)

/-! ## Runs of ticks -/

/-- **Every tick of a run resumes the thread it started with.** -/
theorem tickRun_running {fuel : Nat} {s s' : Scheduler} {ts : List (Scheduler × Nat)}
    (h : TickRun fuel s ts s') : ∀ {l : List Nat}, Ring s l → l.length ≤ fuel →
      s.status s.runningKernelThread = .runnable →
      ∀ t ∈ ts.map Prod.snd, t = s.runningKernelThread := by
  induction h with
  | done s => simp
  | @tick task code frame m m' t ts s s' s'' hg hs hrest ih =>
      intro l hr hf hrun u hu
      obtain ⟨x, hx⟩ := tick_running code frame hr hf hrun hg
      rw [hs] at hx
      obtain ⟨-, rfl, rfl⟩ := Outcome.resumed.inj hx
      rcases List.mem_cons.mp hu with rfl | hu
      · rfl
      · exact ih (ring_saveRegs hr _) hf (by rw [status_saveRegs]; exact hrun) u hu

/-- Such runs go on as long as the ticks do. -/
theorem tickRun_replicate {fuel task : Nat} {l : List Nat} {m : Arm} (code : Compiled)
    (frame : Nat → Word) : ∀ (n : Nat) {s : Scheduler}, Ring s l → l.length ≤ fuel →
      s.status s.runningKernelThread = .runnable → PassesGuards task m s →
      ∃ ts s', TickRun fuel s ts s' ∧ ts.map Prod.snd = List.replicate n s.runningKernelThread
  | 0, s, _, _, _, _ => ⟨[], s, .done s, rfl⟩
  | n + 1, s, hr, hf, hrun, hg => by
      obtain ⟨x, hx⟩ := tick_running code frame hr hf hrun hg
      have hrun' : (s.saveRegs (savedAt code task frame m s).1).status s.runningKernelThread
          = .runnable := by
        rw [status_saveRegs, hrun]
      obtain ⟨ts, s', hts, hrep⟩ := tickRun_replicate code frame n (ring_saveRegs hr _) hf hrun'
        (passesGuards_saveRegs hg _)
      exact ⟨_, s', .tick hg hx hts, congrArg (s.runningKernelThread :: ·) hrep⟩

/--
**The scheduler is never round-robin.** With the running thread and another one
RUNNABLE, no tick that passes its guards resumes the next RUNNABLE thread, and no
run of as many ticks as there are RUNNABLE threads resumes each of them once.
-/
theorem tick_never_roundRobin {fuel : Nat} {s : Scheduler} {l : List Nat} (hring : Ring s l)
    (hfuel : l.length ≤ fuel) (hrun : s.isRunnable s.runningKernelThread)
    (hother : ∃ t ∈ l, t ≠ s.runningKernelThread ∧ s.isRunnable t) :
    (∀ (task : Nat) (code : Compiled) (frame : Nat → Word) (m : Arm), PassesGuards task m s →
      ¬ ResumesNext l s (scheduleKernelThread fuel task code frame m s))
    ∧ ∀ (ts : List (Scheduler × Nat)) (s' : Scheduler), TickRun fuel s ts s' →
      ts.length = (l.filter s.isRunnable).length → ¬ EachOnce l s ts := by
  have hrun' : s.status s.runningKernelThread = .runnable := by
    simpa [Scheduler.isRunnable] using hrun
  constructor
  · intro task code frame m hg hnext
    obtain ⟨x, hx⟩ := tick_running code frame hring hfuel hrun' hg
    rw [hx] at hnext
    -- the running thread heads the ring and is nowhere else on it
    have hmem : s.runningKernelThread ∈ l.tail := List.mem_of_find?_eq_some hnext
    have hnodup := hring.nodup
    rw [ring_eq_cons hring, List.nodup_cons] at hnodup
    exact hnodup.1 hmem
  · intro ts s' hts _ honce
    obtain ⟨t, ht, hne, htr⟩ := hother
    have hcount : (ts.map Prod.snd).count t = 0 := by
      rw [List.count_eq_zero]
      exact fun hmem => hne (tickRun_running hts hring hfuel hrun' t hmem)
    rw [honce t ht htr] at hcount
    exact absurd hcount (by omega)

theorem tick_never_roundRobin_twoThreads :
    (∀ (task : Nat) (code : Compiled) (frame : Nat → Word) (m : Arm),
      PassesGuards task m (twoThreads .runnable 0) →
      ¬ ResumesNext [4096, 8192] (twoThreads .runnable 0)
        (scheduleKernelThread 2 task code frame m (twoThreads .runnable 0)))
    ∧ ∀ (ts : List (Scheduler × Nat)) (s' : Scheduler),
      TickRun 2 (twoThreads .runnable 0) ts s' →
      ts.length = ([4096, 8192].filter (twoThreads .runnable 0).isRunnable).length →
      ¬ EachOnce [4096, 8192] (twoThreads .runnable 0) ts :=
  tick_never_roundRobin (ring_twoThreads .runnable 0) (by decide) (by decide)
    ⟨8192, by decide, by decide, by decide⟩

/-- Two RUNNABLE threads: the first tick and the second both resume the main thread. -/
theorem twoThreads_starves :
    (∃ m s, scheduleKernelThread 2 1 zeroing (fun _ => 0) inFiq (twoThreads .runnable 0)
        = .resumed m 4096 s)
      ∧ nextRunnable [4096, 8192] (twoThreads .runnable 0) = some 8192
      ∧ ∃ ts s, TickRun 2 (twoThreads .runnable 0) ts s ∧ ts.map Prod.snd = [4096, 4096]
        ∧ ¬ EachOnce [4096, 8192] (twoThreads .runnable 0) ts := by
  have hring := ring_twoThreads .runnable 0
  have hguards := passesGuards_twoThreads .runnable 0
  obtain ⟨m, hm⟩ := tick_running zeroing (fun _ => 0) hring (Nat.le_refl 2) rfl hguards
  obtain ⟨ts, s, hts, hrep⟩ :=
    tickRun_replicate zeroing (fun _ => 0) 2 hring (Nat.le_refl 2) rfl hguards
  refine ⟨⟨m, _, hm⟩, rfl, ts, s, hts, hrep, ?_⟩
  intro honce
  have h8192 := honce 8192 (by decide) (by decide)
  rw [hrep] at h8192
  exact absurd h8192 (by decide)

end OSExt.Scheduling
