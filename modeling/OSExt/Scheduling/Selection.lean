import OSExt.Scheduling.Sleep

/-!
# Which thread a scheduling call selects

`schedule_kernel_thread_current_saved` over any ring with a main thread: the first
RUNNABLE thread from the running one on; if there is none, a thread with the
shortest wait, after everyone has slept that long; and if nobody waits for time to
pass either, the main thread. None of the panics behind the loops is reached unless
a thread waits for all the ticks there are.
-/

namespace OSExt.Scheduling

open Lib

variable {s s' : Scheduler} {l : List Nat}

/-! ## Sleeping, thread by thread -/

/-- A WAITING thread after a sleep of `w` ticks. -/
def SvcThread.slept (w : Word) (v : SvcThread) : SvcThread :=
  if v.status = .waiting then
    if v.waiting ≤ w then { v with status := .runnable, waiting := 0 }
    else { v with status := .waiting, waiting := v.waiting - w }
  else v

theorem rewrites_wakeThread (w : Word) : Rewrites (wakeThread w) (SvcThread.slept w) := by
  intro s t
  unfold wakeThread SvcThread.slept
  by_cases hw : s.status t = .waiting
  · have hw' : (s.thread t).status = .waiting := hw
    rw [if_pos hw, if_pos hw']
    by_cases hle : s.waiting t ≤ w
    · have hle' : (s.thread t).waiting ≤ w := hle
      rw [if_pos hle, if_pos hle']
      rfl
    · have hle' : ¬ (s.thread t).waiting ≤ w := hle
      rw [if_neg hle, if_neg hle']
      rfl
  · have hw' : ¬ (s.thread t).status = .waiting := hw
    rw [if_neg hw, if_neg hw', Function.update_eq_self]

theorem sleepFor_thread (hnd : l.Nodup) (w : Word) (s : Scheduler) (t : Nat) :
    (sleepFor l w s).thread t = if t ∈ l then (s.thread t).slept w else s.thread t := by
  unfold sleepFor
  exact (rewrites_wakeThread w).foldl l { s with slept := w * s.timesliceLength :: s.slept } hnd t

/-! ## The selection -/

/-- `w` is the least counter among the WAITING threads. -/
structure LeastWait (l : List Nat) (s : Scheduler) (w : Word) : Prop where
  attained : ∃ u ∈ l, s.status u = .waiting ∧ s.waiting u = w
  le : ∀ u ∈ l, s.status u = .waiting → w ≤ s.waiting u

/--
The WAITING threads with counter `w` are RUNNABLE with counter 0, the counters of the
other WAITING threads are less by `w`, and all else about the threads is as before.
-/
structure Wakes (l : List Nat) (w : Word) (s s' : Scheduler) : Prop where
  woken : ∀ u ∈ l, s.status u = .waiting → s.waiting u = w →
    s'.thread u = { s.thread u with status := .runnable, waiting := 0 }
  waiting : ∀ u ∈ l, s.status u = .waiting → s.waiting u ≠ w →
    s'.thread u = { s.thread u with waiting := s.waiting u - w }
  other : ∀ u, u ∉ l ∨ s.status u ≠ .waiting → s'.thread u = s.thread u

/-- The thread `t` a scheduling call resumes, and what becomes of the threads. -/
structure Selects (l : List Nat) (s : Scheduler) (t : Nat) (s' : Scheduler) : Prop where
  running : s'.runningKernelThread = t
  links : s'.next = s.next
  runnable : ∀ u, l.find? (fun t => s.status t == .runnable) = some u →
    t = u ∧ s'.thread = s.thread
  sleeping : (∀ u ∈ l, s.status u ≠ .runnable) → (∃ u ∈ l, s.status u = .waiting) →
    ∃ w, LeastWait l s w ∧ Wakes l w s s' ∧ t ∈ l ∧ s.status t = .waiting ∧ s.waiting t = w
  blocked : (∀ u ∈ l, s.status u = .waitingFor) →
    t ∈ l ∧ (s.thread t).main = true ∧ s'.thread = s.thread

/-- Sleeping for the least wait wakes exactly those who wait that long. -/
theorem wakes_sleepFor (hnd : l.Nodup) {w : Word} (hw : LeastWait l s w) :
    Wakes l w s (sleepFor l w s) := by
  refine ⟨fun u hu hst hwt => ?_, fun u hu hst hwt => ?_, fun u hu => ?_⟩
  · have hst' : (s.thread u).status = .waiting := hst
    have hle : (s.thread u).waiting ≤ w := by
      rw [← hwt]
      exact BitVec.le_refl _
    rw [sleepFor_thread hnd, if_pos hu, SvcThread.slept, if_pos hst', if_pos hle]
  · have hst' : (s.thread u).status = .waiting := hst
    have hgt : ¬ (s.thread u).waiting ≤ w := by
      intro hle
      exact hwt (BitVec.le_antisymm hle (hw.le u hu hst))
    rw [sleepFor_thread hnd, if_pos hu, SvcThread.slept, if_pos hst', if_neg hgt, ← hst']
    rfl
  · rw [sleepFor_thread hnd]
    split
    · rename_i hl
      have hst : ¬ (s.thread u).status = .waiting := hu.resolve_left (not_not.mpr hl)
      rw [SvcThread.slept, if_neg hst]
    · rfl

/-- What `pick` picks, with the running thread set to it. -/
theorem pick_selects (hnd : l.Nodup) {t : Nat} (h : pick l s = some (t, s')) :
    Selects l s t { s' with runningKernelThread := t } := by
  have hnext := (pick_ring h).2
  unfold pick at h
  cases hr : l.find? (fun t => s.status t == .runnable) with
  | some u =>
      rw [hr] at h
      obtain ⟨rfl, rfl⟩ := Prod.mk.inj (Option.some.inj h)
      have hu : s.status u = .runnable := by simpa using List.find?_some hr
      have hul : u ∈ l := List.mem_of_find?_eq_some hr
      refine ⟨rfl, hnext, fun v hv => ⟨Option.some.inj (hr.symm.trans hv), rfl⟩, fun hno => ?_,
        fun hall => ?_⟩
      · exact absurd hu (hno u hul)
      · exact absurd (hu.symm.trans (hall u hul)) (by simp)
  | none =>
      simp only [hr] at h
      cases hq : l.find? (fun t => s.status t == .waiting) with
      | none =>
          -- nobody waits for time to pass
          have hnw : ∀ u ∈ l, s.status u ≠ .waiting := by simpa using hq
          simp only [hq, Option.isNone_none, if_true] at h
          obtain ⟨v, hv, he⟩ := Option.map_eq_some_iff.mp h
          obtain ⟨rfl, rfl⟩ := Prod.mk.inj he
          refine ⟨rfl, hnext, fun u hu => absurd (hr.symm.trans hu) (by simp), fun _ hw => ?_,
            fun _ => ?_⟩
          · obtain ⟨u, hu, huw⟩ := hw
            exact absurd huw (hnw u hu)
          · have hmain : (s.thread v).main = true := List.find?_some (p := fun t => (s.thread t).main) hv
            exact ⟨List.mem_of_find?_eq_some hv, hmain, rfl⟩
      | some u =>
          have hu : s.status u = .waiting := by simpa using List.find?_some hq
          have hul : u ∈ l := List.mem_of_find?_eq_some hq
          simp only [hq, Option.isNone_some, Bool.false_eq_true, if_false] at h
          split at h
          · exact absurd h (by simp)
          rename_i hne
          obtain ⟨ht, rfl⟩ := Prod.mk.inj (Option.some.inj h)
          -- the search has found a thread, and its wait is the least
          obtain ⟨hmem, hst, hwt⟩ : t ∈ l ∧ s.status t = .waiting
              ∧ s.waiting t = (l.foldl (minWaitThread s) (0xffffffff#32, 0)).1 := by
            rw [← ht]
            rcases minWait_thread s l (0xffffffff#32, 0) with hsame | hfound
            · exact absurd (by rw [hsame]) hne
            · exact hfound
          have hleast : LeastWait l s (l.foldl (minWaitThread s) (0xffffffff#32, 0)).1 :=
            ⟨⟨t, hmem, hst, hwt⟩, (minWait_le s l (0xffffffff#32, 0)).2⟩
          refine ⟨rfl, hnext, fun v hv => absurd (hr.symm.trans hv) (by simp), fun _ _ => ?_,
            fun hall => ?_⟩
          · have hwakes := wakes_sleepFor hnd hleast
            exact ⟨_, hleast, ⟨hwakes.woken, hwakes.waiting, hwakes.other⟩, hmem, hst, hwt⟩
          · exact absurd (hu.symm.trans (hall u hul)) (by simp)

/-- With a main thread there is always something to run, but for the longest possible wait. -/
theorem not_nothingToRun (hmain : ∃ t ∈ l, (s.thread t).main = true)
    (hwait : ∀ t ∈ l, s.status t = .waiting → s.waiting t < 0xffffffff#32) :
    ¬ NothingToRun l s := by
  intro hgiven
  rcases hgiven with ⟨-, hblocked | ⟨⟨u, hu, huw⟩, hmax⟩⟩
  · obtain ⟨t, ht, htm⟩ := hmain
    rw [(hblocked t ht).2] at htm
    exact absurd htm (by simp)
  · have hlt := hwait u hu huw
    rw [(hmax u hu huw).2] at hlt
    exact absurd hlt (BitVec.lt_irrefl _)

/--
**Thread selection.** Over any ring with a main thread in which nobody waits for the
longest time there is, a scheduling call under the gui task resumes a thread, and
which one is as `Selects` says.
-/
theorem currentSaved_selects {fuel task : Nat} (hring : Ring s l) (hnull : 0 ∉ l)
    (hfuel : l.length ≤ fuel) (hmain : ∃ t ∈ l, (s.thread t).main = true)
    (hwait : ∀ t ∈ l, s.status t = .waiting → s.waiting t < 0xffffffff#32)
    (htask : task = s.nucGuiTask) (swiReturn : Word) (m : Arm) :
    ∃ m' t s', scheduleKernelThreadCurrentSaved fuel task swiReturn m s = .resumed m' t s'
      ∧ Selects l s t s' := by
  have hrun : s.runningKernelThread ≠ 0 := fun he => hnull (he ▸ ring_mem_running hring)
  rcases currentSaved_eq hring hfuel swiReturn m hrun htask with ⟨t, s', hp, hx⟩ | ⟨hp, -⟩
  · exact ⟨_, t, _, hx, pick_selects hring.nodup hp⟩
  · exact absurd ((pick_eq_none hnull).mp hp) (not_nothingToRun hmain hwait)

theorem currentSaved_selects_twoThreads :
    ∃ m' t s', scheduleKernelThreadCurrentSaved 2 1 0x1000a004#32 inFiq (twoThreads .waiting 3)
        = .resumed m' t s'
      ∧ Selects [4096, 8192] (twoThreads .waiting 3) t s' := by
  refine currentSaved_selects (ring_twoThreads .waiting 3) (by simp) (Nat.le_refl 2)
    ⟨4096, by simp, rfl⟩ ?_ rfl 0x1000a004#32 inFiq
  intro t ht hw
  rcases List.mem_cons.mp ht with rfl | ht
  · exact absurd hw (by simp [twoThreads, Scheduler.status])
  · obtain rfl : t = 8192 := by simpa using ht
    show (3#32 : Word) < 0xffffffff#32
    decide

end OSExt.Scheduling
