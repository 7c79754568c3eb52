import OSExt.Scheduling.Threads
import OSExt.Scheduling.Ticks

/-!
# What the thread operations change

Scheduling, waiting and releasing threads leave the links and the main thread alone
and block no thread anew: that is `Keeps`. Creating and destroying threads change the
ring, and each is one of the ring's own operations.
-/

namespace OSExt.Scheduling

open Lib

variable {s s' s'' : Scheduler} {l : List Nat} {o : Objects}

/-! ## What is kept -/

/-- The main thread is as before, and no thread is blocked that was not. -/
structure KeepsThreads (s s' : Scheduler) : Prop where
  main : ∀ t, (s'.thread t).main = (s.thread t).main
  blocked : ∀ t, s'.status t = .waitingFor →
    s.status t = .waitingFor ∧ (s'.thread t).statusData = (s.thread t).statusData

/-- The links are as before too. -/
structure Keeps (s s' : Scheduler) : Prop extends KeepsThreads s s' where
  next : s'.next = s.next

theorem KeepsThreads.trans (h : KeepsThreads s s') (h' : KeepsThreads s' s'') :
    KeepsThreads s s'' := by
  refine ⟨fun t => (h'.main t).trans (h.main t), fun t ht => ?_⟩
  obtain ⟨h1, h2⟩ := h'.blocked t ht
  obtain ⟨h3, h4⟩ := h.blocked t h1
  exact ⟨h3, h2.trans h4⟩

theorem Keeps.refl (s : Scheduler) : Keeps s s := ⟨⟨fun _ => rfl, fun _ h => ⟨h, rfl⟩⟩, rfl⟩

theorem Keeps.trans (h : Keeps s s') (h' : Keeps s' s'') : Keeps s s'' :=
  ⟨h.toKeepsThreads.trans h'.toKeepsThreads, h'.next.trans h.next⟩

/-- The threads themselves are untouched. -/
theorem Keeps.of_thread (h : s'.thread = s.thread) : Keeps s s' := by
  refine ⟨⟨fun t => by rw [h], fun t ht => ?_⟩, ?_⟩
  · rw [Scheduler.status, h] at ht
    exact ⟨ht, by rw [h]⟩
  · funext t
    rw [Scheduler.next, Scheduler.next, h]

/-- A thread is rewritten that is main as before and is not blocked anew. -/
theorem KeepsThreads.setThread (s : Scheduler) (t : Nat) {v : SvcThread}
    (hm : v.main = (s.thread t).main)
    (hb : v.status = .waitingFor →
      s.status t = .waitingFor ∧ v.statusData = (s.thread t).statusData) :
    KeepsThreads s (s.setThread t v) := by
  refine ⟨fun u => ?_, fun u hu => ?_⟩
  · by_cases h : u = t
    · subst h
      simpa [Scheduler.setThread] using hm
    · simp [Scheduler.setThread, h]
  · by_cases h : u = t
    · subst h
      simp only [Scheduler.status, Scheduler.setThread, Function.update_self] at hu ⊢
      exact hb hu
    · simpa [Scheduler.status, Scheduler.setThread, h] using hu

theorem Keeps.setThread (s : Scheduler) (t : Nat) {v : SvcThread} (hn : v.next = s.next t)
    (hm : v.main = (s.thread t).main)
    (hb : v.status = .waitingFor →
      s.status t = .waitingFor ∧ v.statusData = (s.thread t).statusData) :
    Keeps s (s.setThread t v) :=
  ⟨KeepsThreads.setThread s t hm hb, next_setThread s t v hn⟩

theorem Keeps.setStatus (s : Scheduler) (t : Nat) {st : ThreadStatus} (w : Word)
    (h : st ≠ .waitingFor) : Keeps s (s.setStatus t st w) :=
  Keeps.setThread s t rfl rfl fun hst => absurd hst h

theorem Keeps.saveRegs (s : Scheduler) (regs : Nat → Word) : Keeps s (s.saveRegs regs) :=
  Keeps.setThread s _ rfl rfl fun h => ⟨h, rfl⟩

theorem Keeps.wakeThread (w : Word) (s : Scheduler) (t : Nat) : Keeps s (wakeThread w s t) := by
  unfold Scheduling.wakeThread
  split
  · split
    · exact Keeps.setStatus s t _ (by decide)
    · exact Keeps.setStatus s t _ (by decide)
  · exact Keeps.refl s

theorem Keeps.release (u : Nat) (s : Scheduler) (t : Nat) : Keeps s (release u s t) := by
  unfold Scheduling.release
  split
  · exact Keeps.setThread s t rfl rfl fun h => absurd h (by simp)
  · exact Keeps.refl s

/-- What each round of a loop keeps, the loop keeps. -/
theorem Keeps.foldl {f : Scheduler → Nat → Scheduler} (hf : ∀ s t, Keeps s (f s t)) :
    ∀ (l : List Nat) (s : Scheduler), Keeps s (l.foldl f s) := by
  intro l
  induction l with
  | nil => exact Keeps.refl
  | cons t l ih => exact fun s => (hf s t).trans (ih (f s t))

theorem Keeps.pick {t : Nat} (h : pick l s = some (t, s')) : Keeps s s' := by
  unfold Scheduling.pick at h
  split at h
  · obtain ⟨-, rfl⟩ := Prod.mk.inj (Option.some.inj h)
    exact Keeps.refl s
  · split at h
    · obtain ⟨v, -, he⟩ := Option.map_eq_some_iff.mp h
      obtain ⟨-, rfl⟩ := Prod.mk.inj he
      exact Keeps.refl s
    · dsimp only at h
      split at h
      · exact absurd h (by simp)
      · obtain ⟨-, rfl⟩ := Prod.mk.inj (Option.some.inj h)
        have hslept : Keeps s { s with slept := (l.foldl (minWaitThread s) (0xffffffff#32, 0)).1
            * s.timesliceLength :: s.slept } := Keeps.of_thread rfl
        exact hslept.trans (Keeps.foldl (Keeps.wakeThread _) l _)

/-! ## Scheduling calls -/

/-- The state a call ends in, if its loops had enough fuel. -/
def Outcome.sched : Outcome → Option Scheduler
  | .returned _ s => some s
  | .resumed _ _ s => some s
  | .panicked _ s => some s
  | .outOfFuel => none

/-- The call ends, keeps what scheduling keeps, and leaves a thread of `l` running. -/
def Schedules (l : List Nat) (s : Scheduler) (x : Outcome) : Prop :=
  ∃ s', x.sched = some s' ∧ Keeps s s' ∧ s'.runningKernelThread ∈ l

theorem Schedules.after {x : Outcome} (h : Keeps s s') (h' : Schedules l s' x) :
    Schedules l s x := by
  obtain ⟨s'', hx, hk, hl⟩ := h'
  exact ⟨s'', hx, h.trans hk, hl⟩

theorem schedules_returned (h : s.runningKernelThread ∈ l) (m : Arm) :
    Schedules l s (.returned m s) := ⟨s, rfl, Keeps.refl s, h⟩

/-- `schedule_kernel_thread_current_saved` schedules. -/
theorem currentSaved_schedules (hr : Ring s l) {fuel : Nat} (hf : l.length ≤ fuel)
    (hrun : s.runningKernelThread ≠ 0) (task : Nat) (swiReturn : Word) (m : Arm) :
    Schedules l s (scheduleKernelThreadCurrentSaved fuel task swiReturn m s) := by
  by_cases htask : task = s.nucGuiTask
  · rcases currentSaved_eq hr hf swiReturn m hrun htask with ⟨t, s', hp, hx⟩ | ⟨_, msg, hx⟩
    · rw [hx]
      refine ⟨{ s' with runningKernelThread := t }, rfl, ?_, (pick_ring hp).1⟩
      exact (Keeps.pick hp).trans (Keeps.of_thread rfl)
    · rw [hx]
      exact ⟨s, rfl, Keeps.refl s, ring_mem_running hr⟩
  · unfold scheduleKernelThreadCurrentSaved
    rw [if_neg hrun, if_pos htask]
    exact schedules_returned (ring_mem_running hr) _

/-- A tick schedules. -/
theorem tick_schedules (hr : Ring s l) {fuel : Nat} (hf : l.length < fuel)
    (hrun : s.runningKernelThread ≠ 0) (task : Nat) (code : Compiled) (frame : Nat → Word)
    (m : Arm) : Schedules l s (scheduleKernelThread fuel task code frame m s) := by
  obtain ⟨fuel, rfl⟩ : ∃ n, fuel = n + 1 := ⟨fuel - 1, by omega⟩
  have hret : ∀ x, Schedules l s (.returned x s) := schedules_returned (ring_mem_running hr)
  unfold scheduleKernelThread
  rw [if_neg hrun]
  by_cases htask : task = s.nucGuiTask
  · rw [if_neg (not_not.mpr htask)]
    by_cases hone : s.next s.runningKernelThread = s.runningKernelThread
    · rw [if_pos hone]
      exact hret _
    · rw [if_neg hone]
      by_cases hsvc : Bank.ofPsr (((m.scratch code.atSwi).swi code.swiReturn
          (BitVec.ofNat 32 task)).spsr ((m.scratch code.atSwi).swi code.swiReturn
            (BitVec.ofNat 32 task)).bank) = .svc
      · simp only [hsvc, ne_eq, not_true_eq_false, if_false, tickLoop_eq]
        exact (currentSaved_schedules (ring_saveRegs hr _) (by omega) hrun ..).after
          (Keeps.saveRegs s _)
      · simp only [hsvc, ne_eq, not_false_eq_true, if_true]
        exact hret _
  · rw [if_pos htask]
    exact hret _

/-- Waiting for some time schedules. -/
theorem waitMillis_schedules (hr : Ring s l) {fuel : Nat} (hf : l.length ≤ fuel)
    (hrun : s.runningKernelThread ≠ 0) (task : Nat) (swiReturn base : Word) (regs : Nat → Word)
    (m : Arm) :
    Schedules l s (syscallKernelThreadWaitMillis fuel task swiReturn base regs m s) := by
  have hmem := ring_mem_running hr
  unfold syscallKernelThreadWaitMillis
  by_cases h0 : syscallGetReg base regs 0 = 0
  · rw [if_pos h0]
    exact schedules_returned hmem m
  rw [if_neg h0, schedulerKernelThreadWait, if_neg (by simp [hrun])]
  by_cases hticks : syscallGetReg base regs 0 / s.timesliceLength = 0
  · simp only [hticks, if_true]
    exact schedules_returned hmem m
  simp only [hticks, if_false, if_true]
  by_cases hone : s.next s.runningKernelThread = s.runningKernelThread
  · rw [if_pos hone]
    exact ⟨_, rfl, Keeps.of_thread rfl, hmem⟩
  · rw [if_neg hone]
    have hnot : ThreadStatus.waiting ≠ .waitingFor := by decide
    have hk := Keeps.setStatus s s.runningKernelThread
      (syscallGetReg base regs 0 / s.timesliceLength + 1) hnot
    have hr' : Ring (s.setStatus s.runningKernelThread .waiting
        (syscallGetReg base regs 0 / s.timesliceLength + 1)) l := hr.congr fun _ _ => by rw [hk.next]
    exact ((currentSaved_schedules (ring_saveRegs hr' _) hf hrun ..).after
      (Keeps.saveRegs _ _)).after hk

/-- The running thread after it asked to wait for another. -/
theorem block_running (s : Scheduler) (u : Nat) :
    (s.block s.runningKernelThread u).status s.runningKernelThread = .waitingFor ∧
      ((s.block s.runningKernelThread u).thread s.runningKernelThread).statusData = u := by
  simp [Scheduler.block, Scheduler.status, Scheduler.setThread]

theorem block_other (s : Scheduler) {t v : Nat} (u : Nat) (h : v ≠ t) :
    (s.block t u).thread v = s.thread v := Function.update_of_ne h _ _

/-- Waiting for a thread schedules, once the running thread is blocked; unless there
is nothing to wait for. -/
theorem waitFor_schedules (hr : Ring s l) {fuel : Nat} (hf : l.length ≤ fuel)
    (hrun : s.runningKernelThread ≠ 0) (task : Nat) (swiReturn base : Word) (regs : Nat → Word)
    (m : Arm) {h : Nat} (hh : (syscallGetReg base regs 0).toNat = h) :
    if h = 0 ∨ h = s.runningKernelThread
    then syscallKernelThreadWaitFor fuel task swiReturn base regs m s = .returned m s
    else Schedules l (s.block s.runningKernelThread h)
      (syscallKernelThreadWaitFor fuel task swiReturn base regs m s) := by
  have hzero : syscallGetReg base regs 0 = 0 ↔ h = 0 := by
    rw [← hh]
    exact BitVec.toNat_inj (x := syscallGetReg base regs 0) (y := 0#32) |>.symm
  unfold syscallKernelThreadWaitFor schedulerKernelThreadWaitThread
  rw [hh]
  by_cases h0 : h = 0
  · rw [if_pos (.inl h0), if_pos (hzero.mpr h0)]
  rw [if_neg (fun hz => h0 (hzero.mp hz))]
  by_cases hself : h = s.runningKernelThread
  · rw [if_pos (.inr hself), if_pos (.inr (.inr (.inr hself.symm)))]
  · rw [if_neg (by simp [h0, hself]), if_neg (by simp [h0, hrun, Ne.symm hself]), if_pos rfl]
    have hnext : (s.block s.runningKernelThread h).next = s.next := next_setThread s _ _ rfl
    have hr' : Ring (s.block s.runningKernelThread h) l := hr.congr fun _ _ => by rw [hnext]
    exact (currentSaved_schedules (ring_saveRegs hr' _) hf hrun ..).after (Keeps.saveRegs _ _)

/-! ## The loops that take threads out -/

theorem next_setNext (s : Scheduler) (t u : Nat) :
    (s.setNext t u).next = Function.update s.next t u := by
  funext v
  by_cases h : v = t
  · subst h
    simp [Scheduler.setNext, Scheduler.next, Scheduler.setThread]
  · simp [Scheduler.setNext, Scheduler.next, Scheduler.setThread, h]

theorem KeepsThreads.setNext (s : Scheduler) (t u : Nat) : KeepsThreads s (s.setNext t u) :=
  KeepsThreads.setThread s t rfl fun h => ⟨h, rfl⟩

/-- From `x` to the last thread of the ring, the release loop finds the last one. -/
theorem releaseLoop_suffix (stop : Nat) : ∀ (l : List Nat) (x : Nat) (s : Scheduler) (fuel : Nat),
    (x :: l).IsChain (fun a b => s.next a = b) → (∀ z ∈ (x :: l).getLast?, s.next z = stop) →
    stop ∉ l → l.length < fuel →
    ∃ z ∈ x :: l, s.next z = stop ∧
      releaseLoop stop fuel s x = some (z, l.foldl (release stop) s) := by
  intro l
  induction l with
  | nil =>
      intro x s fuel _ hlast _ hf
      obtain ⟨fuel, rfl⟩ : ∃ n, fuel = n + 1 := ⟨fuel - 1, by omega⟩
      have hx : s.next x = stop := hlast x rfl
      exact ⟨x, List.mem_cons_self .., hx, by rw [releaseLoop, if_pos hx]; rfl⟩
  | cons y l ih =>
      intro x s fuel hl hlast hstop hf
      obtain ⟨fuel, rfl⟩ : ∃ n, fuel = n + 1 := ⟨fuel - 1, by omega⟩
      obtain ⟨hxy, hl'⟩ := List.isChain_cons_cons.mp hl
      have hy : y ≠ stop := fun he => hstop (he ▸ List.mem_cons_self ..)
      have hk := Keeps.release stop s y
      obtain ⟨z, hz, hzn, hrun⟩ := ih y (release stop s y) fuel
        (by rw [hk.next]; exact hl')
        (by rw [hk.next]; exact fun z hz => hlast z (by rw [List.getLast?_cons_cons]; exact hz))
        (fun hm => hstop (List.mem_cons_of_mem _ hm)) (by simpa using hf)
      refine ⟨z, List.mem_cons_of_mem _ hz, by rw [← hzn, hk.next], ?_⟩
      rw [releaseLoop, if_neg (by rw [hxy]; exact hy)]
      simp only [hxy, hk.next]
      exact hrun

/-- From `x` on, the search for the thread before `t` finds it if `t` comes later. -/
theorem removeLoop_suffix (rounds t : Nat) (s : Scheduler) :
    ∀ (l : List Nat) (x fuel : Nat), (x :: l).IsChain (fun a b => s.next a = b) →
    (∀ z ∈ (x :: l).getLast?, s.next z = s.runningKernelThread) → s.runningKernelThread ∉ l →
    t ≠ s.runningKernelThread → l.length < fuel →
    if t ∈ l then ∃ z ∈ x :: l, s.next z = t ∧ ∀ o, removeLoop rounds t fuel s o x
        = (doWhile Scheduler.next s.runningKernelThread (updateBody (release t)) rounds
            (s.setNext z (s.next t)) s.runningKernelThread).map
            (fun r => match r with
              | .inr s => (s, destroySvcThread t o))
    else ∀ o, removeLoop rounds t fuel s o x = some (s, o) := by
  intro l
  induction l with
  | nil =>
      intro x fuel _ hlast _ ht hf
      obtain ⟨fuel, rfl⟩ : ∃ n, fuel = n + 1 := ⟨fuel - 1, by omega⟩
      have hx : s.next x = s.runningKernelThread := hlast x rfl
      rw [if_neg (by simp)]
      intro o
      rw [removeLoop, if_neg (by rw [hx]; exact ht.symm), if_pos hx]
  | cons y l ih =>
      intro x fuel hl hlast hstop ht hf
      obtain ⟨fuel, rfl⟩ : ∃ n, fuel = n + 1 := ⟨fuel - 1, by omega⟩
      obtain ⟨hxy, hl'⟩ := List.isChain_cons_cons.mp hl
      have hy : y ≠ s.runningKernelThread := fun he => hstop (he ▸ List.mem_cons_self ..)
      -- the loop looks one ahead, and unlinks at the thread before the one it is after
      by_cases hyt : y = t
      · rw [if_pos (by simp [hyt])]
        refine ⟨x, List.mem_cons_self .., hxy.trans hyt, fun o => ?_⟩
        rw [removeLoop, if_pos (hxy.trans hyt)]
        rfl
      · have hrest := ih y fuel hl'
          (fun z hz => hlast z (by rw [List.getLast?_cons_cons]; exact hz))
          (fun hm => hstop (List.mem_cons_of_mem _ hm)) ht (by simpa using hf)
        have hstep : ∀ o, removeLoop rounds t (fuel + 1) s o x = removeLoop rounds t fuel s o y := by
          intro o
          rw [removeLoop, if_neg (by rw [hxy]; exact hyt), if_neg (by rw [hxy]; exact hy), hxy]
        have hmem : t ∈ y :: l ↔ t ∈ l := by simp [Ne.symm hyt]
        by_cases htl : t ∈ l
        · rw [if_pos htl] at hrest
          rw [if_pos (hmem.mpr htl)]
          obtain ⟨z, hz, hzt, hrun⟩ := hrest
          exact ⟨z, List.mem_cons_of_mem _ hz, hzt, fun o => (hstep o).trans (hrun o)⟩
        · rw [if_neg htl] at hrest
          rw [if_neg (fun h => htl (hmem.mp h))]
          exact fun o => (hstep o).trans (hrest o)

/-! ## Tearing the ring down -/

/-- The thread objects after all of a list were destroyed. -/
def destroyAll (l : List Nat) (o : Objects) : Objects := l.foldl (fun o t => destroySvcThread t o) o

theorem destroyAll_destroyed (l : List Nat) : ∀ o,
    (destroyAll l o).destroyed = l.reverse ++ o.destroyed := by
  induction l with
  | nil => exact fun _ => rfl
  | cons t l ih =>
      intro o
      show (destroyAll l (destroySvcThread t o)).destroyed = _
      rw [ih, List.reverse_cons, List.append_assoc]
      rfl

theorem destroyAll_live (l : List Nat) : ∀ o, (destroyAll l o).live = o.live.diff l := by
  induction l with
  | nil => exact fun _ => rfl
  | cons t l ih =>
      intro o
      show (destroyAll l (destroySvcThread t o)).live = _
      rw [ih]
      exact (List.diff_cons _ _ _).symm

/-- The tear-down destroys the rest of the ring in order. -/
theorem destroyLoop_suffix (stop : Nat) (s : Scheduler) : ∀ (l : List Nat) (x fuel : Nat) (o : Objects),
    (x :: l).IsChain (fun a b => s.next a = b) → (∀ z ∈ (x :: l).getLast?, s.next z = stop) →
    stop ∉ l → l.length < fuel →
    destroyLoop stop s fuel x o = some (destroyAll (x :: l) o) := by
  intro l
  induction l with
  | nil =>
      intro x fuel o _ hlast _ hf
      obtain ⟨fuel, rfl⟩ : ∃ n, fuel = n + 1 := ⟨fuel - 1, by omega⟩
      have hx : s.next x = stop := hlast x rfl
      simp only [destroyLoop, hx, if_true]
      rfl
  | cons y l ih =>
      intro x fuel o hl hlast hstop hf
      obtain ⟨fuel, rfl⟩ : ∃ n, fuel = n + 1 := ⟨fuel - 1, by omega⟩
      obtain ⟨hxy, hl'⟩ := List.isChain_cons_cons.mp hl
      have hy : y ≠ stop := fun he => hstop (he ▸ List.mem_cons_self ..)
      simp only [destroyLoop, hxy, hy, if_false]
      exact ih y fuel _ hl' (fun z hz => hlast z (by rw [List.getLast?_cons_cons]; exact hz))
        (fun hm => hstop (List.mem_cons_of_mem _ hm)) (by simpa using hf)

/-- **Turning scheduling off** destroys the ring, thread by thread. -/
theorem disable_destroys (hr : Ring s l) {fuel : Nat} (hf : l.length ≤ fuel)
    (hrun : s.runningKernelThread ≠ 0) (hmain : (s.thread s.runningKernelThread).main = true)
    (o : Objects) : schedulerDisableKernelThreadScheduling fuel s o
      = some ({ s with runningKernelThread := 0 }, destroyAll l o) := by
  have hcons := hr.eq_cons
  have hring := hr
  rw [hcons] at hring
  have hnd := List.nodup_cons.mp hring.nodup
  have hlen : l.tail.length < fuel := by
    rw [hcons, List.length_cons] at hf
    omega
  rw [schedulerDisableKernelThreadScheduling, if_neg hrun, if_neg (by simp [hmain]),
    destroyLoop_suffix s.runningKernelThread s l.tail s.runningKernelThread fuel o hring.links
      hring.closed hnd.1 hlen, ← hcons]
  rfl

end OSExt.Scheduling
