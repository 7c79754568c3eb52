import OSExt.Scheduling.Scheduler

/-!
# The scheduler's loops as list functions

Over a ring every loop of the scheduler is a `find?` or a `foldl` over the list
of its threads, starting at the running one. Everything proved about scheduling
goes through these closed forms; the fuel and the links appear here only.
-/

namespace OSExt.Scheduling

open Lib

/-- The threads of the ring, the running one first. -/
abbrev Ring (s : Scheduler) (l : List Nat) : Prop := IsRing s.next s.runningKernelThread l

/-! ## What an update leaves alone -/

theorem next_setThread (s : Scheduler) (t : Nat) (v : SvcThread) (h : v.next = s.next t) :
    (s.setThread t v).next = s.next := by
  funext u
  unfold Scheduler.next Scheduler.setThread
  by_cases hu : u = t
  · subst hu; simp [h, Scheduler.next]
  · simp [hu]

theorem next_setStatus (s : Scheduler) (t : Nat) (st : ThreadStatus) (w : Word) :
    (s.setStatus t st w).next = s.next := next_setThread s t _ rfl

theorem next_saveRegs (s : Scheduler) (regs : Nat → Word) : (s.saveRegs regs).next = s.next :=
  next_setThread s _ _ rfl

theorem regs_setStatus (s : Scheduler) (t : Nat) (st : ThreadStatus) (w : Word) (u : Nat) :
    ((s.setStatus t st w).thread u).regs = (s.thread u).regs := by
  unfold Scheduler.setStatus Scheduler.setThread
  by_cases hu : u = t
  · subst hu; simp
  · simp [hu]

theorem status_setStatus (s : Scheduler) (t : Nat) (st : ThreadStatus) (w : Word) (u : Nat) :
    (s.setStatus t st w).status u = if u = t then st else s.status u := by
  unfold Scheduler.setStatus Scheduler.setThread Scheduler.status
  by_cases hu : u = t
  · subst hu; simp
  · simp [hu]

theorem waiting_setStatus (s : Scheduler) (t : Nat) (st : ThreadStatus) (w : Word) (u : Nat) :
    (s.setStatus t st w).waiting u = if u = t then w else s.waiting u := by
  unfold Scheduler.setStatus Scheduler.setThread Scheduler.waiting
  by_cases hu : u = t
  · subst hu; simp
  · simp [hu]

theorem status_saveRegs (s : Scheduler) (regs : Nat → Word) (u : Nat) :
    (s.saveRegs regs).status u = s.status u := by
  unfold Scheduler.saveRegs Scheduler.setThread Scheduler.status
  by_cases hu : u = s.runningKernelThread
  · subst hu; simp
  · simp [hu]

theorem waiting_saveRegs (s : Scheduler) (regs : Nat → Word) (u : Nat) :
    (s.saveRegs regs).waiting u = s.waiting u := by
  unfold Scheduler.saveRegs Scheduler.setThread Scheduler.waiting
  by_cases hu : u = s.runningKernelThread
  · subst hu; simp
  · simp [hu]

theorem regs_saveRegs_self (s : Scheduler) (regs : Nat → Word) :
    ((s.saveRegs regs).thread s.runningKernelThread).regs = regs := by
  simp [Scheduler.saveRegs, Scheduler.setThread]

theorem ring_saveRegs {s : Scheduler} {l : List Nat} (h : Ring s l) (regs : Nat → Word) :
    Ring (s.saveRegs regs) l := by
  have h' : IsRing (s.saveRegs regs).next s.runningKernelThread l := by
    rw [next_saveRegs]
    exact h
  exact h'

theorem ring_mem_running {s : Scheduler} {l : List Nat} (h : Ring s l) :
    s.runningKernelThread ∈ l := List.mem_of_mem_head? h.head

/-! ## Closed forms -/

theorem keepsLinks_update {f : Scheduler → Nat → Scheduler}
    (hf : ∀ s t, (f s t).next = s.next) : KeepsLinks Scheduler.next (updateBody f) := by
  intro s t s' h
  rw [← Sum.inr.inj h]
  exact hf s t

theorem scan_update (f : Scheduler → Nat → Scheduler) : ∀ (l : List Nat) (s : Scheduler),
    scan (updateBody f) l s = .inr (l.foldl f s)
  | [], _ => rfl
  | t :: l, s => scan_update f l (f s t)

theorem next_wakeThread (w : Word) (s : Scheduler) (t : Nat) : (wakeThread w s t).next = s.next := by
  unfold wakeThread
  split
  · split <;> exact next_setStatus s t _ _
  · rfl

theorem findInRing_eq {s : Scheduler} {l : List Nat} (h : Ring s l) {fuel : Nat}
    (hf : l.length ≤ fuel) (test : Nat → Bool) : findInRing fuel s test = some (l.find? test) := by
  have hk : KeepsLinks Scheduler.next
      (fun (s : Scheduler) t => if test t then (.inl t : Nat ⊕ Scheduler) else .inr s) := by
    intro s t s' hb
    dsimp only at hb
    split at hb
    · exact absurd hb (by simp)
    · rw [Sum.inr.inj hb]
  unfold findInRing
  rw [doWhile_ring hk h hf, scan_find (fun _ t => t)]
  cases l.find? test <;> rfl

theorem minWaitLoop_eq {s : Scheduler} {l : List Nat} (h : Ring s l) {fuel : Nat}
    (hf : l.length ≤ fuel) :
    minWaitLoop fuel s = some (l.foldl (minWaitThread s) (0xffffffff#32, 0)) := by
  have hscan : ∀ (l : List Nat) (best : Word × Nat),
      scan (fun best t => (.inr (minWaitThread s best t) : Empty ⊕ (Word × Nat))) l best
        = .inr (l.foldl (minWaitThread s) best) := by
    intro l
    induction l with
    | nil => exact fun _ => rfl
    | cons t l ih => exact fun best => ih (minWaitThread s best t)
  unfold minWaitLoop
  have hk : KeepsLinks (fun (_ : Word × Nat) t => s.next t)
      (fun best t => (.inr (minWaitThread s best t) : Empty ⊕ (Word × Nat))) := fun _ _ _ _ => rfl
  rw [doWhile_ring hk h hf, hscan]
  rfl

theorem wakeLoop_eq {s : Scheduler} {l : List Nat} (h : Ring s l) {fuel : Nat}
    (hf : l.length ≤ fuel) (w : Word) : wakeLoop fuel w s = some (l.foldl (wakeThread w) s) := by
  unfold wakeLoop
  rw [doWhile_ring (keepsLinks_update (next_wakeThread w)) h hf, scan_update]
  rfl

/--
**The accounting loop of a tick never runs.** Its cursor starts at the running
thread, which is also where it stops.
-/
theorem tickLoop_eq (fuel : Nat) (s : Scheduler) : tickLoop (fuel + 1) s = some s := by
  unfold tickLoop
  rw [whileNe_self]
  rfl

/-! ## Loops that rewrite each thread -/

/-- The body `g` applies `f` to the thread it is at, and to no other. -/
def Rewrites (g : Scheduler → Nat → Scheduler) (f : SvcThread → SvcThread) : Prop :=
  ∀ s t, (g s t).thread = Function.update s.thread t (f (s.thread t))

/-- **Such a loop rewrites each thread of the list once.** -/
theorem Rewrites.foldl {g : Scheduler → Nat → Scheduler} {f : SvcThread → SvcThread}
    (hg : Rewrites g f) : ∀ (l : List Nat) (s : Scheduler), l.Nodup → ∀ t,
    (l.foldl g s).thread t = if t ∈ l then f (s.thread t) else s.thread t := by
  intro l
  induction l with
  | nil =>
      intro s _ t
      rw [List.foldl_nil, if_neg (List.not_mem_nil)]
  | cons u l ih =>
      intro s hnd t
      obtain ⟨hu, hnd'⟩ := List.nodup_cons.mp hnd
      rw [List.foldl_cons, ih (g s u) hnd' t, hg s u]
      by_cases ht : t = u
      · subst ht
        rw [if_neg hu, if_pos (List.mem_cons_self ..), Function.update_self]
      · rw [Function.update_of_ne ht]
        by_cases hl : t ∈ l
        · rw [if_pos hl, if_pos (List.mem_cons_of_mem _ hl)]
        · rw [if_neg hl, if_neg fun h => (List.mem_cons.mp h).elim ht hl]

/-! ## Picking a thread -/

/-- The state after sleeping for the shortest wait. -/
def sleepFor (l : List Nat) (w : Word) (s : Scheduler) : Scheduler :=
  l.foldl (wakeThread w) { s with slept := w * s.timesliceLength :: s.slept }

/-- Which thread a scheduling call resumes, and in which state it leaves the threads. -/
def pick (l : List Nat) (s : Scheduler) : Option (Nat × Scheduler) :=
  match l.find? (fun t => s.status t == .runnable) with
  | some t => some (t, s)
  | none =>
    if (l.find? (fun t => s.status t == .waiting)).isNone then
      (l.find? (fun t => (s.thread t).main)).map (·, s)
    else
      let best := l.foldl (minWaitThread s) (0xffffffff#32, 0)
      if best.2 = 0 then none else some (best.2, sleepFor l best.1 s)

/-- `schedule_kernel_thread_current_saved` resumes what `pick` picks, or panics. -/
theorem currentSaved_eq {s : Scheduler} {l : List Nat} (h : Ring s l) {fuel : Nat}
    (hf : l.length ≤ fuel) {task : Nat} (swiReturn : Word) (m : Arm)
    (hrun : s.runningKernelThread ≠ 0) (htask : task = s.nucGuiTask) :
    (∃ t s', pick l s = some (t, s') ∧
      scheduleKernelThreadCurrentSaved fuel task swiReturn m s
        = resume (m.swi swiReturn (BitVec.ofNat 32 task)) s' t)
    ∨ (pick l s = none ∧
      ∃ msg, scheduleKernelThreadCurrentSaved fuel task swiReturn m s = .panicked msg s) := by
  unfold scheduleKernelThreadCurrentSaved pick
  have htask' : ¬ task ≠ s.nucGuiTask := not_not.mpr htask
  simp only [hrun, htask', if_false, findInRing_eq h hf]
  cases hr : l.find? (fun t => s.status t == .runnable) with
  | some t => exact .inl ⟨t, s, rfl, rfl⟩
  | none =>
      have hblocked : (if s.status s.runningKernelThread = .waiting then some false
          else Option.map Option.isNone (some (l.find? (fun t => s.status t == .waiting))))
            = some (l.find? (fun t => s.status t == .waiting)).isNone := by
        split
        · rename_i hw
          -- the running thread is on the ring, so the search finds a waiting one
          have hne : l.find? (fun t => s.status t == .waiting) ≠ none := by
            intro hnone
            have h0 := List.find?_eq_none.mp hnone _ (ring_mem_running h)
            rw [hw] at h0
            exact h0 (by decide)
          cases hq : l.find? (fun t => s.status t == .waiting) with
          | none => exact absurd hq hne
          | some t => rfl
        · rfl
      simp only [hblocked]
      cases hq : l.find? (fun t => s.status t == .waiting) with
      | none =>
          simp only [Option.isNone_none]
          cases hm : l.find? (fun t => (s.thread t).main) with
          | none => exact .inr ⟨rfl, _, rfl⟩
          | some t => exact .inl ⟨t, s, rfl, rfl⟩
      | some u =>
          simp only [Option.isNone_some, minWaitLoop_eq h hf]
          by_cases hz : (l.foldl (minWaitThread s) (0xffffffff#32, 0)).2 = 0
          · exact .inr ⟨if_pos hz, _, if_pos hz⟩
          · have hring : Ring { s with slept := (l.foldl (minWaitThread s) (0xffffffff#32, 0)).1
                * s.timesliceLength :: s.slept } l := h
            refine .inl ⟨_, _, if_neg hz, ?_⟩
            rw [if_neg hz, wakeLoop_eq hring hf]
            rfl

/-- Sleeping and picking change no saved context. -/
theorem regs_sleepFor (w : Word) (u : Nat) : ∀ (l : List Nat) (s : Scheduler),
    ((l.foldl (wakeThread w) s).thread u).regs = (s.thread u).regs
  | [], _ => rfl
  | t :: l, s => by
      rw [List.foldl_cons, regs_sleepFor w u l]
      unfold wakeThread
      split
      · split <;> exact regs_setStatus s t _ _ u
      · rfl

theorem regs_pick {l : List Nat} {s s' : Scheduler} {t : Nat} (h : pick l s = some (t, s'))
    (u : Nat) : (s'.thread u).regs = (s.thread u).regs := by
  unfold pick at h
  split at h
  · simp only [Option.some.injEq, Prod.mk.injEq] at h
    rw [h.2]
  · split at h
    · obtain ⟨v, _, hv⟩ := Option.map_eq_some_iff.mp h
      rw [(Prod.mk.inj hv).2]
    · dsimp only at h
      split at h
      · exact absurd h (by simp)
      · simp only [Option.some.injEq, Prod.mk.injEq] at h
        rw [← h.2, sleepFor, regs_sleepFor]

/-! ## The shortest wait -/

/-- The search ends at a thread of the list, unless it stays where it began. -/
theorem minWait_thread (s : Scheduler) : ∀ (l : List Nat) (best : Word × Nat),
    (l.foldl (minWaitThread s) best) = best
      ∨ ((l.foldl (minWaitThread s) best).2 ∈ l
        ∧ s.status (l.foldl (minWaitThread s) best).2 = .waiting
        ∧ s.waiting (l.foldl (minWaitThread s) best).2 = (l.foldl (minWaitThread s) best).1)
  | [], best => .inl rfl
  | t :: l, best => by
      rw [List.foldl_cons]
      have hstep : minWaitThread s best t = best
          ∨ (minWaitThread s best t).2 = t ∧ s.status t = .waiting
            ∧ s.waiting t = (minWaitThread s best t).1 := by
        unfold minWaitThread
        split
        · rename_i hw
          split
          · exact .inr ⟨rfl, hw, rfl⟩
          · split
            · rename_i he
              exact .inr ⟨rfl, hw, he.1⟩
            · exact .inl rfl
        · exact .inl rfl
      rcases minWait_thread s l (minWaitThread s best t) with hrest | ⟨hmem, hst, hwt⟩
      · rw [hrest]
        rcases hstep with hsame | ⟨ht, hst, hwt⟩
        · exact .inl hsame
        · rw [ht]
          exact .inr ⟨List.mem_cons_self .., hst, hwt⟩
      · exact .inr ⟨List.mem_cons_of_mem _ hmem, hst, hwt⟩

/-- The wait found is a lower bound. -/
theorem minWait_le (s : Scheduler) : ∀ (l : List Nat) (best : Word × Nat),
    (l.foldl (minWaitThread s) best).1 ≤ best.1
      ∧ ∀ t ∈ l, s.status t = .waiting → (l.foldl (minWaitThread s) best).1 ≤ s.waiting t
  | [], best => ⟨BitVec.le_refl _, by simp⟩
  | t :: l, best => by
      rw [List.foldl_cons]
      obtain ⟨hle, hall⟩ := minWait_le s l (minWaitThread s best t)
      have hstep : (minWaitThread s best t).1 ≤ best.1
          ∧ (s.status t = .waiting → (minWaitThread s best t).1 ≤ s.waiting t) := by
        unfold minWaitThread
        split
        · split
          · rename_i hlt
            exact ⟨BitVec.le_of_lt hlt, fun _ => BitVec.le_refl _⟩
          · rename_i hlt
            have hge := BitVec.not_lt.mp hlt
            split
            · exact ⟨BitVec.le_refl _, fun _ => hge⟩
            · exact ⟨BitVec.le_refl _, fun _ => hge⟩
        · rename_i hw
          exact ⟨BitVec.le_refl _, fun h => absurd h hw⟩
      refine ⟨BitVec.le_trans hle hstep.1, ?_⟩
      intro u hu hw
      rcases List.mem_cons.mp hu with rfl | hu
      · exact BitVec.le_trans hle (hstep.2 hw)
      · exact hall u hu hw

/-- When the search ends without a thread: only the running one waits, and for as long as can be. -/
theorem minWait_none {s : Scheduler} (b : Word) : ∀ {l : List Nat}, 0 ∉ l →
    ((l.foldl (minWaitThread s) (b, 0)).2 = 0 ↔
      ∀ t ∈ l, s.status t = .waiting →
        b ≤ s.waiting t ∧ (s.waiting t = b → t = s.runningKernelThread))
  | [], _ => by simp
  | t :: l, h0 => by
      have ht0 : t ≠ 0 := fun h => h0 (h ▸ List.mem_cons_self ..)
      have h0' : 0 ∉ l := fun h => h0 (List.mem_cons_of_mem _ h)
      rw [List.foldl_cons]
      by_cases hkeep : s.status t = .waiting →
          b ≤ s.waiting t ∧ (s.waiting t = b → t = s.runningKernelThread)
      · -- the search passes over `t`
        have hsame : minWaitThread s (b, 0) t = (b, 0) := by
          unfold minWaitThread
          split
          · rename_i hw
            obtain ⟨hle, heq⟩ := hkeep hw
            rw [if_neg (BitVec.not_lt.mpr hle), if_neg (fun h => h.2 (heq h.1))]
          · rfl
        rw [hsame, minWait_none b h0']
        constructor
        · intro h u hu
          rcases List.mem_cons.mp hu with rfl | hu
          · exact hkeep
          · exact h u hu
        · exact fun h u hu => h u (List.mem_cons_of_mem _ hu)
      · -- the search takes `t`, and any thread it takes later is not NULL either
        have htake : (minWaitThread s (b, 0) t).2 = t := by
          unfold minWaitThread
          rw [if_pos (by_contra fun h => hkeep (fun h' => absurd h' h))]
          split
          · rfl
          · rename_i hlt
            rw [if_pos]
            by_contra hno
            refine hkeep fun _ => ⟨BitVec.not_lt.mp hlt, fun he => ?_⟩
            exact by_contra fun hne => hno ⟨he, hne⟩
        constructor
        · intro hz
          rcases minWait_thread s l (minWaitThread s (b, 0) t) with hrest | ⟨hmem, _⟩
          · rw [hrest, htake] at hz
            exact absurd hz ht0
          · rw [hz] at hmem
            exact absurd hmem h0'
        · exact fun h => absurd (h t (List.mem_cons_self ..)) hkeep

/-- No thread can be resumed, and sleeping does not make one. -/
def NothingToRun (l : List Nat) (s : Scheduler) : Prop :=
  (∀ t ∈ l, s.status t ≠ .runnable)
    ∧ ((∀ t ∈ l, s.status t ≠ .waiting ∧ (s.thread t).main = false)
      ∨ (∃ t ∈ l, s.status t = .waiting)
        ∧ ∀ t ∈ l, s.status t = .waiting → t = s.runningKernelThread ∧ s.waiting t = 0xffffffff#32)

/-- No wait is longer than the value the search starts from. -/
theorem le_allOnes (w : Word) : 0xffffffff#32 ≤ w ↔ w = 0xffffffff#32 := by
  rw [BitVec.le_def, ← BitVec.toNat_inj]
  have := w.isLt
  simp only [BitVec.reduceToNat]
  omega

/-- `pick` fails, and the scheduler panics, exactly when there is nothing to run. -/
theorem pick_eq_none {l : List Nat} {s : Scheduler} (h0 : 0 ∉ l) :
    pick l s = none ↔ NothingToRun l s := by
  unfold pick NothingToRun
  cases hr : l.find? (fun t => s.status t == .runnable) with
  | some t =>
      have hst : s.status t = .runnable := by simpa using List.find?_some hr
      constructor
      · exact fun h => absurd h (by simp)
      · exact fun h => absurd hst (h.1 t (List.mem_of_find?_eq_some hr))
  | none =>
      have hnr : ∀ t ∈ l, s.status t ≠ .runnable := by simpa using hr
      cases hq : l.find? (fun t => s.status t == .waiting) with
      | none =>
          -- nobody waits for a time
          have hnw : ∀ t ∈ l, s.status t ≠ .waiting := by simpa using hq
          simp only [Option.isNone_none, if_true, Option.map_eq_none_iff, List.find?_eq_none]
          constructor
          · intro h
            exact ⟨hnr, .inl fun t ht => ⟨hnw t ht, by simpa using h t ht⟩⟩
          · intro hgiven
            rcases hgiven with ⟨_, h | ⟨⟨t, ht, hw⟩, _⟩⟩
            · intro t ht
              simp [(h t ht).2]
            · exact absurd hw (hnw t ht)
      | some u =>
          have hu : u ∈ l ∧ s.status u = .waiting :=
            ⟨List.mem_of_find?_eq_some hq, by simpa using List.find?_some hq⟩
          -- the shortest wait is only missing where every wait has the longest time
          have hmin := minWait_none (s := s) 0xffffffff#32 h0
          simp only [Option.isNone_some, Bool.false_eq_true, if_false, ite_eq_left_iff,
            reduceCtorEq, imp_false, not_not]
          rw [hmin]
          constructor
          · intro h
            refine ⟨hnr, .inr ⟨⟨u, hu⟩, fun t ht hw => ?_⟩⟩
            obtain ⟨hle, heq⟩ := h t ht hw
            have hmax := (le_allOnes _).mp hle
            exact ⟨heq hmax, hmax⟩
          · intro hgiven
            rcases hgiven with ⟨_, h | ⟨_, h⟩⟩
            · exact absurd hu.2 (h u hu.1).1
            · intro t ht hw
              obtain ⟨hrun, hmax⟩ := h t ht hw
              exact ⟨(le_allOnes _).mpr hmax, fun _ => hrun⟩

end OSExt.Scheduling
