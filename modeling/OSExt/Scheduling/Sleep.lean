import OSExt.Scheduling.Ticks

/-!
# What a tick does to sleeping threads

The accounting loop of a tick never runs, so a sleeping thread is only woken by
the scheduler running out of RUNNABLE threads: then it sleeps for the shortest
wait and subtracts that from all of them. The two differ unless the shortest
wait happens to be a single tick.
-/

namespace OSExt.Scheduling

open Lib

/-- A waiting counter after one tick. -/
def counted (w : Word) : Word := if w = 0 then 0 else w - 1

/--
One tick's accounting: the counters of the WAITING threads go down by one, those
that reach 0 become RUNNABLE, and no other status changes.
-/
def TickAccounts (l : List Nat) (s s' : Scheduler) : Prop :=
  ∀ t ∈ l,
    if s.status t = .waiting then
      s'.waiting t = counted (s.waiting t)
        ∧ s'.status t = if counted (s.waiting t) = 0 then .runnable else .waiting
    else s'.status t = s.status t

/-- The accounting of a call, by the state it leaves the threads in. -/
def Accounts (l : List Nat) (s : Scheduler) : Outcome → Prop
  | .returned _ s' => TickAccounts l s s'
  | .resumed _ _ s' => TickAccounts l s s'
  | .panicked _ s' => TickAccounts l s s'
  | .outOfFuel => False

/--
Nothing to account for, or sleeping for the shortest wait happens to be right: no
thread is RUNNABLE, and the shortest wait is one tick or every wait is 0.
-/
def SleepsOneTick (l : List Nat) (s : Scheduler) : Prop :=
  (∀ t ∈ l, s.status t ≠ .waiting)
    ∨ (∀ t ∈ l, s.status t ≠ .runnable)
      ∧ ((∃ t ∈ l, s.status t = .waiting ∧ s.waiting t = 1)
          ∧ (∀ t ∈ l, s.status t = .waiting → s.waiting t ≠ 0)
        ∨ ∀ t ∈ l, s.status t = .waiting → s.waiting t = 0)

/-! ## What the wake-up loop does -/

theorem wakeThread_status (w : Word) (s : Scheduler) (u t : Nat) :
    (wakeThread w s u).status t
      = if t = u ∧ s.status u = .waiting ∧ s.waiting u ≤ w then .runnable else s.status t := by
  unfold wakeThread
  by_cases hw : s.status u = .waiting
  · rw [if_pos hw]
    by_cases hle : s.waiting u ≤ w
    · rw [if_pos hle, status_setStatus]
      simp [hw, hle]
    · rw [if_neg hle, status_setStatus]
      by_cases ht : t = u
      · subst ht; simp [hw, hle]
      · simp [ht]
  · rw [if_neg hw]
    simp [hw]

theorem wakeThread_waiting (w : Word) (s : Scheduler) (u t : Nat) :
    (wakeThread w s u).waiting t
      = if t = u ∧ s.status u = .waiting then
          (if s.waiting u ≤ w then 0 else s.waiting u - w) else s.waiting t := by
  unfold wakeThread
  by_cases hw : s.status u = .waiting
  · rw [if_pos hw]
    by_cases hle : s.waiting u ≤ w
    · rw [if_pos hle, waiting_setStatus]
      simp [hw, hle]
    · rw [if_neg hle, waiting_setStatus]
      simp [hw, hle]
  · rw [if_neg hw]
    simp [hw]

/-- The loop reaches each thread of the ring once and leaves all others alone. -/
theorem foldl_wakeThread (w : Word) : ∀ (l : List Nat) (s : Scheduler), l.Nodup → ∀ t,
    ((l.foldl (wakeThread w) s).status t
        = if t ∈ l ∧ s.status t = .waiting ∧ s.waiting t ≤ w then .runnable else s.status t)
      ∧ (l.foldl (wakeThread w) s).waiting t
        = if t ∈ l ∧ s.status t = .waiting then
            (if s.waiting t ≤ w then 0 else s.waiting t - w) else s.waiting t
  | [], s, _, t => by simp
  | u :: l, s, hnd, t => by
      obtain ⟨hu, hnd'⟩ := List.nodup_cons.mp hnd
      obtain ⟨hst, hwt⟩ := foldl_wakeThread w l (wakeThread w s u) hnd' t
      have hsu := wakeThread_status w s u t
      have hwu := wakeThread_waiting w s u t
      rw [List.foldl_cons, hst, hwt]
      by_cases ht : t = u
      · subst ht
        simp only [hu, false_and, if_false, List.mem_cons_self, true_and, hsu, hwu, and_self]
      · simp only [ht, false_and, if_false] at hsu hwu
        simp only [hsu, hwu, List.mem_cons, ht, false_or, and_self]

theorem sleepFor_status {l : List Nat} (hnd : l.Nodup) (w : Word) (s : Scheduler) {t : Nat}
    (ht : t ∈ l) : (sleepFor l w s).status t
      = if s.status t = .waiting ∧ s.waiting t ≤ w then .runnable else s.status t := by
  have h := (foldl_wakeThread w l { s with slept := w * s.timesliceLength :: s.slept } hnd t).1
  rw [sleepFor, h]
  simp only [ht, true_and]
  rfl

theorem sleepFor_waiting {l : List Nat} (hnd : l.Nodup) (w : Word) (s : Scheduler) {t : Nat}
    (ht : t ∈ l) (hw : s.status t = .waiting) : (sleepFor l w s).waiting t
      = if s.waiting t ≤ w then 0 else s.waiting t - w := by
  have h := (foldl_wakeThread w l { s with slept := w * s.timesliceLength :: s.slept } hnd t).2
  rw [sleepFor, h, if_pos ⟨ht, hw⟩]
  rfl

/-! ## One tick -/

/-- What `pick` leaves behind: the threads as they were, or after the shortest wait. -/
theorem pick_state {l : List Nat} {s s' : Scheduler} {t : Nat} (h : pick l s = some (t, s')) :
    (s' = s ∧ ((∃ u ∈ l, s.status u = .runnable) ∨ ∀ u ∈ l, s.status u ≠ .waiting))
      ∨ ∃ w, s' = sleepFor l w s ∧ (∀ u ∈ l, s.status u ≠ .runnable)
        ∧ (∃ u ∈ l, s.status u = .waiting ∧ s.waiting u = w)
        ∧ ∀ u ∈ l, s.status u = .waiting → w ≤ s.waiting u := by
  unfold pick at h
  split at h
  · rename_i u hu
    have hst : s.status u = .runnable := by simpa using List.find?_some hu
    exact .inl ⟨(Prod.mk.inj (Option.some.inj h)).2.symm,
      .inl ⟨u, List.mem_of_find?_eq_some hu, hst⟩⟩
  · rename_i hnone
    have hnr : ∀ u ∈ l, s.status u ≠ .runnable := by simpa using hnone
    split at h
    · rename_i hw
      obtain ⟨v, -, he⟩ := Option.map_eq_some_iff.mp h
      have hnw : ∀ u ∈ l, s.status u ≠ .waiting := by simpa using hw
      exact .inl ⟨(Prod.mk.inj he).2.symm, .inr hnw⟩
    · dsimp only at h
      split at h
      · exact absurd h (by simp)
      · rename_i hne
        refine .inr ⟨_, (Prod.mk.inj (Option.some.inj h)).2.symm, hnr, ?_,
          (minWait_le s l (0xffffffff#32, 0)).2⟩
        rcases minWait_thread s l (0xffffffff#32, 0) with hsame | ⟨hmem, hst, hwt⟩
        · exact absurd (by rw [hsame]) hne
        · exact ⟨_, hmem, hst, hwt⟩

theorem counted_ne {w : Word} (h : w ≠ 0) : counted w ≠ w := by
  unfold counted
  rw [if_neg h]
  bv_omega

/-- A state that does not change is accounted for only if no thread is waiting. -/
theorem tickAccounts_self {l : List Nat} {s : Scheduler} :
    TickAccounts l s s ↔ ∀ t ∈ l, s.status t ≠ .waiting := by
  constructor
  · intro h t ht hw
    have hacc := h t ht
    rw [if_pos hw] at hacc
    by_cases hz : s.waiting t = 0
    · have hrun := hacc.2
      simp [counted, hz, hw] at hrun
    · exact counted_ne hz hacc.1.symm
  · intro h t ht
    rw [if_neg (h t ht)]

/-- Sleeping for the shortest wait is one tick's accounting if that is one tick, or all are 0. -/
theorem tickAccounts_sleepFor {l : List Nat} {s : Scheduler} {w : Word} (hnd : l.Nodup)
    (hmin : ∃ u ∈ l, s.status u = .waiting ∧ s.waiting u = w)
    (hle : ∀ u ∈ l, s.status u = .waiting → w ≤ s.waiting u) :
    TickAccounts l s (sleepFor l w s)
      ↔ w = 1 ∨ ∀ t ∈ l, s.status t = .waiting → s.waiting t = 0 := by
  obtain ⟨u, hu, huw, rfl⟩ := hmin
  constructor
  · intro h
    have hacc := h u hu
    rw [if_pos huw, sleepFor_waiting hnd _ s hu huw, sleepFor_status hnd _ s hu,
      if_pos (BitVec.le_refl _), if_pos ⟨huw, BitVec.le_refl _⟩] at hacc
    by_cases hz : s.waiting u = 0
    · -- nothing is subtracted, so every waiting counter is already 0
      refine .inr fun t ht hw => ?_
      have hacc := (h t ht)
      rw [if_pos hw] at hacc
      by_contra hne
      have hgt : ¬ s.waiting t ≤ s.waiting u := by
        rw [hz]; bv_omega
      have hsame := hacc.1
      rw [sleepFor_waiting hnd _ s ht hw, if_neg hgt, hz] at hsame
      exact counted_ne hne (hsame.symm.trans (BitVec.sub_zero _))
    · refine .inl ?_
      have hone := hacc.1
      unfold counted at hone
      rw [if_neg hz] at hone
      bv_omega
  · intro hcond t ht
    by_cases hw : s.status t = .waiting
    · rw [if_pos hw, sleepFor_waiting hnd _ s ht hw, sleepFor_status hnd _ s ht]
      have hge := hle t ht hw
      rcases hcond with hone | hall
      · rw [hone] at hge ⊢
        by_cases h1 : s.waiting t ≤ 1
        · have he : s.waiting t = 1 := by bv_omega
          simp [he, hw, counted]
        · have h0 : s.waiting t ≠ 0 := by bv_omega
          have hcount : counted (s.waiting t) = s.waiting t - 1 := if_neg h0
          have hne : s.waiting t - 1 ≠ 0 := by bv_omega
          rw [if_neg h1, if_neg (fun h => h1 h.2), hw, hcount, if_neg hne]
          exact ⟨rfl, rfl⟩
      · simp [hall t ht hw, hw, counted]
    · rw [if_neg hw, sleepFor_status hnd _ s ht, if_neg (fun h => hw h.1)]

theorem tickAccounts_saveRegs (l : List Nat) (s s' : Scheduler) (regs : Nat → Word) :
    TickAccounts l (s.saveRegs regs) s' ↔ TickAccounts l s s' := by
  unfold TickAccounts
  simp only [status_saveRegs, waiting_saveRegs]

theorem sleepsOneTick_saveRegs (l : List Nat) (s : Scheduler) (regs : Nat → Word) :
    SleepsOneTick l (s.saveRegs regs) ↔ SleepsOneTick l s := by
  unfold SleepsOneTick
  simp only [status_saveRegs, waiting_saveRegs]

/-- What `pick` leaves behind is accounted for exactly in the states of `SleepsOneTick`. -/
theorem tickAccounts_pick {l : List Nat} {s s' : Scheduler} {t : Nat} (hnd : l.Nodup)
    (h : pick l s = some (t, s')) : TickAccounts l s s' ↔ SleepsOneTick l s := by
  rcases pick_state h with ⟨rfl, hstop⟩ | ⟨w, rfl, hnr, hmin, hle⟩
  · rw [tickAccounts_self]
    constructor
    · exact .inl
    · intro hor
      rcases hor with hnw | ⟨hnr, _⟩
      · exact hnw
      · rcases hstop with ⟨u, hu, hrun⟩ | hnw
        · exact absurd hrun (hnr u hu)
        · exact hnw
  · rw [tickAccounts_sleepFor hnd hmin hle]
    obtain ⟨u, hu, huw, rfl⟩ := hmin
    constructor
    · intro hor
      rcases hor with hone | hall
      · refine .inr ⟨hnr, .inl ⟨⟨u, hu, huw, hone⟩, fun v hv hw hz => ?_⟩⟩
        have hge := hle v hv hw
        rw [hone, hz] at hge
        exact absurd hge (by decide)
      · exact .inr ⟨hnr, .inr hall⟩
    · intro hor
      rcases hor with hnw | ⟨_, ⟨⟨v, hv, hvw, hone⟩, hnz⟩ | hall⟩
      · exact absurd huw (hnw u hu)
      · have hge := hle v hv hvw
        have hne := hnz u hu huw
        rw [hone] at hge
        exact .inl (by bv_omega)
      · exact .inr hall

/-- A call that panics accounts for nothing, which is right only if no thread is waiting. -/
theorem tickAccounts_nothingToRun {l : List Nat} {s : Scheduler} (h : NothingToRun l s) :
    TickAccounts l s s ↔ SleepsOneTick l s := by
  rw [tickAccounts_self]
  constructor
  · exact .inl
  · intro hor
    rcases hor with hnw | ⟨-, hcount⟩
    · exact hnw
    · rcases h.2 with hblocked | ⟨⟨u, hu, huw⟩, hmax⟩
      · exact fun t ht => (hblocked t ht).1
      · -- the only waiting thread waits for the maximal time, which is neither 0 nor 1
        have humax := (hmax u hu huw).2
        rcases hcount with ⟨⟨v, hv, hvw, hone⟩, _⟩ | hall
        · have hvmax := (hmax v hv hvw).2
          rw [hone] at hvmax
          exact absurd hvmax (by decide)
        · have hzero := hall u hu huw
          rw [humax] at hzero
          exact absurd hzero (by decide)

/-- One call accounts for the tick exactly in the states of `SleepsOneTick`. -/
theorem accounts_schedule {fuel task : Nat} (code : Compiled) (frame : Nat → Word) {m : Arm}
    {s : Scheduler} {l : List Nat} (hr : Ring s l) (h0 : 0 ∉ l) (hf : l.length ≤ fuel)
    (hg : PassesGuards task m s) :
    Accounts l s (scheduleKernelThread fuel task code frame m s) ↔ SleepsOneTick l s := by
  have hsaved := sleepsOneTick_saveRegs l s (savedAt code task frame m s).1
  rcases schedule_eq code frame hr hf hg with ⟨x, t, s', hp, hs⟩ | ⟨hp, msg, hs⟩
  · rw [hs, ← hsaved, ← tickAccounts_pick hr.nodup hp, tickAccounts_saveRegs]
    rfl
  · rw [hs, ← hsaved, ← tickAccounts_nothingToRun ((pick_eq_none h0).mp hp),
      tickAccounts_saveRegs]
    rfl

/-! ## Runs of ticks -/

/-- While a thread is RUNNABLE a tick changes no status and no counter. -/
theorem resumed_runnable {fuel task : Nat} {code : Compiled} {frame : Nat → Word} {m m' : Arm}
    {s s' : Scheduler} {l : List Nat} {t : Nat} (hr : Ring s l) (hf : l.length ≤ fuel)
    (hg : PassesGuards task m s) (hrun : ∃ u ∈ l, s.status u = .runnable)
    (hs : scheduleKernelThread fuel task code frame m s = .resumed m' t s') (u : Nat) :
    s'.status u = s.status u ∧ s'.waiting u = s.waiting u := by
  rcases schedule_eq code frame hr hf hg with ⟨x, v, s1, hp, hs1⟩ | ⟨_, msg, hs1⟩
  · rw [hs1] at hs
    obtain ⟨-, -, rfl⟩ := Outcome.resumed.inj hs
    rcases pick_state hp with ⟨rfl, _⟩ | ⟨w, _, hnr, _⟩
    · exact ⟨status_saveRegs s _ u, waiting_saveRegs s _ u⟩
    · obtain ⟨v, hv, hvr⟩ := hrun
      exact absurd (by rw [status_saveRegs]; exact hvr) (hnr v hv)
  · rw [hs1] at hs
    exact absurd hs (by simp)

/-- **Over ticks that find a RUNNABLE thread no sleeper is ever woken.** -/
theorem tickRun_sleeps {fuel : Nat} {s s' : Scheduler} {ts : List (Scheduler × Nat)}
    (h : TickRun fuel s ts s') : ∀ {l : List Nat}, Ring s l → l.length ≤ fuel →
      (∀ p ∈ ts, ∃ u ∈ l, p.1.status u = .runnable) → ∀ t,
      s'.status t = s.status t ∧ s'.waiting t = s.waiting t := by
  induction h with
  | done s => exact fun _ _ _ _ => ⟨rfl, rfl⟩
  | @tick task code frame m m' t ts s s1 s2 hg hs hrest ih =>
      intro l hr hf hrun u
      obtain ⟨l', hr', hperm⟩ := ring_resumed hr hf hg hs
      have hrun' : ∀ p ∈ ts, ∃ v ∈ l', p.1.status v = .runnable := by
        intro p hp
        obtain ⟨v, hv, hvr⟩ := hrun p (List.mem_cons_of_mem _ hp)
        exact ⟨v, hperm.mem_iff.mpr hv, hvr⟩
      obtain ⟨hst, hwt⟩ := ih hr' (hperm.length_eq.symm ▸ hf) hrun' u
      obtain ⟨hst1, hwt1⟩ :=
        resumed_runnable hr hf hg (hrun (s, t) (List.mem_cons_self ..)) hs u
      exact ⟨hst.trans hst1, hwt.trans hwt1⟩

theorem sleepsOneTick_perm {l l' : List Nat} (h : l'.Perm l) (s : Scheduler) :
    SleepsOneTick l' s ↔ SleepsOneTick l s := by
  unfold SleepsOneTick
  simp only [h.mem_iff]

/--
Over ticks that are all accounted for, a sleeper with `k` ticks left is RUNNABLE
after `k` of them (and at least one), and stays so.
-/
theorem tickRun_wakes {fuel : Nat} {s s' : Scheduler} {ts : List (Scheduler × Nat)}
    (h : TickRun fuel s ts s') : ∀ {l : List Nat}, Ring s l → 0 ∉ l → l.length ≤ fuel →
      (∀ p ∈ ts, SleepsOneTick l p.1) → ∀ t ∈ l,
      (s.status t = .runnable → s'.status t = .runnable)
      ∧ (s.status t = .waiting → (s.waiting t).toNat ≤ ts.length → ts ≠ [] →
          s'.status t = .runnable) := by
  induction h with
  | done s => exact fun _ _ _ _ _ _ => ⟨id, fun _ _ hne => absurd rfl hne⟩
  | @tick task code frame m m' t ts s s1 s2 hg hs hrest ih =>
      intro l hr h0 hf hall u hu
      obtain ⟨l', hr', hperm⟩ := ring_resumed hr hf hg hs
      have hall' : ∀ p ∈ ts, SleepsOneTick l' p.1 := fun p hp =>
        (sleepsOneTick_perm hperm p.1).mpr (hall p (List.mem_cons_of_mem _ hp))
      obtain ⟨hstays, hwakes⟩ := ih hr' (fun h => h0 (hperm.mem_iff.mp h))
        (hperm.length_eq.symm ▸ hf) hall' u (hperm.mem_iff.mpr hu)
      have hacc : TickAccounts l s s1 := by
        have h := (accounts_schedule code frame hr h0 hf hg).mpr
          (hall (s, t) (List.mem_cons_self ..))
        rw [hs] at h
        exact h
      have hu' := hacc u hu
      constructor
      · intro hrun
        rw [if_neg (by rw [hrun]; decide)] at hu'
        exact hstays (hu'.trans hrun)
      · intro hw hlen _
        rw [if_pos hw] at hu'
        -- woken by this tick, or one tick nearer to it
        by_cases hz : counted (s.waiting u) = 0
        · rw [if_pos hz] at hu'
          exact hstays hu'.2
        · rw [if_neg hz] at hu'
          have hne : s.waiting u ≠ 0 := fun h => hz (if_pos h)
          have hcount : counted (s.waiting u) = s.waiting u - 1 := if_neg hne
          rw [hcount] at hu' hz
          have hlen' : (s1.waiting u).toNat ≤ ts.length := by
            rw [hu'.1]
            simp only [List.length_cons] at hlen
            bv_omega
          refine hwakes hu'.2 hlen' ?_
          intro heq
          subst heq
          rw [hu'.1] at hlen'
          simp only [List.length_nil] at hlen'
          exact hz (by bv_omega)

/--
**A tick accounts for sleeping threads exactly in the states of
`SleepsOneTick`.** Over runs of such ticks a sleeper wakes after its `k` ticks;
over runs that find a RUNNABLE thread at every tick it never does.
-/
theorem tick_accounts_iff {fuel : Nat} {s : Scheduler} {l : List Nat} (hring : Ring s l)
    (hnull : 0 ∉ l) (hfuel : l.length ≤ fuel) :
    (∀ (task : Nat) (code : Compiled) (frame : Nat → Word) (m : Arm), PassesGuards task m s →
      (Accounts l s (scheduleKernelThread fuel task code frame m s) ↔ SleepsOneTick l s))
    ∧ (∀ (ts : List (Scheduler × Nat)) (s' : Scheduler), TickRun fuel s ts s' →
      (∀ p ∈ ts, SleepsOneTick l p.1) → ∀ t ∈ l, s.status t = .waiting →
      (s.waiting t).toNat ≤ ts.length → ts ≠ [] → s'.status t = .runnable)
    ∧ ∀ (ts : List (Scheduler × Nat)) (s' : Scheduler), TickRun fuel s ts s' →
      (∀ p ∈ ts, ∃ u ∈ l, p.1.status u = .runnable) → ∀ t ∈ l, s.status t = .waiting →
      s'.status t = .waiting ∧ s'.waiting t = s.waiting t := by
  refine ⟨?_, ?_, ?_⟩
  · exact fun task code frame m hg => accounts_schedule code frame hring hnull hfuel hg
  · exact fun ts s' hts hall t ht => (tickRun_wakes hts hring hnull hfuel hall t ht).2
  · intro ts s' hts hrun t ht hw
    obtain ⟨hst, hwt⟩ := tickRun_sleeps hts hring hfuel hrun t
    exact ⟨hst.trans hw, hwt⟩

theorem tick_accounts_iff_twoThreads :
    (∀ (task : Nat) (code : Compiled) (frame : Nat → Word) (m : Arm),
      PassesGuards task m (twoThreads .waiting 5) →
      (Accounts [4096, 8192] (twoThreads .waiting 5)
          (scheduleKernelThread 2 task code frame m (twoThreads .waiting 5))
        ↔ SleepsOneTick [4096, 8192] (twoThreads .waiting 5)))
    ∧ (∀ (ts : List (Scheduler × Nat)) (s' : Scheduler), TickRun 2 (twoThreads .waiting 5) ts s' →
      (∀ p ∈ ts, SleepsOneTick [4096, 8192] p.1) → ∀ t ∈ [4096, 8192],
      (twoThreads .waiting 5).status t = .waiting →
      ((twoThreads .waiting 5).waiting t).toNat ≤ ts.length → ts ≠ [] → s'.status t = .runnable)
    ∧ ∀ (ts : List (Scheduler × Nat)) (s' : Scheduler), TickRun 2 (twoThreads .waiting 5) ts s' →
      (∀ p ∈ ts, ∃ u ∈ [4096, 8192], p.1.status u = .runnable) → ∀ t ∈ [4096, 8192],
      (twoThreads .waiting 5).status t = .waiting →
      s'.status t = .waiting ∧ s'.waiting t = (twoThreads .waiting 5).waiting t :=
  tick_accounts_iff (ring_twoThreads .waiting 5) (by decide) (by decide)

/-- The main thread stays RUNNABLE; the other one, with five ticks to wait, still has five after a tick. -/
theorem twoThreads_notWoken :
    ¬ Accounts [4096, 8192] (twoThreads .waiting 5)
      (scheduleKernelThread 2 1 zeroing (fun _ => 0) inFiq (twoThreads .waiting 5)) := by
  intro h
  have h8192 : TickAccounts [4096, 8192] (twoThreads .waiting 5)
      ((twoThreads .waiting 5).saveRegs _) := h
  have hcount := (h8192 8192 (by decide)).1
  rw [waiting_saveRegs] at hcount
  exact absurd hcount (by decide)

end OSExt.Scheduling
