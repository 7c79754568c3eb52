import OSExt.Scheduling.Selection

/-!
# How long a waiting thread sleeps

`scheduler_kernel_thread_wait` turns milliseconds into timeslices, rounding down and
adding one. The scheduler then sleeps for the least wait of all threads as often as it
has to, each time converting back with a 32-bit multiplication, and takes that wait off
everyone's.

Up to the thread's own return the sleeps add up to what it owes, as long as that is
below 2³². Above, the product wraps around.
-/

namespace OSExt.Scheduling

open Lib

/-- Milliseconds slept for so far. -/
def Scheduler.totalSlept (s : Scheduler) : Nat := (s.slept.map BitVec.toNat).sum

/-- No thread of the ring but `r` is RUNNABLE. -/
def OthersBlocked (l : List Nat) (r : Nat) (s : Scheduler) : Prop :=
  ∀ t ∈ l, t ≠ r → s.status t ≠ .runnable

/-- What the thread `r` is waiting for has not changed, and nobody slept. -/
structure LeavesAlone (r : Nat) (s s' : Scheduler) : Prop where
  status : s'.status r = s.status r
  waiting : s'.waiting r = s.waiting r
  timeslice : s'.timesliceLength = s.timesliceLength
  slept : s'.slept = s.slept

/--
From the end `x` of a scheduling call on until the thread `r` is resumed, in the last state:
whoever else is resumed does as it likes, but at the next scheduling call no thread other
than `r` is RUNNABLE.
-/
inductive UntilResumed (r : Nat) : Outcome → Scheduler → Prop where
  | resumed (m : Arm) (s : Scheduler) : UntilResumed r (.resumed m r s) s
  | again {m m' : Arm} {t fuel task : Nat} {swiReturn : Word} {s s' s'' : Scheduler} {l : List Nat} :
      t ≠ r → LeavesAlone r s s' → Ring s' l → 0 ∉ l → l.length ≤ fuel → r ∈ l →
      OthersBlocked l r s' →
      UntilResumed r (scheduleKernelThreadCurrentSaved fuel task swiReturn m' s') s'' →
      UntilResumed r (.resumed m t s) s''

/-- The thread that calls `scheduler_kernel_thread_wait` is not resumed before the sleeps
add up to its time, down to a multiple of the timeslice. -/
def SleepsEnough (timeslice millis : Word) : Prop :=
  ∀ (fuel task : Nat) (swiReturn base : Word) (regs : Nat → Word) (m : Arm) (l : List Nat)
    (s s' : Scheduler),
    s.timesliceLength = timeslice → Ring s l → 0 ∉ l → 2 ≤ l.length → l.length ≤ fuel →
    OthersBlocked l s.runningKernelThread s →
    UntilResumed s.runningKernelThread
      (schedulerKernelThreadWait fuel task swiReturn s.runningKernelThread millis base regs m s) s' →
    s.totalSlept + millis.toNat / timeslice.toNat * timeslice.toNat ≤ s'.totalSlept

/-! ## What a thread owes -/

/-- The thread `r` still has `n` milliseconds to sleep, and they fit into a word. -/
def Owes (r n : Nat) (s : Scheduler) : Prop :=
  (s.status r = .waiting ∧ n = (s.waiting r).toNat * s.timesliceLength.toNat ∧ n < 2 ^ 32)
    ∨ (s.status r = .runnable ∧ n = 0)

variable {l : List Nat} {r t n : Nat} {s s' : Scheduler}

theorem Owes.leavesAlone (h : Owes r n s) (ha : LeavesAlone r s s') : Owes r n s' := by
  unfold Owes
  rw [ha.status, ha.waiting, ha.timeslice]
  exact h

/-- Waking threads up is not sleeping. -/
theorem foldl_wakeThread_slept (w : Word) : ∀ (l : List Nat) (s : Scheduler),
    (l.foldl (wakeThread w) s).slept = s.slept
      ∧ (l.foldl (wakeThread w) s).timesliceLength = s.timesliceLength
  | [], _ => ⟨rfl, rfl⟩
  | t :: l, s => by
      obtain ⟨hslept, hts⟩ := foldl_wakeThread_slept w l (wakeThread w s t)
      rw [List.foldl_cons, hslept, hts]
      unfold wakeThread
      split
      · split <;> exact ⟨rfl, rfl⟩
      · exact ⟨rfl, rfl⟩

theorem sleepFor_total (l : List Nat) (w : Word) (s : Scheduler) :
    (sleepFor l w s).totalSlept = (w * s.timesliceLength).toNat + s.totalSlept
      ∧ (sleepFor l w s).timesliceLength = s.timesliceLength := by
  obtain ⟨hslept, hts⟩ := foldl_wakeThread_slept w l
    { s with slept := w * s.timesliceLength :: s.slept }
  refine ⟨?_, hts⟩
  unfold Scheduler.totalSlept sleepFor
  rw [hslept, List.map_cons, List.sum_cons]

/-- A sleep for part of what is owed does not wrap around. -/
theorem toNat_mul_of_le {w v ts : Word} (hle : w ≤ v) (hv : v.toNat * ts.toNat < 2 ^ 32) :
    (w * ts).toNat = w.toNat * ts.toNat := by
  rw [BitVec.toNat_mul]
  exact Nat.mod_eq_of_lt ((Nat.mul_le_mul_right _ hle).trans_lt hv)

/-! ## One scheduling call -/

/-- The call picks `r` if `r` is RUNNABLE, and then nobody sleeps. -/
theorem pick_runnable (hr : r ∈ l) (hothers : OthersBlocked l r s) (hst : s.status r = .runnable) :
    pick l s = some (r, s) := by
  unfold pick
  cases hfind : l.find? (fun t => s.status t == .runnable) with
  | none =>
      have hno := List.find?_eq_none.mp hfind r hr
      rw [hst] at hno
      exact absurd rfl hno
  | some u =>
      have hu : s.status u = .runnable := by simpa using List.find?_some hfind
      have hur : u = r := by
        by_contra hne
        exact hothers u (List.mem_of_find?_eq_some hfind) hne hu
      rw [hur]

/-- If `r` waits, the call sleeps for the least wait and picks a thread that waits for it. -/
theorem pick_waiting (hnd : l.Nodup) (hr : r ∈ l) (hothers : OthersBlocked l r s)
    (hst : s.status r = .waiting) (h : pick l s = some (t, s')) :
    ∃ w, s' = sleepFor l w s ∧ w ≤ s.waiting r ∧ t ∈ l ∧ s.status t = .waiting ∧ s.waiting t = w := by
  have hno : ∀ u ∈ l, s.status u ≠ .runnable := by
    intro u hu
    by_cases hur : u = r
    · rw [hur, hst]
      decide
    · exact hothers u hu hur
  obtain ⟨w, hleast, -, ht, htw, hw⟩ := (pick_selects hnd h).sleeping hno ⟨r, hr, hst⟩
  rcases pick_state h with ⟨-, hrun | hnw⟩ | ⟨w', hs', -, ⟨v, hv, hvw, hv'⟩, hle'⟩
  · obtain ⟨u, hu, hrun⟩ := hrun
    exact absurd hrun (hno u hu)
  · exact absurd hst (hnw r hr)
  · have hww : w' = w := by
      refine BitVec.le_antisymm ?_ ?_
      · rw [← hw]
        exact hle' t ht htw
      · rw [← hv']
        exact hleast.le v hv hvw
    exact ⟨w, hww ▸ hs', hleast.le r hr hst, ht, htw, hw⟩

/-- **What is slept is taken off what is owed**, and a thread that is resumed owes nothing. -/
theorem pick_owes (hnd : l.Nodup) (hr : r ∈ l) (hothers : OthersBlocked l r s) (howes : Owes r n s)
    (h : pick l s = some (t, s')) :
    ∃ n', Owes r n' s' ∧ s'.totalSlept + n' = s.totalSlept + n ∧ (t = r → n' = 0) := by
  rcases howes with ⟨hst, hn, hlt⟩ | ⟨hst, hn⟩
  · obtain ⟨w, rfl, hle, ht, htw, hw⟩ := pick_waiting hnd hr hothers hst h
    obtain ⟨htotal, hts⟩ := sleepFor_total l w s
    have hmul : (w * s.timesliceLength).toNat = w.toNat * s.timesliceLength.toNat :=
      toNat_mul_of_le hle (hn ▸ hlt)
    have hstatus := sleepFor_status hnd w s hr
    have hwaiting := sleepFor_waiting hnd w s hr hst
    by_cases hwoken : s.waiting r ≤ w
    · have heq : w = s.waiting r := BitVec.le_antisymm hle hwoken
      rw [if_pos ⟨hst, hwoken⟩] at hstatus
      refine ⟨0, .inr ⟨hstatus, rfl⟩, ?_, fun _ => rfl⟩
      rw [htotal, hmul, heq, hn]
      omega
    · rw [if_neg fun hc => hwoken hc.2] at hstatus
      rw [if_neg hwoken] at hwaiting
      have hsub : (s.waiting r - w).toNat = (s.waiting r).toNat - w.toNat :=
        BitVec.toNat_sub_of_le hle
      have hsplit : n = w.toNat * s.timesliceLength.toNat
          + (s.waiting r - w).toNat * s.timesliceLength.toNat := by
        rw [hn, hsub, ← Nat.add_mul, Nat.add_sub_cancel' hle]
      refine ⟨(s.waiting r - w).toNat * s.timesliceLength.toNat,
        .inl ⟨hstatus.trans hst, ?_, ?_⟩, ?_, fun htr => ?_⟩
      · rw [hwaiting, hts]
      · omega
      · rw [htotal, hmul, hsplit]
        omega
      · rw [htr] at hw
        exact absurd (hw ▸ BitVec.le_refl _) hwoken
  · rw [pick_runnable hr hothers hst] at h
    obtain ⟨rfl, rfl⟩ := Prod.mk.inj (Option.some.inj h)
    exact ⟨n, .inr ⟨hst, hn⟩, rfl, fun _ => hn⟩

/-- A scheduling call that resumes a thread resumes what `pick` picks. -/
theorem currentSaved_resumed {fuel task : Nat} {swiReturn : Word} {m m' : Arm} (hring : Ring s l)
    (hnull : 0 ∉ l) (hfuel : l.length ≤ fuel)
    (h : scheduleKernelThreadCurrentSaved fuel task swiReturn m s = .resumed m' t s') :
    ∃ s1, pick l s = some (t, s1) ∧ s' = { s1 with runningKernelThread := t } := by
  have hrun : s.runningKernelThread ≠ 0 := fun he => hnull (he ▸ ring_mem_running hring)
  by_cases htask : task = s.nucGuiTask
  · rcases currentSaved_eq hring hfuel swiReturn m hrun htask with ⟨u, s1, hp, hx⟩ | ⟨_, msg, hx⟩
    · rw [hx] at h
      obtain ⟨-, rfl, rfl⟩ := Outcome.resumed.inj h
      exact ⟨s1, hp, rfl⟩
    · rw [hx] at h
      exact absurd h (by simp)
  · unfold scheduleKernelThreadCurrentSaved at h
    rw [if_neg hrun] at h
    dsimp only at h
    rw [if_pos htask] at h
    exact absurd h (by simp)

/-! ## Until the thread is resumed -/

/-- **Until `r` is resumed exactly what it owes is slept.** -/
theorem UntilResumed.total {x : Outcome} (h : UntilResumed r x s') :
    ∀ {m : Arm} {t n : Nat} {s : Scheduler}, x = .resumed m t s → Owes r n s → (t = r → n = 0) →
      s'.totalSlept = s.totalSlept + n := by
  induction h with
  | resumed m1 s1 =>
      intro m t n s hx _ hend
      obtain ⟨-, rfl, rfl⟩ := Outcome.resumed.inj hx
      rw [hend rfl, Nat.add_zero]
  | @again m1 m2 u fuel task swiReturn s1 s2 s3 l hne ha hring hnull hfuel hr hothers hrest ih =>
      intro m t n s hx howes _
      obtain ⟨-, rfl, rfl⟩ := Outcome.resumed.inj hx
      have htotal : s2.totalSlept = s1.totalSlept := by
        unfold Scheduler.totalSlept
        rw [ha.slept]
      cases hcall : scheduleKernelThreadCurrentSaved fuel task swiReturn m2 s2 with
      | resumed m3 v s4 =>
          obtain ⟨s5, hp, rfl⟩ := currentSaved_resumed hring hnull hfuel hcall
          obtain ⟨n', howes', hsum, hend⟩ :=
            pick_owes hring.nodup hr hothers (howes.leavesAlone ha) hp
          have hrec := ih hcall howes' hend
          rw [← htotal, hrec, ← hsum]
          rfl
      | returned m3 s4 => rw [hcall] at hrest; cases hrest
      | panicked msg s4 => rw [hcall] at hrest; cases hrest
      | outOfFuel => rw [hcall] at hrest; cases hrest

/-! ## The call -/

/-- A ring of two threads or more does not stop at its first. -/
theorem next_ne_running (hring : Ring s l) (htwo : 2 ≤ l.length) :
    s.next s.runningKernelThread ≠ s.runningKernelThread := by
  cases l with
  | nil => simp at htwo
  | cons a l =>
      cases l with
      | nil => simp at htwo
      | cons b l =>
          have ha : a = s.runningKernelThread := Option.some.inj hring.head
          have hab : s.next a = b := (List.isChain_cons_cons.mp hring.links).1
          have hne : a ≠ b := by
            intro he
            exact (List.nodup_cons.mp hring.nodup).1 (he ▸ List.mem_cons_self ..)
          rw [← ha, hab]
          exact hne.symm

/-- The running thread waits for `ticks` with its registers saved. -/
def asleep (ticks : Word) (regs : Nat → Word) (s : Scheduler) : Scheduler :=
  (s.setStatus s.runningKernelThread .waiting ticks).saveRegs regs

theorem status_asleep (ticks : Word) (regs : Nat → Word) (s : Scheduler) (t : Nat) :
    (asleep ticks regs s).status t
      = if t = s.runningKernelThread then .waiting else s.status t := by
  rw [asleep, status_saveRegs, status_setStatus]

theorem waiting_asleep (ticks : Word) (regs : Nat → Word) (s : Scheduler) :
    (asleep ticks regs s).waiting s.runningKernelThread = ticks := by
  rw [asleep, waiting_saveRegs, waiting_setStatus, if_pos rfl]

theorem ring_asleep (hring : Ring s l) (ticks : Word) (regs : Nat → Word) :
    Ring (asleep ticks regs s) l := by
  refine ring_saveRegs (s := s.setStatus s.runningKernelThread .waiting ticks) ?_ regs
  unfold Ring
  rw [next_setStatus]
  exact hring

/-- The running thread is put to sleep for one timeslice more than there are in its time. -/
theorem wait_asleep {timeslice millis : Word} (hpos : 1 ≤ timeslice) (hmillis : timeslice ≤ millis)
    (hts : s.timesliceLength = timeslice) (hring : Ring s l) (hnull : 0 ∉ l) (htwo : 2 ≤ l.length)
    (fuel task : Nat) (swiReturn base : Word) (regs : Nat → Word) (m : Arm) :
    ∃ regs', schedulerKernelThreadWait fuel task swiReturn s.runningKernelThread millis base regs m s
      = scheduleKernelThreadCurrentSaved fuel task swiReturn m
        (asleep (millis / timeslice + 1) regs' s) := by
  have hrun : s.runningKernelThread ≠ 0 := fun he => hnull (he ▸ ring_mem_running hring)
  have hticks : millis / s.timesliceLength ≠ 0 := by
    rw [hts]
    intro hz
    have hdiv := congrArg BitVec.toNat hz
    rw [BitVec.toNat_udiv] at hdiv
    have hquot : 0 < millis.toNat / timeslice.toNat := Nat.div_pos hmillis hpos
    exact Nat.ne_of_gt hquot hdiv
  unfold schedulerKernelThreadWait
  simp only [hrun, or_self, if_false, hticks, if_true, next_ne_running hring htwo]
  rw [hts]
  exact ⟨_, rfl⟩

theorem othersBlocked_asleep (hothers : OthersBlocked l s.runningKernelThread s) (ticks : Word)
    (regs : Nat → Word) : OthersBlocked l s.runningKernelThread (asleep ticks regs s) := by
  intro t ht hne
  rw [status_asleep, if_neg hne]
  exact hothers t ht hne

/-- Below 2³² the thread owes its whole time when it is put to sleep. -/
theorem sleepsEnough_of_lt {timeslice millis : Word} (hpos : 1 ≤ timeslice)
    (hmillis : timeslice ≤ millis)
    (hlt : (millis.toNat / timeslice.toNat + 1) * timeslice.toNat < 2 ^ 32) :
    SleepsEnough timeslice millis := by
  intro fuel task swiReturn base regs m l s s' hts hring hnull htwo hfuel hothers hrun
  obtain ⟨regs', hcall⟩ := wait_asleep hpos hmillis hts hring hnull htwo fuel task swiReturn base regs m
  rw [hcall] at hrun
  have hticks : (millis / timeslice + 1).toNat = millis.toNat / timeslice.toNat + 1 := by
    have hle := Nat.le_mul_of_pos_right (millis.toNat / timeslice.toNat + 1)
      (show 0 < timeslice.toNat from hpos)
    rw [BitVec.toNat_add, BitVec.toNat_udiv]
    exact Nat.mod_eq_of_lt (hle.trans_lt hlt)
  have howes : Owes s.runningKernelThread
      ((millis.toNat / timeslice.toNat + 1) * timeslice.toNat)
      (asleep (millis / timeslice + 1) regs' s) := by
    refine .inl ⟨?_, ?_, hlt⟩
    · rw [status_asleep, if_pos rfl]
    · rw [waiting_asleep, hticks, ← hts]
      rfl
  have htotal : (asleep (millis / timeslice + 1) regs' s).totalSlept = s.totalSlept := rfl
  cases hx : scheduleKernelThreadCurrentSaved fuel task swiReturn m
      (asleep (millis / timeslice + 1) regs' s) with
  | resumed m' t s1 =>
      obtain ⟨s2, hp, rfl⟩ :=
        currentSaved_resumed (ring_asleep hring _ _) hnull hfuel hx
      obtain ⟨n', howes', hsum, hend⟩ := pick_owes hring.nodup (ring_mem_running hring)
        (othersBlocked_asleep hothers _ _) howes hp
      have hslept := hrun.total hx howes' hend
      change s'.totalSlept = s2.totalSlept + n' at hslept
      rw [Nat.add_mul, Nat.one_mul] at hsum
      omega
  | returned m' s1 => rw [hx] at hrun; cases hrun
  | panicked msg s1 => rw [hx] at hrun; cases hrun
  | outOfFuel => rw [hx] at hrun; cases hrun

/-- The one time that nobody can wait out alone: its ticks are where the search for the least
wait starts, and the search finds no thread. In all other cases somebody is resumed. -/
theorem asleep_panics_iff {fuel task : Nat} {ticks : Word} (hring : Ring s l) (hnull : 0 ∉ l)
    (hfuel : l.length ≤ fuel) (hothers : OthersBlocked l s.runningKernelThread s)
    (htask : task = s.nucGuiTask) (swiReturn : Word) (m : Arm) (regs : Nat → Word) :
    (∃ msg s', scheduleKernelThreadCurrentSaved fuel task swiReturn m (asleep ticks regs s)
        = .panicked msg s')
      ↔ ticks = 0xffffffff#32
        ∧ ∀ t ∈ l, t ≠ s.runningKernelThread → s.status t = .waitingFor := by
  have hmem : s.runningKernelThread ∈ l := ring_mem_running hring
  have hrun : (asleep ticks regs s).runningKernelThread ≠ 0 := fun he => hnull (he ▸ hmem)
  have hself : (asleep ticks regs s).status s.runningKernelThread = .waiting := by
    rw [status_asleep, if_pos rfl]
  constructor
  · intro hgiven
    obtain ⟨msg, s', hpanic⟩ := hgiven
    rcases currentSaved_eq (ring_asleep hring ticks regs) hfuel swiReturn m hrun htask with
      ⟨t, s1, _, hx⟩ | ⟨hp, -⟩
    · rw [hx] at hpanic
      exact absurd hpanic (by simp [resume])
    -- nothing was picked: the sleeper is the only one that waits, with the longest time
    rcases ((pick_eq_none hnull).mp hp).2 with hno | ⟨-, hmax⟩
    · exact absurd hself (hno _ hmem).1
    refine ⟨(waiting_asleep ticks regs s).symm.trans (hmax _ hmem hself).2, fun t ht hne => ?_⟩
    cases hst : s.status t with
    | runnable => exact absurd hst (hothers t ht hne)
    | waiting =>
        have hw : (asleep ticks regs s).status t = .waiting := by
          rw [status_asleep, if_neg hne, hst]
        exact absurd (hmax t ht hw).1 hne
    | waitingFor => rfl
  · intro hgiven
    obtain ⟨hticks, hblocked⟩ := hgiven
    rcases currentSaved_eq (ring_asleep hring ticks regs) hfuel swiReturn m hrun htask with
      ⟨t, s1, hp, _⟩ | ⟨_, msg, hx⟩
    · -- the sleeper has the longest wait, and nobody else is counted
      have hnothing : NothingToRun l (asleep ticks regs s) := by
        refine ⟨fun t ht => ?_, .inr ⟨⟨_, hmem, hself⟩, fun t ht hw => ?_⟩⟩
        · rw [status_asleep]
          split
          · decide
          · rename_i hne
            exact hothers t ht hne
        · have htr : t = s.runningKernelThread := by
            by_contra hne
            rw [status_asleep, if_neg hne, hblocked t ht hne] at hw
            exact absurd hw (by decide)
          rw [htr]
          exact ⟨rfl, (waiting_asleep ticks regs s).trans hticks⟩
      rw [(pick_eq_none hnull).mpr hnothing] at hp
      exact absurd hp (by simp)
    · exact ⟨msg, _, hx⟩

/-- A thread that alone waits for time to pass is resumed after the one sleep. -/
theorem alone_resumed (fuel task : Nat) {ticks : Word} (hring : Ring s l) (hnull : 0 ∉ l)
    (hfuel : l.length ≤ fuel) (hothers : ∀ t ∈ l, t ≠ s.runningKernelThread → s.status t = .waitingFor)
    (hticks : ticks ≠ 0xffffffff#32) (htask : task = s.nucGuiTask) (swiReturn : Word) (m : Arm)
    (regs : Nat → Word) :
    ∃ m' s', scheduleKernelThreadCurrentSaved fuel task swiReturn m (asleep ticks regs s)
        = .resumed m' s.runningKernelThread s'
      ∧ s'.totalSlept = (ticks * s.timesliceLength).toNat + s.totalSlept := by
  have hmem : s.runningKernelThread ∈ l := ring_mem_running hring
  have hself : (asleep ticks regs s).status s.runningKernelThread = .waiting := by
    rw [status_asleep, if_pos rfl]
  have hwaits : ∀ t ∈ l, (asleep ticks regs s).status t = .waiting → t = s.runningKernelThread := by
    intro t ht hw
    by_contra hne
    rw [status_asleep, if_neg hne, hothers t ht hne] at hw
    exact absurd hw (by decide)
  have hopen : OthersBlocked l s.runningKernelThread s := by
    intro t ht hne
    rw [hothers t ht hne]
    decide
  have hrun : (asleep ticks regs s).runningKernelThread ≠ 0 :=
    fun he => hnull (he ▸ hmem)
  rcases currentSaved_eq (ring_asleep hring ticks regs) hfuel swiReturn m hrun htask with
    ⟨t, s1, hp, hx⟩ | ⟨-, hpanic⟩
  · obtain ⟨w, rfl, -, ht, htw, hw⟩ :=
      pick_waiting hring.nodup hmem (othersBlocked_asleep hopen ticks regs) hself hp
    have htr := hwaits t ht htw
    rw [htr, waiting_asleep] at hw
    rw [htr] at hx
    refine ⟨_, _, hx, ?_⟩
    rw [← hw]
    exact (sleepFor_total l ticks (asleep ticks regs s)).1
  · obtain ⟨msg, hx⟩ := hpanic
    exact absurd ((asleep_panics_iff hring hnull hfuel hopen htask swiReturn m regs).mp
      ⟨msg, _, hx⟩).1 hticks

/-- A running main thread and one that waits for it to finish. -/
def oneSleeper (timeslice : Word) : Scheduler where
  thread t :=
    { regs := fun _ => 0
      main := t == 4096
      status := if t = 8192 then .waitingFor else .runnable
      waiting := 0
      statusData := if t = 8192 then 4096 else 0
      next := if t = 4096 then 8192 else 4096 }
  runningKernelThread := 4096
  nucGuiTask := 1
  timesliceLength := timeslice
  slept := []

theorem ring_oneSleeper (timeslice : Word) : Ring (oneSleeper timeslice) [4096, 8192] := by
  refine ⟨rfl, ?_, ?_, by decide⟩
  · exact List.isChain_cons_cons.mpr ⟨rfl, List.isChain_singleton _⟩
  · intro z hz
    obtain rfl : 8192 = z := by simpa using hz
    rfl

theorem blocked_oneSleeper (timeslice : Word) : ∀ t ∈ [4096, 8192],
    t ≠ (oneSleeper timeslice).runningKernelThread → (oneSleeper timeslice).status t = .waitingFor := by
  intro t ht hne
  rcases List.mem_cons.mp ht with rfl | ht
  · exact absurd rfl hne
  · obtain rfl : t = 8192 := by simpa using ht
    rfl

/-- From 2³² on the product wraps around to less than a timeslice, and the ticks never are
the longest wait. -/
theorem wraps_around {timeslice millis : Word} (hpos : 1 ≤ timeslice) (hmillis : timeslice ≤ millis)
    (hge : 2 ^ 32 ≤ (millis.toNat / timeslice.toNat + 1) * timeslice.toNat) :
    ((millis / timeslice + 1) * timeslice).toNat < millis.toNat / timeslice.toNat * timeslice.toNat
      ∧ millis / timeslice + 1 ≠ 0xffffffff#32 := by
  have hts : 1 ≤ timeslice.toNat := hpos
  have hquot : 1 ≤ millis.toNat / timeslice.toNat := Nat.div_pos hmillis hpos
  have hfloor : millis.toNat / timeslice.toNat * timeslice.toNat ≤ millis.toNat :=
    Nat.div_mul_le_self ..
  have hlt := millis.isLt
  have hone := Nat.le_mul_of_pos_left timeslice.toNat hquot
  have hticks : (millis / timeslice + 1).toNat = (millis.toNat / timeslice.toNat + 1) % 2 ^ 32 := by
    rw [BitVec.toNat_add, BitVec.toNat_udiv]
    rfl
  rw [Nat.add_mul, Nat.one_mul] at hge
  refine ⟨?_, fun he => ?_⟩
  · rw [BitVec.toNat_mul, hticks, Nat.mod_mul_mod, Nat.add_mul, Nat.one_mul,
      Nat.mod_eq_sub_mod hge, Nat.mod_eq_of_lt (by omega)]
    omega
  · -- so many timeslices fit into a word only if they are of one millisecond
    have hquot' : millis.toNat / timeslice.toNat = 2 ^ 32 - 2 := by
      rw [he] at hticks
      have hle := Nat.le_mul_of_pos_right (millis.toNat / timeslice.toNat) hts
      simp only [BitVec.reduceToNat] at hticks
      omega
    have hts1 : timeslice.toNat = 1 := by
      rw [hquot'] at hfloor
      by_contra hne
      have h2 : (2 ^ 32 - 2) * 2 ≤ (2 ^ 32 - 2) * timeslice.toNat :=
        Nat.mul_le_mul_left _ (by omega)
      omega
    rw [hquot', hts1] at hge
    omega

theorem not_sleepsEnough {timeslice millis : Word} (hpos : 1 ≤ timeslice)
    (hmillis : timeslice ≤ millis)
    (hge : 2 ^ 32 ≤ (millis.toNat / timeslice.toNat + 1) * timeslice.toNat) :
    ¬ SleepsEnough timeslice millis := by
  intro h
  have hring := ring_oneSleeper timeslice
  have hnull : 0 ∉ [4096, 8192] := by simp
  have hblocked := blocked_oneSleeper timeslice
  obtain ⟨hshort, hticks⟩ := wraps_around hpos hmillis hge
  obtain ⟨regs', hcall⟩ := wait_asleep hpos hmillis rfl hring hnull (Nat.le_refl 2) 2 1 0 0
    (fun _ => 0) inFiq
  obtain ⟨m', s', hx, htotal⟩ := alone_resumed 2 1 hring hnull (Nat.le_refl 2) hblocked
    hticks rfl 0 inFiq regs'
  have hothers : OthersBlocked [4096, 8192] (oneSleeper timeslice).runningKernelThread
      (oneSleeper timeslice) := by
    intro t ht hne
    rw [hblocked t ht hne]
    decide
  have hrun := UntilResumed.resumed m' s' (r := (oneSleeper timeslice).runningKernelThread)
  rw [← hx, ← hcall] at hrun
  have hslept := h 2 1 0 0 (fun _ => 0) inFiq [4096, 8192] (oneSleeper timeslice) s' rfl hring hnull
    (Nat.le_refl 2) (Nat.le_refl 2) hothers hrun
  rw [htotal] at hslept
  change _ ≤ ((millis / timeslice + 1) * timeslice).toNat + _ at hslept
  omega

/--
**A waiting thread sleeps long enough exactly if one timeslice more than its time, rounded
down, still fits into 32 bits**: over all rings, and all runs in which no other thread is
RUNNABLE at a scheduling call before it is resumed.
-/
theorem sleepsEnough_iff {timeslice millis : Word} (hpos : 1 ≤ timeslice)
    (hmillis : timeslice ≤ millis) :
    SleepsEnough timeslice millis
      ↔ (millis.toNat / timeslice.toNat + 1) * timeslice.toNat < 2 ^ 32 := by
  constructor
  · intro h
    by_contra hge
    exact not_sleepsEnough hpos hmillis (Nat.le_of_not_lt hge) h
  · exact sleepsEnough_of_lt hpos hmillis

theorem sleepsEnough_iff_hundred : SleepsEnough 2#32 100#32 :=
  (sleepsEnough_iff (by decide) (by decide)).mpr (by decide)

/-- Asked for the longest time there is, the thread does not sleep at all. -/
theorem longest_not_slept : ¬ SleepsEnough 2#32 0xffffffff#32 :=
  not_sleepsEnough (by decide) (by decide) (by decide)

end OSExt.Scheduling
