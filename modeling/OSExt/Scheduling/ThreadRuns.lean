import OSExt.Scheduling.ThreadEnd

/-!
# Runs of the thread system calls

Scheduling is turned on and off, threads are created, removed and exit, and wait for
some time or for each other, in any order and between any ticks. Over such a run the
ring is exactly the main thread with the threads created while scheduling was on.

What one step can do is said once, in `Step.change`; the invariants are derived from
that. A thread that waits for another waits for a thread of the ring as long as the
one it asked for was in the ring when it asked: the call itself does not look.
-/

namespace OSExt.Scheduling

open Lib

/-! ## Worlds and steps -/

/-- The scheduler with its thread objects. -/
structure World where
  sched : Scheduler
  objects : Objects
  /-- ghost: the thread scheduling was last turned on with -/
  main : Nat
  /-- ghost: the threads created while scheduling was off -/
  outside : List Nat

/-- What happens next, with the handle a thread waits for. -/
inductive Op where
  | enable
  | disable
  | create
  | delete
  | exit
  | waitMillis
  | waitFor (h : Nat)
  | tick
  | reuse
deriving DecidableEq

/-- `request_svc_thread` answers an object that is not in use. -/
def Fresh (w : World) (t : Nat) : Prop := t ≠ 0 ∧ t ∉ w.objects.live

/-- The loops may go round all threads there are. -/
def Enough (fuel : Nat) (w : World) : Prop := w.objects.live.length < fuel

instance (fuel : Nat) (w : World) : Decidable (Enough fuel w) := inferInstanceAs (Decidable (_ < _))

/--
One call or tick, from any registers and with any answer of the OS. Handles are any
values, so any handle a create ever returned. Memory of objects that are not in use
may be rewritten by others.
-/
inductive Step (w : World) : Op → World → Prop where
  | enable {destroySelf : Word} {task t : Nat} {s : Scheduler} {o : Objects} :
      Fresh w t →
      schedulerEnableKernelThreadScheduling destroySelf task t w.sched w.objects = (s, o) →
      Step w .enable { w with
        sched := s, objects := o, main := if w.sched.runningKernelThread = 0 then t else w.main }
  | disable {fuel : Nat} {s : Scheduler} {o : Objects} :
      Enough fuel w →
      schedulerDisableKernelThreadScheduling fuel w.sched w.objects = some (s, o) →
      Step w .disable { w with sched := s, objects := o }
  | create {destroySelf r0 r1 r2 handle : Word} {t : Nat} {s : Scheduler} {o : Objects} :
      Fresh w t →
      syscallKernelThreadCreate destroySelf r0 r1 r2 t w.sched w.objects = (handle, s, o) →
      Step w .create { w with
        sched := s, objects := o
        outside := if w.sched.runningKernelThread = 0 ∧ t ∈ o.live then t :: w.outside
          else w.outside }
  | delete {fuel task : Nat} {swiReturn base : Word} {regs : Nat → Word} {m : Arm} {x : Outcome}
      {s : Scheduler} {o : Objects} :
      Enough fuel w →
      syscallKernelThreadDelete fuel task swiReturn base regs m w.sched w.objects = (x, o) →
      x.sched = some s → Step w .delete { w with sched := s, objects := o }
  | exit {fuel task : Nat} {swiReturn : Word} {m : Arm} {x : Outcome} {s : Scheduler}
      {o : Objects} :
      Enough fuel w →
      schedulerSvcThreadDestroySelf fuel task swiReturn m w.sched w.objects = (x, o) →
      x.sched = some s → Step w .exit { w with sched := s, objects := o }
  | waitMillis {fuel task : Nat} {swiReturn base : Word} {regs : Nat → Word} {m : Arm}
      {s : Scheduler} :
      Enough fuel w →
      (syscallKernelThreadWaitMillis fuel task swiReturn base regs m w.sched).sched = some s →
      Step w .waitMillis { w with sched := s }
  | waitFor {fuel task : Nat} {swiReturn base : Word} {regs : Nat → Word} {m : Arm}
      {s : Scheduler} {h : Nat} :
      Enough fuel w → (syscallGetReg base regs 0).toNat = h →
      (syscallKernelThreadWaitFor fuel task swiReturn base regs m w.sched).sched = some s →
      Step w (.waitFor h) { w with sched := s }
  | tick {fuel task : Nat} {code : Compiled} {frame : Nat → Word} {m : Arm} {s : Scheduler} :
      Enough fuel w → (scheduleKernelThread fuel task code frame m w.sched).sched = some s →
      Step w .tick { w with sched := s }
  | reuse {t : Nat} (v : SvcThread) : t ∉ w.objects.live →
      Step w .reuse { w with sched := w.sched.setThread t v }

/-- The worlds reached from the start, by steps that all satisfy `P`. -/
inductive Run (P : World → Op → Prop) : World → Prop where
  | start (s : Scheduler) : s.runningKernelThread = 0 →
      Run P { sched := s, objects := ⟨[], []⟩, main := 0, outside := [] }
  | step {w w' : World} {op : Op} : Run P w → P w op → Step w op w' → Run P w'

/-! ## The ring of a world -/

/-- The ring is the main thread with the threads created while scheduling was on. -/
structure OnRing (w : World) (l : List Nat) : Prop where
  ring : Ring w.sched l
  mem : ∀ t, t ∈ l ↔ t ∈ w.objects.live ∧ t ∉ w.outside
  main : w.main ∈ l
  flag : ∀ t ∈ l, ((w.sched.thread t).main = true ↔ t = w.main)

/-- What holds of the thread objects and the ring. -/
structure ThreadsInv (w : World) : Prop where
  nodup : w.objects.live.Nodup
  nonNull : 0 ∉ w.objects.live
  outside : ∀ t ∈ w.outside, t ∈ w.objects.live
  off : w.sched.runningKernelThread = 0 → ∀ t ∈ w.objects.live, t ∈ w.outside
  on : w.sched.runningKernelThread ≠ 0 → ∃ l, OnRing w l

variable {w w' : World} {l : List Nat} {op : Op}

theorem OnRing.live (h : OnRing w l) {t : Nat} (ht : t ∈ l) : t ∈ w.objects.live :=
  ((h.mem t).mp ht).1

theorem OnRing.nonNull (hi : ThreadsInv w) (h : OnRing w l) : 0 ∉ l :=
  fun h0 => hi.nonNull (h.live h0)

theorem OnRing.length_lt (h : OnRing w l) {fuel : Nat} (hf : Enough fuel w) : l.length < fuel := by
  have hsub : l.Subperm w.objects.live :=
    List.subperm_of_subset h.ring.nodup fun t ht => h.live ht
  exact Nat.lt_of_le_of_lt hsub.length_le hf

/-- The running thread is the main one when its flag says so. -/
theorem OnRing.running_main (h : OnRing w l) :
    (w.sched.thread w.sched.runningKernelThread).main = true ↔
      w.sched.runningKernelThread = w.main :=
  h.flag _ (ring_mem_running h.ring)

/-! ## What a step changes -/

/-- Scheduling stays off, or the same threads form the ring. -/
def SameRing (s s' : Scheduler) : Prop :=
  (s.runningKernelThread = 0 ∧ s'.runningKernelThread = 0) ∨
    s.runningKernelThread ≠ 0 ∧ ∀ l, Ring s l → ∃ l', Ring s' l' ∧ l'.Perm l

theorem SameRing.refl (s : Scheduler) : SameRing s s := by
  by_cases h : s.runningKernelThread = 0
  · exact .inl ⟨h, h⟩
  · exact .inr ⟨h, fun l hl => ⟨l, hl, .refl l⟩⟩

/-- All threads but `t` are as before, up to links. -/
structure KeepsOthers (t : Nat) (s s' : Scheduler) : Prop where
  main : ∀ u, u ≠ t → (s'.thread u).main = (s.thread u).main
  status : ∀ u, u ≠ t → s'.status u = s.status u
  data : ∀ u, u ≠ t → (s'.thread u).statusData = (s.thread u).statusData

/-- What one step can do to the world. -/
inductive Change (w : World) : Op → World → Prop where
  | keeps {op : Op} {s : Scheduler} : KeepsThreads w.sched s → SameRing w.sched s →
      Change w op { w with sched := s }
  /-- the running thread waits for `h` -/
  | blocks {h : Nat} {s : Scheduler} : w.sched.runningKernelThread ≠ 0 → h ≠ 0 →
      h ≠ w.sched.runningKernelThread →
      KeepsThreads (w.sched.block w.sched.runningKernelThread h) s → SameRing w.sched s →
      Change w (.waitFor h) { w with sched := s }
  /-- the main thread alone -/
  | starts {t : Nat} {s : Scheduler} : Fresh w t → w.sched.runningKernelThread = 0 →
      KeepsOthers t w.sched s → s.status t = .runnable → (s.thread t).main = true → Ring s [t] →
      Change w .enable { w with sched := s, objects := w.objects.request t, main := t }
  /-- a thread in the ring, behind the running one -/
  | joins {t : Nat} {s : Scheduler} : Fresh w t → w.sched.runningKernelThread ≠ 0 →
      KeepsOthers t w.sched s → s.status t = .runnable → (s.thread t).main = false →
      (∀ l, Ring w.sched l → t ∉ l → ∃ l', Ring s l' ∧ l'.Perm (t :: l)) →
      Change w .create { w with sched := s, objects := w.objects.request t }
  /-- a thread outside the ring, which stays off -/
  | strays {t : Nat} {s : Scheduler} : Fresh w t → w.sched.runningKernelThread = 0 →
      s.runningKernelThread = 0 → KeepsOthers t w.sched s → s.status t = .runnable →
      Change w .create
        { w with sched := s, objects := w.objects.request t, outside := t :: w.outside }
  /-- a thread of the ring, but not the main one, is destroyed -/
  | removes {op : Op} {u : Nat} {s : Scheduler} {l l' : List Nat} : op = .delete ∨ op = .exit →
      OnRing w l → u ∈ l → u ≠ w.main → KeepsThreads w.sched s → Ring s l' →
      l'.Perm (l.erase u) →
      (∀ t ∈ l', s.status t = .waitingFor → (s.thread t).statusData ≠ u) →
      Change w op { w with sched := s, objects := destroySvcThread u w.objects }
  /-- all threads of the ring are destroyed -/
  | ends {l : List Nat} : OnRing w l → w.sched.runningKernelThread = w.main →
      Change w .disable { w with
        sched := { w.sched with runningKernelThread := 0 }, objects := destroyAll l w.objects }
  /-- memory of an object that is not in use -/
  | reuses {t : Nat} (v : SvcThread) : t ∉ w.objects.live →
      Change w .reuse { w with sched := w.sched.setThread t v }

theorem Change.same (w : World) (op : Op) : Change w op w :=
  .keeps ⟨fun _ => rfl, fun _ h => ⟨h, rfl⟩⟩ (SameRing.refl w.sched)

/-- A scheduling call from a ring keeps it. -/
theorem Schedules.sameRing {s s1 s' : Scheduler} {x : Outcome} (hrun : s.runningKernelThread ≠ 0)
    (hr : Ring s l) (hnext : s1.next = s.next) (h : Schedules l s1 x) (hx : x.sched = some s') :
    KeepsThreads s1 s' ∧ SameRing s s' := by
  obtain ⟨s2, hx2, hk, hmem⟩ := h
  obtain rfl : s2 = s' := Option.some.inj (hx2.symm.trans hx)
  refine ⟨hk.toKeepsThreads, .inr ⟨hrun, fun l2 hl2 => ?_⟩⟩
  obtain ⟨l', hl', hperm⟩ := hl2.rotate (hr.mem_unique hl2 _ hmem)
  exact ⟨l', hl'.congr fun _ _ => by rw [hk.next, hnext], hperm⟩

theorem createSvcThread_others (destroySelf r0 r1 r2 : Word) (t : Nat) (s : Scheduler) {u : Nat}
    (hu : u ≠ t) : (createSvcThread destroySelf r0 r1 r2 t s).thread u = s.thread u :=
  Function.update_of_ne hu _ _

theorem createSvcThread_self (destroySelf r0 r1 r2 : Word) (t : Nat) (s : Scheduler) :
    (createSvcThread destroySelf r0 r1 r2 t s).status t = .runnable ∧
      ((createSvcThread destroySelf r0 r1 r2 t s).thread t).main = false := by
  simp [createSvcThread, Scheduler.status, Scheduler.setThread]

/-- Turning scheduling on. -/
theorem enable_change {t : Nat} (hfresh : Fresh w t) (destroySelf : Word) (task : Nat)
    {s : Scheduler} {o : Objects}
    (h : schedulerEnableKernelThreadScheduling destroySelf task t w.sched w.objects = (s, o)) :
    Change w .enable { w with
      sched := s, objects := o, main := if w.sched.runningKernelThread = 0 then t else w.main } := by
  unfold schedulerEnableKernelThreadScheduling at h
  by_cases hrun : w.sched.runningKernelThread = 0
  · rw [if_neg (not_not.mpr hrun)] at h
    obtain ⟨rfl, rfl⟩ := Prod.mk.inj h
    rw [if_pos hrun]
    refine .starts hfresh hrun ⟨fun u hu => ?_, fun u hu => ?_, fun u hu => ?_⟩ ?_ ?_ ?_
    · simp [Scheduler.setNext, Scheduler.setThread, createSvcThread, hu]
    · simp [Scheduler.setNext, Scheduler.setThread, Scheduler.status, createSvcThread, hu]
    · simp [Scheduler.setNext, Scheduler.setThread, createSvcThread, hu]
    · simp [Scheduler.setNext, Scheduler.setThread, Scheduler.status, createSvcThread]
    · simp [Scheduler.setNext, Scheduler.setThread]
    · refine ⟨rfl, List.isChain_singleton _, fun z hz => ?_, List.nodup_singleton t⟩
      obtain rfl : t = z := by simpa using hz
      simp [Scheduler.next, Scheduler.setNext, Scheduler.setThread]
  · rw [if_pos hrun] at h
    obtain ⟨rfl, rfl⟩ := Prod.mk.inj h
    rw [if_neg hrun]
    exact Change.same w .enable

theorem setNext_fields (s : Scheduler) (t u v : Nat) :
    ((s.setNext t u).thread v).main = (s.thread v).main ∧ (s.setNext t u).status v = s.status v ∧
      ((s.setNext t u).thread v).statusData = (s.thread v).statusData := by
  by_cases h : v = t
  · subst h
    simp [Scheduler.setNext, Scheduler.setThread, Scheduler.status]
  · simp [Scheduler.setNext, Scheduler.setThread, Scheduler.status, h]

/-- A thread linked in behind the running one. -/
theorem addKernelThread_ring {s : Scheduler} {t : Nat} (ht : t ≠ 0)
    (hrun : s.runningKernelThread ≠ 0) :
    (schedulerAddKernelThread t s).next
        = Function.update (Function.update s.next t (s.next s.runningKernelThread))
            s.runningKernelThread t ∧
      (schedulerAddKernelThread t s).runningKernelThread = s.runningKernelThread := by
  rw [schedulerAddKernelThread, if_neg (by simp [ht, hrun])]
  refine ⟨?_, rfl⟩
  show ((s.setNext t _).setNext s.runningKernelThread t).next = _
  rw [next_setNext, next_setNext]

/-- Creating a thread. -/
theorem create_change {t : Nat} (hfresh : Fresh w t) (destroySelf r0 r1 r2 : Word)
    {handle : Word} {s : Scheduler} {o : Objects}
    (h : syscallKernelThreadCreate destroySelf r0 r1 r2 t w.sched w.objects = (handle, s, o)) :
    Change w .create { w with
      sched := s, objects := o
      outside := if w.sched.runningKernelThread = 0 ∧ t ∈ o.live then t :: w.outside
        else w.outside } := by
  unfold syscallKernelThreadCreate at h
  by_cases hargs : r0 = 0 ∨ r1 = 0 ∨ r2 = 0
  · rw [if_pos hargs] at h
    obtain ⟨-, rfl, rfl⟩ := h
    rw [if_neg fun hc => hfresh.2 hc.2]
    exact Change.same w .create
  rw [if_neg hargs] at h
  obtain ⟨-, rfl, rfl⟩ := h
  obtain ⟨s1, hs1⟩ : ∃ s1, s1 = createSvcThread destroySelf r0 r1 r2 t w.sched := ⟨_, rfl⟩
  have hother : ∀ u, u ≠ t → s1.thread u = w.sched.thread u :=
    fun u hu => hs1 ▸ createSvcThread_others destroySelf r0 r1 r2 t w.sched hu
  have hself := createSvcThread_self destroySelf r0 r1 r2 t w.sched
  have hrun1 : s1.runningKernelThread = w.sched.runningKernelThread := by rw [hs1]; rfl
  rw [← hs1] at hself ⊢
  -- before scheduling is enabled a new thread gets on no ring, and stays outside
  by_cases hrun : w.sched.runningKernelThread = 0
  · have hadd : schedulerAddKernelThread t s1 = s1 := by
      rw [schedulerAddKernelThread, if_pos (.inr (hrun1.trans hrun))]
    rw [if_pos ⟨hrun, List.mem_cons_self ..⟩, hadd]
    refine .strays hfresh hrun (hrun1.trans hrun) ⟨fun u hu => ?_, fun u hu => ?_, fun u hu => ?_⟩
      hself.1
    · rw [hother u hu]
    · rw [Scheduler.status, hother u hu, Scheduler.status]
    · rw [hother u hu]
  · obtain ⟨hnext, hrun2⟩ := addKernelThread_ring hfresh.1 (s := s1) (by rw [hrun1]; exact hrun)
    rw [if_neg fun hc => hrun hc.1]
    have hfields : ∀ u, ((schedulerAddKernelThread t s1).thread u).main = (s1.thread u).main ∧
        (schedulerAddKernelThread t s1).status u = s1.status u ∧
        ((schedulerAddKernelThread t s1).thread u).statusData = (s1.thread u).statusData := by
      intro u
      rw [schedulerAddKernelThread, if_neg (by simp [hfresh.1, hrun1, hrun])]
      obtain ⟨h1, h2, h3⟩ := setNext_fields s1 t (s1.next s1.runningKernelThread) u
      obtain ⟨h4, h5, h6⟩ := setNext_fields
        (s1.setNext t (s1.next s1.runningKernelThread)) s1.runningKernelThread t u
      exact ⟨h4.trans h1, h5.trans h2, h6.trans h3⟩
    refine .joins hfresh hrun ⟨fun u hu => ?_, fun u hu => ?_, fun u hu => ?_⟩ ?_ ?_ ?_
    · rw [(hfields u).1, hother u hu]
    · rw [(hfields u).2.1, Scheduler.status, hother u hu, Scheduler.status]
    · rw [(hfields u).2.2, hother u hu]
    · rw [(hfields t).2.1, hself.1]
    · rw [(hfields t).1, hself.2]
    · intro l hl htl
      have hnext1 : ∀ x ∈ l, s1.next x = w.sched.next x := by
        intro x hx
        rw [Scheduler.next, hother x fun he => htl (he ▸ hx), Scheduler.next]
      have hring1 : Ring s1 l := by
        show IsRing s1.next s1.runningKernelThread l
        rw [hrun1]
        exact hl.congr hnext1
      -- the new thread is behind the running one
      have hins := hring1.insert htl
      refine ⟨s1.runningKernelThread :: t :: l.tail, ?_, ?_⟩
      · show IsRing _ (schedulerAddKernelThread t s1).runningKernelThread _
        rw [hnext, hrun2]
        exact hins
      · have hcons := hring1.eq_cons
        refine (List.Perm.swap ..).trans ?_
        rw [← hcons]

/-- A thread's exit. -/
theorem exit_change (hi : ThreadsInv w) {fuel : Nat} (hf : Enough fuel w) {op : Op}
    (hop : op = .delete ∨ op = .exit) (task : Nat) (swiReturn : Word) (m : Arm) {x : Outcome}
    {s : Scheduler} {o : Objects}
    (h : schedulerSvcThreadDestroySelf fuel task swiReturn m w.sched w.objects = (x, o))
    (hx : x.sched = some s) : Change w op { w with sched := s, objects := o } := by
  have hstay : (x, o) = (.returned m w.sched, w.objects) →
      Change w op { w with sched := s, objects := o } := by
    intro he
    obtain ⟨rfl, rfl⟩ := Prod.mk.inj he
    obtain rfl : w.sched = s := Option.some.inj hx
    exact Change.same w op
  by_cases hrun : w.sched.runningKernelThread = 0
  · rw [schedulerSvcThreadDestroySelf, if_pos (.inl hrun)] at h
    exact hstay h.symm
  obtain ⟨l, hl⟩ := hi.on hrun
  cases hmain : (w.sched.thread w.sched.runningKernelThread).main with
  | true =>
      rw [schedulerSvcThreadDestroySelf, if_pos (.inr (.inl hmain))] at h
      exact hstay h.symm
  | false =>
      by_cases hone : w.sched.next w.sched.runningKernelThread = w.sched.runningKernelThread
      · rw [schedulerSvcThreadDestroySelf, if_pos (.inr (.inr hone))] at h
        exact hstay h.symm
      · obtain ⟨y, hy, s', l', hs', hk, hring, hperm, hfree⟩ := destroySelf_removes hl.ring
          (Nat.le_of_lt (hl.length_lt hf)) (OnRing.nonNull hi hl) hmain hone task swiReturn m
          w.objects
        rw [hy] at h
        obtain ⟨rfl, rfl⟩ := Prod.mk.inj h
        obtain rfl : s' = s := Option.some.inj (hs'.symm.trans hx)
        refine .removes hop hl (ring_mem_running hl.ring) (fun he => ?_) hk hring hperm hfree
        rw [hl.running_main.mpr he] at hmain
        exact absurd hmain (by decide)

/-- Removing a thread. -/
theorem delete_change (hi : ThreadsInv w) {fuel : Nat} (hf : Enough fuel w) (task : Nat)
    (swiReturn base : Word) (regs : Nat → Word) (m : Arm) {x : Outcome} {s : Scheduler}
    {o : Objects}
    (h : syscallKernelThreadDelete fuel task swiReturn base regs m w.sched w.objects = (x, o))
    (hx : x.sched = some s) : Change w .delete { w with sched := s, objects := o } := by
  have hstay : (x, o) = (.returned m w.sched, w.objects) →
      Change w .delete { w with sched := s, objects := o } := by
    intro he
    obtain ⟨rfl, rfl⟩ := Prod.mk.inj he
    obtain rfl : w.sched = s := Option.some.inj hx
    exact Change.same w .delete
  unfold syscallKernelThreadDelete at h
  -- each refusal returns with nothing changed
  by_cases h0 : syscallGetReg base regs 0 = 0
  · rw [if_pos h0] at h
    exact hstay h.symm
  rw [if_neg h0] at h
  obtain ⟨t, ht⟩ : ∃ t, t = (syscallGetReg base regs 0).toNat := ⟨_, rfl⟩
  rw [← ht] at h
  by_cases hguard : t = 0 ∨ w.sched.runningKernelThread = 0 ∨ (w.sched.thread t).main = true
  · rw [schedulerRemoveKernelThread, if_pos hguard] at h
    exact hstay h.symm
  obtain ⟨ht0, hrun, hmain⟩ : t ≠ 0 ∧ w.sched.runningKernelThread ≠ 0 ∧
      (w.sched.thread t).main = false := by simpa using hguard
  -- a thread that deletes itself exits
  by_cases hself : t = w.sched.runningKernelThread
  · rw [schedulerRemoveKernelThread, if_neg hguard, if_pos hself] at h
    exact exit_change hi hf (.inl rfl) task swiReturn m h hx
  obtain ⟨l, hl⟩ := hi.on hrun
  have hother := remove_other hl.ring (Nat.le_of_lt (hl.length_lt hf)) (OnRing.nonNull hi hl) hmain
    ht0 hself task swiReturn m w.objects
  -- a thread outside the ring is not found by the walk
  by_cases htl : t ∈ l
  · rw [if_pos htl] at hother
    obtain ⟨y, hy, s', l', hs', hk, hring, hperm, hfree⟩ := hother
    rw [hy] at h
    obtain ⟨rfl, rfl⟩ := Prod.mk.inj h
    obtain rfl : s' = s := Option.some.inj (hs'.symm.trans hx)
    refine .removes (.inl rfl) hl htl (fun he => ?_) hk hring hperm hfree
    rw [(hl.flag t htl).mpr he] at hmain
    exact absurd hmain (by decide)
  · rw [if_neg htl] at hother
    exact hstay (h.symm.trans hother)

/-- **What one step can do.** -/
theorem Step.change (hi : ThreadsInv w) (h : Step w op w') : Change w op w' := by
  cases h with
  | enable hfresh h => exact enable_change hfresh _ _ h
  | create hfresh h => exact create_change hfresh _ _ _ _ h
  | delete hf h hx => exact delete_change hi hf _ _ _ _ _ h hx
  | exit hf h hx => exact exit_change hi hf (.inr rfl) _ _ _ h hx
  | reuse v ht => exact .reuses v ht
  | @disable fuel s o hf h =>
      -- the call returns at once while scheduling is off, and from any thread but the main one
      by_cases hrun : w.sched.runningKernelThread = 0
      · rw [schedulerDisableKernelThreadScheduling, if_pos hrun] at h
        obtain ⟨rfl, rfl⟩ := Prod.mk.inj (Option.some.inj h)
        exact Change.same w .disable
      obtain ⟨l, hl⟩ := hi.on hrun
      -- only the main thread may end scheduling
      cases hmain : (w.sched.thread w.sched.runningKernelThread).main with
      | false =>
          rw [schedulerDisableKernelThreadScheduling, if_neg hrun, if_pos hmain] at h
          obtain ⟨rfl, rfl⟩ := Prod.mk.inj (Option.some.inj h)
          exact Change.same w .disable
      | true =>
          rw [disable_destroys hl.ring (Nat.le_of_lt (hl.length_lt hf)) hrun hmain] at h
          obtain ⟨rfl, rfl⟩ := Prod.mk.inj (Option.some.inj h)
          exact .ends hl (hl.running_main.mp hmain)
  | @waitMillis fuel task swiReturn base regs m s hf h =>
      by_cases hrun : w.sched.runningKernelThread = 0
      · have hret : (syscallKernelThreadWaitMillis fuel task swiReturn base regs m w.sched)
            = .returned m w.sched := by
          simp [syscallKernelThreadWaitMillis, schedulerKernelThreadWait, hrun]
        rw [hret] at h
        obtain rfl : w.sched = s := Option.some.inj h
        exact Change.same w .waitMillis
      obtain ⟨l, hl⟩ := hi.on hrun
      obtain ⟨hk, hring⟩ := (waitMillis_schedules hl.ring (Nat.le_of_lt (hl.length_lt hf)) hrun
        task swiReturn base regs m).sameRing hrun hl.ring rfl h
      exact .keeps hk hring
  | @waitFor fuel task swiReturn base regs m s u hf hu h =>
      by_cases hrun : w.sched.runningKernelThread = 0
      · have hret : (syscallKernelThreadWaitFor fuel task swiReturn base regs m w.sched)
            = .returned m w.sched := by
          simp [syscallKernelThreadWaitFor, schedulerKernelThreadWaitThread, hrun]
        rw [hret] at h
        obtain rfl : w.sched = s := Option.some.inj h
        exact Change.same w _
      obtain ⟨l, hl⟩ := hi.on hrun
      have hwait := waitFor_schedules hl.ring (Nat.le_of_lt (hl.length_lt hf)) hrun task swiReturn
        base regs m hu
      -- waiting for nobody or for oneself is refused
      by_cases hnone : u = 0 ∨ u = w.sched.runningKernelThread
      · rw [if_pos hnone] at hwait
        rw [hwait] at h
        obtain rfl : w.sched = s := Option.some.inj h
        exact Change.same w _
      · rw [if_neg hnone] at hwait
        obtain ⟨hu0, huself⟩ := not_or.mp hnone
        have hnext : (w.sched.block w.sched.runningKernelThread u).next = w.sched.next :=
          next_setThread w.sched _ _ rfl
        obtain ⟨hk, hring⟩ := hwait.sameRing hrun hl.ring hnext h
        exact .blocks hrun hu0 huself hk hring
  | @tick fuel task code frame m s hf h =>
      by_cases hrun : w.sched.runningKernelThread = 0
      · rw [scheduleKernelThread, if_pos hrun] at h
        obtain rfl : w.sched = s := Option.some.inj h
        exact Change.same w .tick
      obtain ⟨l, hl⟩ := hi.on hrun
      obtain ⟨hk, hring⟩ := (tick_schedules hl.ring (hl.length_lt hf) hrun task code frame
        m).sameRing hrun hl.ring rfl h
      exact .keeps hk hring

/-! ## The ring over a run -/

/-- An entered ring is not headed by NULL. -/
theorem ThreadsInv.running_ne (hi : ThreadsInv w) (hl : OnRing w l) {s : Scheduler} {l' : List Nat}
    (hr : Ring s l') (hsub : ∀ t ∈ l', t ∈ l) : s.runningKernelThread ≠ 0 := by
  intro h0
  exact OnRing.nonNull hi hl (h0 ▸ hsub _ (ring_mem_running hr))

theorem ThreadsInv.sameRing (hi : ThreadsInv w) {s : Scheduler}
    (hmain : ∀ t, (s.thread t).main = (w.sched.thread t).main) (hr : SameRing w.sched s) :
    ThreadsInv { w with sched := s } := by
  refine ⟨hi.nodup, hi.nonNull, hi.outside, fun h0 => ?_, fun hne => ?_⟩
  · rcases hr with ⟨hoff, _⟩ | ⟨hrun, hring⟩
    · exact hi.off hoff
    · obtain ⟨l, hl⟩ := hi.on hrun
      obtain ⟨l', hl', hperm⟩ := hring l hl.ring
      exact absurd h0 (hi.running_ne hl hl' fun t => hperm.mem_iff.mp)
  · rcases hr with ⟨_, hoff⟩ | ⟨hrun, hring⟩
    · exact absurd hoff hne
    · obtain ⟨l, hl⟩ := hi.on hrun
      obtain ⟨l', hl', hperm⟩ := hring l hl.ring
      refine ⟨l', hl', fun t => hperm.mem_iff.trans (hl.mem t), hperm.mem_iff.mpr hl.main, ?_⟩
      intro t ht
      show (s.thread t).main = true ↔ t = w.main
      rw [hmain t]
      exact hl.flag t (hperm.mem_iff.mp ht)

/-- **Every step keeps the ring.** -/
theorem ThreadsInv.change (hi : ThreadsInv w) (h : Change w op w') : ThreadsInv w' := by
  cases h with
  | keeps hk hr => exact hi.sameRing hk.main hr
  | blocks hrun _ _ hk hr =>
      -- blocking changes a status, and no thread becomes or stops being the main one
      refine hi.sameRing (fun t => (hk.main t).trans ?_) hr
      by_cases ht : t = w.sched.runningKernelThread
      · subst ht
        simp [Scheduler.block, Scheduler.setThread]
      · rw [block_other w.sched _ ht]
  | @starts t s hfresh hoff hother hst hmain hring =>
      -- the new thread is alone on the ring, and is the main one
      have hout : t ∉ w.outside := fun hm => hfresh.2 (hi.outside t hm)
      refine ⟨List.nodup_cons.mpr ⟨hfresh.2, hi.nodup⟩, ?_,
        fun u hu => List.mem_cons_of_mem _ (hi.outside u hu), fun h0 => ?_,
        fun _ => ⟨[t], hring, fun u => ?_, List.mem_singleton.mpr rfl, fun u hu => ?_⟩⟩
      · intro hm
        rcases List.mem_cons.mp hm with he | hm
        · exact hfresh.1 he.symm
        · exact hi.nonNull hm
      · have hrun : s.runningKernelThread = t := by simpa using ring_mem_running hring
        exact absurd (hrun.symm.trans h0) hfresh.1
      · constructor
        · intro hu
          obtain rfl := List.mem_singleton.mp hu
          exact ⟨List.mem_cons_self .., hout⟩
        · intro hu
          rcases List.mem_cons.mp hu.1 with rfl | hm
          · exact List.mem_singleton.mpr rfl
          · exact absurd (hi.off hoff u hm) hu.2
      · obtain rfl := List.mem_singleton.mp hu
        exact iff_of_true hmain rfl
  | @joins t s hfresh hrun hother hst hmain hring =>
      -- the ring keeps its threads and gets the new one
      obtain ⟨l, hl⟩ := hi.on hrun
      have hout : t ∉ w.outside := fun hm => hfresh.2 (hi.outside t hm)
      have htl : t ∉ l := fun hm => hfresh.2 (hl.live hm)
      obtain ⟨l', hl', hperm⟩ := hring l hl.ring htl
      have hmem : ∀ u, u ∈ l' ↔ u = t ∨ u ∈ l := fun u => hperm.mem_iff.trans List.mem_cons
      refine ⟨List.nodup_cons.mpr ⟨hfresh.2, hi.nodup⟩, ?_,
        fun u hu => List.mem_cons_of_mem _ (hi.outside u hu), fun h0 => ?_,
        fun _ => ⟨l', hl', fun u => (hmem u).trans ?_, (hmem _).mpr (.inr hl.main), ?_⟩⟩
      · intro hm
        rcases List.mem_cons.mp hm with he | hm
        · exact hfresh.1 he.symm
        · exact hi.nonNull hm
      · have hs : s.runningKernelThread = 0 := h0
        rcases (hmem _).mp (ring_mem_running hl') with he | hm
        · exact absurd (he.symm.trans hs) hfresh.1
        · exact absurd (hs ▸ hm) (OnRing.nonNull hi hl)
      · constructor
        · intro hu
          rcases hu with rfl | hu
          · exact ⟨List.mem_cons_self .., hout⟩
          · exact ⟨List.mem_cons_of_mem _ (hl.live hu), ((hl.mem u).mp hu).2⟩
        · intro hu
          rcases List.mem_cons.mp hu.1 with rfl | hm
          · exact .inl rfl
          · exact .inr ((hl.mem u).mpr ⟨hm, hu.2⟩)
      · intro u hu
        rcases (hmem u).mp hu with rfl | hu
        · have hne : u ≠ w.main := fun he => htl (he ▸ hl.main)
          exact iff_of_false (by rw [hmain]; decide) hne
        · show (s.thread u).main = true ↔ u = w.main
          rw [hother.main u fun he => htl (he ▸ hu)]
          exact hl.flag u hu
  | @strays t s hfresh hoff hoff' hother hst =>
      -- without a ring every thread is outside, the new one too
      refine ⟨List.nodup_cons.mpr ⟨hfresh.2, hi.nodup⟩, ?_, fun u hu => ?_, fun _ u hu => ?_,
        fun hne => absurd hoff' hne⟩
      · intro hm
        rcases List.mem_cons.mp hm with he | hm
        · exact hfresh.1 he.symm
        · exact hi.nonNull hm
      · rcases List.mem_cons.mp hu with rfl | hu
        · exact List.mem_cons_self ..
        · exact List.mem_cons_of_mem _ (hi.outside u hu)
      · rcases List.mem_cons.mp hu with rfl | hu
        · exact List.mem_cons_self ..
        · exact List.mem_cons_of_mem _ (hi.off hoff u hu)
  | @removes _ u s l l' _ hl hu hmain hk hring hperm hfree =>
      -- what is destroyed is what leaves the ring
      have hmem : ∀ t, t ∈ l' ↔ t ≠ u ∧ t ∈ l :=
        fun t => hperm.mem_iff.trans hl.ring.nodup.mem_erase_iff
      have hlive : ∀ t, t ∈ w.objects.live.erase u ↔ t ≠ u ∧ t ∈ w.objects.live :=
        fun t => hi.nodup.mem_erase_iff
      refine ⟨hi.nodup.erase u, fun hm => hi.nonNull ((hlive 0).mp hm).2, fun t ht => ?_,
        fun h0 => ?_, fun _ => ⟨l', hring, fun t => (hmem t).trans ?_,
          (hmem _).mpr ⟨hmain.symm, hl.main⟩, fun t ht => ?_⟩⟩
      · refine (hlive t).mpr ⟨?_, hi.outside t ht⟩
        intro heq
        subst heq
        exact ((hl.mem t).mp hu).2 ht
      · exact absurd h0 (hi.running_ne hl hring fun t ht => ((hmem t).mp ht).2)
      · rw [hl.mem t]
        exact ⟨fun h => ⟨(hlive t).mpr ⟨h.1, h.2.1⟩, h.2.2⟩,
          fun h => ⟨((hlive t).mp h.1).1, ((hlive t).mp h.1).2, h.2⟩⟩
      · show (s.thread t).main = true ↔ t = w.main
        rw [hk.main t]
        exact hl.flag t ((hmem t).mp ht).2
  | @ends l hl hrun =>
      -- the whole ring is destroyed, and only the threads outside are left
      have hlive : ∀ t, t ∈ (destroyAll l w.objects).live ↔ t ∈ w.objects.live ∧ t ∉ l := by
        intro t
        rw [destroyAll_live]
        exact hi.nodup.mem_sdiff_iff
      have hnd : (destroyAll l w.objects).live.Nodup := by
        rw [destroyAll_live]
        exact hi.nodup.diff
      refine ⟨hnd, fun hm => hi.nonNull ((hlive 0).mp hm).1, fun t ht => ?_, fun _ t ht => ?_,
        fun hne => absurd rfl hne⟩
      · exact (hlive t).mpr ⟨hi.outside t ht, fun hm => ((hl.mem t).mp hm).2 ht⟩
      · by_contra hout
        obtain ⟨h1, h2⟩ := (hlive t).mp ht
        exact h2 ((hl.mem t).mpr ⟨h1, hout⟩)
  | @reuses t v ht =>
      -- memory that is reused belongs to no live thread, so to none on the ring
      refine ⟨hi.nodup, hi.nonNull, hi.outside, hi.off, fun hrun => ?_⟩
      obtain ⟨l, hl⟩ := hi.on hrun
      have hsame : ∀ u ∈ l, (w.sched.setThread t v).thread u = w.sched.thread u :=
        fun u hu => Function.update_of_ne (fun he : u = t => ht (he ▸ hl.live hu)) _ _
      refine ⟨l, ?_, hl.mem, hl.main, fun u hu => ?_⟩
      · refine hl.ring.congr fun u hu => ?_
        rw [Scheduler.next, hsame u hu, Scheduler.next]
      · show ((w.sched.setThread t v).thread u).main = true ↔ u = w.main
        rw [hsame u hu]
        exact hl.flag u hu

theorem Run.threadsInv {P : World → Op → Prop} (h : Run P w) : ThreadsInv w := by
  induction h with
  | start s hs =>
      exact ⟨List.nodup_nil, by simp, by simp, by simp, fun hne => absurd hs hne⟩
  | step _ _ hstep ih => exact ih.change (hstep.change ih)

/-- What a step other than turning scheduling off destroys, if anything, is not the main thread. -/
theorem Change.keeps_main (h : Change w op w') (hop : op ≠ .disable) :
    ∃ new, w'.objects.destroyed = new ++ w.objects.destroyed ∧ w.main ∉ new := by
  cases h with
  | keeps _ _ => exact ⟨[], rfl, by simp⟩
  | blocks _ _ _ _ _ => exact ⟨[], rfl, by simp⟩
  | starts _ _ _ _ _ _ => exact ⟨[], rfl, by simp⟩
  | joins _ _ _ _ _ _ => exact ⟨[], rfl, by simp⟩
  | strays _ _ _ _ _ => exact ⟨[], rfl, by simp⟩
  | @removes _ u s l l' _ _ _ hmain _ _ _ _ => exact ⟨[u], rfl, by simpa using hmain.symm⟩
  | ends _ _ => exact absurd rfl hop
  | reuses _ _ => exact ⟨[], rfl, by simp⟩

/-- **The scheduler ring**: while scheduling is on, `next` leads once round the main
thread and the threads created since; the main thread stays until scheduling is turned
off, which only it can do, and which destroys the ring, each thread once. -/
theorem ring_complete (h : Run (fun _ _ => True) w) :
    (w.sched.runningKernelThread ≠ 0 → ∃ l, Ring w.sched l ∧ w.main ∈ l ∧
      ∀ t, t ∈ l ↔ t ∈ w.objects.live ∧ t ∉ w.outside) ∧
    (∀ op w', Step w op w' → op ≠ .disable →
      ∃ new, w'.objects.destroyed = new ++ w.objects.destroyed ∧ w.main ∉ new) ∧
    ∀ w', Step w .disable w' →
      (w.sched.runningKernelThread = 0 ∨ w.sched.runningKernelThread ≠ w.main → w' = w) ∧
      (w.sched.runningKernelThread ≠ 0 → w.sched.runningKernelThread = w.main →
        w'.sched.runningKernelThread = 0 ∧ ∀ l, Ring w.sched l →
          w'.objects.destroyed = l.reverse ++ w.objects.destroyed) := by
  have hi := h.threadsInv
  refine ⟨fun hrun => ?_, fun op w' hstep hop => (hstep.change hi).keeps_main hop,
    fun w' hstep => ?_⟩
  · obtain ⟨l, hl⟩ := hi.on hrun
    exact ⟨l, hl.ring, hl.main, hl.mem⟩
  · cases hstep with
    | @disable fuel s o hf hcall =>
        by_cases hrun : w.sched.runningKernelThread = 0
        · rw [schedulerDisableKernelThreadScheduling, if_pos hrun] at hcall
          obtain ⟨rfl, rfl⟩ := Prod.mk.inj (Option.some.inj hcall)
          exact ⟨fun _ => rfl, fun hne => absurd hrun hne⟩
        obtain ⟨l, hl⟩ := hi.on hrun
        -- any other thread than the main one has nothing destroyed
        by_cases hmain : w.sched.runningKernelThread = w.main
        · have hflag := hl.running_main.mpr hmain
          refine ⟨fun hor => ?_, fun _ _ => ?_⟩
          · rcases hor with h0 | hne
            · exact absurd h0 hrun
            · exact absurd hmain hne
          · have hdestroys : ∀ l', Ring w.sched l' →
                (s, o) = ({ w.sched with runningKernelThread := 0 }, destroyAll l' w.objects) := by
              intro l' hl'
              -- every list of the ring has the same threads, so is walked within the fuel
              have hlen : l'.length ≤ fuel := by
                have hsub : l'.Subperm l :=
                  List.subperm_of_subset hl'.nodup (hl'.mem_unique hl.ring)
                exact Nat.le_trans hsub.length_le (Nat.le_of_lt (hl.length_lt hf))
              rw [disable_destroys hl' hlen hrun hflag] at hcall
              exact (Option.some.inj hcall).symm
            refine ⟨?_, fun l' hl' => ?_⟩
            · show s.runningKernelThread = 0
              rw [(Prod.mk.inj (hdestroys l hl.ring)).1]
            · show o.destroyed = _
              rw [(Prod.mk.inj (hdestroys l' hl')).2, destroyAll_destroyed]
        · have hflag : (w.sched.thread w.sched.runningKernelThread).main = false := by
            cases hb : (w.sched.thread w.sched.runningKernelThread).main with
            | false => rfl
            | true => exact absurd (hl.running_main.mp hb) hmain
          rw [schedulerDisableKernelThreadScheduling, if_neg hrun, if_pos hflag] at hcall
          obtain ⟨rfl, rfl⟩ := Prod.mk.inj (Option.some.inj hcall)
          exact ⟨fun _ => rfl, fun _ he => absurd he hmain⟩

/-- Before scheduling is turned on. -/
def idle : Scheduler where
  thread _ :=
    { regs := fun _ => 0, main := false, status := .runnable, waiting := 0, statusData := 0
      next := 0 }
  runningKernelThread := 0
  nucGuiTask := 0
  timesliceLength := 2
  slept := []

/-- The main thread has turned scheduling on and created a second thread. -/
theorem ring_complete_two : ∃ w : World,
    (w.sched.runningKernelThread ≠ 0 → ∃ l, Ring w.sched l ∧ w.main ∈ l ∧
      ∀ t, t ∈ l ↔ t ∈ w.objects.live ∧ t ∉ w.outside) ∧
    w.sched.runningKernelThread = 4096 ∧ w.objects.live = [8192, 4096] := by
  have hon := Run.step (P := fun _ _ => True) (.start idle rfl) trivial
    (@Step.enable _ 0 1 4096 _ _ ⟨by omega, by simp⟩ rfl)
  have htwo := Run.step hon trivial (@Step.create _ 0 1 1 1 _ 8192 _ _
    ⟨by omega, by simp [Objects.request]⟩ rfl)
  exact ⟨_, (ring_complete htwo).1, rfl, rfl⟩

/-- The thread is in the ring, and scheduling is on. -/
def InRing (s : Scheduler) (t : Nat) : Prop :=
  s.runningKernelThread ≠ 0 ∧ ∃ l, Ring s l ∧ t ∈ l

theorem inRing_iff {s : Scheduler} (hrun : s.runningKernelThread ≠ 0) (hl : Ring s l) (t : Nat) :
    InRing s t ↔ t ∈ l :=
  ⟨fun h => h.2.elim fun _ hl' => hl'.1.mem_unique hl _ hl'.2, fun h => ⟨hrun, l, hl, h⟩⟩

/-- A thread that was created before scheduling was turned on is not in the ring, nor
destroyed. -/
theorem created_early_not_in_ring : ∃ w, Run (fun _ _ => True) w ∧
    w.sched.runningKernelThread = 8192 ∧ 4096 ∈ w.objects.live ∧ ¬ InRing w.sched 4096 := by
  have hcreated := Run.step (P := fun _ _ => True) (.start idle rfl) trivial
    (@Step.create _ 0 1 1 1 _ 4096 _ _ ⟨by omega, by simp⟩ rfl)
  refine ⟨_, .step hcreated trivial (@Step.enable _ 0 1 8192 _ _ ⟨by omega, ?_⟩ rfl), rfl, ?_, ?_⟩
  · simp [Objects.request]
  · simp [Objects.request]
  · rw [inRing_iff (l := [8192]) (show 8192 ≠ 0 by omega)]
    · decide
    · refine ⟨rfl, List.isChain_singleton _, fun z hz => ?_, List.nodup_singleton _⟩
      obtain rfl : 8192 = z := by simpa using hz
      rfl

/-! ## Waiting for threads -/

/-- Every thread that waits for another waits for one of the ring. -/
def NoLostWakeUp (w : World) : Prop :=
  ∀ t ∈ w.objects.live, w.sched.status t = .waitingFor →
    InRing w.sched (w.sched.thread t).statusData

/-- A thread that asks to wait asks for one of the ring; or the call does nothing, for
NULL, for the thread itself or with scheduling off. -/
def AsksForRing (w : World) (op : Op) : Prop :=
  ∀ h, op = .waitFor h → h = 0 ∨ h = w.sched.runningKernelThread ∨
    w.sched.runningKernelThread = 0 ∨ InRing w.sched h

/-- A blocked thread and the one it waits for are both in use, and in the ring. -/
def WaitInv (w : World) : Prop :=
  ∀ t ∈ w.objects.live, w.sched.status t = .waitingFor →
    t ∉ w.outside ∧ (w.sched.thread t).statusData ∈ w.objects.live ∧
      (w.sched.thread t).statusData ∉ w.outside

/-- Another thread object, and nobody is blocked by that. -/
theorem WaitInv.request (hw : WaitInv w) {t : Nat} {s : Scheduler}
    (hother : KeepsOthers t w.sched s) (hst : s.status t = .runnable) {u : Nat}
    (hu : u ∈ t :: w.objects.live) (hblocked : s.status u = .waitingFor) :
    u ≠ t ∧ u ∉ w.outside ∧ (s.thread u).statusData ∈ w.objects.live ∧
      (s.thread u).statusData ∉ w.outside := by
  have hut : u ≠ t := by
    intro heq
    subst heq
    rw [hst] at hblocked
    exact absurd hblocked (by decide)
  rcases List.mem_cons.mp hu with he | hu
  · exact absurd he hut
  · rw [hother.status u hut] at hblocked
    rw [hother.data u hut]
    exact ⟨hut, hw u hu hblocked⟩

theorem WaitInv.change (hi : ThreadsInv w) (hw : WaitInv w) (hop : AsksForRing w op)
    (h : Change w op w') : WaitInv w' := by
  cases h with
  | keeps hk hr =>
      intro t ht hst
      obtain ⟨hst', hdata⟩ := hk.blocked t hst
      rw [hdata]
      exact hw t ht hst'
  | @blocks u s hrun hu0 hself hk hr =>
      intro t ht hst
      obtain ⟨hst', hdata⟩ := hk.blocked t hst
      obtain ⟨l, hl⟩ := hi.on hrun
      rw [hdata]
      by_cases hrunning : t = w.sched.runningKernelThread
      · -- the one that asked: its handle was in the ring
        subst hrunning
        rw [(block_running w.sched u).2]
        have hin : InRing w.sched u := by
          rcases hop u rfl with h0 | he | hoff | hin
          · exact absurd h0 hu0
          · exact absurd he hself
          · exact absurd hoff hrun
          · exact hin
        have hul := (hl.mem u).mp ((inRing_iff hrun hl.ring u).mp hin)
        exact ⟨((hl.mem _).mp (ring_mem_running hl.ring)).2, hul.1, hul.2⟩
      · rw [Scheduler.status, block_other w.sched u hrunning] at hst'
        rw [block_other w.sched u hrunning]
        exact hw t ht hst'
  | starts _ _ hother hst _ _ =>
      intro u hu hblocked
      obtain ⟨_, h1, h2, h3⟩ := hw.request hother hst hu hblocked
      exact ⟨h1, List.mem_cons_of_mem _ h2, h3⟩
  | joins _ _ hother hst _ _ =>
      intro u hu hblocked
      obtain ⟨_, h1, h2, h3⟩ := hw.request hother hst hu hblocked
      exact ⟨h1, List.mem_cons_of_mem _ h2, h3⟩
  | strays _ hoff _ hother hst =>
      -- with scheduling off nobody is blocked
      intro u hu hblocked
      obtain ⟨_, h1, h2, h3⟩ := hw.request hother hst hu hblocked
      exact absurd (hi.off hoff _ h2) h3
  | @removes _ u s l l' _ hl hu hmain hk hring hperm hfree =>
      intro t ht hst
      have hlive : ∀ t, t ∈ w.objects.live.erase u ↔ t ≠ u ∧ t ∈ w.objects.live :=
        fun t => hi.nodup.mem_erase_iff
      obtain ⟨htu, htlive⟩ := (hlive t).mp ht
      obtain ⟨hst', hdata⟩ := hk.blocked t hst
      obtain ⟨hout, hdlive, hdout⟩ := hw t htlive hst'
      have htl : t ∈ l' := hperm.mem_iff.mpr
        (hl.ring.nodup.mem_erase_iff.mpr ⟨htu, (hl.mem t).mpr ⟨htlive, hout⟩⟩)
      have hne := hfree t htl hst
      rw [hdata] at hne ⊢
      exact ⟨hout, (hlive _).mpr ⟨hne, hdlive⟩, hdout⟩
  | @ends l hl hrun =>
      intro t ht hst
      rw [destroyAll_live] at ht
      obtain ⟨htlive, htl⟩ := hi.nodup.mem_sdiff_iff.mp ht
      exact absurd ((hl.mem t).mpr ⟨htlive, (hw t htlive hst).1⟩) htl
  | @reuses u v hu =>
      intro t ht hst
      have htu : t ≠ u := fun he => hu (he ▸ ht)
      have hsame : (w.sched.setThread u v).thread t = w.sched.thread t :=
        Function.update_of_ne htu _ _
      rw [Scheduler.status, hsame] at hst
      rw [hsame]
      exact hw t ht hst

theorem Run.waitInv (h : Run AsksForRing w) : WaitInv w := by
  induction h with
  | start s hs => exact fun t ht => absurd ht (by simp)
  | step hrun hop hstep ih =>
      have hi := hrun.threadsInv
      exact ih.change hi hop (hstep.change hi)

/-- **No wake-up is lost** in a run where every thread that asks to wait asks for one
of the ring. -/
theorem noLostWakeUp (h : Run AsksForRing w) : NoLostWakeUp w := by
  have hi := h.threadsInv
  intro t ht hst
  obtain ⟨_, hlive, hout⟩ := h.waitInv t ht hst
  have hrun : w.sched.runningKernelThread ≠ 0 := fun h0 => hout (hi.off h0 _ hlive)
  obtain ⟨l, hl⟩ := hi.on hrun
  exact (inRing_iff hrun hl.ring _).mpr ((hl.mem _).mpr ⟨hlive, hout⟩)

/-- The main thread waits for the second one, which runs meanwhile. -/
theorem noLostWakeUp_two : ∃ w : World, NoLostWakeUp w ∧
    w.sched.status 4096 = .waitingFor ∧ w.sched.runningKernelThread = 8192 := by
  have hon := Run.step (P := AsksForRing) (.start idle rfl) (fun h he => absurd he (by simp))
    (@Step.enable _ 0 1 4096 _ _ ⟨by omega, by simp⟩ rfl)
  have htwo := Run.step hon (fun h he => absurd he (by simp)) (@Step.create _ 0 1 1 1 _ 8192 _ _
    ⟨by omega, by simp [Objects.request]⟩ rfl)
  have hwait := Run.step htwo ?_ (@Step.waitFor _ 5 1 0 0 (fun _ => 8192#32) inFiq _ 8192
    (by decide) rfl rfl)
  · exact ⟨_, noLostWakeUp hwait, rfl, rfl⟩
  · intro h he
    obtain rfl : 8192 = h := Op.waitFor.inj he
    refine .inr (.inr (.inr ((inRing_iff (l := [4096, 8192]) ?_ ?_ _).mpr (by decide))))
    · exact show 4096 ≠ 0 by omega
    · refine ⟨rfl, List.isChain_cons_cons.mpr ⟨rfl, List.isChain_singleton _⟩, ?_, by decide⟩
      intro z hz
      obtain rfl : 8192 = z := by simpa using hz
      rfl

/-- The main thread removes the second thread and then waits for it. -/
theorem waitFor_finished : ∃ w, Run (fun _ _ => True) w ∧ ¬ NoLostWakeUp w := by
  have hon := Run.step (P := fun _ _ => True) (.start idle rfl) trivial
    (@Step.enable _ 0 1 4096 _ _ ⟨by omega, by simp⟩ rfl)
  have htwo := Run.step hon trivial (@Step.create _ 0 1 1 1 _ 8192 _ _
    ⟨by omega, by simp [Objects.request]⟩ rfl)
  have hone := Run.step htwo trivial (@Step.delete _ 5 1 0 0 (fun _ => 8192#32) inFiq _ _ _
    (by decide) rfl rfl)
  have hlost := Run.step hone trivial (@Step.waitFor _ 5 1 0 0 (fun _ => 8192#32) inFiq _ 8192
    (by decide) rfl rfl)
  refine ⟨_, hlost, fun h => ?_⟩
  have hin := h 4096 (by decide) rfl
  rw [inRing_iff (l := [4096]) (show 4096 ≠ 0 by omega)] at hin
  · exact absurd hin (by decide)
  · refine ⟨rfl, List.isChain_singleton _, fun z hz => ?_, List.nodup_singleton _⟩
    obtain rfl : 4096 = z := by simpa using hz
    rfl

end OSExt.Scheduling
