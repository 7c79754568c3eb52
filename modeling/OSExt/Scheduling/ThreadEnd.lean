import OSExt.Scheduling.ThreadLoops

/-!
# How a thread ends

A thread may end itself, or another one removes it. The two walks over the ring are
written separately: the first looks one node ahead, stops before the thread that ends
and releases its waiters on the way; the second takes the thread out and frees it
before it releases anybody. Both are `Ended`: the ring without the thread, the waiters
released, nobody else touched.
-/

namespace OSExt.Scheduling

open Lib

variable {s s' s'' : Scheduler} {l : List Nat} {o : Objects} {u : Nat}

/-! ## Releasing the waiters -/

/-- A thread that waits for `u` once `u` has ended. -/
def SvcThread.released (u : Nat) (v : SvcThread) : SvcThread :=
  if v.status = .waitingFor ∧ v.statusData = u then
    { v with status := .runnable, statusData := 0 }
  else v

theorem rewrites_release (u : Nat) : Rewrites (release u) (SvcThread.released u) := by
  intro s t
  unfold release SvcThread.released
  by_cases h : s.status t = .waitingFor ∧ (s.thread t).statusData = u
  · have h' : (s.thread t).status = .waitingFor ∧ (s.thread t).statusData = u := h
    rw [if_pos h, if_pos h']
    rfl
  · have h' : ¬ ((s.thread t).status = .waitingFor ∧ (s.thread t).statusData = u) := h
    rw [if_neg h, if_neg h', Function.update_eq_self]

theorem running_foldl_release (u : Nat) (l : List Nat) : ∀ s : Scheduler,
    (l.foldl (release u) s).runningKernelThread = s.runningKernelThread := by
  induction l with
  | nil => exact fun _ => rfl
  | cons t l ih =>
      intro s
      rw [List.foldl_cons, ih]
      unfold release
      split <;> rfl

/--
The thread `u` of the ring `l` has ended: the ring is the old one without it, in the
same order; those that waited for it are RUNNABLE and wait for nobody, and all others
keep what they wait for.
-/
structure Ended (l : List Nat) (u : Nat) (s s' : Scheduler) : Prop where
  ring : Ring s' (l.erase u)
  released : ∀ t ∈ l, t ≠ u → s.status t = .waitingFor → (s.thread t).statusData = u →
    s'.status t = .runnable ∧ (s'.thread t).statusData = 0 ∧ s'.waiting t = s.waiting t
  kept : ∀ t, t ∉ l ∨ ¬ (s.status t = .waitingFor ∧ (s.thread t).statusData = u) →
    s'.status t = s.status t ∧ (s'.thread t).statusData = (s.thread t).statusData
      ∧ s'.waiting t = s.waiting t

/-- Ended threads of which the release loop has passed over the others, before or after
the links changed. -/
theorem ended_of_released (hring : Ring s' (l.erase u)) (hmem : ∀ t, t ∈ l.erase u ↔ t ∈ l ∧ t ≠ u)
    (hdata : ∀ t, ∃ n, s'.thread t
      = { (if t ∈ l.erase u then (s.thread t).released u else s.thread t) with next := n }) :
    Ended l u s s' := by
  refine ⟨hring, fun t ht hne hst hd => ?_, fun t ht => ?_⟩
  · obtain ⟨n, hn⟩ := hdata t
    have h : (s.thread t).status = .waitingFor ∧ (s.thread t).statusData = u := ⟨hst, hd⟩
    rw [if_pos ((hmem t).mpr ⟨ht, hne⟩), SvcThread.released, if_pos h] at hn
    simp only [Scheduler.status, Scheduler.waiting, hn, and_self]
  · obtain ⟨n, hn⟩ := hdata t
    have hsame : (if t ∈ l.erase u then (s.thread t).released u else s.thread t) = s.thread t := by
      split
      · rename_i hin
        have h := ht.resolve_left (not_not.mpr ((hmem t).mp hin).1)
        exact if_neg h
      · rfl
    rw [hsame] at hn
    simp only [Scheduler.status, Scheduler.waiting, hn, and_self]

/-- Nobody left on the ring waits for the thread that ended, unless it was released into
waiting for the same address. -/
theorem Ended.unawaited (h : Ended l u s s') (hnd : l.Nodup) :
    ∀ t ∈ l.erase u, s'.status t = .waitingFor → (s'.thread t).statusData ≠ u := by
  intro t ht hst hd
  have htl := List.mem_of_mem_erase ht
  have hne : t ≠ u := ((hnd.mem_erase_iff).mp ht).1
  by_cases hw : s.status t = .waitingFor ∧ (s.thread t).statusData = u
  · rw [(h.released t htl hne hw.1 hw.2).1] at hst
    exact absurd hst (by simp)
  · obtain ⟨hst', hd', -⟩ := h.kept t (.inr hw)
    exact hw ⟨hst'.symm.trans hst, hd'.symm.trans hd⟩

/-! ## The two ways to end -/

/-- Relinking one thread changes its link only. -/
theorem setNext_thread (s : Scheduler) (x n t : Nat) :
    ∃ n', (s.setNext x n).thread t = { s.thread t with next := n' } := by
  by_cases h : t = x
  · exact ⟨n, by rw [h]; exact Function.update_self ..⟩
  · exact ⟨(s.thread t).next, Function.update_of_ne h ..⟩

/-- A thread with another link waits like before. -/
theorem released_next (u n : Nat) (v : SvcThread) :
    SvcThread.released u { v with next := n } = { SvcThread.released u v with next := n } := by
  unfold SvcThread.released
  split
  · rfl
  · rfl

/-- **A thread that destroys itself** has ended when it calls the scheduler, unless it is
the main thread or alone. -/
theorem destroySelf_ended (hr : Ring s l) {fuel : Nat} (hf : l.length ≤ fuel) (h0 : 0 ∉ l)
    (hmain : (s.thread s.runningKernelThread).main = false)
    (hone : s.next s.runningKernelThread ≠ s.runningKernelThread) :
    ∃ s', KeepsThreads s s' ∧ Ended l s.runningKernelThread s s' ∧
      ∀ (task : Nat) (swiReturn : Word) (m : Arm) (o : Objects),
        schedulerSvcThreadDestroySelf fuel task swiReturn m s o
          = (scheduleKernelThreadCurrentSaved fuel task swiReturn m s',
            destroySvcThread s.runningKernelThread o) := by
  have ha := ring_mem_running hr
  have hrun : s.runningKernelThread ≠ 0 := fun he => h0 (he ▸ ha)
  have hcons := hr.eq_cons
  have hring := hr
  rw [hcons] at hring
  have hnd := List.nodup_cons.mp hring.nodup
  have hlen : l.tail.length < fuel := by
    rw [hcons, List.length_cons] at hf
    omega
  obtain ⟨z, hz, hza, hloop⟩ := releaseLoop_suffix s.runningKernelThread l.tail
    s.runningKernelThread s fuel hring.links hring.closed hnd.1 hlen
  rw [← hcons] at hz
  have herase : l.erase s.runningKernelThread = l.tail := by
    rw [hcons, List.erase_cons_head, List.tail_cons]
  obtain ⟨s1, hs1⟩ : ∃ s1, s1 = l.tail.foldl (release s.runningKernelThread) s := ⟨_, rfl⟩
  have hk1 : Keeps s s1 := hs1 ▸ Keeps.foldl (Keeps.release _) _ s
  have hrun1 : s1.runningKernelThread = s.runningKernelThread := hs1 ▸ running_foldl_release _ _ s
  have hzne : s.runningKernelThread ≠ z := by
    intro he
    rw [he] at hone hza
    exact hone hza
  -- the thread before is linked to the one behind, which runs next
  obtain ⟨s2, hs2⟩ : ∃ s2, s2 = s1.setNext z (s1.next s1.runningKernelThread) := ⟨_, rfl⟩
  have hnext2 : s2.next = Function.update s.next z (s.next s.runningKernelThread) := by
    rw [hs2, next_setNext, hrun1, hk1.next]
  have hk2 : KeepsThreads s s2 := hk1.toKeepsThreads.trans (hs2 ▸ KeepsThreads.setNext s1 _ _)
  have hrun2 : s2.runningKernelThread = s.runningKernelThread := by rw [hs2]; exact hrun1
  have hnew : s2.next s2.runningKernelThread = s.next s.runningKernelThread := by
    rw [hrun2, hnext2, Function.update_of_ne hzne]
  obtain ⟨s3, hs3⟩ : ∃ s3 : Scheduler,
    s3 = { s2 with runningKernelThread := s2.next s2.runningKernelThread } := ⟨_, rfl⟩
  have hring3 : Ring s3 (l.erase s.runningKernelThread) := by
    have hnext3 : s3.next = s2.next := by rw [hs3]; rfl
    have hrun3 : s3.runningKernelThread = s.next s.runningKernelThread := by rw [hs3]; exact hnew
    show IsRing s3.next s3.runningKernelThread _
    rw [hnext3, hnext2, hrun3]
    exact hr.unlinkHead hz hza hone
  have hk3 : KeepsThreads s s3 := hk2.trans (Keeps.of_thread (by rw [hs3])).toKeepsThreads
  refine ⟨s3, hk3, ended_of_released hring3 (fun t => ?_) (fun t => ?_), fun task swiReturn m o => ?_⟩
  · rw [hr.nodup.mem_erase_iff, and_comm]
  · obtain ⟨n, hn⟩ := setNext_thread s1 z (s1.next s1.runningKernelThread) t
    refine ⟨n, ?_⟩
    have hthread : s3.thread t = s2.thread t := by rw [hs3]
    rw [hthread, hs2, hn, hs1, herase,
      (rewrites_release s.runningKernelThread).foldl l.tail s hnd.2 t]
  · rw [schedulerSvcThreadDestroySelf, if_neg (by simp [hrun, hmain, hone]), hloop]
    refine Prod.ext ?_ ?_
    · rw [hs3, hs2, hs1]
    · exact congrArg (destroySvcThread · o) (running_foldl_release _ _ s)

/-- **A thread that is removed** has ended when the call returns. -/
theorem remove_ended (hr : Ring s l) {fuel t : Nat} (hf : l.length ≤ fuel) (h0 : 0 ∉ l)
    (hmain : (s.thread t).main = false) (htl : t ∈ l) (ht : t ≠ s.runningKernelThread) :
    ∃ s', KeepsThreads s s' ∧ Ended l t s s' ∧
      ∀ (task : Nat) (swiReturn : Word) (m : Arm) (o : Objects),
        schedulerRemoveKernelThread fuel task swiReturn t m s o
          = (.returned m s', destroySvcThread t o) := by
  have ha := ring_mem_running hr
  have hrun : s.runningKernelThread ≠ 0 := fun he => h0 (he ▸ ha)
  have ht0 : t ≠ 0 := fun he => h0 (he ▸ htl)
  have hcons := hr.eq_cons
  have hring := hr
  rw [hcons] at hring
  have hnd := List.nodup_cons.mp hring.nodup
  have hlen : l.tail.length < fuel := by
    rw [hcons, List.length_cons] at hf
    omega
  have hmem : t ∈ l.tail := by
    rw [hcons] at htl
    exact (List.mem_cons.mp htl).resolve_left ht
  have hguard : ¬ (t = 0 ∨ s.runningKernelThread = 0 ∨ (s.thread t).main = true) := by
    simp [ht0, hrun, hmain]
  -- the thread is not the running one, so one before it on the ring is relinked
  have hsuffix := removeLoop_suffix fuel t s l.tail s.runningKernelThread fuel hring.links
    hring.closed hnd.1 ht hlen
  rw [if_pos hmem] at hsuffix
  obtain ⟨z, hz, hzt, hloop⟩ := hsuffix
  rw [← hcons] at hz
  obtain ⟨s1, hs1⟩ : ∃ s1, s1 = s.setNext z (s.next t) := ⟨_, rfl⟩
  have hk1 : KeepsThreads s s1 := hs1 ▸ KeepsThreads.setNext s z _
  have hrun1 : s1.runningKernelThread = s.runningKernelThread := by rw [hs1]; rfl
  have hring1 : Ring s1 (l.erase t) := by
    have hunlink := hr.unlink hz (by rw [hzt]; exact ht)
    rw [hzt] at hunlink
    show IsRing s1.next s1.runningKernelThread (l.erase t)
    rw [hs1, next_setNext]
    exact hunlink
  -- the second walk is over the ring without the thread
  have hwalk : doWhile Scheduler.next s.runningKernelThread (updateBody (release t)) fuel s1
      s.runningKernelThread = some (.inr ((l.erase t).foldl (release t) s1)) := by
    have hlen1 : (l.erase t).length ≤ fuel := Nat.le_trans (List.length_erase_le ..) hf
    have hdo := doWhile_ring (keepsLinks_update fun s u => (Keeps.release t s u).next) hring1
      hlen1
    rw [scan_update, hrun1] at hdo
    exact hdo
  obtain ⟨s2, hs2⟩ : ∃ s2, s2 = (l.erase t).foldl (release t) s1 := ⟨_, rfl⟩
  have hk2 : Keeps s1 s2 := hs2 ▸ Keeps.foldl (Keeps.release t) _ s1
  have hrun2 : s2.runningKernelThread = s1.runningKernelThread :=
    hs2 ▸ running_foldl_release t _ s1
  have hring2 : Ring s2 (l.erase t) := by
    show IsRing s2.next s2.runningKernelThread (l.erase t)
    rw [hk2.next, hrun2]
    exact hring1
  refine ⟨s2, hk1.trans hk2.toKeepsThreads, ended_of_released hring2 (fun u => ?_) (fun u => ?_),
    fun task swiReturn m o => ?_⟩
  · rw [hr.nodup.mem_erase_iff, and_comm]
  · obtain ⟨n, hn⟩ := setNext_thread s z (s.next t) u
    refine ⟨n, ?_⟩
    rw [hs2, (rewrites_release t).foldl _ s1 (hr.nodup.erase t) u, hs1, hn, released_next]
    split
    · rfl
    · rfl
  · rw [schedulerRemoveKernelThread, if_neg hguard, if_neg ht, hloop o, ← hs1, hwalk, ← hs2]
    rfl

/-! ## What is left of the ring -/

/-- A scheduling call enters the same ring somewhere. -/
theorem Schedules.ring {x : Outcome} (hr : Ring s l) (h : Schedules l s x) :
    ∃ s' l', x.sched = some s' ∧ KeepsThreads s s' ∧ Ring s' l' ∧ l'.Perm l := by
  obtain ⟨s', hx, hk, hmem⟩ := h
  obtain ⟨l', hl', hperm⟩ := hr.rotate hmem
  exact ⟨s', l', hx, hk.toKeepsThreads, hl'.congr fun _ _ => by rw [hk.next], hperm⟩

/-- The call takes `u` out of the ring `l` and releases those that wait for it. -/
def Removes (l : List Nat) (u : Nat) (s : Scheduler) (x : Outcome) : Prop :=
  ∃ s' l', x.sched = some s' ∧ KeepsThreads s s' ∧ Ring s' l' ∧ l'.Perm (l.erase u) ∧
    ∀ t ∈ l', s'.status t = .waitingFor → (s'.thread t).statusData ≠ u

/-- **A thread that destroys itself leaves the ring**, unless it is the main thread or alone. -/
theorem destroySelf_removes (hr : Ring s l) {fuel : Nat} (hf : l.length ≤ fuel) (h0 : 0 ∉ l)
    (hmain : (s.thread s.runningKernelThread).main = false)
    (hone : s.next s.runningKernelThread ≠ s.runningKernelThread) (task : Nat) (swiReturn : Word)
    (m : Arm) (o : Objects) :
    ∃ x, schedulerSvcThreadDestroySelf fuel task swiReturn m s o
        = (x, destroySvcThread s.runningKernelThread o) ∧ Removes l s.runningKernelThread s x := by
  obtain ⟨s1, hk1, hended, hcall⟩ := destroySelf_ended hr hf h0 hmain hone
  have hlen1 : (l.erase s.runningKernelThread).length ≤ fuel :=
    Nat.le_trans (List.length_erase_le ..) hf
  have hrun1 : s1.runningKernelThread ≠ 0 := fun he =>
    h0 (List.mem_of_mem_erase (he ▸ ring_mem_running hended.ring))
  obtain ⟨s', l', hx, hk, hring', hperm⟩ :=
    (currentSaved_schedules hended.ring hlen1 hrun1 task swiReturn m).ring hended.ring
  refine ⟨_, hcall task swiReturn m o, s', l', hx, hk1.trans hk, hring', hperm, ?_⟩
  intro t ht hst
  obtain ⟨hst1, hdata⟩ := hk.blocked t hst
  rw [hdata]
  exact hended.unawaited hr.nodup t (hperm.mem_iff.mp ht) hst1

/-- **Another thread leaves the ring** when it is removed; removing a thread that is
not in the ring does nothing. -/
theorem remove_other (hr : Ring s l) {fuel t : Nat} (hf : l.length ≤ fuel) (h0 : 0 ∉ l)
    (hmain : (s.thread t).main = false) (ht0 : t ≠ 0) (ht : t ≠ s.runningKernelThread)
    (task : Nat) (swiReturn : Word) (m : Arm) (o : Objects) :
    if t ∈ l then ∃ x, schedulerRemoveKernelThread fuel task swiReturn t m s o
        = (x, destroySvcThread t o) ∧ Removes l t s x
    else schedulerRemoveKernelThread fuel task swiReturn t m s o = (.returned m s, o) := by
  by_cases htl : t ∈ l
  · rw [if_pos htl]
    obtain ⟨s1, hk1, hended, hcall⟩ := remove_ended hr hf h0 hmain htl ht
    exact ⟨_, hcall task swiReturn m o, s1, l.erase t, rfl, hk1, hended.ring, .refl _,
      hended.unawaited hr.nodup⟩
  · have ha := ring_mem_running hr
    have hrun : s.runningKernelThread ≠ 0 := fun he => h0 (he ▸ ha)
    have hcons := hr.eq_cons
    have hring := hr
    rw [hcons] at hring
    have hnd := List.nodup_cons.mp hring.nodup
    have hlen : l.tail.length < fuel := by
      rw [hcons, List.length_cons] at hf
      omega
    have hsuffix := removeLoop_suffix fuel t s l.tail s.runningKernelThread fuel hring.links
      hring.closed hnd.1 ht hlen
    rw [if_neg (fun h => htl (by rw [hcons]; exact List.mem_cons_of_mem _ h))] at hsuffix
    rw [if_neg htl, schedulerRemoveKernelThread, if_neg (by simp [ht0, hrun, hmain]), if_neg ht,
      hsuffix o]

/-! ## Both ways have the same effect -/

/-- A ring of at least two threads: the running one does not point to itself. -/
theorem next_ne_of_two (hr : Ring s l) (htwo : ∃ t ∈ l, t ≠ s.runningKernelThread) :
    s.next s.runningKernelThread ≠ s.runningKernelThread := by
  intro hone
  obtain ⟨t, ht, hne⟩ := htwo
  refine hne (hr.mem_of_closed (S := (· = s.runningKernelThread)) rfl ?_ t ht)
  intro x heq
  subst heq
  exact hone

/-- A thread that is not the main one, alone in the ring. -/
def loneThread : Scheduler where
  thread _ :=
    { regs := fun _ => 0, main := false, status := .runnable, waiting := 0, statusData := 0
      next := 4096 }
  runningKernelThread := 4096
  nucGuiTask := 1
  timesliceLength := 2
  slept := []

end OSExt.Scheduling
