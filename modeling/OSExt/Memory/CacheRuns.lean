import OSExt.Memory.OneCache
import OSExt.Memory.SlabRuns

/-!
# Runs of one cache

`alloc_object_from_cache` and `free_object_from_cache` on one cache, in any order and for any
addresses. In every state they lead to, an allocation gives an object after visiting each
partial slab once at most, or else it never returns; which of both is decided by the first
two partial slabs and by whether the full list and the free list are empty.
-/

namespace OSExt.Memory

open Lib

/-- `alloc_object_from_cache` once the scan has given nothing. -/
def afterScan (grow : Nat → KernelM Unit) (c fuel : Nat) : KernelM Nat := do
  let ca ← gets (fun k => k.cache c)
  if ca.freeSlabs = 0 then do
    grow c
    allocObjectFromCache grow c fuel
  else takeFreeSlab c

/-- The scan visits no partial slab twice and none of the full list. -/
structure VisitsOnce (on : SlabList → List Nat) (visited : List Nat) : Prop where
  part : ∀ s ∈ on .part, visited.count s ≤ 1
  full : ∀ s ∈ on .full, s ∉ visited

/-- The allocation terminates with an object, and the scan with it. -/
def AllocReturns (grow : Nat → KernelM Unit) (k : Kernel) (c : Nat) (on : SlabList → List Nat) :
    Prop :=
  ∃ enough, ∀ fuel ≥ enough, ∃ p k' visited, allocObjectFromCache grow c fuel k = (.ok p, k') ∧
    p ≠ 0 ∧ k'.scanned = visited ++ k.scanned ∧ VisitsOnce on visited

/-- If there is a free slab: the first partial slab has a free slot, or no slab is full. -/
def ScanStops (k : Kernel) (c : Nat) (on : SlabList → List Nat) : Prop :=
  ∀ s rest, on .part = s :: rest → k.HasSlot c s ∨ on .full = []

/-- In general: the first partial slab has a free slot; or no slab is full, and if none is free
either, the second partial slab has a free slot. -/
def ScanEnds (k : Kernel) (c : Nat) (on : SlabList → List Nat) : Prop :=
  ∀ s rest, on .part = s :: rest → k.HasSlot c s ∨ on .full = [] ∧
    (on .free = [] → ∀ s' rest', rest = s' :: rest' → k.HasSlot c s')

/-- Calls that return, on a cache that had no slab at the start. -/
inductive CacheRun (grow : Nat → KernelM Unit) (ca : Cache) (c : Nat) : Kernel → Prop where
  | start {k : Kernel} : SameCache ca (k.cache c) → (∀ w, (k.cache c).head w = 0) →
      kernelHeapStart ≤ k.kernelHeapNextPage → CacheRun grow ca c k
  | alloc {k k' : Kernel} {fuel p : Nat} : CacheRun grow ca c k →
      allocObjectFromCache grow c fuel k = (.ok p, k') → CacheRun grow ca c k'
  | free {k k' : Kernel} {fuel p : Nat} {b : Bool} : CacheRun grow ca c k →
      freeObjectFromCache fuel c p k = (.ok b, k') → CacheRun grow ca c k'

section

variable {grow : Nat → KernelM Unit} {ca : Cache} {k k' : Kernel} {c s fuel : Nat}
  {on : SlabList → List Nat} {E : Stop → Kernel → Prop}

/-! ## Behind the scan -/

theorem ensures_alloc {Q : Nat → Kernel → Prop} :
    Ensures (allocObjectFromCache grow c (fuel + 1)) Q E k ↔
      Ensures (if (k.cache c).partialSlabs = 0 then pure 0
          else scanPartial c fuel (k.cache c).partialSlabs 0)
        (fun p k1 => Ensures (if p ≠ 0 then pure p else afterScan grow c fuel) Q E k1) E k := by
  rw [allocObjectFromCache, ensures_bind, ensures_gets]
  by_cases hzero : (k.cache c).partialSlabs = 0
  · simp only [if_pos hzero]
    rw [ensures_bind]
    rfl
  · simp only [if_neg hzero]
    rw [ensures_bind]
    rfl

theorem afterScan_stocked (h : CacheOk ca k c on) (hfree : on .free ≠ []) :
    Ensures (afterScan grow c fuel) (Gave ca c k []) (fun _ _ => False) k := by
  have hne : (k.cache c).freeSlabs ≠ 0 := fun h0 =>
    hfree ((h.lists.links .free).eq_nil_iff.mpr h0)
  rw [afterScan, ensures_bind, ensures_gets, if_neg hne]
  exact takeFreeSlab_gave h hfree

theorem afterScan_grown (hgrow : AlwaysGrows grow ca c) (h : CacheOk ca k c on)
    (hfree : on .free = []) {Q : Nat → Kernel → Prop}
    (hrest : ∀ k' s visited, AddsFree k k' c on s visited →
      Ensures (allocObjectFromCache grow c fuel) Q E k') :
    Ensures (afterScan grow c fuel) Q E k := by
  have hzero : (k.cache c).freeSlabs = 0 := (h.lists.links .free).eq_nil_iff.mp hfree
  rw [afterScan, ensures_bind, ensures_gets, if_pos hzero, ensures_bind]
  refine (hgrow k on h).conseq (fun _ k' hadds => ?_) fun _ _ hstop => hstop.elim
  obtain ⟨s, visited, hadds⟩ := hadds
  exact hrest k' s visited hadds

/-- The visits before the call was made from `k'`. -/
theorem Gave.after {visited visited' : List Nat} {p : Nat} {k'' : Kernel}
    (h : Gave ca c k' visited' p k'') (hscanned : k'.scanned = visited ++ k.scanned) :
    Gave ca c k (visited' ++ visited) p k'' where
  object := h.object
  cache := h.cache
  scanned := by rw [h.scanned, hscanned, List.append_assoc]

/-! ## The scan -/

/-- What the scan leads to: no slab was there; the first one gave an object; or it was full, as
the first slab that is. -/
inductive Scanned (ca : Cache) (k : Kernel) (c : Nat) (on : SlabList → List Nat) :
    Nat → Kernel → Prop where
  | nothing : on .part = [] → Scanned ca k c on 0 k
  | object {s p : Nat} {rest : List Nat} {k1 : Kernel} : on .part = s :: rest →
      k.HasSlot c s → Gave ca c k [s] p k1 → Scanned ca k c on p k1
  | moved {s : Nat} {rest : List Nat} {k1 : Kernel} : on .part = s :: rest →
      ¬ k.HasSlot c s → on .full = [] → CacheOk ca k1 c (movedOn on .part .full s [] rest) →
      (∀ x, k1.HasSlot c x ↔ k.HasSlot c x) → k1.scanned = [s] ++ k.scanned →
      Scanned ca k c on 0 k1

/-- **The scan** ends only if it stops at the first partial slab. -/
theorem scan_spec (h : CacheOk ca k c on) (hE : ScanStops k c on ∧ 2 ≤ fuel ∨ ∀ t k', E t k') :
    Ensures (if (k.cache c).partialSlabs = 0 then pure 0
        else scanPartial c fuel (k.cache c).partialSlabs 0)
      (fun p k1 => ScanStops k c on ∧ Scanned ca k c on p k1) E k := by
  cases hl : on .part with
  | nil =>
      have hzero : (k.cache c).partialSlabs = 0 := (h.lists.links .part).eq_nil_iff.mp hl
      rw [if_pos hzero, ensures_pure]
      refine ⟨fun s rest hcons => ?_, .nothing hl⟩
      exact absurd (hl.symm.trans hcons) (List.cons_ne_nil s rest).symm
  | cons s rest =>
      have hstops : k.HasSlot c s ∨ on .full = [] → ScanStops k c on := by
        intro hor s' rest' hl'
        obtain ⟨rfl, -⟩ := List.cons.inj (hl.symm.trans hl')
        exact hor
      have hlinks := h.lists.links .part
      rw [hl] at hlinks
      have hhead : (k.cache c).partialSlabs = s := hlinks.1
      rw [hhead, if_neg hlinks.2.1]
      by_cases hslot : k.HasSlot c s
      · refine (scanPartial_slot h hl hslot (hE.imp_left fun hleft => by omega)).imp
          fun p k1 hp => ?_
        exact ⟨hstops (Or.inl hslot), .object hl hslot hp⟩
      · cases hfull : on .full with
        | nil =>
            refine (scanPartial_emptyFull h hl hslot hfull
              (hE.imp_left fun hleft => by omega)).imp fun p k1 hp => ?_
            obtain ⟨rfl, h1, hslots, hscanned⟩ := hp
            exact ⟨hstops (Or.inr hfull), .moved hl hslot hfull h1 hslots hscanned⟩
        | cons b rest' =>
            -- it goes on along the full list, for ever
            have hnot : ¬ ScanStops k c on := by
              intro hstop
              rcases hstop s rest hl with hs | hs
              · exact hslot hs
              · exact List.cons_ne_nil b rest' (hfull.symm.trans hs)
            have hany := hE.resolve_left fun hleft => hnot hleft.1
            exact (scanPartial_neverEnds h hl hslot hfull fuel).conseq (fun _ _ hq => hq)
              fun t k' _ => hany t k'

/-! ## The allocation -/

/-- **With a free slab** the call visits the first partial slab only. -/
theorem alloc_stocked (h : CacheOk ca k c on) (hfree : on .free ≠ [])
    (hE : ScanStops k c on ∧ 3 ≤ fuel ∨ ∀ t k', E t k') :
    Ensures (allocObjectFromCache grow c fuel)
      (fun p k' => ScanStops k c on ∧ Gave ca c k ((on .part).take 1) p k') E k := by
  cases fuel with
  | zero => exact (hE.resolve_left fun hleft => absurd hleft.2 (by omega)) _ _
  | succ fuel =>
      rw [ensures_alloc]
      refine (scan_spec h (hE.imp_left fun hleft => ⟨hleft.1, by omega⟩)).imp fun p k1 hp => ?_
      obtain ⟨hstops, hscan⟩ := hp
      cases hscan with
      | nothing hl =>
          rw [if_neg (not_not_intro rfl), hl]
          exact (afterScan_stocked h hfree).conseq (fun p k' hp => ⟨hstops, hp⟩)
            fun _ _ hstop => hstop.elim
      | object hl hslot hgave =>
          rw [if_pos hgave.object, hl]
          exact ⟨hstops, hgave⟩
      | @moved s rest _ hl hslot hfull h1 hslots hscanned =>
          rw [if_neg (not_not_intro rfl), hl]
          have hfree1 : movedOn on .part .full s [] rest .free ≠ [] := by
            simpa [movedOn] using hfree
          exact (afterScan_stocked h1 hfree1).conseq
            (fun p k' hp => ⟨hstops, hp.after hscanned⟩) fun _ _ hstop => hstop.elim

theorem visitsOnce_first (h : OnLists k c on) : VisitsOnce on ((on .part).take 1) where
  part s _ := by
    refine Nat.le_trans (List.count_le_length) ?_
    rw [List.length_take]
    exact Nat.min_le_left _ _
  full s hs hvisited := absurd (h.once _ _ s hs (List.mem_of_mem_take hvisited)) (by decide)

/-- **No partial slab and no free one**: the slab that is added gives the object. -/
theorem afterScan_empty (hgrow : AlwaysGrows grow ca c) (h : CacheOk ca k c on)
    (hfree : on .free = []) (hpart : on .part = []) (hE : 3 ≤ fuel ∨ ∀ t k', E t k') :
    Ensures (afterScan grow c fuel)
      (fun p k' => ∃ visited, Gave ca c k visited p k' ∧ VisitsOnce on visited) E k := by
  refine afterScan_grown hgrow h hfree fun k1 s visited hadds => ?_
  have hpart1 : addedOn on s .part = [] := by simpa [addedOn] using hpart
  have hstops : ScanStops k1 c (addedOn on s) := fun s' rest hcons =>
    absurd (hpart1.symm.trans hcons) (List.cons_ne_nil s' rest).symm
  refine (alloc_stocked (hadds.cacheOk h) (by simp [addedOn])
    (hE.imp_left fun hfuel => ⟨hstops, hfuel⟩)).imp fun p k' hp => ?_
  have hgave := hp.2.after hadds.scanned
  rw [hpart1] at hgave
  refine ⟨visited, hgave, ⟨fun x hx => ?_, fun x hx => hadds.others .full x hx⟩⟩
  exact absurd (hpart ▸ hx) List.not_mem_nil

/-- **The first partial slab has just become the only full one**, and none is free: what is left of
the partial list comes first, then the slab that is added. -/
theorem afterScan_rest {k1 : Kernel} {rest : List Nat} (hgrow : AlwaysGrows grow ca c)
    (h : CacheOk ca k c on) (hfree : on .free = []) (hl : on .part = s :: rest)
    (hfull : on .full = []) (h1 : CacheOk ca k1 c (movedOn on .part .full s [] rest))
    (hslots : ∀ x, k1.HasSlot c x ↔ k.HasSlot c x) (hscanned : k1.scanned = [s] ++ k.scanned)
    (hE : (∀ s' rest', rest = s' :: rest' → k.HasSlot c s') ∧ 3 ≤ fuel ∨ ∀ t k', E t k') :
    Ensures (afterScan grow c fuel)
      (fun p k' => (∀ s' rest', rest = s' :: rest' → k.HasSlot c s') ∧
        ∃ visited, Gave ca c k visited p k' ∧ VisitsOnce on visited) E k1 := by
  have hfree1 : movedOn on .part .full s [] rest .free = [] := by simpa [movedOn] using hfree
  refine afterScan_grown hgrow h1 hfree1 fun k2 new visited hadds => ?_
  have hpart : addedOn (movedOn on .part .full s [] rest) new .part = rest := by
    simp [addedOn, movedOn]
  have hstops : ScanStops k2 c (addedOn (movedOn on .part .full s [] rest) new) ↔
      ∀ s' rest', rest = s' :: rest' → k.HasSlot c s' := by
    unfold ScanStops
    rw [hpart]
    refine forall_congr' fun s' => forall_congr' fun rest' => imp_congr_right fun hrest => ?_
    have hs' : s' ∈ movedOn on .part .full s [] rest .part := by simp [movedOn, hrest]
    rw [hadds.hasSlot hs', hslots]
    exact or_iff_left (by simp [addedOn, movedOn])
  refine (alloc_stocked (hadds.cacheOk h1) (by simp [addedOn])
    (hE.imp_left fun hleft => ⟨hstops.mpr hleft.1, hleft.2⟩)).imp fun p k' hp => ?_
  have hgave := (hp.2.after hadds.scanned).after hscanned
  rw [hpart, List.append_assoc] at hgave
  refine ⟨hstops.mp hp.1, _, hgave, ⟨fun x hx => ?_, fun x hx => ?_⟩⟩
  · have hl' : on .part = [] ++ s :: rest := hl
    obtain ⟨w, hw⟩ := (exists_mem_movedOn (b := .full) hl').mpr ⟨.part, hx⟩
    have hother : visited.count x = 0 := List.count_eq_zero.mpr (hadds.others w x hw)
    have hfirst : (rest.take 1).count x ≤ 1 :=
      Nat.le_trans List.count_le_length (List.length_take_le 1 rest)
    rw [List.count_append, List.count_append, hother, List.count_singleton]
    by_cases hxs : s = x
    · -- `s` is not among the rest
      have hnodup := h.lists.nodup .part
      rw [hl] at hnodup
      have hnone : (rest.take 1).count x = 0 := List.count_eq_zero.mpr fun hx' =>
        (List.nodup_cons.mp hnodup).1 (hxs ▸ List.mem_of_mem_take hx')
      rw [hnone]
      split <;> omega
    · rw [if_neg (by simpa using hxs)]
      exact hfirst
  · exact absurd (hfull ▸ hx) List.not_mem_nil

theorem scanEnds_of_cons {rest : List Nat} (hl : on .part = s :: rest)
    (h : k.HasSlot c s ∨ on .full = [] ∧
      (on .free = [] → ∀ s' rest', rest = s' :: rest' → k.HasSlot c s')) : ScanEnds k c on := by
  intro s' rest' hl'
  obtain ⟨rfl, rfl⟩ := List.cons.inj (hl.symm.trans hl')
  exact h

theorem ScanEnds.stops (h : ScanEnds k c on) : ScanStops k c on :=
  fun s rest hl => (h s rest hl).imp_right And.left

/-- **What an allocation does** in any state: it returns only if the scan ends, and then with an
object. It does return then, with enough fuel. -/
theorem alloc_spec (hgrow : AlwaysGrows grow ca c) (h : CacheOk ca k c on)
    (hE : ScanEnds k c on ∧ 5 ≤ fuel ∨ ∀ t k', E t k') :
    Ensures (allocObjectFromCache grow c fuel)
      (fun p k' => ScanEnds k c on ∧ ∃ visited, Gave ca c k visited p k' ∧ VisitsOnce on visited)
      E k := by
  by_cases hfree : on .free ≠ []
  · have hends : ScanEnds k c on ↔ ScanStops k c on := by
      refine forall_congr' fun s => forall_congr' fun rest => imp_congr_right fun _ => ?_
      exact or_congr_right (and_iff_left fun hnone => absurd hnone hfree)
    rw [hends] at hE ⊢
    refine (alloc_stocked h hfree (hE.imp_left fun hleft => ⟨hleft.1, by omega⟩)).imp
      fun p k' hp => ?_
    exact ⟨hp.1, _, hp.2, visitsOnce_first h.lists⟩
  have hnone : on .free = [] := not_not.mp hfree
  cases fuel with
  | zero => exact (hE.resolve_left fun hleft => absurd hleft.2 (by omega)) _ _
  | succ fuel =>
      rw [ensures_alloc]
      refine (scan_spec h (hE.imp_left fun hleft => ⟨hleft.1.stops, by omega⟩)).imp
        fun p k1 hp => ?_
      cases hp.2 with
      | nothing hl =>
          rw [if_neg (not_not_intro rfl)]
          refine (afterScan_empty hgrow h hnone hl (hE.imp_left fun hleft => by omega)).imp
            fun p k' hp => ⟨fun s rest hcons => ?_, hp⟩
          exact absurd (hl.symm.trans hcons) (List.cons_ne_nil s rest).symm
      | object hl hslot hgave =>
          have hfirst := visitsOnce_first h.lists
          rw [hl] at hfirst
          rw [if_pos hgave.object]
          exact ⟨scanEnds_of_cons hl (Or.inl hslot), _, hgave, hfirst⟩
      | moved hl hslot hfull h1 hslots hscanned =>
          rw [if_neg (not_not_intro rfl)]
          have hrest := fun hend : ScanEnds k c on =>
            ((hend _ _ hl).resolve_left hslot).2 hnone
          refine (afterScan_rest hgrow h hnone hl hfull h1 hslots hscanned
            (hE.imp_left fun hleft => ⟨hrest hleft.1, by omega⟩)).imp fun p k' hp => ?_
          exact ⟨scanEnds_of_cons hl (Or.inr ⟨hfull, fun _ => hp.1⟩), hp.2⟩

/-- **It terminates with an object** exactly if the scan ends. -/
theorem allocReturns_iff (hgrow : AlwaysGrows grow ca c) (h : CacheOk ca k c on) :
    AllocReturns grow k c on ↔ ScanEnds k c on := by
  refine ⟨fun hreturns => ?_, fun hends => ⟨5, fun fuel hfuel => ?_⟩⟩
  · obtain ⟨enough, hcalls⟩ := hreturns
    obtain ⟨p, k', visited, hcall, -⟩ := hcalls enough (Nat.le_refl _)
    exact ((alloc_spec (E := fun _ _ => True) hgrow h (Or.inr fun _ _ => trivial)).ok hcall).1
  · obtain ⟨p, k', hcall, hp⟩ := Ensures.returns
      (alloc_spec hgrow h (Or.inl ⟨hends, hfuel⟩))
    obtain ⟨-, visited, hgave, hvisits⟩ := hp
    exact ⟨p, k', visited, hcall, hgave.object, hgave.scanned, hvisits⟩

/-! ## Freeing -/

/-- **A free keeps the cache in order**, whatever the address. -/
theorem free_keeps (h : CacheOk ca k c on) (fuel p : Nat) :
    Ensures (freeObjectFromCache fuel c p) (fun _ k' => ∃ on', CacheOk ca k' c on') NoEmptySlab
      k := by
  rw [freeObjectFromCache, ensures_bind, ensures_gets, ensures_bind]
  refine (freeScan_spec (h.lists.links .full)).imp fun r k' hr => ?_
  rcases hr with ⟨rfl, rfl, _⟩ | ⟨pre, s, post, hl, rfl, _, hacc, rfl⟩
  · refine ensures_ite (fun _ => ⟨on, h⟩) fun _ => ?_
    rw [ensures_bind]
    refine (freeScan_spec (h.lists.links .part)).imp fun r k'' hr => ?_
    rcases hr with ⟨rfl, rfl, _⟩ | ⟨pre, s, post, hl, rfl, _, hacc, rfl⟩
    · exact ⟨on, h⟩
    · have hs : s ∈ on .part := by simp [hl]
      have h1 := h.clear hs (by decide) hacc.2
      rw [ensures_bind]
      refine (isSlabFree_spec (k'.setMem
        (clearUsedBit k'.mem (k'.bitmap c s) (k'.slotOf c s p))) c s).imp fun b k'' hb => ?_
      obtain ⟨rfl, hb⟩ := hb
      refine ensures_ite (fun hfree => ?_) fun _ => ⟨on, h1⟩
      rw [hb] at hfree
      rw [ensures_bind, ensures_of_ok (partialToFree_eq _ _ _ _)]
      refine ⟨_, h1.move hl (fun hb => by cases hb) fun _ => ?_⟩
      exact ⟨0, (h1.slabs _ s hs).slots, not_isUsed_zero hfree⟩
  · -- the slab leaves the full list; then its bit may go
    have h1 := h.move (b := .part) hl (fun hb => by cases hb) fun hb => by cases hb
    have hk : Relinked c (fun _ => True) k (k.move c .full .part s (prevOf pre)) :=
      Relinked.move k c .full .part trivial fun _ => trivial
    have hs1 : s ∈ movedOn on .full .part s pre post .part := by simp [movedOn]
    have hcount : (k.move c .full .part s (prevOf pre)).count c s = k.count c s :=
      count_congr (hk.slab s) hk.cache
    have hbitmap : (k.move c .full .part s (prevOf pre)).bitmap c s = k.bitmap c s :=
      bitmap_congr (hk.slab s) hk.cache
    have h2 := h1.clear hs1 (by decide) (hcount.symm ▸ hacc.2)
    rw [hbitmap, hk.mem] at h2
    rw [ensures_bind, ensures_of_ok (fullToPartial_eq _ _ _ _), move_setMem]
    exact ⟨_, h2⟩

/-! ## Runs -/

theorem cacheOk_start (hparams : SameCache ca (k.cache c)) (hempty : ∀ w, (k.cache c).head w = 0)
    (hheap : kernelHeapStart ≤ k.kernelHeapNextPage) : CacheOk ca k c fun _ => [] where
  params := hparams
  heap := hheap
  lists := ⟨hempty, fun _ => List.nodup_nil, fun _ _ _ hs => absurd hs List.not_mem_nil⟩
  slabs _ _ hs := absurd hs List.not_mem_nil
  apart _ _ _ _ hs := absurd hs List.not_mem_nil
  full _ hs := absurd hs List.not_mem_nil
  stock _ hs := absurd hs List.not_mem_nil

/-- **Every run** leaves the cache in order. -/
theorem cacheOk_of_run (hgrow : AlwaysGrows grow ca c) (hrun : CacheRun grow ca c k) :
    ∃ on, CacheOk ca k c on := by
  induction hrun with
  | start hparams hempty hheap => exact ⟨_, cacheOk_start hparams hempty hheap⟩
  | alloc _ hcall ih =>
      obtain ⟨on, h⟩ := ih
      obtain ⟨-, visited, hgave, -⟩ :=
        (alloc_spec (E := fun _ _ => True) hgrow h (Or.inr fun _ _ => trivial)).ok hcall
      exact hgave.cache
  | free _ hcall ih =>
      obtain ⟨on, h⟩ := ih
      exact (free_keeps h _ _).ok hcall

/-- The lists are those the links spell out. -/
theorem onLists_unique {on' : SlabList → List Nat} (h : OnLists k c on) (h' : OnLists k c on') :
    on = on' := funext fun w => (h.links w).unique (h'.links w)

/-- **In every state of every run** the cache has its lists, and an allocation terminates with an
object, its scan visiting each partial slab once at most and no full one, exactly if the scan
ends. -/
theorem alloc_returns_iff (hgrow : AlwaysGrows grow ca c) (hrun : CacheRun grow ca c k) :
    (∃ on, OnLists k c on) ∧
      ∀ on, OnLists k c on → (AllocReturns grow k c on ↔ ScanEnds k c on) := by
  obtain ⟨on, h⟩ := cacheOk_of_run hgrow hrun
  refine ⟨⟨on, h.lists⟩, fun on' hlists => ?_⟩
  obtain rfl := onLists_unique h.lists hlists
  exact allocReturns_iff hgrow h

end

/-! ## Objects of a page -/

/-- Objects of a page, one to a slab. -/
def pageCache : Cache := ⟨0, 0, 0, 4096, 0, 0, 0⟩

/-- The page behind the next one. -/
def nextPageSlab (k : Kernel) : Nat := k.kernelHeapNextPage + smallPageSize

/-- A slab of a page, with its descriptor and its used bits on the page behind. -/
def growPage (c : Nat) : KernelM Unit :=
  update fun k =>
    { (k.setSlab (nextPageSlab k)
        { size := 1, start := k.kernelHeapNextPage, next := (k.cache c).freeSlabs
          used := nextPageSlab k + sizeofSlabDesc }).setFree c (nextPageSlab k) with
      mem := fill k.mem k.kernelHeapNextPage (2 * smallPageSize) 0
      kernelHeapNextPage := nextPageSlab k + smallPageSize }

section

variable {k : Kernel} {c : Nat} {on : SlabList → List Nat}

def afterGrowPage (k : Kernel) (c : Nat) : Kernel := (growPage c k).2

theorem growPage_cache (k : Kernel) (c : Nat) :
    (afterGrowPage k c).cache c = { k.cache c with freeSlabs := nextPageSlab k } :=
  Function.update_self _ _ _

theorem growPage_slab (k : Kernel) (c : Nat) : (afterGrowPage k c).slab (nextPageSlab k) =
    { size := 1, start := k.kernelHeapNextPage, next := (k.cache c).freeSlabs
      used := nextPageSlab k + sizeofSlabDesc } := by
  have hslab : (afterGrowPage k c).slab = Function.update k.slab (nextPageSlab k)
    { size := 1, start := k.kernelHeapNextPage, next := (k.cache c).freeSlabs
      used := nextPageSlab k + sizeofSlabDesc } := rfl
  rw [hslab, Function.update_self]

/-- Such a slab has one slot, and its used bit behind the descriptor. -/
theorem growPage_layout (h : SameCache pageCache (k.cache c)) :
    (afterGrowPage k c).count c (nextPageSlab k) = 1 ∧
      (afterGrowPage k c).bitmap c (nextPageSlab k) = nextPageSlab k + 16 := by
  have hoff : ((afterGrowPage k c).cache c).descOnSlab = false := by
    rw [growPage_cache]
    unfold Cache.descOnSlab onSlab
    rw [show ({ k.cache c with freeSlabs := nextPageSlab k } : Cache).objSize = 4096 from h.objSize]
    rfl
  unfold Kernel.count Kernel.bitmap
  rw [count_offSlab hoff, bitmap_offSlab hoff, growPage_slab, growPage_cache]
  rw [show ({ k.cache c with freeSlabs := nextPageSlab k } : Cache).objSize = 4096 from h.objSize]
  exact ⟨show 1 * smallPageSize / 4096 = 1 by decide, rfl⟩

/-- The new slab is behind all the others. -/
theorem growPage_adds (h : CacheOk pageCache k c on) :
    AddsFree k (afterGrowPage k c) c on (nextPageSlab k) [] := by
  obtain ⟨hcount, hbitmap⟩ := growPage_layout h.params
  have hheap := h.heap
  have hnext : (afterGrowPage k c).kernelHeapNextPage = nextPageSlab k + smallPageSize := rfl
  have hbit : ∀ y, (afterGrowPage k c).InBitmap c (nextPageSlab k) y → y = nextPageSlab k + 16 := by
    intro y hy
    unfold Kernel.InBitmap at hy
    rw [hbitmap, hcount] at hy
    omega
  have hfresh : ∀ w, nextPageSlab k ∉ on w := by
    intro w hs
    have hhigh := (h.slabs w _ hs).high
    unfold nextPageSlab at hhigh
    omega
  unfold kernelHeapStart at hheap
  constructor
  case params => rw [growPage_cache]; exact ⟨rfl, rfl, rfl⟩
  case heads => intro w; rw [growPage_cache]; cases w <;> rfl
  case next => rw [growPage_slab]
  case heap => rw [hnext]; unfold nextPageSlab; omega
  case nonNull => unfold nextPageSlab; omega
  case fresh => exact hfresh
  case slabs =>
    intro w x hx
    have hne : x ≠ nextPageSlab k := fun heq => hfresh w (heq ▸ hx)
    exact Function.update_of_ne hne _ _
  case bytes =>
    intro w x hx y hy
    have hlow := (h.slabs w x hx).bits y hy
    exact if_neg (by omega)
  case slab =>
    exact {
      slots := by rw [hcount]; exact Nat.one_pos
      low := by rw [growPage_slab]; exact h.heap
      used := Or.inr (by rw [growPage_slab]; exact Nat.succ_ne_zero _)
      high := by rw [hnext]; unfold smallPageSize; omega
      bits := fun y hy => by rw [hnext, hbit y hy]; unfold smallPageSize; omega }
  case free =>
    intro i hi
    rw [hcount] at hi
    obtain rfl : i = 0 := by omega
    unfold Kernel.IsUsed
    rw [hbitmap, not_not, usedBit_eq_zero]
    have hzero : (afterGrowPage k c).mem (nextPageSlab k + 16 + 0 / 8) = 0 :=
      if_pos (by unfold nextPageSlab smallPageSize; omega)
    rw [hzero]
    rfl
  case apart =>
    intro w x hx y hy hy'
    have hlow := (h.slabs w x hx).bits y hy
    have hat := hbit y hy'
    unfold nextPageSlab at hat
    omega
  case scanned => rfl
  case others => exact fun _ _ _ => List.not_mem_nil

theorem growPage_always (c : Nat) : AlwaysGrows growPage pageCache c :=
  fun _ _ h => ⟨_, _, growPage_adds h⟩

end

/-- The cache at 16, with no slab. -/
def noSlabs : Kernel :=
  { Clients.bareKernel with cache := fun _ => pageCache, kernelHeapNextPage := kernelHeapStart }

theorem run_noSlabs : CacheRun growPage pageCache 16 noSlabs :=
  .start ⟨rfl, rfl, rfl⟩ (fun w => by cases w <;> rfl) (Nat.le_refl _)

/-- After two objects one slab is full and on the full list, the other full and on the partial
list. -/
def twoTaken : Kernel :=
  (allocObjectFromCache growPage 16 5 (allocObjectFromCache growPage 16 5 noSlabs).2).2

theorem run_twoTaken : CacheRun growPage pageCache 16 twoTaken := by
  have h1 : (allocObjectFromCache growPage 16 5 noSlabs).1 = .ok 0xe4000000 := by decide +kernel
  have h2 : (allocObjectFromCache growPage 16 5 (allocObjectFromCache growPage 16 5 noSlabs).2).1 =
      .ok 0xe4002000 := by decide +kernel
  exact .alloc (.alloc run_noSlabs (Clients.run_eq h1)) (Clients.run_eq h2)

/-- The first allocation ends. -/
theorem alloc_returns_iff_noSlabs : AlwaysGrows growPage pageCache 16 ∧
    CacheRun growPage pageCache 16 noSlabs ∧ (∃ on, OnLists noSlabs 16 on) ∧
      ∀ on, OnLists noSlabs 16 on →
        (AllocReturns growPage noSlabs 16 on ↔ ScanEnds noSlabs 16 on) :=
  ⟨growPage_always 16, run_noSlabs, alloc_returns_iff (growPage_always 16) run_noSlabs⟩

/-- **The third object** is never given: the full partial slab is moved in front of the other full
one, and the scan goes on there. -/
theorem thirdAlloc_neverReturns : ¬ ∀ (grow : Nat → KernelM Unit) (ca : Cache) (k : Kernel)
    (c : Nat) (on : SlabList → List Nat), AlwaysGrows grow ca c → CacheRun grow ca c k → OnLists k c on →
      AllocReturns grow k c on := by
  intro h
  obtain ⟨on, hok⟩ := cacheOk_of_run (growPage_always 16) run_twoTaken
  have hreturns := h growPage pageCache twoTaken 16 on (growPage_always 16) run_twoTaken hok.lists
  have hends := (allocReturns_iff (growPage_always 16) hok).mp hreturns
  have hpart : (twoTaken.cache 16).partialSlabs = 0xe4003000 := by decide +kernel
  have hfull : (twoTaken.cache 16).fullSlabs = 0xe4001000 := by decide +kernel
  cases hl : on .part with
  | nil =>
      have hnull : (twoTaken.cache 16).partialSlabs = 0 :=
        (hok.lists.links .part).eq_nil_iff.mp hl
      rw [hpart] at hnull
      exact absurd hnull (by omega)
  | cons s rest =>
      have hlinks := hok.lists.links .part
      rw [hl] at hlinks
      obtain rfl : s = 0xe4003000 := hlinks.1.symm.trans hpart
      rcases hends _ _ hl with hslot | ⟨hnone, -⟩
      · obtain ⟨i, hi, hclear⟩ := hslot
        have hcount : twoTaken.count 16 0xe4003000 = 1 := by decide +kernel
        rw [hcount] at hi
        obtain rfl : i = 0 := by omega
        have hused : usedBit twoTaken.mem (twoTaken.bitmap 16 0xe4003000) 0 ≠ 0 := by decide +kernel
        exact hclear hused
      · have hnull : (twoTaken.cache 16).fullSlabs = 0 :=
          (hok.lists.links .full).eq_nil_iff.mp hnone
        rw [hfull] at hnull
        exact absurd hnull (by omega)

end OSExt.Memory
