import OSExt.Memory.OneCache

/-!
# Allocating

`alloc_object_from_cache` looks at the first partial slab only. If that one has
no free slot it goes to the full list, and the scan goes on at what follows it
there: nothing, if the full list was empty; otherwise two full slabs that change
places for ever. So every call that returns has taken an object from the first
partial slab, from the first free one, or from one the growth put there.

**An allocation keeps the invariant** and gives an object that no one held, as
long as growing does.
-/

namespace OSExt.Memory

open Lib

/-- The object at `p` of the cache `c` is now a client's, and was no client's before. -/
structure Gives (g : Shape) (k : Kernel) (c p : Nat) (g' : Shape) (k' : Kernel) : Prop where
  inv : SlabInv g' k'
  later : Later g k g' k'
  object : ∃ s i, g'.Has c s ∧ k'.objAddr c s i = p ∧ g'.role s i = some .client
    ∧ g.role s i ≠ some .client

def GrowSpec (grow : Nat → KernelM Unit) : Prop :=
  ∀ g k c, SlabInv g k → c ∈ g.caches →
    Ensures (grow c) (fun _ k' => ∃ g', SlabInv g' k' ∧ Later g k g' k') NoEmptySlab k

def AllocSpec (alloc : Nat → KernelM Nat) : Prop :=
  ∀ g k c, SlabInv g k → c ∈ g.caches →
    Ensures (alloc c) (fun p k' => ∃ g', Gives g k c p g' k') NoEmptySlab k

section

variable {g g1 : Shape} {k k1 : Kernel} {c : Nat}

/-- Objects are heap addresses. -/
theorem LayoutOk.objAddr_ne_zero (h : LayoutOk g k) {s : Nat} (hs : g.Has c s) (i : Nat) :
    k.objAddr c s i ≠ 0 := by
  have hlow := h.low c s hs
  have hstart := start_le_base (k.slab s) (k.cache c)
  unfold Kernel.objAddr Kernel.base
  unfold kernelHeapStart at hlow
  omega

theorem Gives.ne_zero {p : Nat} (h : Gives g k c p g1 k1) : p ≠ 0 := by
  obtain ⟨s, i, hs, rfl, _⟩ := h.object
  exact h.inv.layout.objAddr_ne_zero hs i

/-- A free slot of a slab that is on no free list is given away. -/
theorem SlabInv.gives (h : SlabInv g1 k1) (hlater : Later g k g1 k1) {s i : Nat}
    (hs : g1.Has c s) (hi : i < k1.count c s) (hclear : ¬ k1.IsUsed c s i)
    (hlist : s ∉ g1.on c .free) :
    Gives g k c (k1.objAddr c s i) (g1.setRole s i (some .client))
      (k1.setMem (setUsedBit k1.mem (k1.bitmap c s) i)) := by
  have hnone : ∀ r, g1.role s i ≠ some r := by
    intro r hr
    obtain ⟨c', hs', _, hu⟩ := h.uses.used s i r hr
    obtain rfl := h.lists.owner c c' s hs hs'
    exact hclear hu
  refine ⟨h.take hs hi hclear hlist, hlater.trans (Later.setMem g1 k1 _ rfl rfl ?_),
    s, i, hs, rfl, g1.setRole_self s i _, ?_⟩
  · intro s' i' r hr _
    refine (g1.setRole_other _ ?_).trans hr
    intro hgiven
    obtain ⟨rfl, rfl⟩ := hgiven
    exact hnone r hr
  · intro hr
    exact hnone _ (hlater.role s i _ hr (by decide))

/-! ## The scan of the partial list -/

/-- The ghost of the scan is no part of the shape. -/
theorem SlabInv.scanned (h : SlabInv g k) (l : List Nat) :
    SlabInv g { k with scanned := l } :=
  h.elsewhere rfl (fun _ _ _ => rfl) (fun _ _ => rfl) ⟨rfl, rfl, rfl, rfl, rfl, rfl, rfl⟩ rfl rfl
    (Nat.le_refl _) id fun hl => h.vm.carry (fun _ _ hs => hs) (fun _ _ hr => hr) hl rfl

theorem Later.scanned (g : Shape) (k : Kernel) (l : List Nat) :
    Later g k g { k with scanned := l } :=
  ⟨rfl, ⟨rfl, rfl, rfl, rfl, rfl, rfl, rfl⟩, fun _ _ hs => hs, fun _ _ _ hr _ => hr,
    ⟨fun _ _ _ => .refl _, fun _ _ => .refl _⟩, Nat.le_refl _, fun _ _ hs hno => absurd hs hno,
    fun _ _ _ => rfl, id⟩

/-- **The scan**: the first partial slab gives an object, or goes to an empty full list. -/
theorem scanPartial_spec (h : SlabInv g k) (hc : c ∈ g.caches) {s : Nat} {rest : List Nat}
    (hl : g.on c .part = s :: rest) (fuel : Nat) :
    Ensures (scanPartial c fuel s 0)
      (fun p k' => (p = 0 ∧ ∃ g', SlabInv g' k' ∧ Later g k g' k') ∨ ∃ g', Gives g k c p g' k')
      NoEmptySlab k := by
  cases fuel with
  | zero => exact fun _ => by simp
  | succ fuel =>
      have hon := h.lists.on c hc
      have hs : s ∈ g.on c .part := by simp [hl]
      rw [scanPartial, if_neg (hon.ne_zero hs), ensures_bind, ensures_update, ensures_bind,
        ensures_gets, ensures_bind]
      have h1 := h.scanned (s :: k.scanned)
      have hlater1 := Later.scanned g k (s :: k.scanned)
      refine (allocObjectFromSlab_spec { k with scanned := s :: k.scanned } c s).imp fun p k' hp => ?_
      rcases hp with ⟨rfl, rfl, hfull⟩ | ⟨i, hi, hclear, rfl, rfl⟩
      · rw [if_neg (by simp), ensures_bind, ensures_of_ok (scanToFull_eq _ _ _ _), ensures_bind,
          ensures_gets]
        have h2 := h1.move (b := .full) hc (show g.on c .part = [] ++ s :: rest from hl)
          (fun _ => hfull) fun hb => by cases hb
        have hlater2 := hlater1.trans
          (Later.move (b := .full) g _ hc (show g.on c .part = [] ++ s :: rest from hl))
        have hl2 : (g.setOn c (movedOn (g.on c) .part .full s [] rest)).on c .full
            = s :: g.on c .full := by
          rw [g.setOn_self]
          simp [movedOn]
        have hlinks := (h2.lists.on c hc).links .full
        rw [hl2] at hlinks
        -- what follows on the full list decides
        cases hf : g.on c .full with
        | nil =>
            rw [hf] at hlinks
            rw [show ((({ k with scanned := s :: k.scanned } : Kernel).move c .part .full s 0).slab
              s).next = 0 from hlinks.2.2]
            cases fuel with
            | zero => exact fun _ => by simp
            | succ fuel =>
                rw [scanPartial, if_pos rfl]
                exact .inl ⟨rfl, _, h2, hlater2⟩
        | cons b rest' =>
            rw [hf] at hlinks hl2
            rw [show ((({ k with scanned := s :: k.scanned } : Kernel).move c .part .full s 0).slab
              s).next = b from hlinks.2.2.1]
            exact scanFull_neverEnds fuel (h2.lists.on c hc) (h2.uses.full c hc) hl2
      · have hne := h1.layout.objAddr_ne_zero (c := c) (s := s) ⟨hc, _, hs⟩ i
        rw [if_pos hne]
        refine .inr ⟨_, h1.gives hlater1 ⟨hc, _, hs⟩ hi hclear fun hs' => ?_⟩
        exact absurd (hon.once _ _ s hs hs') (by decide)

/-! ## `alloc_object_from_cache` -/

/-- **The first free slab** gives an object. -/
theorem takeFreeSlab_spec (h : SlabInv g k) (hc : c ∈ g.caches)
    (hfree : (k.cache c).freeSlabs ≠ 0) :
    Ensures (takeFreeSlab c) (fun p k' => ∃ g', Gives g k c p g' k') NoEmptySlab k := by
  have hon := h.lists.on c hc
  cases hl : g.on c .free with
  | nil => exact absurd ((hon.links .free).eq_nil_iff.mp hl) hfree
  | cons s rest =>
      have hlinks := hon.links .free
      rw [hl] at hlinks
      have hhead : (k.cache c).freeSlabs = s := hlinks.1
      have hs : s ∈ g.on c .free := by simp [hl]
      have h1 := h.move (b := .part) hc (show g.on c .free = [] ++ s :: rest from hl)
        (fun hb => by cases hb) fun hb => by cases hb
      have hlater := Later.move (b := .part) g k hc (show g.on c .free = [] ++ s :: rest from hl)
      have hs1 := hlater.has c s ⟨hc, _, hs⟩
      rw [ensures_takeFreeSlab, hhead, ensures_bind, ensures_gets, ensures_bind]
      refine (allocObjectFromSlab_spec (k.move c .free .part s 0) c s).imp fun p k' hp => ?_
      rcases hp with ⟨rfl, rfl, hfull⟩ | ⟨i, hi, hclear, rfl, rfl⟩
      · -- with clean used arrays a free slab has a free slot
        rw [if_pos rfl]
        intro hclean
        obtain ⟨i, hi, hclear⟩ := h.uses.stock (hlater.clean hclean) c hc s hs
        rw [← hlater.layout.count ⟨hc, _, hs⟩] at hi
        refine absurd ((hlater.layout.isUsed ⟨hc, _, hs⟩ ?_).mp (hfull i hi)) hclear
        rfl
      · have hne : (k.move c .free .part s 0).objAddr c s i ≠ 0 :=
          h1.layout.objAddr_ne_zero hs1 i
        rw [if_neg hne]
        refine ⟨_, h1.gives hlater hs1 hi hclear ?_⟩
        rw [g.setOn_self]
        unfold movedOn
        rw [Function.update_of_ne (by decide)]
        exact (hon.unlink (show g.on c .free = [] ++ s :: rest from hl)).2 .free

/-- **`alloc_object_from_cache` keeps the invariant and gives a new object.** -/
theorem allocObjectFromCache_spec {grow : Nat → KernelM Unit} (hgrow : GrowSpec grow)
    (fuel : Nat) : AllocSpec (fun c => allocObjectFromCache grow c fuel) := by
  induction fuel with
  | zero =>
      intro g k c h hc
      exact fun _ => by simp
  | succ fuel ih =>
      intro g k c h hc
      have hon := h.lists.on c hc
      -- what happens once the scan has given nothing
      have hrest : ∀ g1 k1, SlabInv g1 k1 → Later g k g1 k1 →
          Ensures (do
            let ca ← gets (fun k => k.cache c)
            if ca.freeSlabs = 0 then do
              grow c
              allocObjectFromCache grow c fuel
            else takeFreeSlab c) (fun p k' => ∃ g', Gives g k c p g' k') NoEmptySlab k1 := by
        intro g1 k1 h1 hlater1
        have hc1 : c ∈ g1.caches := hlater1.caches ▸ hc
        rw [ensures_bind, ensures_gets]
        have hgives : ∀ g2 k2 p k', Later g k g2 k2 → (∃ g', Gives g2 k2 c p g' k') →
            ∃ g', Gives g k c p g' k' := by
          intro g2 k2 p k' hlater2 hg
          obtain ⟨g', hg⟩ := hg
          obtain ⟨s, i, hs, haddr, hr, hr'⟩ := hg.object
          exact ⟨g', hg.inv, hlater2.trans hg.later, s, i, hs, haddr, hr,
            fun hr0 => hr' (hlater2.role s i _ hr0 (by decide))⟩
        refine ensures_ite (fun _ => ?_) fun hfree => ?_
        · rw [ensures_bind]
          refine (hgrow g1 k1 c h1 hc1).imp fun _ k2 hk2 => ?_
          obtain ⟨g2, h2, hlater2⟩ := hk2
          have hlater := hlater1.trans hlater2
          refine (ih g2 k2 c h2 (hlater.caches ▸ hc)).imp fun p k' hp => ?_
          exact hgives g2 k2 p k' hlater hp
        · refine (takeFreeSlab_spec h1 hc1 hfree).imp fun p k' hp => ?_
          exact hgives g1 k1 p k' hlater1 hp
      show Ensures (allocObjectFromCache grow c (fuel + 1)) _ _ _
      rw [allocObjectFromCache, ensures_bind, ensures_gets]
      refine ensures_ite (fun _ => ?_) fun hpart => ?_
      · rw [ensures_bind, ensures_pure]
        beta_reduce
        rw [if_neg (by simp)]
        exact hrest g k h (.refl g k)
      · cases hl : g.on c .part with
        | nil => exact absurd ((hon.links .part).eq_nil_iff.mp hl) hpart
        | cons s rest =>
            have hlinks := hon.links .part
            rw [hl] at hlinks
            have hhead : (k.cache c).partialSlabs = s := hlinks.1
            rw [hhead, ensures_bind]
            refine (scanPartial_spec h hc hl fuel).imp fun p k' hp => ?_
            beta_reduce
            rcases hp with ⟨rfl, g1, h1, hlater1⟩ | ⟨g', hg⟩
            · rw [if_neg (by simp)]
              exact hrest g1 k' h1 hlater1
            · rw [if_pos hg.ne_zero]
              exact ⟨g', hg⟩

/-! ## `kmalloc` -/

/-- The search finds a cache whose objects are big enough, or nothing. -/
theorem bestFitCache_spec {size r : Nat} : ∀ {fuel head best : Nat}
    {l : List Nat}, IsList (fun c => (k.cache c).next) 0 head l → (∀ c ∈ l, c ∈ g.caches) →
    (best = 0 ∨ (best ∈ g.caches ∧ size ≤ k.objSize best)) →
    bestFitCache k size fuel head best = some r → r = 0 ∨ (r ∈ g.caches ∧ size ≤ k.objSize r) := by
  intro fuel
  induction fuel with
  | zero =>
      intro head best l hl hsub hbest hr
      exact absurd hr (by simp [bestFitCache])
  | succ fuel ih =>
      intro head best l hl hsub hbest hr
      rw [bestFitCache] at hr
      cases l with
      | nil =>
          rw [if_pos (show head = 0 from hl)] at hr
          exact Option.some.inj hr ▸ hbest
      | cons c l =>
          obtain ⟨rfl, hne, hrest⟩ := hl
          have hc := hsub head (List.mem_cons_self ..)
          have hsub' : ∀ c ∈ l, c ∈ g.caches := fun c hc => hsub c (List.mem_cons_of_mem _ hc)
          rw [if_neg hne] at hr
          by_cases hk : (k.cache head).kmallocs
          · rw [if_pos hk] at hr
            by_cases hsize : (k.cache head).objSize = size
            · rw [if_pos hsize] at hr
              obtain rfl := Option.some.inj hr
              exact .inr ⟨hc, hsize.symm.le⟩
            · rw [if_neg hsize] at hr
              refine ih hrest hsub' ?_ hr
              by_cases hbetter : (k.cache head).objSize > size ∧
                  (best = 0 ∨ (k.cache head).objSize < (k.cache best).objSize)
              · rw [if_pos hbetter]
                exact .inr ⟨hc, Nat.le_of_lt hbetter.1⟩
              · rw [if_neg hbetter]
                exact hbest
          · rw [if_neg hk] at hr
            exact ih hrest hsub' hbest hr

/-- **`kmalloc`** gives nothing, or an object of the cache that fits best. -/
theorem kmalloc_spec {alloc : Nat → KernelM Nat} (halloc : AllocSpec alloc) (h : SlabInv g k)
    (fuel size : Nat) :
    Ensures (kmalloc alloc fuel size) (fun p k' => (p = 0 ∧ k' = k) ∨
      ∃ c g', bestFitCache k size fuel k.caches 0 = some c ∧ c ∈ g.caches ∧ size ≤ k.objSize c
        ∧ Gives g k c p g' k') NoEmptySlab k := by
  rw [kmalloc]
  refine ensures_ite (fun _ => .inl ⟨rfl, rfl⟩) fun _ => ?_
  rw [ensures_bind, ensures_gets]
  cases hbest : bestFitCache k size fuel k.caches 0 with
  | none => exact fun _ => by simp
  | some c =>
      rcases bestFitCache_spec h.lists.caches (fun c hc => hc) (.inl rfl) hbest with
        rfl | ⟨hc, hsize⟩
      · exact .inl ⟨rfl, rfl⟩
      · cases c with
        | zero => exact .inl ⟨rfl, rfl⟩
        | succ c =>
            refine (halloc g k (c + 1) h hc).imp fun p k' hp => ?_
            obtain ⟨g', hg⟩ := hp
            exact .inr ⟨c + 1, g', rfl, hc, hsize, hg⟩

end

end OSExt.Memory
