import OSExt.Memory.KernelPages
import OSExt.Memory.PageOwnership

/-!
# Growing keeps the invariant

`growCache` puts a slab on new heap pages. On-slab, the pages are all it needs.
Off-slab it first allocates a descriptor and an array for the used bits, from
caches that may have to grow for that in turn, on pages further up; meanwhile the
descriptor is an object like any other. So the invariant is shown by induction on
the depth to which growing and allocating call each other.
-/

namespace OSExt.Memory

open Lib Libk

variable {g g1 g2 : Shape} {k k' k1 k2 : Kernel}

/-- What is a client's is no slab. -/
theorem SlabInv.not_slab (h : SlabInv g k) {p n : Nat} (hp : Holds g k .client p n) (c : Nat) :
    ¬ g.Has c p := by
  intro hs
  obtain ⟨c', s', i', hs', hr', rfl, _⟩ := hp
  have hrole := h.role_of_slab hs' hr' hs (h.layout.inObject_self hs')
  exact absurd hrole (by simp)

/-- The record of a slab that is being set up is written. -/
theorem Later.setSlab (h : Later g k g1 k1) {q : Nat} (hq : ∀ c, ¬ g1.Has c q) (d : SlabDesc) :
    Later g k g1 (k1.setSlab q d) (some q) := by
  have hother : ∀ s, s ≠ q → (k1.setSlab q d).slab s = k1.slab s :=
    fun s hs => Function.update_of_ne hs _ _
  have hslab : ∀ c s, g1.Has c s → (k1.setSlab q d).slab s = k1.slab s := by
    intro c s hs
    refine hother s ?_
    intro heq
    subst heq
    exact hq c hs
  have hst := h.statics
  refine ⟨h.caches, ⟨hst.caches, hst.slabCache, hst.cacheCache, hst.linkedlistCache, hst.cptCache,
      hst.blocks, hst.heap⟩,
    h.has, h.role, ⟨fun c s hs => ?_, h.layout.cache⟩, h.heap, fun c s hs hno => ?_,
    fun s hne hs => ?_, h.clean⟩
  · rw [hslab c s (h.has c s hs)]
    exact h.layout.slab c s hs
  · rw [hslab c s hs]
    exact h.fresh c s hs hno
  · rw [hother s fun he => hne (he ▸ rfl)]
    exact h.records s (by simp) hs

theorem New.setSlab {p n q : Nat} (h : New g g1 k1 p n) (hq : ∀ c, ¬ g1.Has c q) (d : SlabDesc) :
    New g g1 (k1.setSlab q d) p n := by
  obtain ⟨c, s, i, hs, hr, hr', haddr, hn⟩ := h
  have hne : s ≠ q := by
    intro he
    exact hq c (he ▸ hs)
  refine ⟨c, s, i, hs, hr, hr', Eq.trans ?_ haddr, hn⟩
  show (Function.update k1.slab q d s).base (k1.cache c) + _ = _
  rw [Function.update_of_ne hne]
  rfl

/-- The slab that was set up is one of the shape. -/
theorem Later.addSlab {q c : Nat} (h : Later g k g1 k1 (some q)) (hc : c ∈ g1.caches)
    (hfresh : k.kernelHeapNextPage ≤ (k1.slab q).start) (page : Nat) :
    Later g k (g1.addSlab c q) (k1.addSlab c q page) := by
  have hhas := Shape.has_addSlab hc q
  have hk : Relinked c (fun x => x = q) k1 (k1.push c .free q) := Relinked.push k1 c .free rfl
  refine ⟨h.caches, ?_, fun c' s hs => (hhas c' s).mpr (.inr (h.has c' s hs)), h.role, ?_, ?_, ?_,
    ?_, fun hcl => h.clean (hk.clean.mp hcl)⟩
  · exact h.statics.trans ⟨hk.statics.caches, hk.statics.slabCache, hk.statics.cacheCache,
      hk.statics.linkedlistCache, hk.statics.cptCache, hk.statics.blocks, hk.statics.heap⟩
  · exact ⟨fun c' s hs => (h.layout.slab c' s hs).trans (hk.slab s),
      fun c' hc' => (h.layout.cache c' hc').trans (hk.cacheOf c')⟩
  · exact Nat.le_trans h.heap hk.heap.symm.le
  · intro c' s hs hno
    show k.kernelHeapNextPage ≤ ((k1.push c .free q).slab s).start
    rw [(hk.slab s).start]
    rcases (hhas c' s).mp hs with ⟨_, rfl⟩ | hs
    · exact hfresh
    · exact h.fresh c' s hs hno
  · intro s _ hs
    have hne : s ≠ q := by
      intro heq
      subst heq
      exact hs c ((hhas c s).mpr (.inl ⟨rfl, rfl⟩))
    show (k1.push c .free q).slab s = k.slab s
    rw [hk.links s hne]
    refine h.records s ?_ fun c' hs' => hs c' ((hhas c' s).mpr (.inr hs'))
    simpa using hne

/-! ## The used array -/

/-- **The used array** of a slab that is being set up: a new object, noted if it is not clean. -/
theorem giveUsedArray_spec {calls : SlabCalls} (hcalls : calls.Ok) (h : SlabInv g k) {q n : Nat}
    (hq : Holds g k .client q n) (fuel : Nat) (irqS : IrqState) (objs : Nat) :
    Ensures (giveUsedArray calls fuel irqS q objs) (fun _ k' => ∃ g' p, SlabInv g' k' ∧
      Later g k g' k' (some q) ∧ New g g' k' p (objs / 8 + 1) ∧
      k'.slab q = { k.slab q with used := p } ∧
      (k'.Clean → ∀ i < objs, usedBit k'.mem p i = 0)) NoEmptySlab k := by
  rw [giveUsedArray, ensures_bind]
  refine (kmalloc_spec hcalls.alloc h fuel _).imp fun p k1 hk1 => ?_
  rw [ensures_bind, ensures_update, ensures_bind, ensures_update]
  rcases hk1 with ⟨rfl, rfl⟩ | ⟨c, g1, _, hc, hsize, hg⟩
  · rw [if_pos rfl]
    exact fun _ => by simp
  · rw [if_neg hg.ne_zero]
    have hlater := hg.later
    have hq1 : ∀ c, ¬ g1.Has c q := hg.inv.not_slab (k := k1) (p := q) (n := n)
      (hq.mono hlater.has (fun s i hr => hlater.role s i _ hr (by decide)) hlater.layout)
    have hrecord : k1.slab q = k.slab q := hlater.records q (by simp) hq1
    -- the log, then the pointer
    have h2 : SlabInv g1 { k1 with arrays := ⟨p, objs, k1.mem⟩ :: k1.arrays } := by
      refine hg.inv.elsewhere rfl (fun _ _ _ => rfl) (fun _ _ => rfl) ⟨rfl, rfl, rfl, rfl, rfl, rfl, rfl⟩ rfl
        rfl (Nat.le_refl _) ?_ fun hl =>
          hg.inv.vm.carry (fun _ _ hs => hs) (fun _ _ hr => hr) hl rfl
      exact fun hcl a ha => hcl a (List.mem_cons_of_mem _ ha)
    have hquiet : Quiet k1 { k1 with arrays := ⟨p, objs, k1.mem⟩ :: k1.arrays } :=
      ⟨rfl, rfl, ⟨rfl, rfl, rfl, rfl, rfl, rfl, rfl⟩, rfl, fun hcl a ha => hcl a (List.mem_cons_of_mem _ ha)⟩
    have hlater2 := hlater.trans (hquiet.later g1)
    refine ⟨g1, p, h2.setSlab hq1 _, hlater2.setSlab hq1 _, ?_, ?_, ?_⟩
    · refine New.setSlab ((hg.toNew (.refl g k) ?_).later (hquiet.later g1 (q := none))) hq1 _
      rw [hlater.layout.objSize hc]
      exact hsize
    · show Function.update k1.slab q { k1.slab q with used := p } q = _
      rw [Function.update_self, hrecord]
    · exact fun hcl => hcl ⟨p, objs, k1.mem⟩ (List.mem_cons_self ..)

/-! ## An off-slab slab -/

/-- Pages above all slabs, taken off the heap since `k`. -/
structure Reserved (g : Shape) (k k1 : Kernel) (start n : Nat) : Prop where
  later : Later g k g k1
  size : 0 < n
  old : k.kernelHeapNextPage = start
  below : start + n * smallPageSize ≤ k1.kernelHeapNextPage

/-- **With descriptor and used array off-slab**: `q` is a new object and its record is set. -/
theorem offSlab_spec {calls : SlabCalls} (hcalls : calls.Ok) {start size c q page : Nat}
    {d : SlabDesc} (h : SlabInv g k) (hres : Reserved g k k1 start size) (hc : c ∈ g.caches)
    (hoff : (k.cache c).descOnSlab = false) (hfit : k.objSize c ≤ size * smallPageSize)
    (h2 : SlabInv g2 k2) (hlater : Later g k1 g2 k2) (hq : New g g2 k2 q sizeofSlabDesc)
    (hsize : d.size = size) (hstart : d.start = start) (hpages : size = (k.cache c).slabPages)
    (hpage : k.PageFor c page) (fuel : Nat) (irqS : IrqState) :
    Ensures (do
      giveUsedArray calls fuel irqS q (size * smallPageSize / k.objSize c)
      addFreeSlab c q page) (fun _ => Keeps g k) NoEmptySlab (k2.setSlab q d) := by
  have hq2 := h2.not_slab hq.holds
  have h3 := h2.setSlab hq2 d
  have hlater3 : Later g k g2 (k2.setSlab q d) (some q) := (hres.later.trans hlater).setSlab hq2 d
  have hq3 := hq.setSlab hq2 d
  rw [ensures_bind]
  refine (giveUsedArray_spec hcalls h3 hq3.holds fuel irqS _).imp fun _ k4 hk4 => ?_
  obtain ⟨g4, p, h4, hlater4, hp4, hrecord, hclean⟩ := hk4
  have hq4 := hq3.later hlater4
  have hlater04 := hlater3.trans hlater4
  have hne : p ≠ q := hp4.ne h4 hq3 hlater4
  have hslab : k4.slab q = { d with used := p } := by
    rw [hrecord]
    show { Function.update k2.slab q d q with used := p } = _
    rw [Function.update_self]
  -- both objects are the slab's from here on
  obtain ⟨g5, h5, hlater5, hp5, hnew5, _, hcaches5, hon5⟩ :=
    (hp4.since hlater3).retag h4 hlater04 (.bitmap q)
  obtain ⟨g6, h6, hlater6, hq6, _, hheld6, hcaches6, hon6⟩ :=
    (hnew5 q _ hne.symm hq4).retag h5 hlater5 (.slabDesc q)
  have hc6 : c ∈ g6.caches := hlater6.caches ▸ hc
  have hca := hlater6.layout.cache c hc
  have hoff6 : (k4.cache c).descOnSlab = false := (descOnSlab_congr hca).trans hoff
  have hcount : k4.count c q = size * smallPageSize / k.objSize c := by
    unfold Kernel.count
    rw [count_offSlab hoff6, hslab, hca.objSize]
    show d.size * _ / _ = _
    rw [hsize]
    rfl
  have hend : (k4.slab q).pagesEnd = start + size * smallPageSize := by
    rw [hslab]
    show d.start + d.size * _ = _
    rw [hsize, hstart]
  have hstart4 : (k4.slab q).start = start := by
    rw [hslab]
    exact hstart
  have hnew6 : ∀ c', ¬ g6.Has c' q := by
    intro c' hs
    exact h5.not_slab (hnew5 q _ hne.symm hq4).holds c'
      (by unfold Shape.Has at hs ⊢; rwa [hcaches6, hon6] at hs)
  have hready : SlabReady g6 k4 c q page := by
    refine ⟨hc6, hnew6, ?_, ⟨?_, ?_, ?_⟩, ?_, ?_, ?_, ?_, fun _ => hq6, ?_, ?_, ?_,
      hpage.carry hca hlater6.statics.blocksAligned.mp⟩
    · obtain ⟨c', s, i, hs, _, _, rfl, _⟩ := hq4
      exact h4.layout.objAddr_ne_zero hs i
    · rw [hca.objSize]
      exact h.caches.objSize c hc
    · rw [hslab]
      exact hsize ▸ hres.size
    · rw [hca.objSize, hslab]
      show _ ≤ d.size * _
      rw [hsize]
      exact hfit
    · rw [hstart4, ← hres.old]
      exact h.layout.heap
    · rw [hend]
      exact Nat.le_trans hres.below (Nat.le_trans hlater.heap hlater4.heap)
    · intro c' s' hs'
      rw [hend, hstart4]
      by_cases hs : g.Has c' s'
      · -- a slab from before the pages were taken
        refine .inr ?_
        rw [(hlater6.layout.slab c' s' hs).pagesEnd, ← hres.old]
        exact h.layout.high c' s' hs
      · -- one that was put further up meanwhile
        have hs4 : g4.Has c' s' := by
          unfold Shape.Has at hs' ⊢
          rwa [hcaches6, hon6, hcaches5, hon5] at hs'
        exact .inl (Nat.le_trans hres.below
          (((hlater.setSlab hq2 d).trans hlater4).fresh c' s' hs4 hs))
    · intro hon
      rw [hoff6] at hon
      exact absurd hon (by simp)
    · intro _
      rw [hcount, hslab]
      exact hheld6 _ _ _ hne hp5
    · intro hcl i hi
      rw [hcount] at hi
      have hbm : k4.bitmap c q = p := by
        unfold Kernel.bitmap
        rw [bitmap_offSlab hoff6, hslab]
      rw [hbm]
      exact hclean hcl i hi
    · rw [hstart4, ← hres.old, slabPages_congr hca, ← hpages, hslab]
      exact ⟨h.caches.heap, hsize⟩
  rw [ensures_of_ok (addFreeSlab_eq _ _ _ _)]
  exact ⟨_, h6.addSlab hready, hlater6.addSlab hc6 (by rw [hstart4, hres.old]) page⟩

/-! ## An on-slab slab -/

/-- A bit of a byte that is zero is clear. -/
theorem usedBit_zero {mem : Nat → Byte} {used i : Nat} (h : mem (used + i / 8) = 0) :
    usedBit mem used i = 0 := by
  rw [usedBit_eq_zero, h]
  simp

/-- **With descriptor and used bits on the page**: the page is clear and its record is set. -/
theorem onSlab_spec {start c page : Nat} (h : SlabInv g k) (h1 : SlabInv g k1)
    (hres : Reserved g k k1 start 1) (hc : c ∈ g.caches)
    (hon : (k.cache c).descOnSlab = true)
    (hzero : ∀ x, start ≤ x → x < start + smallPageSize → k1.mem x = 0)
    (hsmall : k.objSize c < smallPageSize) (hpage : k.PageFor c page) :
    Keeps g k ((k1.setSlab start { size := 1, start := start, next := 0, used := 0 }).addSlab c
      start page) := by
  have hnew : ∀ c', ¬ g.Has c' start := fun c' hs =>
    absurd (h.slab_lt hs) (by rw [hres.old]; exact Nat.lt_irrefl _)
  have h2 := h1.setSlab hnew { size := 1, start := start, next := 0, used := 0 }
  have hlater2 := hres.later.setSlab hnew { size := 1, start := start, next := 0, used := 0 }
  obtain ⟨k2, hk2⟩ : ∃ k2, k2 = k1.setSlab start { size := 1, start := start, next := 0, used := 0 } :=
    ⟨_, rfl⟩
  have hslab : k2.slab start = { size := 1, start := start, next := 0, used := 0 } := by
    rw [hk2]
    exact Function.update_self ..
  have hmem : k2.mem = k1.mem := by rw [hk2]; rfl
  have hheap : k2.kernelHeapNextPage = k1.kernelHeapNextPage := by rw [hk2]; rfl
  rw [← hk2] at h2 hlater2 ⊢
  have hca := hlater2.layout.cache c hc
  have hon2 : (k2.cache c).descOnSlab = true := (descOnSlab_congr hca).trans hon
  have hpos : 0 < (k2.cache c).objSize := by
    rw [hca.objSize]
    exact h.caches.objSize c hc
  have hfits : Fits (k2.cache c) (k2.slab start) := by
    have hsmall := onSlab_lt hon2
    refine ⟨hpos, by rw [hslab]; exact Nat.one_pos, ?_⟩
    rw [hslab]
    show _ ≤ 1 * smallPageSize
    unfold smallPageSize
    omega
  have hend : (k2.slab start).pagesEnd = start + smallPageSize := by
    rw [hslab]
    show start + 1 * smallPageSize = _
    rw [Nat.one_mul]
  have hstart : (k2.slab start).start = start := by rw [hslab]
  have hbelow := hres.below
  rw [Nat.one_mul] at hbelow
  have hlow : kernelHeapStart ≤ start := hres.old ▸ h.layout.heap
  have hready : SlabReady g k2 c start page := by
    refine ⟨hc, hnew, ?_, hfits, ?_, ?_, ?_, fun _ => hstart.symm, ?_, ?_, ?_, ?_,
      hpage.carry hca hlater2.statics.blocksAligned.mp⟩
    · unfold kernelHeapStart at hlow
      omega
    · rw [hstart]
      exact hlow
    · rw [hend, hheap]
      exact hbelow
    · intro c' s' hs'
      refine .inr ?_
      rw [(hlater2.layout.slab c' s' hs').pagesEnd, hstart, ← hres.old]
      exact h.layout.high c' s' hs'
    · intro hoff
      rw [hon2] at hoff
      exact absurd hoff (by simp)
    · intro hoff
      rw [hon2] at hoff
      exact absurd hoff (by simp)
    · -- the used bits are on the page
      intro _ i hi
      refine usedBit_zero ?_
      have hbm : k2.bitmap c start = start + 16 := by
        rw [Kernel.bitmap, bitmap_onSlab hon2, hstart]
      have hdiv : i / 8 ≤ k2.count c start / 8 := Nat.div_le_div_right (Nat.le_of_lt hi)
      have hhead := bitmap_le_base (d := k2.slab start) hon2
      have hroom := base_onSlab_room hfits hon2
      rw [hstart] at hhead
      rw [hend] at hroom
      unfold Kernel.count at hdiv
      rw [hbm, hmem]
      exact hzero _ (by omega) (by omega)
    · rw [slabPages_congr hca, hslab]
      exact ⟨hres.old ▸ h.caches.heap, (if_pos hsmall).symm⟩
  exact ⟨_, h2.addSlab hready, hlater2.addSlab hc (by rw [hstart, hres.old]) page⟩

/-! ## `growCache` -/

theorem SlabInv.setPages (h : SlabInv g k) (pages : Pageblocks)
    (hpages : pages.map Pageblock.start = k.pages.map Pageblock.start) :
    Unlisted g k { k with pages := pages } :=
  ⟨h.elsewhere rfl (fun _ _ _ => rfl) (fun _ _ => rfl) ⟨rfl, rfl, rfl, rfl, rfl, hpages, rfl⟩ rfl
    rfl (Nat.le_refl _) id fun hl => h.vm.carry (fun _ _ hs => hs) (fun _ _ hr => hr) hl rfl,
    ⟨rfl, rfl, ⟨rfl, rfl, rfl, rfl, rfl, hpages, rfl⟩, rfl, id⟩⟩

/-- Nothing of the slabs is in the status register. -/
theorem SlabInv.setCpsr (h : SlabInv g k) (cpsr : Word) : Unlisted g k (k.setCpsr cpsr) :=
  ⟨h.elsewhere rfl (fun _ _ _ => rfl) (fun _ _ => rfl) ⟨rfl, rfl, rfl, rfl, rfl, rfl, rfl⟩ rfl rfl
    (Nat.le_refl _) id fun hl => h.vm.carry (fun _ _ hs => hs) (fun _ _ hr => hr) hl rfl,
    ⟨rfl, rfl, ⟨rfl, rfl, rfl, rfl, rfl, rfl, rfl⟩, rfl, id⟩⟩

/-- The heap grows by `n` pages. -/
theorem SlabInv.setHeap (h : SlabInv g k) (n : Nat) :
    SlabInv g { k with kernelHeapNextPage := k.kernelHeapNextPage + smallPageSize * n } ∧
      Later g k g { k with kernelHeapNextPage := k.kernelHeapNextPage + smallPageSize * n } := by
  have hheap := Nat.le_add_right k.kernelHeapNextPage (smallPageSize * n)
  have hst : SameStatics k
      { k with kernelHeapNextPage := k.kernelHeapNextPage + smallPageSize * n } :=
    ⟨rfl, rfl, rfl, rfl, rfl, rfl, Nat.add_mul_mod_self_left ..⟩
  exact ⟨h.elsewhere rfl (fun _ _ _ => rfl) (fun _ _ => rfl) hst rfl rfl hheap id
    fun hl => h.vm.carry (fun _ _ hs => hs) (fun _ _ hr => hr) hl rfl,
    rfl, hst, fun _ _ hs => hs, fun _ _ _ hr _ => hr,
    ⟨fun _ _ _ => .refl _, fun _ _ => .refl _⟩, hheap, fun _ _ hs hno => absurd hs hno,
    fun _ _ _ => rfl, id⟩

/-- Pages above all slabs are cleared. -/
theorem SlabInv.clearPages (h : SlabInv g k) (h1 : SlabInv g k1) (hlater : Later g k g k1)
    {start : Nat} (hstart : k.kernelHeapNextPage = start) (n : Nat) :
    SlabInv g (k1.setMem (fill k1.mem start n 0)) := by
  refine h1.setMem fun c s x hs hx => fill_other _ _ fun hin => ?_
  have hlt := h.inBitmap_lt hs ((hlater.layout.inBitmap hs).mp hx)
  omega

/-- **The branch of `growCache` for small objects keeps the invariant.** -/
theorem growSmall_spec (env : Env) {calls : SlabCalls} (hcalls : calls.Ok) (h : SlabInv g k)
    {c : Nat} (hc : c ∈ g.caches) (hsmall : k.objSize c < smallPageSize) (fuel : Nat)
    (irqS : IrqState) : Ensures (growSmall env calls fuel irqS c) (fun _ => Keeps g k) NoEmptySlab k := by
  rw [growSmall]
  refine ensures_gets_bind fun ca hca => ?_
  rw [ensures_bind, ensures_gets]
  subst hca
  rcases hpage : usePage k.pages with ⟨page | page, pages⟩
  · exact fun _ => by simp
  rw [ensures_bind, ensures_update, ensures_bind, ensures_gets, ensures_bind]
  have hpages := h.setPages pages (by rw [← usePage_starts k.pages, hpage])
  have hfor : k.PageFor c page :=
    ⟨fun hblocks => usePage_dvd hblocks (by rw [hpage]), fun hbig => absurd hbig (by omega)⟩
  refine (addUnlistedKernelPage_spec env hpages.1 _ page _).imp fun cpt k1 hk1 => ?_
  obtain ⟨h1, hq1⟩ := hpages.trans hk1
  have hheap1 : k1.kernelHeapNextPage = k.kernelHeapNextPage := hq1.heap
  -- the page is cleared and the heap goes on behind it
  rw [ensures_bind, ensures_update, ensures_bind, ensures_update]
  have h2 := h.clearPages h1 (hq1.later g) rfl smallPageSize
  have hq2 := hq1.trans (Quiet.setMem k1 (fill k1.mem k.kernelHeapNextPage smallPageSize 0))
  obtain ⟨k2, hk2⟩ : ∃ k2, k2 = k1.setMem (fill k1.mem k.kernelHeapNextPage smallPageSize 0) :=
    ⟨_, rfl⟩
  have hzero : ∀ x, k.kernelHeapNextPage ≤ x → x < k.kernelHeapNextPage + smallPageSize →
      k2.mem x = 0 := by
    intro x hlo hhi
    rw [hk2]
    exact if_pos ⟨hlo, hhi⟩
  rw [show ({ k with pages := pages } : Kernel).kernelHeapNextPage = k.kernelHeapNextPage from rfl,
    ← hk2]
  rw [← hk2] at h2 hq2
  obtain ⟨h3, hlater3⟩ := h2.setHeap 1
  rw [Nat.mul_one] at h3 hlater3
  obtain ⟨k3, hk3⟩ : ∃ k3 : Kernel,
    k3 = { k2 with kernelHeapNextPage := k2.kernelHeapNextPage + smallPageSize } := ⟨_, rfl⟩
  have hmem3 : k3.mem = k2.mem := by rw [hk3]
  have hheap3 : k3.kernelHeapNextPage = k.kernelHeapNextPage + smallPageSize := by
    rw [hk3, ← hq2.heap]
  rw [← hk3] at h3 hlater3 ⊢
  have hlater : Later g k g k3 := (hq2.later g).trans hlater3
  have hres : Reserved g k k3 k.kernelHeapNextPage 1 :=
    ⟨hlater, Nat.one_pos, rfl, by rw [Nat.one_mul, hheap3]⟩
  have htrack : ∀ k', Keeps g k k' → Ensures (trackKernelPage calls (k.cache c).cb cpt page page
      k.kernelHeapNextPage) (fun _ => Keeps g k) NoEmptySlab k' := by
    intro k' hk'
    obtain ⟨g', h', hlater'⟩ := hk'
    exact (trackKernelPage_spec hcalls h' _ cpt page page _).imp fun _ _ hk => hk.trans hlater'
  cases hon : (k.cache c).descOnSlab with
  | true =>
      have hk := onSlab_spec h h3 hres hc hon (by rw [hmem3]; exact hzero) hsmall hfor
      rw [show onSlab (k.cache c).objSize (k.cache c).flags = true from hon]
      exact htrack _ hk
  | false =>
      rw [show onSlab (k.cache c).objSize (k.cache c).flags = false from hon]
      simp only [ensures_bind, ensures_gets, ensures_update, Bool.false_eq_true, if_false]
      have hsc := h3.caches.slabCache
      refine (hcalls.alloc g k3 _ h3 hsc.1).imp fun q k4 hk4 => ?_
      obtain ⟨g4, hg⟩ := hk4
      have hq : New g g4 k4 q sizeofSlabDesc := by
        refine hg.toNew hlater ?_
        rw [hg.later.layout.objSize hsc.1, hsc.2]
      have hoffSlab := offSlab_spec hcalls h hres hc hon (by rw [Nat.one_mul]; omega) hg.inv
        hg.later hq (d := { size := 1, start := k.kernelHeapNextPage, next := 0, used := 0 }) rfl rfl
        (if_pos hsmall).symm hfor fuel irqS
      rw [ensures_bind, Nat.one_mul] at hoffSlab
      exact hoffSlab.imp fun _ _ hadd => hadd.imp fun _ _ hk => htrack _ hk

/-- **The branch for big objects keeps the invariant.** -/
theorem growBig_spec (env : Env) {calls : SlabCalls} (hcalls : calls.Ok) (h : SlabInv g k)
    {c : Nat} (hc : c ∈ g.caches) (hbig : ¬ k.objSize c < smallPageSize) (fuel : Nat)
    (irqS : IrqState) : Ensures (growBig env calls fuel irqS c) (fun _ => Keeps g k) NoEmptySlab k := by
  have hobj : k.objSize c ≤ (k.cache c).objPages * smallPageSize ∧ 0 < (k.cache c).objPages := by
    unfold Kernel.objSize at hbig ⊢
    unfold Cache.objPages smallPageSize at *
    split <;> omega
  have hon : (k.cache c).descOnSlab = false := by
    cases hon : (k.cache c).descOnSlab with
    | false => rfl
    | true =>
        have hsmall := onSlab_lt hon
        unfold Kernel.objSize smallPageSize at hbig
        omega
  rw [growBig, ensures_bind, ensures_gets]
  simp only []
  rw [ensures_bind, ensures_gets]
  rcases hpage : useConsecutivePages (k.cache c).objPages (k.cache c).alignment k.pages
    with ⟨page | page, pages⟩
  · exact fun _ => by simp
  rw [ensures_bind, ensures_update, ensures_bind, ensures_gets, ensures_bind, ensures_update]
  refine ensures_ite (fun _ _ => by simp) fun _ => ?_
  -- the pages are taken off the heap first
  have hpages := h.setPages pages
    (by rw [← useConsecutivePages_starts _ _ k.pages, hpage])
  have hdvd := useConsecutivePages_dvd (congrArg Prod.fst hpage)
  have hfor : k.PageFor c page := ⟨hdvd.1, fun _ => hdvd.2⟩
  obtain ⟨h1, hlater1⟩ := hpages.1.setHeap (k.cache c).objPages
  rw [ensures_bind]
  refine (addUnlistedKernelPages_spec env _ page _ _ 0 h1).imp fun cpts k2 hk2 => ?_
  obtain ⟨h2, hq2⟩ := hk2
  have hlater2 := ((hpages.2.later g).trans hlater1).trans (hq2.later g)
  have hheap2 : k2.kernelHeapNextPage
      = k.kernelHeapNextPage + smallPageSize * (k.cache c).objPages := hq2.heap
  rw [ensures_bind, ensures_update]
  have h3 := h.clearPages h2 hlater2 rfl (smallPageSize * (k.cache c).objPages)
  have hlater3 := hlater2.trans ((Quiet.setMem k2 (fill k2.mem k.kernelHeapNextPage
    (smallPageSize * (k.cache c).objPages) 0)).later g)
  have hres : Reserved g k (k2.setMem (fill k2.mem k.kernelHeapNextPage
      (smallPageSize * (k.cache c).objPages) 0)) k.kernelHeapNextPage (k.cache c).objPages :=
    ⟨hlater3, hobj.2, rfl, by rw [Nat.mul_comm]; exact hheap2.symm.le⟩
  -- then the descriptor and the used array
  rw [ensures_bind]
  refine (kmalloc_spec hcalls.alloc h3 fuel sizeofSlabDesc).imp fun q k4 hk4 => ?_
  rcases hk4 with ⟨rfl, rfl⟩ | ⟨c', g4, _, hc', hsize, hg⟩
  · rw [if_pos rfl]
    exact fun _ => by simp
  have hq : New g g4 k4 q sizeofSlabDesc := by
    refine hg.toNew hlater3 ?_
    rw [hg.later.layout.objSize hc']
    exact hsize
  rw [if_neg hg.ne_zero, ensures_bind, ensures_update, ensures_bind,
    Nat.mul_comm smallPageSize]
  have hoffSlab := offSlab_spec hcalls h hres hc hon hobj.1 hg.inv hg.later hq
    (d := { k4.slab q with size := (k.cache c).objPages, start := k.kernelHeapNextPage, next := 0 })
    rfl rfl (if_neg hbig).symm hfor fuel irqS
  rw [ensures_bind] at hoffSlab
  refine hoffSlab.imp fun _ _ hadd => ?_
  rw [ensures_bind]
  refine hadd.imp fun _ k6 hk6 => ?_
  refine ensures_forRange (I := Keeps g k) (fun i k' hk' => ?_) hk6
  obtain ⟨g', h', hlater'⟩ := hk'
  exact (trackKernelPage_spec hcalls h' _ _ _ _ _).imp fun _ _ hk => hk.trans hlater'

theorem growWith_spec (env : Env) {calls : SlabCalls} (hcalls : calls.Ok) (fuel : Nat) :
    GrowSpec (growWith env calls fuel) := by
  intro g k c h hc
  rw [growWith, irqSection]
  refine ensures_gets_bind fun irqS _ => ?_
  rw [ensures_bind, ensures_update, ensures_bind, ensures_bind, ensures_gets]
  -- the flags are set aside, and put back at the end
  have h1 := h.setCpsr (irqDisable k.cpsr)
  have hgrow : Ensures (if (k.cache c).objSize < smallPageSize then growSmall env calls fuel irqS c
      else growBig env calls fuel irqS c) (fun _ => Keeps g (k.setCpsr (irqDisable k.cpsr)))
      NoEmptySlab (k.setCpsr (irqDisable k.cpsr)) :=
    ensures_ite (fun hsmall => growSmall_spec env hcalls h1.1 hc hsmall fuel irqS)
      fun hbig => growBig_spec env hcalls h1.1 hc hbig fuel irqS
  refine hgrow.imp fun _ k' hk' => ?_
  obtain ⟨g', h', hlater⟩ := hk'
  have h2 := h'.setCpsr (irqRestoreState irqS k'.cpsr)
  rw [ensures_bind, ensures_update, ensures_pure]
  exact ⟨g', h2.1, (h1.2.later g).trans (hlater.trans (h2.2.later g'))⟩

/-- **`growCache` keeps the invariant**, however deep it and allocating are nested. -/
theorem growCache_spec (env : Env) (fuel : Nat) : GrowSpec (growCache env fuel) := by
  induction fuel with
  | zero =>
      intro g k c h hc
      exact fun _ => by simp
  | succ fuel ih => exact growWith_spec env ⟨allocObjectFromCache_spec ih fuel, freeSpec fuel⟩ fuel

/-- **The slab allocator's calls keep the invariant.** -/
theorem slabCalls_ok (env : Env) (fuel : Nat) : (slabCalls env fuel).Ok :=
  ⟨allocObjectFromCache_spec (growCache_spec env fuel) fuel, freeSpec fuel⟩

end OSExt.Memory
