import OSExt.Memory.HeapPages
import OSExt.Memory.SlabRuns

/-!
# Growing the heap

A call that grows a cache takes a run of pages, maps it at the heap's next page, and may
then grow other caches before it hands the run over to the virtual memory manager. Where
the sections of all the pages taken have page tables, the heap is extended by runs that
the page allocator gave out just then. Where they do not, an access went past the end
of the translation table.
-/

namespace OSExt.Memory

open Lib Libk

/-- The kernel's page tables are in order and below the heap's next page. -/
structure HeapOk (k : Kernel) : Prop where
  tables : TablesBelow k.kernelHeapNextPage k
  aligned : smallPageSize ∣ k.kernelHeapNextPage
  start : kernelHeapStart ≤ k.kernelHeapNextPage

/-- The heap got longer by runs of pages that were taken for it. -/
structure Extends (k k' : Kernel) : Prop where
  rewritten : Rewritten k.kernelHeapNextPage k'.kernelHeapNextPage k k'
  aligned : smallPageSize ∣ k'.kernelHeapNextPage
  pages : ∀ held, PageInv ⟨k.pages, held⟩ → ∃ runs, PageInv ⟨k'.pages, runs.reverse ++ held⟩ ∧
    k'.Backed k.kernelHeapNextPage runs k'.kernelHeapNextPage

/-- The pages by which the heap got longer are in sections that had page tables. -/
def Kernel.TrackedTo (k k' : Kernel) : Prop :=
  k.TrackedFrom k.kernelHeapNextPage k'.kernelHeapNextPage

/-- The heap is extended, or an access strays. -/
structure HeapGrows (k k' : Kernel) : Prop where
  longer : Longer k k'
  clean : HeapOk k → k.TrackedTo k' → Extends k k'
  stray : HeapOk k → ¬k.TrackedTo k' → Stray k k'

section

variable {k k1 k2 k' : Kernel} {b va n page : Nat}

theorem Longer.trans (h : Longer k k1) (h' : Longer k1 k2) : Longer k k2 :=
  IsTrans.trans k k1 k2 h h'

theorem Kernel.TrackedFrom.mono {a c a' c' : Nat} (h : k.TrackedFrom a c) (ha : a ≤ a')
    (hc : c' ≤ c) : k.TrackedFrom a' c' :=
  fun x hlo hhi => h x (ha.trans hlo) (Nat.lt_of_lt_of_le hhi hc)

/-- A heap whose tables stay and that gets longer stays in order. -/
theorem HeapOk.rewritten (h : HeapOk k)
    (hk : Rewritten k.kernelHeapNextPage k'.kernelHeapNextPage k k')
    (haligned : smallPageSize ∣ k'.kernelHeapNextPage)
    (hheap : k.kernelHeapNextPage ≤ k'.kernelHeapNextPage) : HeapOk k' :=
  ⟨(h.tables.rewritten (Nat.le_refl _) hk).mono hheap, haligned, h.start.trans hheap⟩

theorem Extends.trans (hheap : k1.kernelHeapNextPage ≤ k2.kernelHeapNextPage)
    (hheap0 : k.kernelHeapNextPage ≤ k1.kernelHeapNextPage) (h : Extends k k1)
    (h' : Extends k1 k2) : Extends k k2 := by
  refine ⟨(h.rewritten.mono (Nat.le_refl _) hheap).trans (h'.rewritten.mono hheap0 (Nat.le_refl _)),
    h'.aligned, fun held hheld => ?_⟩
  obtain ⟨runs, hinv, hbacked⟩ := h.pages held hheld
  obtain ⟨runs', hinv', hbacked'⟩ := h'.pages _ hinv
  refine ⟨runs ++ runs', ?_, (hbacked.rewritten h'.rewritten (Nat.le_refl _)).append hbacked'⟩
  rw [List.reverse_append, List.append_assoc]
  exact hinv'

namespace HeapGrows

/-- Writes to anything else leave the heap as it is. -/
theorem of_same (hspace : k'.space = k.space) (hstrays : k'.strays = k.strays)
    (hheap : k'.kernelHeapNextPage = k.kernelHeapNextPage) (hpages : k'.pages = k.pages) :
    HeapGrows k k' := by
  refine ⟨.of_eq hstrays hheap, fun hok _ => ⟨.of_space hspace hstrays, hheap ▸ hok.aligned,
    fun held hheld => ⟨[], ?_, hheap.symm⟩⟩, fun _ hno => (hno fun x hlo hhi => ?_).elim⟩
  · rw [hpages]
    exact hheld
  · omega

theorem trans (h : HeapGrows k k1) (h' : HeapGrows k1 k2) : HeapGrows k k2 := by
  have hheap := h.longer.heap
  have hheap' := h'.longer.heap
  refine ⟨h.longer.trans h'.longer, fun hok htracked => ?_, fun hok huntracked => ?_⟩
  · have hfirst := h.clean hok (htracked.mono (Nat.le_refl _) hheap')
    have hok1 := hok.rewritten hfirst.rewritten hfirst.aligned hheap
    refine hfirst.trans hheap' hheap (h'.clean hok1 ?_)
    exact hfirst.rewritten.trackedFrom.mpr (htracked.mono hheap (Nat.le_refl _))
  · by_cases htracked : k.TrackedTo k1
    · have hfirst := h.clean hok htracked
      refine h.longer.stray (h'.stray (hok.rewritten hfirst.rewritten hfirst.aligned hheap) ?_)
      exact fun hrest => huntracked (htracked.append (hfirst.rewritten.trackedFrom.mp hrest))
    · exact (h.stray hok htracked).then h'.longer

end HeapGrows

instance : SlabWrites HeapGrows where
  refl _ := .of_same rfl rfl rfl rfl
  trans _ _ _ := HeapGrows.trans
  setMem _ _ := .of_same rfl rfl rfl rfl
  setSlab _ _ _ := .of_same rfl rfl rfl rfl
  setCache _ _ _ := .of_same rfl rfl rfl rfl
  logs _ _ _ _ _ := .of_same rfl rfl rfl rfl

/-! ## One run of pages -/

/-- The run at `page` was taken and mapped at the heap's next page. -/
structure Takes (n page : Nat) (k k1 : Kernel) : Prop where
  heap : k1.kernelHeapNextPage = k.kernelHeapNextPage + n * smallPageSize
  longer : Longer k k1
  pages : ∀ held, PageInv ⟨k.pages, held⟩ →
    smallPageSize ∣ page ∧ PageInv ⟨k1.pages, (page, n) :: held⟩
  clean : HeapOk k → k.TrackedFrom k.kernelHeapNextPage (k.kernelHeapNextPage + n * smallPageSize) →
    Rewritten k.kernelHeapNextPage (k.kernelHeapNextPage + n * smallPageSize) k k1 ∧
      (smallPageSize ∣ page → k1.Placed k.kernelHeapNextPage n page)
  stray : HeapOk k →
    ¬k.TrackedFrom k.kernelHeapNextPage (k.kernelHeapNextPage + n * smallPageSize) → Stray k k1

/-- The page at `va` was mapped once more to where it is mapped. -/
structure Again (va page : Nat) (k k' : Kernel) : Prop extends SameHeap k k' where
  rewritten : Rewritten va (va + smallPageSize) k k'
  placed : smallPageSize ∣ page → k.Placed va 1 page → k'.Placed va 1 page

namespace Again

theorem of_maps (h : Maps va 1 page k k') : Again va page k k' := by
  refine ⟨h.toSameHeap, ?_, fun hdvd _ => h.placed hdvd⟩
  have hrewritten := h.rewritten
  rw [Nat.one_mul] at hrewritten
  exact hrewritten

theorem refl (k : Kernel) : Again va page k k :=
  ⟨⟨rfl, rfl⟩, .of_space rfl rfl, fun _ h => h⟩

theorem trans (h : Again va page k k1) (h' : Again va page k1 k2) : Again va page k k2 :=
  ⟨h.toSameHeap.trans h'.toSameHeap, h.rewritten.trans h'.rewritten,
    fun hdvd hplaced => h'.placed hdvd (h.placed hdvd hplaced)⟩

/-- The other pages of its run stay mapped. -/
theorem run (h : Again va page k k') (hdvd : smallPageSize ∣ page)
    (hlt : va + n * smallPageSize ≤ 4294967296) (hplaced : k.Placed va n page) :
    k'.Placed va n page := by
  intro o ho
  by_cases hfirst : o < 1 * smallPageSize
  · have hn : n ≠ 0 := by
      rintro rfl
      omega
    have hle := Nat.le_mul_of_pos_left smallPageSize (Nat.pos_of_ne_zero hn)
    have hone : k.Placed va 1 page := fun o' ho' => hplaced o' (by omega)
    exact h.placed hdvd hone o hfirst
  · have hx : (BitVec.ofNat 32 (va + o)).toNat = va + o :=
      (BitVec.toNat_ofNat ..).trans (Nat.mod_eq_of_lt (by omega))
    rw [h.rewritten.lookup _ (by omega)]
    exact hplaced o ho

end Again

/-- What lies above the entries that were written stays mapped. -/
theorem Kernel.Backed.above {lo hi : Nat} {runs : List (Nat × Nat)} (hk : Rewritten lo hi k k') :
    ∀ {a c : Nat}, k.Backed a runs c → hi ≤ a → c ≤ 4294967296 → k'.Backed a runs c := by
  induction runs with
  | nil => exact fun h _ _ => h
  | cons r runs ih =>
      intro a c h ha hc
      have hle := h.2.le
      refine ⟨fun o ho => ?_, ih h.2 (ha.trans (Nat.le_add_right ..)) hc⟩
      have hx : (BitVec.ofNat 32 (a + o)).toNat = a + o :=
        (BitVec.toNat_ofNat ..).trans (Nat.mod_eq_of_lt (by omega))
      rw [hk.lookup _ (by omega)]
      exact h.1 o ho

theorem TablesBelow.le_of_trackedFrom (h : TablesBelow b k) {lo hi : Nat} (hlt : lo < hi)
    (htracked : k.TrackedFrom lo hi) : hi ≤ 4294967296 := by
  have hlast := h.lt_of_tracked (htracked (hi - 1) (by omega) (by omega))
  omega

/-- **One step of growing**: between taking a run and handing it over, the heap may grow
further. -/
theorem HeapGrows.around (hn : 1 ≤ n) (htakes : Takes n page k k1) (hmid : HeapGrows k1 k2)
    (hlonger : Longer k2 k')
    (hagain : HeapOk k →
      k.TrackedFrom k.kernelHeapNextPage (k.kernelHeapNextPage + n * smallPageSize) →
      AboveTables k.kernelHeapNextPage k.kernelHeapNextPage k2 → k2.Tracked k.kernelHeapNextPage →
      Again k.kernelHeapNextPage page k2 k') : HeapGrows k k' := by
  have hheap1 := htakes.heap
  have hheap2 := hmid.longer.heap
  have hheap3 := hlonger.heap
  have hpos : smallPageSize ≤ n * smallPageSize := Nat.le_mul_of_pos_left _ hn
  have hsize : 0 < smallPageSize := by decide
  -- the run's sections have page tables: it is mapped, and the heap is in order again
  have hfirst : HeapOk k →
      k.TrackedFrom k.kernelHeapNextPage (k.kernelHeapNextPage + n * smallPageSize) →
      Rewritten k.kernelHeapNextPage k1.kernelHeapNextPage k k1 ∧ HeapOk k1 ∧
        (smallPageSize ∣ page → k1.Placed k.kernelHeapNextPage n page) := by
    intro hok htracked
    obtain ⟨hrewritten, hplaced⟩ := htakes.clean hok htracked
    rw [← hheap1] at hrewritten
    refine ⟨hrewritten, hok.rewritten hrewritten ?_ (by omega), hplaced⟩
    rw [hheap1]
    exact (Nat.dvd_add_right hok.aligned).mpr (Nat.dvd_mul_left ..)
  have hagain2 : HeapOk k →
      k.TrackedFrom k.kernelHeapNextPage (k.kernelHeapNextPage + n * smallPageSize) →
      Extends k1 k2 → Again k.kernelHeapNextPage page k2 k' := by
    intro hok htracked hextends
    obtain ⟨hrewritten, -, -⟩ := hfirst hok htracked
    have hle : k.kernelHeapNextPage ≤ k1.kernelHeapNextPage := by omega
    have hboth := (hrewritten.mono (Nat.le_refl _) hheap2).trans
      (hextends.rewritten.mono hle (Nat.le_refl _))
    refine hagain hok htracked ⟨hok.tables.rewritten (Nat.le_refl _) hboth, Nat.le_refl _,
      hok.aligned⟩ ?_
    exact hboth.tracked.mpr (htracked _ (Nat.le_refl _) (by omega))
  refine ⟨(htakes.longer.trans hmid.longer).trans hlonger, fun hok htracked => ?_,
    fun hok huntracked => ?_⟩
  · have hle : k.kernelHeapNextPage + n * smallPageSize ≤ k'.kernelHeapNextPage := by omega
    have htracked1 := htracked.mono (Nat.le_refl _) hle
    obtain ⟨hrewritten, hok1, hplaced⟩ := hfirst hok htracked1
    have hextends := hmid.clean hok1
      (hrewritten.trackedFrom.mpr (htracked.mono (by omega) hheap3))
    have hlast := hagain2 hok htracked1 hextends
    have hheap4 : k'.kernelHeapNextPage = k2.kernelHeapNextPage := hlast.heap
    have hlimit := hok.tables.le_of_trackedFrom (by omega) htracked
    refine ⟨?_, hheap4 ▸ hextends.aligned, fun held hheld => ?_⟩
    · exact ((hrewritten.mono (Nat.le_refl _) (by omega)).trans
        (hextends.rewritten.mono (by omega) (by omega))).trans
          (hlast.rewritten.mono (Nat.le_refl _) (by omega))
    · obtain ⟨hdvd, hheld1⟩ := htakes.pages held hheld
      obtain ⟨runs, hinv, hbacked⟩ := hextends.pages _ hheld1
      refine ⟨(page, n) :: runs, ?_, ?_, ?_⟩
      · rw [List.reverse_cons, List.append_assoc, hlast.pages]
        exact hinv
      · show k'.Placed k.kernelHeapNextPage n page
        exact hlast.run hdvd (by omega)
          ((hplaced hdvd).rewritten hextends.rewritten (Nat.le_of_eq hheap1.symm))
      · show k'.Backed (k.kernelHeapNextPage + n * smallPageSize) runs _
        rw [← hheap1, hheap4]
        exact hbacked.above hlast.rewritten (by omega) (by omega)
  · by_cases htracked1 : k.TrackedFrom k.kernelHeapNextPage
        (k.kernelHeapNextPage + n * smallPageSize)
    · obtain ⟨hrewritten, hok1, -⟩ := hfirst hok htracked1
      by_cases htracked2 : k1.TrackedTo k2
      · have hlast := hagain2 hok htracked1 (hmid.clean hok1 htracked2)
        refine absurd (htracked1.append ?_) huntracked
        rw [← hheap1, hlast.heap]
        exact hrewritten.trackedFrom.mp htracked2
      · exact htakes.longer.stray ((hmid.stray hok1 htracked2).then hlonger)
    · exact (htakes.stray hok htracked1).then (hmid.longer.trans hlonger)

/-! ## Both branches of `growCache` -/

variable {env : Env} {calls : SlabCalls} {cb : Byte}

/-- Handing the page over again, any number of times. -/
theorem trackKernelPages_again {cpts : List (Option (Nat → Word))}
    (hcpts : ∀ cpt ∈ cpts, cpt = none) (sect : Nat → Nat) :
    ∀ (rounds i : Nat) {k : Kernel} {u : Unit}, AboveTables b va k → k.Tracked va →
      forRange (fun i => trackKernelPage calls cb ((cpts[i]?).getD none) (sect i) page va)
        i rounds k = (.ok u, k1) → Again va page k k1 := by
  intro rounds
  induction rounds with
  | zero =>
      intro i k u _ _ hrun
      obtain ⟨-, rfl⟩ := pure_ok.mp hrun
      exact .refl k
  | succ rounds ih =>
      intro i k u h hva hrun
      obtain ⟨_, k2, hfirst, hrest⟩ := bind_ok.mp hrun
      have hnone : (cpts[i]?).getD none = none := by
        cases hcpt : cpts[i]? with
        | none => rfl
        | some cpt => exact hcpts cpt (List.mem_of_getElem? hcpt)
      replace hfirst : trackKernelPage calls cb ((cpts[i]?).getD none) (sect i) page va k = _ :=
        hfirst
      rw [hnone] at hfirst
      have honce := Again.of_maps (addVirtualKernelPage_tracked h hva hfirst)
      exact honce.trans (ih (i + 1) (h.rewritten honce.rewritten h.above)
        (honce.rewritten.tracked.mpr hva) hrest)

/-- The page for a slab of small objects. -/
theorem takes_page {pages : Pageblocks} {cpt : Option (Nat → Word)} (mem : Nat → Byte)
    (hused : usePage k.pages = (some page, pages))
    (hunlisted : addUnlistedKernelPage env cb page k.kernelHeapNextPage
      { k with pages := pages } = (.ok cpt, k1)) :
    (HeapOk k → k.Tracked k.kernelHeapNextPage → cpt = none) ∧ Takes 1 page k
      { k1.setMem mem with kernelHeapNextPage := k1.kernelHeapNextPage + smallPageSize } := by
  have hsame := (addUnlistedKernelPage_leads (R := SameHeap) env cb page _).rel _ _ _ hunlisted
  have hlonger := (addUnlistedKernelPage_leads (R := Longer) env cb page _).rel _ _ _ hunlisted
  have hone : 1 * smallPageSize = smallPageSize := Nat.one_mul _
  have hfits : HeapOk k → AboveTables k.kernelHeapNextPage k.kernelHeapNextPage
      { k with pages := pages } := fun hok =>
    ⟨hok.tables.of_space rfl, Nat.le_refl _, hok.aligned⟩
  refine ⟨fun hok hva => (addUnlistedKernelPage_tracked (hfits hok) hva hunlisted).1, ?_, ?_, ?_,
    ?_, ?_⟩
  · show k1.kernelHeapNextPage + smallPageSize = _
    rw [hsame.heap, hone]
  · exact ⟨hlonger.strays, hlonger.heap.trans (Nat.le_add_right ..)⟩
  · intro held hheld
    have hstep := pageInv_step hheld .usePage
    rw [hused] at hstep
    refine ⟨usePage_dvd hheld.blocksAligned (by rw [hused]), ?_⟩
    show PageInv ⟨k1.pages, _⟩
    rw [hsame.pages]
    exact hstep
  · intro hok htracked
    rw [hone] at htracked
    have hva := htracked _ (Nat.le_refl _) (Nat.lt_add_of_pos_right (by decide))
    have hmaps := (addUnlistedKernelPage_tracked (hfits hok) hva hunlisted).2
    have hbefore : Rewritten k.kernelHeapNextPage (k.kernelHeapNextPage + 1 * smallPageSize) k
        { k with pages := pages } := .of_space rfl rfl
    exact ⟨(hbefore.trans hmaps.rewritten).trans (.of_space rfl rfl), hmaps.placed⟩
  · intro hok huntracked
    rw [hone] at huntracked
    have hva : ¬k.Tracked k.kernelHeapNextPage := fun hva =>
      huntracked (hva.wholePage hok.aligned)
    have hstrays : k1.strays = k.kernelHeapNextPage :: k.strays :=
      addUnlistedKernelPage_untracked (k := { k with pages := pages }) hva hok.start hunlisted
    show k.strays.length < k1.strays.length
    rw [hstrays]
    exact Nat.lt_succ_self _

/-- What is left once the page of a slab of small objects is mapped. -/
theorem growSmall_rest (hcalls : calls.Lead HeapGrows) (hlonger : calls.Lead Longer) {fuel : Nat}
    {irqS : IrqState} {ca : Cache} {c slab : Nat} {cpt : Option (Nat → Word)} {k3 : Kernel}
    {u : Unit} (htakes : Takes 1 page k k1)
    (hnone : HeapOk k → k.Tracked k.kernelHeapNextPage → cpt = none) (hmid : HeapGrows k1 k3)
    (hrun : (do
      update (fun k' => k'.setSlab slab
        { size := 1, start := k.kernelHeapNextPage, next := 0, used := 0 })
      if onSlab ca.objSize ca.flags then pure ()
      else giveUsedArray calls fuel irqS slab (smallPageSize / ca.objSize)
      addFreeSlab c slab page
      trackKernelPage calls ca.cb cpt page page k.kernelHeapNextPage : KernelM Unit) k3 =
        (.ok u, k')) : HeapGrows k k' := by
  obtain ⟨_, k4, hslab, hrun⟩ := bind_ok.mp hrun
  obtain rfl := update_ok.mp hslab
  replace hmid := hmid.trans (SlabWrites.setSlab k3 slab
    { size := 1, start := k.kernelHeapNextPage, next := 0, used := 0 })
  have hrest : ∀ {k4 : Kernel}, HeapGrows k1 k4 → (do
      addFreeSlab c slab page
      trackKernelPage calls ca.cb cpt page page k.kernelHeapNextPage : KernelM Unit) k4 =
        (.ok u, k') → HeapGrows k k' := by
    intro k4 hmid hrun
    obtain ⟨_, k5, hadd, htrack⟩ := bind_ok.mp hrun
    have hmid5 := hmid.trans ((addFreeSlab_leads c slab page).rel _ _ _ hadd)
    refine .around (Nat.le_refl _) htakes hmid5
      ((trackKernelPage_leads hlonger ..).rel _ _ _ htrack) fun hok htracked hfits hva => ?_
    obtain rfl := hnone hok (htracked _ (Nat.le_refl _) (Nat.lt_add_of_pos_right (by decide)))
    exact .of_maps (addVirtualKernelPage_tracked hfits hva htrack)
  dsimp only at hrun
  by_cases hon : onSlab ca.objSize ca.flags = true
  · rw [if_pos hon] at hrun
    exact hrest hmid hrun
  · rw [if_neg hon] at hrun
    obtain ⟨_, k5, hgive, hrun⟩ := bind_ok.mp hrun
    exact hrest (hmid.trans ((giveUsedArray_leads hcalls ..).rel _ _ _ hgive)) hrun

theorem growSmall_grows (hcalls : calls.Lead HeapGrows) (hlonger : calls.Lead Longer) (fuel : Nat)
    (irqS : IrqState) (c : Nat) : Leads HeapGrows (growSmall env calls fuel irqS c) := by
  refine ⟨fun k u k' hrun => ?_⟩
  unfold growSmall at hrun
  obtain ⟨ca, _, hca, hrun⟩ := bind_ok.mp hrun
  obtain ⟨-, rfl⟩ := gets_ok.mp hca
  obtain ⟨used, _, hread, hrun⟩ := bind_ok.mp hrun
  obtain ⟨hused, rfl⟩ := gets_ok.mp hread
  rcases used with ⟨_ | page, pages⟩
  · obtain ⟨_, _, _, hstop⟩ := bind_ok.mp hrun
    exact (stop_ok.mp hstop).elim
  obtain ⟨_, k1, hpages, hrun⟩ := bind_ok.mp hrun
  obtain rfl := update_ok.mp hpages
  obtain ⟨virtpage, k1, hvirtpage, hrun⟩ := bind_ok.mp hrun
  obtain ⟨rfl, rfl⟩ := gets_ok.mp hvirtpage
  obtain ⟨cpt, k2, hunlisted, hrun⟩ := bind_ok.mp hrun
  obtain ⟨_, k3, hfill, hrun⟩ := bind_ok.mp hrun
  obtain rfl := update_ok.mp hfill
  obtain ⟨_, k4, hheap, hrun⟩ := bind_ok.mp hrun
  obtain rfl := update_ok.mp hheap
  obtain ⟨hnone, htakes⟩ := takes_page (k := k) (fill k2.mem k.kernelHeapNextPage smallPageSize 0)
    hused hunlisted
  dsimp only at hrun
  by_cases hon : onSlab ca.objSize ca.flags = true
  · rw [if_pos hon] at hrun
    obtain ⟨slab, _, hslab, hrun⟩ := bind_ok.mp hrun
    obtain ⟨-, rfl⟩ := pure_ok.mp hslab
    exact growSmall_rest hcalls hlonger htakes hnone (refl _) hrun
  · rw [if_neg hon] at hrun
    obtain ⟨slabCache, _, hcache, hrun⟩ := bind_ok.mp hrun
    obtain ⟨-, rfl⟩ := gets_ok.mp hcache
    obtain ⟨slab, k5, hslab, hrun⟩ := bind_ok.mp hrun
    exact growSmall_rest hcalls hlonger htakes hnone ((hcalls.alloc _).rel _ _ _ hslab) hrun

/-- The pages for a slab of one big object. -/
theorem takes_pages {alignment : Nat} {pages : Pageblocks} {cpts : List (Option (Nat → Word))}
    (mem : Nat → Byte) (hn : 1 ≤ n)
    (hused : useConsecutivePages n alignment k.pages = (some page, pages))
    (hunlisted : addUnlistedKernelPages env cb page k.kernelHeapNextPage 0 n
      { k with
        pages := pages, kernelHeapNextPage := k.kernelHeapNextPage + smallPageSize * n } =
        (.ok cpts, k1)) :
    (HeapOk k → k.TrackedFrom k.kernelHeapNextPage (k.kernelHeapNextPage + n * smallPageSize) →
      ∀ cpt ∈ cpts, cpt = none) ∧ Takes n page k (k1.setMem mem) := by
  have hsame := (addUnlistedKernelPages_leads (R := SameHeap) env cb page _ _ _).rel _ _ _ hunlisted
  have hlonger := (addUnlistedKernelPages_leads (R := Longer) env cb page _ _ _).rel _ _ _ hunlisted
  have hfits : HeapOk k → AboveTables k.kernelHeapNextPage k.kernelHeapNextPage
      { k with
        pages := pages, kernelHeapNextPage := k.kernelHeapNextPage + smallPageSize * n } :=
    fun hok => ⟨hok.tables.of_space rfl, Nat.le_refl _, hok.aligned⟩
  have hlast : k.kernelHeapNextPage + smallPageSize * (0 + n) =
      k.kernelHeapNextPage + n * smallPageSize := by
    rw [Nat.zero_add, Nat.mul_comm]
  have hclean := fun hok htracked =>
    addUnlistedKernelPages_tracked n 0 (hfits hok) (hlast ▸ htracked) hunlisted
  refine ⟨fun hok htracked => (hclean hok htracked).1, ?_, ?_, ?_, ?_, ?_⟩
  · show k1.kernelHeapNextPage = _
    rw [hsame.heap, Nat.mul_comm]
  · exact ⟨hlonger.strays, (Nat.le_add_right ..).trans hlonger.heap⟩
  · intro held hheld
    have hstep := pageInv_useConsecutivePages hheld alignment hn
    rw [hused] at hstep
    refine ⟨(useConsecutivePages_dvd (by rw [hused])).1 hheld.blocksAligned, ?_⟩
    show PageInv ⟨k1.pages, _⟩
    rw [hsame.pages]
    exact hstep
  · intro hok htracked
    obtain ⟨-, -, hrewritten, hplaced⟩ := hclean hok htracked
    rw [hlast] at hrewritten
    have hbefore : Rewritten k.kernelHeapNextPage (k.kernelHeapNextPage + n * smallPageSize) k
        { k with
          pages := pages, kernelHeapNextPage := k.kernelHeapNextPage + smallPageSize * n } :=
      .of_space rfl rfl
    exact ⟨(hbefore.trans hrewritten).trans (.of_space rfl rfl), hplaced⟩
  · intro hok huntracked
    have hbefore : Longer k { k with
        pages := pages, kernelHeapNextPage := k.kernelHeapNextPage + smallPageSize * n } :=
      ⟨List.suffix_refl _, Nat.le_add_right _ _⟩
    have hstray := addUnlistedKernelPages_untracked hok.start n 0 (hfits hok) (hlast ▸ huntracked)
      hunlisted
    exact hbefore.stray hstray

/-- An object of at least a page takes at least one. -/
theorem Cache.objPages_pos {ca : Cache} (h : smallPageSize ≤ ca.objSize) : 1 ≤ ca.objPages := by
  unfold Cache.objPages
  have hdiv := Nat.div_le_div_right (c := smallPageSize) h
  rw [Nat.div_self (by decide)] at hdiv
  omega

theorem growBig_grows (hcalls : calls.Lead HeapGrows) (hlonger : calls.Lead Longer) (fuel : Nat)
    (irqS : IrqState) (c : Nat) {u : Unit} (hsize : smallPageSize ≤ (k.cache c).objSize)
    (hrun : growBig env calls fuel irqS c k = (.ok u, k')) : HeapGrows k k' := by
  unfold growBig at hrun
  obtain ⟨ca, _, hca, hrun⟩ := bind_ok.mp hrun
  obtain ⟨rfl, rfl⟩ := gets_ok.mp hca
  obtain ⟨used, _, hread, hrun⟩ := bind_ok.mp hrun
  obtain ⟨hused, rfl⟩ := gets_ok.mp hread
  rcases used with ⟨_ | page, pages⟩
  · obtain ⟨_, _, _, hstop⟩ := bind_ok.mp hrun
    exact (stop_ok.mp hstop).elim
  obtain ⟨_, k1, hpages, hrun⟩ := bind_ok.mp hrun
  obtain rfl := update_ok.mp hpages
  obtain ⟨virtpage, k1, hvirtpage, hrun⟩ := bind_ok.mp hrun
  obtain ⟨rfl, rfl⟩ := gets_ok.mp hvirtpage
  obtain ⟨_, k2, hheap, hrun⟩ := bind_ok.mp hrun
  obtain rfl := update_ok.mp hheap
  by_cases hbig : (k.cache c).objPages ≥ 100
  · rw [if_pos hbig] at hrun
    obtain ⟨_, _, _, hstop⟩ := bind_ok.mp hrun
    exact (stop_ok.mp hstop).elim
  rw [if_neg hbig] at hrun
  obtain ⟨cpts, k3, hunlisted, hrun⟩ := bind_ok.mp hrun
  obtain ⟨_, k4, hfill, hrun⟩ := bind_ok.mp hrun
  obtain rfl := update_ok.mp hfill
  obtain ⟨hnone, htakes⟩ := takes_pages (k := k)
    (fill k3.mem k.kernelHeapNextPage (smallPageSize * (k.cache c).objPages) 0)
    (Cache.objPages_pos hsize) hused hunlisted
  obtain ⟨slab, k5, hslab, hrun⟩ := bind_ok.mp hrun
  by_cases hnull : slab = 0
  · rw [if_pos hnull] at hrun
    obtain ⟨_, _, _, hstop⟩ := bind_ok.mp hrun
    exact (stop_ok.mp hstop).elim
  rw [if_neg hnull] at hrun
  obtain ⟨_, k6, hdesc, hrun⟩ := bind_ok.mp hrun
  obtain rfl := update_ok.mp hdesc
  obtain ⟨_, k7, hgive, hrun⟩ := bind_ok.mp hrun
  obtain ⟨_, k8, hadd, htrack⟩ := bind_ok.mp hrun
  -- between the two mappings: the descriptor, its used array and the free list
  have hmid := (((kmalloc_leads fuel hcalls.alloc sizeofSlabDesc).rel _ _ _ hslab).trans
    (SlabWrites.setSlab k5 slab _)).trans ((giveUsedArray_leads hcalls ..).rel _ _ _ hgive)
  refine .around (Cache.objPages_pos hsize) htakes
    (hmid.trans ((addFreeSlab_leads c slab page).rel _ _ _ hadd))
    ((Leads.forRange fun i => trackKernelPage_leads hlonger ..).rel _ _ _ htrack)
    fun hok htracked hfits hva => ?_
  exact trackKernelPages_again (hnone hok htracked) _ 100 0 hfits hva htrack

/-! ## The whole allocator -/

theorem SlabCalls.Lead.longer (h : calls.Lead HeapGrows) : calls.Lead Longer :=
  ⟨fun c => ⟨fun k a k' hk => ((h.alloc c).rel k a k' hk).longer⟩,
    fun c obj => ⟨fun k a k' hk => ((h.free c obj).rel k a k' hk).longer⟩⟩

theorem growWith_grows (env : Env) (hcalls : calls.Lead HeapGrows) (fuel c : Nat) :
    Leads HeapGrows (growWith env calls fuel c) := by
  refine irqSection_leads (fun _ _ => .of_same rfl rfl rfl rfl) fun irqS => ⟨fun k u k' hrun => ?_⟩
  obtain ⟨ca, _, hca, hrun⟩ := bind_ok.mp hrun
  obtain ⟨rfl, rfl⟩ := gets_ok.mp hca
  by_cases hsmall : (k.cache c).objSize < smallPageSize
  · rw [if_pos hsmall] at hrun
    exact (growSmall_grows hcalls hcalls.longer fuel irqS c).rel _ _ _ hrun
  · rw [if_neg hsmall] at hrun
    exact growBig_grows hcalls hcalls.longer fuel irqS c (Nat.not_lt.mp hsmall) hrun

/-- The allocator's calls, however deep caches grow. -/
theorem slabCalls_grow (env : Env) (fuel : Nat) : (slabCalls env fuel).Lead HeapGrows :=
  have hgrow := growCache_leads env (fun hcalls fuel c => growWith_grows env hcalls fuel c)
  ⟨fun c => allocObjectFromCache_leads c (hgrow fuel) fuel,
    fun c obj => freeObjectFromCache_leads c obj fuel⟩

theorem createCache_grows (hcalls : calls.Lead HeapGrows) (objSize alignment : Nat)
    (flags : BitVec 16) : Leads HeapGrows (createCache calls objSize alignment flags) := by
  unfold createCache
  exact .bind (.gets _) fun cacheCache => .bind (hcalls.alloc cacheCache) fun cache =>
    .bind (.update fun k => SlabWrites.setCache k _ _) fun _ =>
      .bind (.update fun _ => .of_same rfl rfl rfl rfl) fun _ => .pure _

namespace Clients

theorem Op.run_grows (env : Env) (fuel : Nat) (op : Op) : Leads HeapGrows (op.run env fuel) := by
  have hcalls := slabCalls_grow env fuel
  cases op with
  | createCache objSize alignment flags => exact createCache_grows hcalls objSize alignment flags
  | allocObjectFromCache c => exact hcalls.alloc c
  | freeObjectFromCache c p => exact .bind (hcalls.free c p) fun _ => .pure _
  | kmalloc size => exact kmalloc_leads fuel hcalls.alloc size
  | kfree p =>
      refine .bind ?_ fun _ => .pure _
      unfold Memory.kfree
      exact .bind (.gets _) fun head => freeInCaches_leads ..
  | kfreeHint p size => exact .bind (kfreeHint_leads ..) fun _ => .pure _
  | write mem => exact .bind (.update fun k => SlabWrites.setMem k _) fun _ => .pure _

/-- A call to the allocator that returned. -/
def Called (env : Env) (k k' : Kernel) : Prop :=
  ∃ (op : Op) (fuel r : Nat), (∀ mem, op ≠ .write mem) ∧ op.run env fuel k = (.ok r, k')

/-- **The heap in any order of calls.** It is lengthened without an access past the end of
the translation table just where the sections of its new pages have page tables. Then the new
pages are mapped to runs nobody else holds, and every other address is looked up as before. -/
theorem heap_extended (env : Env) {k k' : Kernel} (hok : HeapOk k) {held : List (Nat × Nat)}
    (hheld : PageInv ⟨k.pages, held⟩) (hcalls : Relation.ReflTransGen (Called env) k k') :
    (k'.strays = k.strays ↔ k.TrackedTo k') ∧
      (k.TrackedTo k' → HeapOk k' ∧
        (∃ runs, PageInv ⟨k'.pages, runs.reverse ++ held⟩ ∧
          k'.Backed k.kernelHeapNextPage runs k'.kernelHeapNextPage) ∧
        ∀ x : Word, ¬(k.kernelHeapNextPage ≤ x.toNat ∧ x.toNat < k'.kernelHeapNextPage) →
          k'.lookup x = k.lookup x) := by
  have hgrows : HeapGrows k k' := by
    induction hcalls with
    | refl => exact refl k
    | tail _ hlast ih =>
        obtain ⟨op, fuel, r, -, hrun⟩ := hlast
        exact ih.trans ((op.run_grows env fuel).rel _ _ _ hrun)
  refine ⟨⟨fun hsame => ?_, fun htracked => (hgrows.clean hok htracked).rewritten.strays⟩,
    fun htracked => ?_⟩
  · by_contra huntracked
    have hstray := hgrows.stray hok huntracked
    unfold Stray at hstray
    rw [hsame] at hstray
    exact Nat.lt_irrefl _ hstray
  · have hextends := hgrows.clean hok htracked
    exact ⟨hok.rewritten hextends.rewritten hextends.aligned hgrows.longer.heap,
      hextends.pages held hheld, hextends.rewritten.lookup⟩

end Clients

end

namespace Clients

/-- The kernel once the heap's section is migrated, with a block of pages and one empty cache. -/
def migratedKernel : Kernel :=
  { bareKernel with
    cache := fun _ => ⟨0, 0, 0, 64, 0, 0, 0⟩
    kernelHeapNextPage := 0xe4004000
    pages := [⟨0x13004000, 0x13004000, 16, 0, 0, 0, 0, 0, 0⟩]
    space := ⟨Spaces.heapMigrated.kernel.tt, Spaces.heapMigrated.kernel.cptds,
      Spaces.heapMigrated.kernel.cpts, Spaces.heapMigrated.pageTable, []⟩ }

theorem heapOk_migratedKernel : HeapOk migratedKernel := by
  have hagrees := Spaces.agrees_heapMigrated
  refine ⟨⟨⟨⟨hagrees.length, hagrees.aligned, hagrees.distinct, hagrees.entries⟩, hagrees.tables,
    hagrees.only⟩, ?_, ?_⟩, by decide, by decide⟩
  · intro d hd
    rcases List.mem_singleton.mp hd with rfl
    decide
  · intro t ht
    rcases List.mem_singleton.mp ht with rfl
    decide

theorem pageInv_migratedKernel : PageInv ⟨migratedKernel.pages, []⟩ := by
  refine ⟨?_, List.pairwise_singleton _ _, nofun, .nil⟩
  intro b hb
  rcases List.mem_singleton.mp hb with rfl
  exact ⟨by decide, by decide, by decide, by decide⟩

/-- An object from the empty cache: one page of the block is the heap's next. -/
theorem heap_extended_migrated : ∃ k', Called quietEnv migratedKernel k' ∧ k'.strays = [] ∧
    k'.kernelHeapNextPage = 0xe4005000 ∧
    ∃ runs, PageInv ⟨k'.pages, runs.reverse ++ []⟩ ∧ k'.Backed 0xe4004000 runs 0xe4005000 := by
  have hrun := run_eq (x := (Op.allocObjectFromCache 0xe4000010).run quietEnv 3)
    (k := migratedKernel) (a := 0xe400401c) (by decide +kernel)
  have hstrays : ((Op.allocObjectFromCache 0xe4000010).run quietEnv 3 migratedKernel).2.strays =
      [] := by decide +kernel
  have hnext : ((Op.allocObjectFromCache 0xe4000010).run quietEnv 3
      migratedKernel).2.kernelHeapNextPage = 0xe4005000 := by decide +kernel
  have hcalled : Called quietEnv migratedKernel
      ((Op.allocObjectFromCache 0xe4000010).run quietEnv 3 migratedKernel).2 :=
    ⟨_, 3, _, by simp, hrun⟩
  obtain ⟨hiff, hclean⟩ := heap_extended quietEnv heapOk_migratedKernel pageInv_migratedKernel
    (.single hcalled)
  obtain ⟨-, hruns, -⟩ := hclean (hiff.mp hstrays)
  rw [hnext] at hruns
  exact ⟨_, hcalled, hstrays, hnext, hruns⟩

end Clients

end OSExt.Memory
