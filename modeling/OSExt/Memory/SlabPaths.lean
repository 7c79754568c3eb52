import OSExt.Memory.GrowCache

/-!
# Where the calls of the slab allocator lead

Allocating from a cache may grow it, and growing it allocates from others, each of which
may grow in turn. A relation between states that every single write keeps, and that is
kept by one step of growing, is therefore kept by all of the allocator. The calls are
taken apart once here, for any such relation.
-/

namespace OSExt.Memory

open Lib Libk

/-- `R` allows what allocating and freeing write, as long as no cache grows. -/
class SlabWrites (R : Kernel → Kernel → Prop) : Prop extends IsPreorder Kernel R where
  setMem : ∀ k mem, R k (k.setMem mem)
  setSlab : ∀ k s d, R k (k.setSlab s d)
  setCache : ∀ k c ca, R k (k.setCache c ca)
  logs : ∀ k added arrays grown scanned,
    R k { k with added := added, arrays := arrays, grown := grown, scanned := scanned }

/-- `R` allows what mapping a page writes as well. -/
class SpaceWrites (R : Kernel → Kernel → Prop) : Prop extends SlabWrites R where
  setSpace : ∀ k space, R k (k.setSpace space)

/-- `R` allows an access past the end of a translation table as well. -/
class StrayWrites (R : Kernel → Kernel → Prop) : Prop extends SpaceWrites R where
  stray : ∀ k va, R k { k with strays := va :: k.strays }

/-- `R` allows all that growing writes, the status register apart. -/
class GrowthWrites (R : Kernel → Kernel → Prop) : Prop extends StrayWrites R where
  setPages : ∀ k pages, R k { k with pages := pages }
  heap : ∀ k n, R k { k with kernelHeapNextPage := k.kernelHeapNextPage + n }

variable {R : Kernel → Kernel → Prop}

/-- A critical section keeps what the work and both writes of the register keep. -/
theorem irqSection_leads [IsPreorder Kernel R] {α : Type} {work : IrqState → KernelM α}
    (hcpsr : ∀ (k : Kernel) cpsr, R k (k.setCpsr cpsr)) (h : ∀ irqS, Leads R (work irqS)) :
    Leads R (irqSection work) :=
  .bind (.gets _) fun irqS => .bind (.update fun k => hcpsr k _) fun _ =>
    .bind (h irqS) fun _ => .bind (.update fun k => hcpsr k _) fun _ => .pure _

/-! ## One slab -/

section

variable [SlabWrites R] (c slab obj objSize fuel : Nat) (flags : BitVec 16)

theorem allocObjectFromSlab_leads : Leads R (allocObjectFromSlab slab objSize flags) := by
  unfold allocObjectFromSlab
  refine .bind (.gets _) fun d => .ite (.stop _) (.bind (.gets _) fun mem => ?_)
  cases findClear mem (d.bits objSize flags) 0 (d.objs objSize flags) with
  | some i => exact .bind (.update fun k => SlabWrites.setMem k _) fun _ => .pure _
  | none => exact .pure _

theorem freeObjectFromSlab_leads : Leads R (freeObjectFromSlab slab objSize obj flags) := by
  unfold freeObjectFromSlab
  exact .bind (.gets _) fun d => .ite (.pure _) (.ite (.pure _) (.ite (.stop _)
    (.bind (.update fun k => SlabWrites.setMem k _) fun _ => .pure _)))

theorem isSlabFree_leads : Leads R (isSlabFree slab objSize flags) := by
  unfold isSlabFree
  exact .bind (.gets _) fun d => .ite (.stop _) (.gets _)

/-! ## One cache -/

theorem freeScan_leads : ∀ fuel cslab prevslab, Leads R (freeScan c obj fuel cslab prevslab)
  | 0, _, _ => .stop _
  | fuel + 1, cslab, prevslab => by
      unfold freeScan
      exact .ite (.pure _) (.bind (.gets _) fun ca =>
        .bind (freeObjectFromSlab_leads ..) fun freed => .ite (.pure _)
          (.bind (.gets _) fun next => freeScan_leads fuel next cslab))

/-- The three functions that move a slab from one list to another have one form. -/
theorem move_leads (first : Kernel → Nat → Kernel) (second third : Kernel → Kernel)
    (prevslab : Nat) (hfirst : ∀ k next, R k (first k next)) (hsecond : ∀ k, R k (second k))
    (hthird : ∀ k, R k (third k)) :
    Leads R (do
      let next ← gets (fun k : Kernel => (k.slab slab).next)
      if prevslab = 0 then update (fun k => first k next)
      else update (fun k => k.setNext prevslab next)
      update second
      update third : KernelM Unit) := by
  refine .bind (.gets _) fun next => ?_
  dsimp only
  exact .ite (.bind (.update fun k => hfirst k next) fun _ => .bind (.update hsecond) fun _ =>
    .update hthird) (.bind (.update fun k => SlabWrites.setSlab k _ _) fun _ =>
      .bind (.update hsecond) fun _ => .update hthird)

theorem freeObjectFromCache_leads : Leads R (freeObjectFromCache fuel c obj) := by
  unfold freeObjectFromCache
  refine .bind (.gets _) fun ca => .bind (freeScan_leads ..) fun found => ?_
  cases found with
  | some at_ =>
      exact .bind (move_leads _ (fun k next => k.setFull c next) _ _ _
        (fun k _ => SlabWrites.setCache k _ _) (fun k => SlabWrites.setSlab k _ _)
        fun k => SlabWrites.setCache k _ _) fun _ => .pure _
  | none =>
      refine .ite (.pure _) (.bind (freeScan_leads ..) fun found => ?_)
      cases found with
      | some at_ =>
          refine .bind (isSlabFree_leads ..) fun empty => ?_
          dsimp only
          exact .ite (.bind (move_leads _ (fun k next => k.setPartial c next) _ _ _
            (fun k _ => SlabWrites.setCache k _ _) (fun k => SlabWrites.setSlab k _ _)
            fun k => SlabWrites.setCache k _ _) fun _ => .pure _) (.pure _)
      | none => exact .pure _

theorem scanPartial_leads : ∀ fuel cslab prevslab, Leads R (scanPartial c fuel cslab prevslab)
  | 0, _, _ => .stop _
  | fuel + 1, cslab, prevslab => by
      unfold scanPartial
      exact .ite (.pure _) (.bind (.update fun k => SlabWrites.logs k k.added k.arrays k.grown _)
        fun _ => .bind (.gets _) fun ca => .bind (allocObjectFromSlab_leads ..) fun object =>
          .ite (.pure _) (.bind (move_leads _ (fun k next => k.setPartial c next) _ _ _
            (fun k _ => SlabWrites.setCache k _ _) (fun k => SlabWrites.setSlab k _ _)
            fun k => SlabWrites.setCache k _ _) fun _ => .bind (.gets _) fun next =>
              scanPartial_leads fuel next cslab))

theorem takeFreeSlab_leads : Leads R (takeFreeSlab c) := by
  unfold takeFreeSlab
  exact .bind (.gets _) fun cslab => .bind (.update fun k => SlabWrites.setCache k _ _) fun _ =>
    .bind (.update fun k => SlabWrites.setSlab k _ _) fun _ =>
      .bind (.update fun k => SlabWrites.setCache k _ _) fun _ => .bind (.gets _) fun ca =>
        .bind (allocObjectFromSlab_leads ..) fun obj => .ite (.stop _) (.pure _)

theorem allocObjectFromCache_leads {grow : Nat → KernelM Unit} (hgrow : ∀ c, Leads R (grow c)) :
    ∀ fuel, Leads R (allocObjectFromCache grow c fuel)
  | 0 => .stop _
  | fuel + 1 => by
      unfold allocObjectFromCache
      have hrest : ∀ object : Nat, Leads R (if object ≠ 0 then pure object else do
          let ca ← gets (fun k => k.cache c)
          if ca.freeSlabs = 0 then do
            grow c
            allocObjectFromCache grow c fuel
          else takeFreeSlab c) := fun object =>
        .ite (.pure _) (.bind (.gets _) fun ca => .ite
          (.bind (hgrow c) fun _ => allocObjectFromCache_leads hgrow fuel)
          (takeFreeSlab_leads c))
      refine .bind (.gets _) fun ca => ?_
      dsimp only
      exact .ite (.bind (.pure _) hrest) (.bind (scanPartial_leads ..) hrest)

/-! ## All caches -/

theorem kmalloc_leads {alloc : Nat → KernelM Nat} (halloc : ∀ c, Leads R (alloc c))
    (size : Nat) : Leads R (kmalloc alloc fuel size) := by
  unfold kmalloc
  refine .ite (.pure _) (.bind (.gets _) fun best => ?_)
  rcases best with _ | _ | c
  · exact .stop _
  · exact .pure _
  · exact halloc _

theorem freeInCaches_leads (searched : Cache → Bool) :
    ∀ n ccache, Leads R (freeInCaches searched fuel obj n ccache)
  | 0, _ => .stop _
  | n + 1, ccache => by
      unfold freeInCaches
      have hrest : ∀ freed : Bool, Leads R (if freed then pure () else do
          let next ← gets (fun k => (k.cache ccache).next)
          freeInCaches searched fuel obj n next) := fun freed =>
        .ite (.pure _) (.bind (.gets _) fun next => freeInCaches_leads searched n next)
      refine .ite (.pure _) (.bind (.gets _) fun ca => ?_)
      dsimp only
      exact .ite (.bind (freeObjectFromCache_leads ..) hrest) (.bind (.pure _) hrest)

theorem kfreeHint_leads (size : Nat) : Leads R (kfreeHint fuel obj size) := by
  unfold kfreeHint
  exact .bind (.gets _) fun head => freeInCaches_leads ..

end

/-- The calls into the slab allocator go along `R`. -/
structure SlabCalls.Lead (R : Kernel → Kernel → Prop) (calls : SlabCalls) : Prop where
  alloc : ∀ c, Leads R (calls.allocObjectFromCache c)
  free : ∀ c obj, Leads R (calls.freeObjectFromCache c obj)

variable {calls : SlabCalls}

/-! ## A new slab -/

section

variable [SlabWrites R]

theorem addFreeSlab_leads (c slab page : Nat) : Leads R (addFreeSlab c slab page) :=
  .bind (.update fun k => SlabWrites.setSlab k _ _) fun _ =>
    .bind (.update fun k => SlabWrites.setCache k _ _) fun _ =>
      .update fun k => SlabWrites.logs k _ k.arrays _ k.scanned

omit [SlabWrites R] in
/-- What it does to the state is not seen: it does not return. -/
theorem restoreAndPanic_leads {α : Type} (irqS : IrqState) (message : String) :
    Leads R (restoreAndPanic irqS message : KernelM α) := by
  refine ⟨fun k a k' h => ?_⟩
  obtain ⟨_, _, _, hstop⟩ := bind_ok.mp h
  exact (stop_ok.mp hstop).elim

theorem giveUsedArray_leads (hcalls : calls.Lead R) (fuel : Nat) (irqS : IrqState)
    (slab objs : Nat) : Leads R (giveUsedArray calls fuel irqS slab objs) := by
  unfold giveUsedArray
  exact .bind (kmalloc_leads _ hcalls.alloc _) fun bits =>
    .bind (.update fun k => SlabWrites.logs k k.added _ k.grown k.scanned) fun _ =>
      .bind (.update fun k => SlabWrites.setSlab k _ _) fun _ =>
        .ite (restoreAndPanic_leads ..) (.pure _)

end

/-! ## The kernel's page tables -/

section

variable [SpaceWrites R]

theorem writeTable_leads (k : Kernel) (table i : Nat) (w : Word) : R k (k.writeTable table i w) :=
  IsTrans.trans _ _ _ (SlabWrites.setMem k _) (SpaceWrites.setSpace _ _)

theorem clearTable_leads (k : Kernel) (table : Nat) : R k (k.clearTable table) :=
  IsTrans.trans _ _ _ (SlabWrites.setMem k _) (SpaceWrites.setSpace _ _)

theorem copyTable_leads (source : Nat → Word) (table : Nat) (k : Kernel) :
    ∀ n, R k (k.copyTable source table n)
  | 0 => refl k
  | n + 1 => IsTrans.trans _ _ _ (copyTable_leads source table k n) (writeTable_leads ..)

/-- An entry joins or leaves one of the two lists. -/
theorem setLists_leads (k : Kernel) (mem : Nat → Byte) (space : KernelSpace) :
    R k ((k.setMem mem).setSpace space) :=
  IsTrans.trans _ _ _ (SlabWrites.setMem k _) (SpaceWrites.setSpace _ _)

theorem addKernelCPT_leads (hcalls : calls.Lead R) (sect : Nat) :
    Leads R (addKernelCPT calls sect) := by
  have hentry : Leads R calls.requestLinkedListEntry := .bind (.gets _) fun c => hcalls.alloc c
  have htable : Leads R calls.requestCPT := .bind (.gets _) fun c => hcalls.alloc c
  unfold addKernelCPT
  exact .bind hentry fun _ => .bind (.update fun k => SlabWrites.setMem k _) fun _ =>
    .bind hentry fun _ => .bind htable fun _ => .bind (.update fun k => SlabWrites.setMem k _)
      fun _ => .bind (.update fun k => clearTable_leads k _) fun _ =>
        .bind (.update fun k => setLists_leads k _ _) fun _ =>
          .bind (.update fun k => setLists_leads k _ _) fun _ => .pure _

theorem dropKernelCPT_leads (hcalls : calls.Lead R) (sect : Nat) :
    Leads R (dropKernelCPT calls sect) := by
  have hentry : ∀ e, Leads R (calls.freeLinkedListEntry e) := fun e =>
    .bind (.gets _) fun c => .bind (hcalls.free c e) fun _ => .pure _
  have htable : ∀ cpt, Leads R (calls.freeCPT cpt) := fun cpt =>
    .bind (.gets _) fun c => .bind (hcalls.free c cpt) fun _ => .pure _
  unfold dropKernelCPT
  refine .bind (.gets _) fun space => ?_
  cases searchLinkedListEntry space.cptds sect with
  | none => exact .pure _
  | some already =>
      dsimp only
      cases space.cpts[already.2]? with
      | none => exact .stop _
      | some alreadyCpt =>
          exact .bind (.update fun k => setLists_leads k _ _) fun _ =>
            .bind (.update fun k => setLists_leads k _ _) fun _ =>
              .bind (htable _) fun _ => .bind (hentry _) fun _ => hentry _

theorem migrateKernelCPT_leads (hcalls : calls.Lead R) (sect : Nat) (migrateCpt : Nat → Word)
    (pages : Nat) : Leads R (migrateKernelCPT calls sect migrateCpt pages) := by
  unfold migrateKernelCPT
  exact .bind (dropKernelCPT_leads hcalls _) fun _ => .bind (addKernelCPT_leads hcalls _) fun _ =>
    .bind (.update fun k => copyTable_leads _ _ k _) fun _ =>
      .update fun k => SpaceWrites.setSpace k _

theorem addVirtualKernelPage_leads (hcalls : calls.Lead R) (c b : Byte) (page address : Nat) :
    Leads R (addVirtualKernelPage calls c b page address) := by
  unfold addVirtualKernelPage
  dsimp only
  refine .bind (.gets _) fun space => ?_
  cases searchLinkedListEntry space.cptds (sectionOf address) with
  | none =>
      exact .bind (addKernelCPT_leads hcalls _) fun _ =>
        .bind (.update fun k => SpaceWrites.setSpace k _) fun _ =>
          .bind (.update fun k => writeTable_leads k _ _ _) fun _ =>
            .update fun k => SpaceWrites.setSpace k _
  | some found =>
      dsimp only
      cases space.cpts[found.2]? with
      | none => exact .stop _
      | some cpt => exact .update fun k => writeTable_leads k _ _ _

theorem trackKernelPage_leads (hcalls : calls.Lead R) (cb : Byte) (cpt : Option (Nat → Word))
    (sect page va : Nat) : Leads R (trackKernelPage calls cb cpt sect page va) := by
  unfold trackKernelPage
  cases cpt with
  | some cpt => exact migrateKernelCPT_leads hcalls _ _ _
  | none => exact addVirtualKernelPage_leads hcalls _ _ _ _

theorem getKernelCPT_leads (va : Nat) : Leads R (getKernelCPT va) := by
  unfold getKernelCPT
  refine .bind (.gets _) fun space => ?_
  cases searchLinkedListEntry space.cptds (sectionOf va) with
  | none => exact .pure _
  | some found =>
      dsimp only
      cases space.cpts[found.2]? with
      | some cpt => exact .pure _
      | none => exact .stop _

end

/-! ## Growing -/

section

variable [StrayWrites R] (env : Env)

theorem readUnshifted_leads (va sect : Nat) : Leads R (readUnshifted env va sect) := by
  unfold readUnshifted
  refine .ite (.gets _) (.bind (.update fun k => StrayWrites.stray k va) fun _ =>
    .bind (.gets _) fun read => ?_)
  cases read with
  | dataAbort => exact .stop _
  | coarse => exact .pure _
  | other => exact .pure _

theorem addUnlistedKernelPage_leads (cb : Byte) (page va : Nat) :
    Leads R (addUnlistedKernelPage env cb page va) := by
  unfold addUnlistedKernelPage
  refine .bind (getKernelCPT_leads va) fun kernelCpt => ?_
  exact .ite (.bind (.update fun k => writeTable_leads k _ _ _) fun _ => .pure _)
    (.bind (readUnshifted_leads env ..) fun coarse => .ite (.pure _)
      (.bind (.gets _) fun tmpPds => .ite (.stop _)
        (.ite (.bind (.update fun k => SpaceWrites.setSpace k _) fun _ => .pure _) (.pure _))))

theorem addUnlistedKernelPages_leads (cb : Byte) (page va : Nat) :
    ∀ i n, Leads R (addUnlistedKernelPages env cb page va i n)
  | _, 0 => .pure _
  | i, n + 1 => .bind (addUnlistedKernelPage_leads env ..) fun _ =>
      .bind (addUnlistedKernelPages_leads cb page va (i + 1) n) fun _ => .pure _

end

section

variable [GrowthWrites R] (env : Env)

theorem growSmall_leads (hcalls : calls.Lead R) (fuel : Nat) (irqS : IrqState) (c : Nat) :
    Leads R (growSmall env calls fuel irqS c) := by
  unfold growSmall
  refine .bind (.gets _) fun ca => .bind (.gets _) fun used => ?_
  rcases used with ⟨_ | page, pages⟩
  · exact restoreAndPanic_leads ..
  have htail : ∀ (cpt : Option (Nat → Word)) (virtpage slab : Nat), Leads R (do
      addFreeSlab c slab page
      trackKernelPage calls ca.cb cpt page page virtpage) := fun cpt virtpage slab =>
    .bind (addFreeSlab_leads c slab page) fun _ =>
      trackKernelPage_leads hcalls ca.cb cpt page page virtpage
  have hslab : ∀ (cpt : Option (Nat → Word)) (virtpage slab : Nat), Leads R (do
      update (fun k => k.setSlab slab { size := 1, start := virtpage, next := 0, used := 0 })
      if onSlab ca.objSize ca.flags then pure ()
      else giveUsedArray calls fuel irqS slab (smallPageSize / ca.objSize)
      addFreeSlab c slab page
      trackKernelPage calls ca.cb cpt page page virtpage) := by
    intro cpt virtpage slab
    refine .bind (.update fun k => SlabWrites.setSlab k _ _) fun _ => ?_
    dsimp only
    exact .ite (htail cpt virtpage slab)
      (.bind (giveUsedArray_leads hcalls fuel irqS slab _) fun _ => htail cpt virtpage slab)
  refine .bind (.update fun k => GrowthWrites.setPages k _) fun _ => .bind (.gets _) fun virtpage =>
    .bind (addUnlistedKernelPage_leads env ..) fun cpt =>
      .bind (.update fun k => SlabWrites.setMem k _) fun _ =>
        .bind (.update fun k => GrowthWrites.heap k _) fun _ => ?_
  dsimp only
  exact .ite (.bind (.pure _) fun slab => hslab cpt virtpage slab)
    (.bind (.gets _) fun slabCache => .bind (hcalls.alloc slabCache) fun slab =>
      hslab cpt virtpage slab)

theorem growBig_leads (hcalls : calls.Lead R) (fuel : Nat) (irqS : IrqState) (c : Nat) :
    Leads R (growBig env calls fuel irqS c) := by
  unfold growBig
  refine .bind (.gets _) fun ca => ?_
  dsimp only
  refine .bind (.gets _) fun used => ?_
  rcases used with ⟨_ | page, pages⟩
  · exact restoreAndPanic_leads ..
  exact .bind (.update fun k => GrowthWrites.setPages k _) fun _ => .bind (.gets _) fun virtpage =>
    .bind (.update fun k => GrowthWrites.heap k _) fun _ => .ite (restoreAndPanic_leads ..)
      (.bind (addUnlistedKernelPages_leads env ..) fun cpts =>
        .bind (.update fun k => SlabWrites.setMem k _) fun _ =>
          .bind (kmalloc_leads fuel hcalls.alloc sizeofSlabDesc) fun slab =>
            .ite (restoreAndPanic_leads ..)
              (.bind (.update fun k => SlabWrites.setSlab k _ _) fun _ =>
                .bind (giveUsedArray_leads hcalls fuel irqS slab _) fun _ =>
                  .bind (addFreeSlab_leads c slab page) fun _ =>
                    .forRange fun i => trackKernelPage_leads hcalls ..))

/-- What `growCache` does between the two. -/
theorem growWork_leads (hcalls : calls.Lead R) (fuel c : Nat) (irqS : IrqState) :
    Leads R (do
      let ca ← gets (fun k => k.cache c)
      if ca.objSize < smallPageSize then growSmall env calls fuel irqS c
      else growBig env calls fuel irqS c : KernelM Unit) :=
  .bind (.gets _) fun _ => .ite (growSmall_leads env hcalls fuel irqS c)
    (growBig_leads env hcalls fuel irqS c)

end

/-- **The allocator**: what one step of growing keeps, given that the calls it makes do. -/
theorem growCache_leads [SlabWrites R] (env : Env)
    (hgrow : ∀ {calls : SlabCalls}, calls.Lead R → ∀ fuel c, Leads R (growWith env calls fuel c)) :
    ∀ fuel c, Leads R (growCache env fuel c)
  | 0, _ => .stop _
  | fuel + 1, c => by
      have ih := growCache_leads env hgrow fuel
      exact hgrow ⟨fun c => allocObjectFromCache_leads c ih fuel,
        fun c obj => freeObjectFromCache_leads c obj fuel⟩ fuel c

end OSExt.Memory
