import OSExt.Memory.VirtualMM

/-!
# Growing a cache

The rest of `slab.c`: `growCache`, which takes pages, maps them and may allocate
from other caches on the way, and what is built on it. Growing and allocating
call each other to any depth; the fuel bounds the depth and every loop.

Before a heap page is mapped in a tracked page table it is mapped by
`addUnlistedKernelPage`. When its section has no page table that function looks
into the translation table at the unshifted section address, far past its 4096
entries. What memory answers there is a parameter.
-/

namespace OSExt.Memory

open Lib Libk

/-- What a read past the end of a translation table meets. -/
inductive StrayRead where
  /-- nothing that answers -/
  | dataAbort
  /-- a word with the low bits of a coarse page table's descriptor -/
  | coarse
  /-- any other word -/
  | other
deriving DecidableEq, Repr

/-- What the code finds around it. -/
structure Env where
  /-- an access past the end of the active translation table, by its index; writes there are lost -/
  stray : Kernel → Nat → StrayRead
  /-- the OS heap: what `ti_malloc` returns, 0 for NULL -/
  tiMalloc : Kernel → Nat

def kernelHeapStart : Nat := 0xe4000000

/-- `make1KAligned` -/
def make1KAligned (p : Nat) : Nat := if p % 1024 = 0 then p else p / 1024 * 1024 + 1024

/-- `((cache->flags >> 3) & 0b1) == 1` -/
def Cache.noncached (ca : Cache) : Bool := (ca.flags >>> 3) &&& 0b1#16 == 1#16

/-- The `c` and `b` bits of a cache's pages. -/
def Cache.cb (ca : Cache) : Byte := if ca.noncached then 0 else 1

/-! ## Mapping a page before it is tracked -/

/-- `(tt[section] & 0b11) == 0b01` for the unshifted section. -/
def readUnshifted (env : Env) (va sect : Nat) : KernelM Bool := do
  if sect < 4096 then gets (fun k => k.space.tt sect &&& 0b11#32 == 0b01#32)
  else
    update (fun k => { k with strays := va :: k.strays })
    let read ← gets (fun k => env.stray k sect)
    match read with
    | .dataAbort => stop .dataAbort
    | .coarse => pure true
    | .other => pure false

/--
`addUnlistedKernelPage`, and `addUnlistedKernelPage_noncached` with `cb` 0. The
result is the temporary page table it may set up, which no entry in range points
to.
-/
def addUnlistedKernelPage (env : Env) (cb : Byte) (page va : Nat) :
    KernelM (Option (Nat → Word)) := do
  let kernelCpt ← getKernelCPT va
  let sect := sectionOf va
  let index := (va - sect) / smallPageSize
  let descriptor := newSPD cb cb 0b01010101#8 (BitVec.ofNat 32 page)
  if kernelCpt ≠ 0 then
    update (fun k => k.writeTable kernelCpt index descriptor)
    pure none
  else
    let coarse ← readUnshifted env va sect
    if coarse then pure none
    else
      let tmpPds ← gets env.tiMalloc
      if tmpPds = 0 then stop (.panicked "no memory for tmp_pds!\n")
      else
        if sect < 4096 then
          update (fun k =>
            k.writeTt sect (newCPTD 0 (BitVec.ofNat 32 (make1KAligned tmpPds))))
        pure (some (Function.update (fun _ => 0) index descriptor))

/-- The same for `n` pages in a row, from the `i`th on. -/
def addUnlistedKernelPages (env : Env) (cb : Byte) (page va : Nat) :
    Nat → Nat → KernelM (List (Option (Nat → Word)))
  | _, 0 => pure []
  | i, n + 1 => do
    let cpt ← addUnlistedKernelPage env cb (page + smallPageSize * i) (va + smallPageSize * i)
    let cpts ← addUnlistedKernelPages env cb page va (i + 1) n
    pure (cpt :: cpts)

/-- Hands a page over to the virtual memory manager. -/
def trackKernelPage (calls : SlabCalls) (cb : Byte) (cpt : Option (Nat → Word))
    (sect page va : Nat) : KernelM Unit :=
  match cpt with
  | some cpt => migrateKernelCPT calls sect cpt 256
  | none => addVirtualKernelPage calls cb cb page va

/-! ## Growing -/

/-- `irq_restore_state(&irq_s); panic(message);` -/
def restoreAndPanic {α : Type} (irqS : IrqState) (message : String) : KernelM α := do
  update (fun k => k.setCpsr (irqRestoreState irqS k.cpsr))
  stop (.panicked message)

/-- `slab->next = cache->free; cache->free = slab;`, for a slab on the pages from `page` on. -/
def addFreeSlab (c slab page : Nat) : KernelM Unit := do
  update (fun k => k.setNext slab (k.cache c).freeSlabs)
  update (fun k => k.setFree c slab)
  update (fun k =>
    { k with added := (c, slab) :: k.added, grown := ⟨c, slab, page, k.mem⟩ :: k.grown })

/-- `slab->used = (uint8_t*) kmalloc(objs/8 + 1);` and the test of the result. -/
def giveUsedArray (calls : SlabCalls) (fuel : Nat) (irqS : IrqState) (slab objs : Nat) :
    KernelM Unit := do
  let bits ← kmalloc calls.allocObjectFromCache fuel (objs / 8 + 1)
  update (fun k => { k with arrays := ⟨bits, objs, k.mem⟩ :: k.arrays })
  update (fun k => k.setSlab slab { k.slab slab with used := bits })
  if bits = 0 then
    restoreAndPanic irqS "cache growth: could not kmalloc the used array for the slab!\n"
  else pure ()

/-- The branch of `growCache` for objects smaller than a page. -/
def growSmall (env : Env) (calls : SlabCalls) (fuel : Nat) (irqS : IrqState) (c : Nat) :
    KernelM Unit := do
  let ca ← gets (fun k => k.cache c)
  let used ← gets (fun k => usePage k.pages)
  match used with
  | (none, _) => restoreAndPanic irqS "no page for a growing cache found!"
  | (some page, pages) =>
    update (fun k => { k with pages := pages })
    let virtpage ← gets Kernel.kernelHeapNextPage
    let cpt ← addUnlistedKernelPage env ca.cb page virtpage
    update (fun k => k.setMem (fill k.mem virtpage smallPageSize 0))
    update (fun k => { k with kernelHeapNextPage := k.kernelHeapNextPage + smallPageSize })
    let slab ← if onSlab ca.objSize ca.flags then pure virtpage
      else calls.allocObjectFromCache (← gets Kernel.slabCache)
    update (fun k => k.setSlab slab { size := 1, start := virtpage, next := 0, used := 0 })
    if onSlab ca.objSize ca.flags then pure ()
    else giveUsedArray calls fuel irqS slab (smallPageSize / ca.objSize)
    addFreeSlab c slab page
    trackKernelPage calls ca.cb cpt page page virtpage

/-- The pages of one object, rounded up. -/
def Cache.objPages (ca : Cache) : Nat :=
  ca.objSize / smallPageSize + if ca.objSize % smallPageSize ≠ 0 then 1 else 0

/-- The branch of `growCache` for objects of at least a page. -/
def growBig (env : Env) (calls : SlabCalls) (fuel : Nat) (irqS : IrqState) (c : Nat) :
    KernelM Unit := do
  let ca ← gets (fun k => k.cache c)
  let size := ca.objPages
  let used ← gets (fun k => useConsecutivePages size ca.alignment k.pages)
  match used with
  | (none, _) => restoreAndPanic irqS "not enough consecutive pages for cache growth!\n"
  | (some page, pages) =>
    update (fun k => { k with pages := pages })
    let virtpage ← gets Kernel.kernelHeapNextPage
    update (fun k => { k with kernelHeapNextPage := k.kernelHeapNextPage + smallPageSize * size })
    if size ≥ 100 then restoreAndPanic irqS "cache growth: object bigger than 100 pages!\n"
    else
      let cpts ← addUnlistedKernelPages env ca.cb page virtpage 0 size
      update (fun k => k.setMem (fill k.mem virtpage (smallPageSize * size) 0))
      let slab ← kmalloc calls.allocObjectFromCache fuel sizeofSlabDesc
      if slab = 0 then restoreAndPanic irqS "cache growth: could not kmalloc a slab descriptor!\n"
      else
        let objs := smallPageSize * size / ca.objSize
        update (fun k => k.setSlab slab
          { k.slab slab with size := size, start := virtpage, next := 0 })
        giveUsedArray calls fuel irqS slab objs
        addFreeSlab c slab page
        -- `page` and `virtpage` do not move along with `i`
        forRange (fun i =>
          trackKernelPage calls ca.cb ((cpts[i]?).getD none) (page + i * smallPageSize) page
            virtpage) 0 100

/-- `growCache`, with the allocator it calls back as an argument. -/
def growWith (env : Env) (calls : SlabCalls) (fuel c : Nat) : KernelM Unit :=
  irqSection fun irqS => do
    let ca ← gets (fun k => k.cache c)
    if ca.objSize < smallPageSize then growSmall env calls fuel irqS c
    else growBig env calls fuel irqS c

/-- `growCache` -/
def growCache (env : Env) : Nat → Nat → KernelM Unit
  | 0, _ => stop .outOfFuel
  | fuel + 1, c =>
    growWith env
      { allocObjectFromCache := fun c => allocObjectFromCache (growCache env fuel) c fuel
        freeObjectFromCache := freeObjectFromCache fuel } fuel c

/-- The slab allocator as the rest of the kernel calls it. -/
def slabCalls (env : Env) (fuel : Nat) : SlabCalls where
  allocObjectFromCache c := allocObjectFromCache (growCache env fuel) c fuel
  freeObjectFromCache := freeObjectFromCache fuel

/-! ## Setting up -/

/-- `createCache` -/
def createCache (calls : SlabCalls) (objSize alignment : Nat) (flags : BitVec 16) :
    KernelM Nat := do
  let cache ← calls.allocObjectFromCache (← gets Kernel.cacheCache)
  update (fun k => k.setCache cache
    { fullSlabs := 0, partialSlabs := 0, freeSlabs := 0, objSize := objSize
      alignment := alignment, flags := flags, next := k.caches })
  update (fun k => { k with caches := cache })
  pure cache

/-- A first slab on the heap page `page`, its descriptor on-slab. -/
def bootSlab (page : Nat) : KernelM Unit :=
  update (fun k => k.setSlab page { size := 1, start := page, next := 0, used := 0 })

/-- Takes an object for a cache from `cache_slab` and fills it in. -/
def bootCache (cacheSlab slab objSize : Nat) (flags : BitVec 16) : KernelM Nat := do
  let cache ← allocObjectFromSlab cacheSlab sizeofCache 0
  update (fun k => k.setCache cache
    { fullSlabs := 0, partialSlabs := 0, freeSlabs := slab, objSize := objSize, alignment := 0
      flags := flags, next := 0 })
  pure cache

/-- `usePage()`, 0 for NULL. -/
def bootPage : KernelM Nat := do
  let used ← gets (fun k => usePage k.pages)
  match used with
  | (none, _) => pure 0
  | (some page, pages) =>
    update (fun k => { k with pages := pages })
    pure page

/-- `tmp_pds[i] = newSPD(…, page); k_memset(page, 0, SMALL_PAGE_SIZE);` -/
def mapBootPage (tmpPds i page : Nat) : KernelM Unit := do
  update (fun k => k.setSpace
    { k.space with
      pageTable := Function.update k.space.pageTable (tmpPds + 4 * i)
        (newSPD 1 1 0b01010101#8 (BitVec.ofNat 32 page)) })
  update (fun k => k.setMem (fill k.mem (kernelHeapStart + smallPageSize * i) smallPageSize 0))

/-- The next `n` boot pages. -/
def mapBootPages (tmpPds : Nat) : Nat → Nat → KernelM Bool
  | _, 0 => pure true
  | i, n + 1 => do
    let page ← bootPage
    if page = 0 then pure false
    else do
      mapBootPage tmpPds i page
      mapBootPages tmpPds (i + 1) n

/-- The first four caches of `initSlabAllocator`, set up by hand on the first four heap pages. -/
def bootCaches : KernelM Unit := do
  let cacheSlab := kernelHeapStart
  bootSlab cacheSlab
  let cacheCache ← bootCache cacheSlab cacheSlab sizeofCache 0
  let slabSlab := kernelHeapStart + smallPageSize
  bootSlab slabSlab
  let slabCache ← bootCache cacheSlab slabSlab sizeofSlabDesc 0
  let linkedlistSlab := kernelHeapStart + smallPageSize * 2
  bootSlab linkedlistSlab
  let linkedlistCache ← bootCache cacheSlab linkedlistSlab sizeofLinkedList 0
  let cptSlab ← allocObjectFromSlab slabSlab sizeofSlabDesc 0
  update (fun k => k.setSlab cptSlab
    { k.slab cptSlab with size := 1, start := kernelHeapStart + smallPageSize * 3, next := 0 })
  -- the size caches aren't created yet, so just use the linkedlist cache
  let bits ← allocObjectFromSlab linkedlistSlab sizeofLinkedList 0
  update (fun k => k.setSlab cptSlab { k.slab cptSlab with used := bits })
  let cptCache ← bootCache cacheSlab cptSlab 1024 0b1000#16
  update (fun k =>
    { k with
      caches := cacheCache
      cacheCache := cacheCache
      slabCache := slabCache
      linkedlistCache := linkedlistCache
      cptCache := cptCache
      kernelHeapNextPage := kernelHeapStart + smallPageSize * 4
      added := [(cptCache, cptSlab), (linkedlistCache, linkedlistSlab), (slabCache, slabSlab),
        (cacheCache, cacheSlab)] })
  update (fun k => k.setCache cacheCache { k.cache cacheCache with next := slabCache })
  update (fun k => k.setCache slabCache { k.cache slabCache with next := linkedlistCache })
  update (fun k => k.setCache linkedlistCache { k.cache linkedlistCache with next := cptCache })

/-- The caches `initSlabAllocator` creates once the allocator runs: size, alignment, flags. -/
def createdCaches : List (Nat × Nat × BitVec 16) :=
  -- translation tables, address spaces, processes, threads, framebuffers, actions, files
  [(16384, 16384, 0b1001#16), (12, 0, 0#16), (24, 0, 0#16), (80, 0, 0#16),
   (155648, 0, 0b1001#16), (44, 0, 0#16), (8, 0, 0#16),
   -- usb queue heads, svc threads
   (48, 32, 0b11001#16), (100, 0, 0#16),
   -- the size caches for kmalloc; 8 and 1024 are the linkedlist and cpt caches
   (1, 0, 0#16), (2, 0, 0#16), (4, 0, 0#16), (16, 0, 0#16), (32, 0, 0#16), (64, 0, 0#16),
   (128, 0, 0#16), (256, 0, 0#16), (512, 0, 0#16)]

/-- `createCache` for each of a list of caches. -/
def createCaches (calls : SlabCalls) : List (Nat × Nat × BitVec 16) → KernelM Unit
  | [] => pure ()
  | (objSize, alignment, flags) :: rest => do
    let _ ← createCache calls objSize alignment flags
    createCaches calls rest

/-- `initSlabAllocator`. Objects of the fresh slabs are not tested for NULL here. -/
def initSlabAllocator (env : Env) (fuel : Nat) : KernelM Bool := do
  let page ← bootPage
  if page = 0 then pure false
  else
    let tmpPdsUnaligned ← gets env.tiMalloc
    if tmpPdsUnaligned = 0 then pure false
    else
      let tmpPds := make1KAligned tmpPdsUnaligned
      update (fun k => k.setSpace
        { k.space with
          pageTable := fun a =>
            if tmpPds ≤ a ∧ a < tmpPds + 1024 then 0 else k.space.pageTable a })
      update (fun k => k.writeTt (kernelHeapStart / 0x100000)
        (newCPTD 0 (BitVec.ofNat 32 tmpPds)))
      mapBootPage tmpPds 0 page
      let mapped ← mapBootPages tmpPds 1 3
      if !mapped then pure false
      else
        bootCaches
        let table ← gets (fun k i => k.space.pageTable (tmpPds + 4 * i))
        migrateKernelCPT (slabCalls env fuel) kernelHeapStart table 4
        createCaches (slabCalls env fuel) createdCaches
        pure true

end OSExt.Memory
