import OSExt.Memory.Kernel

/-!
# The slab allocator

`slab.c` up to the recursion: one slab, the three lists of a cache, and the
searches over the list of caches. `alloc_object_from_cache` and `growCache` call
each other; here each takes the other as an argument, and `GrowCache` ties the
knot.

Addresses are plain numbers: heap addresses stay below 2^32, and a signed 32-bit
difference of two of them is the difference of the numbers.
-/

namespace OSExt.Memory

open Lib

/-! ## One slab -/

/-- `align4Bytes` -/
def align4Bytes (address : Nat) : Nat :=
  if address % 4 = 0 then address else address / 4 * 4 + 4

/-- `obj_size < 128 && (cache->flags & CACHE_SLAB_DESC_OFF_SLAB) == 0` -/
def onSlab (objSize : Nat) (flags : BitVec 16) : Bool :=
  objSize < 128 && flags &&& 0b10000#16 == 0#16

/-- `sizeof(struct slab_desc_t)`, `sizeof(struct cache_t)`, `sizeof(LinkedList)` -/
def sizeofSlabDesc : Nat := 16
def sizeofCache : Nat := 28
def sizeofLinkedList : Nat := 8

namespace SlabDesc

/-- Where the objects start. -/
def objectsStart (d : SlabDesc) (objSize : Nat) (flags : BitVec 16) : Nat :=
  if onSlab objSize flags then
    let objsRaw := d.size * smallPageSize / objSize
    align4Bytes (d.start + sizeofSlabDesc + objsRaw / 8 + 1)
  else d.start

/-- How many objects the slab has. -/
def objs (d : SlabDesc) (objSize : Nat) (flags : BitVec 16) : Nat :=
  if onSlab objSize flags then
    (d.start + d.size * smallPageSize - d.objectsStart objSize flags) / objSize
  else d.size * smallPageSize / objSize

/-- Where the used bits are. -/
def bits (d : SlabDesc) (objSize : Nat) (flags : BitVec 16) : Nat :=
  if onSlab objSize flags then d.start + sizeofSlabDesc else d.used

end SlabDesc

/-- `(used[i/8] >> (i%8)) & 0b1` -/
def usedBit (mem : Nat → Byte) (used i : Nat) : Byte := (mem (used + i / 8) >>> (i % 8)) &&& 1#8

/-- `used[i/8] = used[i/8] | (0b1 << (i%8))` -/
def setUsedBit (mem : Nat → Byte) (used i : Nat) : Nat → Byte :=
  Function.update mem (used + i / 8) (mem (used + i / 8) ||| (1#8 <<< (i % 8)))

/-- `used[i/8] = used[i/8] & (~ (0b1 << (i%8)))` -/
def clearUsedBit (mem : Nat → Byte) (used i : Nat) : Nat → Byte :=
  Function.update mem (used + i / 8) (mem (used + i / 8) &&& ~~~(1#8 <<< (i % 8)))

/-- `for (i…) if (bit clear)`: the first clear bit among the `n` from `i` on. -/
def findClear (mem : Nat → Byte) (used : Nat) : Nat → Nat → Option Nat
  | _, 0 => none
  | i, n + 1 => if usedBit mem used i = 0 then some i else findClear mem used (i + 1) n

/-- `for (i…) if (used[i] != 0) return false;` over the `n` bytes from `used` on. -/
def bytesZero (mem : Nat → Byte) : Nat → Nat → Bool
  | _, 0 => true
  | used, n + 1 => mem used == 0 && bytesZero mem (used + 1) n

/-- `alloc_object_from_slab`; a full slab gives 0. -/
def allocObjectFromSlab (slab objSize : Nat) (flags : BitVec 16) : KernelM Nat := do
  let d ← gets (fun k => k.slab slab)
  if !onSlab objSize flags && d.used == 0 then
    stop (.panicked "slab allocator alloc: used array in slab = NULL!\n")
  else
    let mem ← gets Kernel.mem
    match findClear mem (d.bits objSize flags) 0 (d.objs objSize flags) with
    | some i =>
      update (fun k => k.setMem (setUsedBit k.mem (d.bits objSize flags) i))
      pure (d.objectsStart objSize flags + i * objSize)
    | none => pure 0

/-- `free_object_from_slab`: true if the object is taken to be on this slab, and is freed. -/
def freeObjectFromSlab (slab objSize obj : Nat) (flags : BitVec 16) : KernelM Bool := do
  let d ← gets (fun k => k.slab slab)
  let start := d.objectsStart objSize flags
  if obj < start then pure false
  else if (obj - start) / objSize > d.objs objSize flags then pure false
  else if !onSlab objSize flags && d.used == 0 then
    stop (.panicked "slab allocator free: used array in slab = NULL!\n")
  else
    update (fun k => k.setMem
      (clearUsedBit k.mem (d.bits objSize flags) ((obj - start) / objSize)))
    pure true

/-- `isSlabFree`: looks at `objs / obj_size + 1` bytes. -/
def isSlabFree (slab objSize : Nat) (flags : BitVec 16) : KernelM Bool := do
  let d ← gets (fun k => k.slab slab)
  if !onSlab objSize flags && d.used == 0 then
    stop (.panicked "slab allocator isfree: used array in slab = NULL!\n")
  else
    gets (fun k =>
      bytesZero k.mem (d.bits objSize flags) (d.objs objSize flags / objSize + 1))

/-! ## One cache -/

/--
Walks a list from `cslab` for the first slab that takes the object; the result is
that slab and the one before it, 0 if there is none.
-/
def freeScan (c obj : Nat) : Nat → Nat → Nat → KernelM (Option (Nat × Nat))
  | 0, _, _ => stop .outOfFuel
  | fuel + 1, cslab, prevslab =>
    if cslab = 0 then pure none
    else do
      let ca ← gets (fun k => k.cache c)
      let freed ← freeObjectFromSlab cslab ca.objSize obj ca.flags
      if freed then pure (some (cslab, prevslab))
      else
        let next ← gets (fun k => (k.slab cslab).next)
        freeScan c obj fuel next cslab

/-- Unlinks `cslab` from the full list and puts it in front of the partial list. -/
def fullToPartial (c cslab prevslab : Nat) : KernelM Unit := do
  let next ← gets (fun k => (k.slab cslab).next)
  if prevslab = 0 then update (fun k => k.setFull c next)
  else update (fun k => k.setNext prevslab next)
  update (fun k => k.setNext cslab (k.cache c).partialSlabs)
  update (fun k => k.setPartial c cslab)

/-- Unlinks `cslab` from the partial list and puts it in front of the free list. -/
def partialToFree (c cslab prevslab : Nat) : KernelM Unit := do
  let next ← gets (fun k => (k.slab cslab).next)
  if prevslab = 0 then update (fun k => k.setPartial c next)
  else update (fun k => k.setNext prevslab next)
  update (fun k => k.setNext cslab (k.cache c).freeSlabs)
  update (fun k => k.setFree c cslab)

/--
`free_object_from_cache`. The two branches of the source differ only in that the
one for an empty partial list does not go on to scan it.
-/
def freeObjectFromCache (fuel c obj : Nat) : KernelM Bool := do
  let ca ← gets (fun k => k.cache c)
  let found ← freeScan c obj fuel ca.fullSlabs 0
  match found with
  | some (cslab, prevslab) =>
    fullToPartial c cslab prevslab
    pure true
  | none =>
    if ca.partialSlabs = 0 then pure false
    else
      let found ← freeScan c obj fuel ca.partialSlabs 0
      match found with
      | some (cslab, prevslab) =>
        let empty ← isSlabFree cslab ca.objSize ca.flags
        if empty then partialToFree c cslab prevslab else pure ()
        pure true
      | none => pure false

/-- Unlinks `cslab` from where the scan found it and puts it in front of the full list. -/
def scanToFull (c cslab prevslab : Nat) : KernelM Unit := do
  let next ← gets (fun k => (k.slab cslab).next)
  if prevslab = 0 then update (fun k => k.setPartial c next)
  else update (fun k => k.setNext prevslab next)
  update (fun k => k.setNext cslab (k.cache c).fullSlabs)
  update (fun k => k.setFull c cslab)

/--
The scan of `alloc_object_from_cache` over the partial list. A slab without a
free slot is moved to the full list first, and its `next` followed then.
-/
def scanPartial (c : Nat) : Nat → Nat → Nat → KernelM Nat
  | 0, _, _ => stop .outOfFuel
  | fuel + 1, cslab, prevslab =>
    if cslab = 0 then pure 0
    else do
      update (fun k => { k with scanned := cslab :: k.scanned })
      let ca ← gets (fun k => k.cache c)
      let object ← allocObjectFromSlab cslab ca.objSize ca.flags
      if object ≠ 0 then pure object
      else
        scanToFull c cslab prevslab
        let next ← gets (fun k => (k.slab cslab).next)
        scanPartial c fuel next cslab

/-- Moves the first free slab to the partial list and takes an object from it. -/
def takeFreeSlab (c : Nat) : KernelM Nat := do
  let cslab ← gets (fun k => (k.cache c).freeSlabs)
  update (fun k => k.setFree c (k.slab cslab).next)
  update (fun k => k.setNext cslab (k.cache c).partialSlabs)
  update (fun k => k.setPartial c cslab)
  let ca ← gets (fun k => k.cache c)
  let obj ← allocObjectFromSlab cslab ca.objSize ca.flags
  if obj = 0 then stop (.panicked "could not get object from empty slab!\n") else pure obj

/-- `alloc_object_from_cache`, with `growCache` as an argument. -/
def allocObjectFromCache (growCache : Nat → KernelM Unit) (c : Nat) : Nat → KernelM Nat
  | 0 => stop .outOfFuel
  | fuel + 1 => do
    let ca ← gets (fun k => k.cache c)
    let object ← if ca.partialSlabs = 0 then pure 0 else scanPartial c fuel ca.partialSlabs 0
    if object ≠ 0 then pure object
    else
      let ca ← gets (fun k => k.cache c)
      if ca.freeSlabs = 0 then do
        growCache c
        allocObjectFromCache growCache c fuel
      else takeFreeSlab c

/-! ## All caches -/

/-- `(ccache->flags & 0b1) != 0b1`: the no_kmalloc flag is not set. -/
def Cache.kmallocs (ca : Cache) : Bool := ca.flags &&& 0b1#16 != 0b1#16

/-- The search of `kmalloc` for the cache that fits best; 0 if there is none. -/
def bestFitCache (k : Kernel) (size : Nat) : Nat → Nat → Nat → Option Nat
  | 0, _, _ => none
  | fuel + 1, ccache, best =>
    if ccache = 0 then some best
    else
      let ca := k.cache ccache
      if ca.kmallocs then
        if ca.objSize = size then some ccache
        else
          bestFitCache k size fuel ca.next
            (if ca.objSize > size ∧ (best = 0 ∨ ca.objSize < (k.cache best).objSize) then ccache
             else best)
      else bestFitCache k size fuel ca.next best

/-- `kmalloc`, with `alloc_object_from_cache` as an argument. -/
def kmalloc (allocObjectFromCache : Nat → KernelM Nat) (fuel size : Nat) : KernelM Nat := do
  if size > 1024 then pure 0
  else
    let best ← gets (fun k => bestFitCache k size fuel k.caches 0)
    match best with
    | none => stop .outOfFuel
    | some 0 => pure 0
    | some c => allocObjectFromCache c

/-- The loop of `kfree` and `kfree_hint`: the first cache that passes and frees the object. -/
def freeInCaches (searched : Cache → Bool) (fuel obj : Nat) : Nat → Nat → KernelM Unit
  | 0, _ => stop .outOfFuel
  | n + 1, ccache =>
    if ccache = 0 then pure ()
    else do
      let ca ← gets (fun k => k.cache ccache)
      let freed ← if searched ca then freeObjectFromCache fuel ccache obj else pure false
      if freed then pure ()
      else
        let next ← gets (fun k => (k.cache ccache).next)
        freeInCaches searched fuel obj n next

/-- `kfree` -/
def kfree (fuel obj : Nat) : KernelM Unit := do
  let head ← gets Kernel.caches
  freeInCaches Cache.kmallocs fuel obj fuel head

/-- `kfree_hint` -/
def kfreeHint (fuel obj size : Nat) : KernelM Unit := do
  let head ← gets Kernel.caches
  freeInCaches (fun ca => size ≤ ca.objSize) fuel obj fuel head

end OSExt.Memory
