import OSExt.Memory.Slab

/-!
# The kernel's page tables

`virtual_MM.c`: descriptors, the walk of `getPhysicalAddress`, and the functions
that map kernel pages. `kernel_space` keeps two lists in step, the sections that
have a coarse page table and the tables. List entries and tables are objects of
the slab allocator, whose functions are arguments here.

A page table is written through its heap address and read by the walk through
its physical one, so a write goes to both `mem` and `pageTable`.
-/

namespace OSExt.Memory

open Lib

/-! ## Descriptors -/

def newCPTD (domain : Byte) (baseAddress : Word) : Word :=
  0b10001#32 ||| ((domain &&& 0b1111#8).zeroExtend 32 <<< 5) ||| (baseAddress &&& ~~~0b1111111111#32)

def newSPD (c b ap : Byte) (baseAddress : Word) : Word :=
  0b10#32 ||| ((c &&& 0b1#8).zeroExtend 32 <<< 3) ||| ((b &&& 0b1#8).zeroExtend 32 <<< 2)
    ||| (ap.zeroExtend 32 <<< 4) ||| (baseAddress &&& 0xfffff000#32)

/-- `virtual_address & (~ 0xfffff)` -/
def sectionOf (address : Nat) : Nat := address / 0x100000 * 0x100000

/-- `getPhysicalAddress`, over a translation table and the physical memory with the page tables. -/
def getPhysicalAddress (tt pageTable : Nat → Word) (adr : Word) : Word :=
  let descriptor := tt (adr >>> 20).toNat
  if descriptor &&& 0b11#32 = 0b0#32 then 0
  else if descriptor &&& 0b11#32 = 0b10#32 then
    (descriptor >>> 20 <<< 20) + (adr <<< 12 >>> 12)
  else if descriptor &&& 0b11#32 = 0b01#32 then
    let cptBase := descriptor &&& ~~~0b1111111111#32
    let index := ((adr &&& 0b11111111000000000000#32) >>> 10) / 4
    let pageDescriptor := pageTable (cptBase.toNat + 4 * index.toNat)
    if pageDescriptor &&& 0b11#32 = 0b1#32 then
      (pageDescriptor &&& ~~~0xffff#32) + (adr &&& 0xffff#32)
    else if pageDescriptor &&& 0b11#32 = 0b10#32 then
      (pageDescriptor &&& ~~~0xfff#32) + (adr &&& 0xfff#32)
    else 0
  else 0

/-- `getPhysicalAddress(&kernel_space, address)` -/
def Kernel.physical (k : Kernel) (address : Nat) : Nat :=
  (getPhysicalAddress k.space.tt k.space.pageTable (BitVec.ofNat 32 address)).toNat

/-! ## Page tables -/

def Kernel.setSpace (k : Kernel) (space : KernelSpace) : Kernel := { k with space := space }

/-- `table[i] = w` for a page table of 1 KiB. -/
def Kernel.writeTable (k : Kernel) (table i : Nat) (w : Word) : Kernel :=
  let base := k.physical table
  (k.setMem (storeWord k.mem (table + 4 * i) w)).setSpace
    { k.space with pageTable := Function.update k.space.pageTable (base + 4 * i) w }

/-- `k_memset(table, 0, 1024)` -/
def Kernel.clearTable (k : Kernel) (table : Nat) : Kernel :=
  let base := k.physical table
  (k.setMem (fill k.mem table 1024 0)).setSpace
    { k.space with
      pageTable := fun a => if base ≤ a ∧ a < base + 1024 then 0 else k.space.pageTable a }

/-- `k_memcpy(table, source, n*sizeof(uint32_t))` -/
def Kernel.copyTable (source : Nat → Word) (table : Nat) : Nat → Kernel → Kernel
  | 0, k => k
  | n + 1, k => (Kernel.copyTable source table n k).writeTable table n (source n)

/-- `kernel_space.tt[index] = w` -/
def Kernel.writeTt (k : Kernel) (index : Nat) (w : Word) : Kernel :=
  k.setSpace { k.space with tt := Function.update k.space.tt index w }

/-! ## The two lists -/

/-- `searchLinkedListEntry`: the first entry with this data, and its index. -/
def searchLinkedListEntry (list : Entries) (data : Nat) : Option (Nat × Nat) :=
  match list.findIdx? (fun e => e.2 == data) with
  | some i => (list[i]?).map (fun e => (e.1, i))
  | none => none

/-- `e->data = data` -/
def storeData (mem : Nat → Byte) (e data : Nat) : Nat → Byte := storeWord mem e (BitVec.ofNat 32 data)

/-- `e->next = next` -/
def storeNext (mem : Nat → Byte) (e next : Nat) : Nat → Byte :=
  storeWord mem (e + 4) (BitVec.ofNat 32 next)

/-- The address of the first entry, 0 for an empty list. -/
def headEntry (list : Entries) : Nat := (list.head?.map Prod.fst).getD 0

/-- `addLinkedListEntry`, for an entry whose data is set. -/
def addLinkedListEntry (mem : Nat → Byte) (list : Entries) (e data : Nat) :
    (Nat → Byte) × Entries :=
  (storeNext mem e (headEntry list), (e, data) :: list)

/-- `removeLinkedListEntry`: the entry before `e` takes its `next`. -/
def removeLinkedListEntry (e : Nat) (mem : Nat → Byte) : Entries → (Nat → Byte) × Entries
  | [] => (mem, [])
  | [x] => if x.1 = e then (mem, []) else (mem, [x])
  | x :: y :: rest =>
    if x.1 = e then (mem, y :: rest)
    else if y.1 = e then (storeNext mem x.1 (headEntry rest), x :: rest)
    else
      let (mem', rest') := removeLinkedListEntry e mem (y :: rest)
      (mem', x :: rest')

/-- `getKernelCPT`: the page table of the section `address` is in, 0 if there is none. -/
def getKernelCPT (address : Nat) : KernelM Nat := do
  let space ← gets Kernel.space
  match searchLinkedListEntry space.cptds (sectionOf address) with
  | none => pure 0
  | some (_, index) =>
    match space.cpts[index]? with
    | some cpt => pure cpt.2
    | none => stop .dataAbort

/-! ## Mapping kernel pages -/

/-- What the functions below ask of the slab allocator. -/
structure SlabCalls where
  allocObjectFromCache : Nat → KernelM Nat
  freeObjectFromCache : Nat → Nat → KernelM Bool

namespace SlabCalls

variable (calls : SlabCalls)

def requestLinkedListEntry : KernelM Nat := do
  calls.allocObjectFromCache (← gets Kernel.linkedlistCache)

def freeLinkedListEntry (e : Nat) : KernelM Unit := do
  let _ ← calls.freeObjectFromCache (← gets Kernel.linkedlistCache) e

def requestCPT : KernelM Nat := do
  calls.allocObjectFromCache (← gets Kernel.cptCache)

def freeCPT (cpt : Nat) : KernelM Unit := do
  let _ ← calls.freeObjectFromCache (← gets Kernel.cptCache) cpt

end SlabCalls

/-- Requests two list entries and a page table, clears the table and puts all three on the lists. -/
def addKernelCPT (calls : SlabCalls) (sect : Nat) : KernelM Nat := do
  let cptd ← calls.requestLinkedListEntry
  update (fun k => k.setMem (storeData k.mem cptd sect))
  let cpt ← calls.requestLinkedListEntry
  let table ← calls.requestCPT
  update (fun k => k.setMem (storeData k.mem cpt table))
  update (fun k => k.clearTable table)
  update (fun k =>
    let added := addLinkedListEntry k.mem k.space.cpts cpt table
    (k.setMem added.1).setSpace { k.space with cpts := added.2 })
  update (fun k =>
    let added := addLinkedListEntry k.mem k.space.cptds cptd sect
    (k.setMem added.1).setSpace { k.space with cptds := added.2 })
  pure table

/-- The first half of `migrateKernelCPT`: an earlier page table of the section is given up. -/
def dropKernelCPT (calls : SlabCalls) (sect : Nat) : KernelM Unit := do
  let space ← gets Kernel.space
  match searchLinkedListEntry space.cptds sect with
  | none => pure ()
  | some (alreadyCptd, index) =>
    match space.cpts[index]? with
    | none => stop .dataAbort
    | some alreadyCpt =>
      update (fun k =>
        let removed := removeLinkedListEntry alreadyCptd k.mem k.space.cptds
        (k.setMem removed.1).setSpace { k.space with cptds := removed.2 })
      update (fun k =>
        let removed := removeLinkedListEntry alreadyCpt.1 k.mem k.space.cpts
        (k.setMem removed.1).setSpace { k.space with cpts := removed.2 })
      calls.freeCPT alreadyCpt.2
      calls.freeLinkedListEntry alreadyCpt.1
      calls.freeLinkedListEntry alreadyCptd

/-- `migrateKernelCPT(section, migrate_cpt, pages)`: the section's new table is filled from one given. -/
def migrateKernelCPT (calls : SlabCalls) (sect : Nat) (migrateCpt : Nat → Word) (pages : Nat) :
    KernelM Unit := do
  let pages := if pages > 256 then 256 else pages
  let sect := sectionOf sect
  dropKernelCPT calls sect
  let table ← addKernelCPT calls sect
  update (Kernel.copyTable migrateCpt table pages)
  update (fun k => k.writeTt (sect / 0x100000)
    (newCPTD 0 (BitVec.ofNat 32 (k.physical table))))

/-- `addVirtualKernelPage`, and `addVirtualKernelPage_noncached` with `c` and `b` 0. -/
def addVirtualKernelPage (calls : SlabCalls) (c b : Byte) (page address : Nat) : KernelM Unit := do
  let sect := sectionOf address
  let index := (address - sect) / smallPageSize
  let descriptor := newSPD c b 0b01010101#8 (BitVec.ofNat 32 page)
  let space ← gets Kernel.space
  match searchLinkedListEntry space.cptds sect with
  | none =>
    let table ← addKernelCPT calls sect
    update (fun k => k.writeTt (sect / 0x100000)
      (newCPTD 0 (BitVec.ofNat 32 (k.physical table))))
    update (fun k => k.writeTable table index descriptor)
    -- adding the page table to all address spaces
    update (fun k => k.setSpace { k.space with addressSpaces := k.space.addressSpaces.map (fun tt =>
      Function.update tt (sect / 0x100000) (k.space.tt (sect / 0x100000))) })
  | some (_, i) =>
    match space.cpts[i]? with
    | none => stop (.panicked "no corresponding coarse page table for descriptor!\n")
    | some cpt => update (fun k => k.writeTable cpt.2 index descriptor)

end OSExt.Memory
