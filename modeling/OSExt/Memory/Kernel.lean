import OSExt.Lib.Call
import OSExt.Libk.Modes
import OSExt.Memory.PhysicalMM

/-!
# The state of the kernel's memory management

What `slab.c` and `virtual_MM.c` keep between calls, and the calls themselves as
state transformers that may stop: a panic, a data abort, or more iterations than
the fuel allows.

Slab descriptors and caches are records by address: once linked they are never
given back, and whoever overwrites one writes outside its own objects. All other
kernel memory is bytes.
-/

namespace OSExt.Memory

open Lib Libk

abbrev Byte := BitVec 8

/-- `struct slab_desc_t` -/
structure SlabDesc where
  /-- number of pages -/
  size : Nat
  /-- start of the slab in memory -/
  start : Nat
  next : Nat
  /-- the array with one used bit for each object, on-slab if NULL -/
  used : Nat
deriving DecidableEq, Repr, Inhabited

/-- `struct cache_t`, without its name. -/
structure Cache where
  /-- `full` -/
  fullSlabs : Nat
  /-- `partial` -/
  partialSlabs : Nat
  /-- `free` -/
  freeSlabs : Nat
  objSize : Nat
  /-- alignment for the pages -/
  alignment : Nat
  flags : BitVec 16
  next : Nat
deriving DecidableEq, Repr, Inhabited

/-- A `LinkedList` from its head: each entry's address and its `data`. -/
abbrev Entries := List (Nat × Nat)

/-- `kernel_space` and what hangs off it. -/
structure KernelSpace where
  /-- the 4096 entries of the translation table -/
  tt : Nat → Word
  /-- `cptds`: the sections with a coarse page table -/
  cptds : Entries
  /-- `cpts`: their page tables, in the same order -/
  cpts : Entries
  /-- physical memory, a word at a time, as far as page tables are in it -/
  pageTable : Nat → Word
  /-- the translation tables in `address_spaces` -/
  addressSpaces : List (Nat → Word)

/-- An array for used bits, with the memory when `kmalloc` returned it. -/
structure UsedArray where
  start : Nat
  objs : Nat
  mem : Nat → Byte

/--
A slab put on the free list of a cache by `growCache`, with the first of its pages in
physical memory and with the memory then.
-/
structure Grown where
  cache : Nat
  slab : Nat
  page : Nat
  mem : Nat → Byte

structure Kernel where
  cpsr : Word
  mem : Nat → Byte
  slab : Nat → SlabDesc
  cache : Nat → Cache
  /-- head of the list of caches -/
  caches : Nat
  slabCache : Nat
  cacheCache : Nat
  linkedlistCache : Nat
  cptCache : Nat
  kernelHeapNextPage : Nat
  pages : Pageblocks
  space : KernelSpace
  /-- ghost: the heap pages mapped by an access past the end of a translation table -/
  strays : List Nat
  /-- ghost: the slabs put on a free list, latest first, with their cache -/
  added : List (Nat × Nat)
  /-- ghost: the used arrays given, and the slabs `growCache` has added -/
  arrays : List UsedArray
  grown : List Grown
  /-- ghost: the slabs the scans of partial lists have looked at, latest first -/
  scanned : List Nat

/-- Why a call does not return. -/
inductive Stop where
  | panicked (message : String)
  /-- an access that memory does not answer -/
  | dataAbort
  /-- more iterations or nested calls than the fuel allows -/
  | outOfFuel
deriving DecidableEq, Repr

abbrev KernelM (α : Type) : Type := Call Kernel Stop α

/-! ## Memory -/

/-- `k_memset` -/
def fill (mem : Nat → Byte) (a n : Nat) (v : Byte) : Nat → Byte :=
  fun x => if a ≤ x ∧ x < a + n then v else mem x

/-- A word stored at an address, lowest byte first. -/
def storeWord (mem : Nat → Byte) (a : Nat) (w : Word) : Nat → Byte :=
  fun x => if a ≤ x ∧ x < a + 4 then w.extractLsb' (8 * (x - a)) 8 else mem x

/-- The word at an address. -/
def loadWord (mem : Nat → Byte) (a : Nat) : Word :=
  mem (a + 3) ++ mem (a + 2) ++ mem (a + 1) ++ mem a

namespace Kernel

def setCpsr (k : Kernel) (cpsr : Word) : Kernel := { k with cpsr := cpsr }

def setMem (k : Kernel) (mem : Nat → Byte) : Kernel := { k with mem := mem }

def setSlab (k : Kernel) (s : Nat) (d : SlabDesc) : Kernel :=
  { k with slab := Function.update k.slab s d }

def setCache (k : Kernel) (c : Nat) (ca : Cache) : Kernel :=
  { k with cache := Function.update k.cache c ca }

/-- `slab->next = next` -/
def setNext (k : Kernel) (s next : Nat) : Kernel := k.setSlab s { k.slab s with next := next }

/-- `cache->full = s` and so on. -/
def setFull (k : Kernel) (c s : Nat) : Kernel := k.setCache c { k.cache c with fullSlabs := s }
def setPartial (k : Kernel) (c s : Nat) : Kernel :=
  k.setCache c { k.cache c with partialSlabs := s }
def setFree (k : Kernel) (c s : Nat) : Kernel := k.setCache c { k.cache c with freeSlabs := s }

end Kernel

/-! ## Critical sections -/

/-- `irq_save_state(&irq_s); irq_disable(); … irq_restore_state(&irq_s);` around `work`. -/
def irqSection {α : Type} (work : IrqState → KernelM α) : KernelM α := do
  let irqS ← gets (fun k => irqSaveState k.cpsr)
  update (fun k => k.setCpsr (irqDisable k.cpsr))
  let result ← work irqS
  update (fun k => k.setCpsr (irqRestoreState irqS k.cpsr))
  pure result

end OSExt.Memory
