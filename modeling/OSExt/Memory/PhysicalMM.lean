import Mathlib.Tactic

/-!
# The physical page allocator

`physical_MM.c`: page blocks of up to 128 pages, each carved out of one
`ti_malloc` region, with one used bit per page kept in two 64-bit words.

Pointers are 32-bit numbers; the sums the source computes on them wrap, so they
go through `u32`. A 64-bit shift by 64 gives 0, as on the ARM target, which is
what `BitVec` shifts do.
-/

namespace OSExt.Memory

/-- What is left of a number in a 32-bit register. -/
def u32 (n : Nat) : Nat := n % 4294967296

theorem u32_of_lt {n : Nat} (h : n < 4294967296) : u32 n = n := Nat.mod_eq_of_lt h

/-- `SMALL_PAGE_SIZE` -/
def smallPageSize : Nat := 4096

/-- `MAXPAGEBLOCKS` -/
def maxPageblocks : Nat := 200

/-- `struct pageblock`: the bits of page `i` sit at index `i` of each word pair. -/
structure Pageblock where
  unaligned : Nat
  /-- first page -/
  start : Nat
  /-- number of pages in block -/
  size : Nat
  used : BitVec 64
  used2 : BitVec 64
  dirty : BitVec 64
  dirty2 : BitVec 64
  pageout : BitVec 64
  pageout2 : BitVec 64
deriving DecidableEq, Repr

/-- The first `blockindex` entries of `pages`. -/
abbrev Pageblocks := List Pageblock

def makeSmallPageAligned (ptr : Nat) : Nat :=
  if ptr / 4096 * 4096 = ptr then ptr else u32 (ptr / 4096 * 4096 + 0x1000)

/-! ## The bit arrays -/

def setBit128 (a b : BitVec 64) (i : Nat) (value : Bool) : BitVec 64 × BitVec 64 :=
  if i < 64 then
    (if value then a ||| (1#64 <<< i) else a &&& ~~~(1#64 <<< i), b)
  else
    (a, if value then b ||| (1#64 <<< (i - 64)) else b &&& ~~~(1#64 <<< (i - 64)))

def getBit128 (a b : BitVec 64) (i : Nat) : BitVec 64 :=
  if i < 64 then (a >>> i) &&& 1#64 else (b >>> (i - 64)) &&& 1#64

/-- `__builtin_popcountll` -/
def popcountll (w : BitVec 64) : Nat := ((List.range 64).filter (fun i => w.getLsbD i)).length

/-! ## Block bookkeeping -/

def addPageBlock (pages : Pageblocks) (block : Pageblock) : Bool × Pageblocks :=
  if pages.length ≥ maxPageblocks - 4 then (false, pages) else (true, pages ++ [block])

/--
`allocPageblock`, given what `ti_malloc(SMALL_PAGE_SIZE*(size+3))` returned
(0 for NULL). A block that finds no room in the table is given back.
-/
def allocPageblock (unaligned : Nat) (size : Nat) (pages : Pageblocks) : Bool × Pageblocks :=
  if size > 128 then (false, pages)
  else if unaligned = 0 then (false, pages)
  else
    addPageBlock pages
      { unaligned := unaligned, start := makeSmallPageAligned unaligned, size := size
        used := 0, used2 := 0, dirty := 0, dirty2 := 0, pageout := 0, pageout2 := 0 }

/-- Every block starts on a page boundary. -/
def BlocksAligned (pages : Pageblocks) : Prop := ∀ b ∈ pages, smallPageSize ∣ b.start

/-! ## Looking a page up

Six functions of the source search the blocks for the one whose inclusive range
`[start, start + SMALL_PAGE_SIZE*size]` holds the page, and read or write one of
its bits. A reader stops at the first block, a writer goes through all of them.
-/

/-- `page >= b->start && page <= b->start+SMALL_PAGE_SIZE*b->size` -/
def Pageblock.covers (b : Pageblock) (page : Nat) : Bool :=
  b.start ≤ page && page ≤ u32 (b.start + smallPageSize * b.size)

/-- `((uint32_t) page - (uint32_t) b->start)/SMALL_PAGE_SIZE` -/
def Pageblock.offset (b : Pageblock) (page : Nat) : Nat := (page - b.start) / smallPageSize

/-- The bit the first covering block keeps for a page; `dflt` if no block covers it. -/
def readPageBit (bits : Pageblock → BitVec 64 × BitVec 64) (dflt : Bool) (page : Nat) :
    Pageblocks → Bool
  | [] => dflt
  | b :: pages =>
      if b.covers page then
        getBit128 (bits b).1 (bits b).2 (b.offset page) == 1#64
      else readPageBit bits dflt page pages

/-- Writes a page's bit in every covering block. -/
def writePageBit (write : Pageblock → Nat → Pageblock) (page : Nat) (pages : Pageblocks) :
    Pageblocks :=
  pages.map (fun b => if b.covers page then write b (b.offset page) else b)

def Pageblock.setUsed (b : Pageblock) (i : Nat) (value : Bool) : Pageblock :=
  { b with used := (setBit128 b.used b.used2 i value).1
           used2 := (setBit128 b.used b.used2 i value).2 }

def Pageblock.setDirty (b : Pageblock) (i : Nat) (value : Bool) : Pageblock :=
  { b with dirty := (setBit128 b.dirty b.dirty2 i value).1
           dirty2 := (setBit128 b.dirty b.dirty2 i value).2 }

def Pageblock.setPageout (b : Pageblock) (i : Nat) (value : Bool) : Pageblock :=
  { b with pageout := (setBit128 b.pageout b.pageout2 i value).1
           pageout2 := (setBit128 b.pageout b.pageout2 i value).2 }

def setPageUsedBit (page : Nat) (used : Bool) (pages : Pageblocks) : Pageblocks :=
  writePageBit (fun b i => b.setUsed i used) page pages

/-- Whether a page is used, or true if not found (so you don't use an unallocated page). -/
def isPageUsed (page : Nat) (pages : Pageblocks) : Bool :=
  readPageBit (fun b => (b.used, b.used2)) true page pages

def isPageDirty (page : Nat) (pages : Pageblocks) : Bool :=
  readPageBit (fun b => (b.dirty, b.dirty2)) false page pages

def setPageDirtyBit (page : Nat) (dirty : Bool) (pages : Pageblocks) : Pageblocks :=
  writePageBit (fun b i => b.setDirty i dirty) page pages

def isPagedOut (page : Nat) (pages : Pageblocks) : Bool :=
  readPageBit (fun b => (b.pageout, b.pageout2)) false page pages

def setPagedOutBit (page : Nat) (pagedout : Bool) (pages : Pageblocks) : Pageblocks :=
  writePageBit (fun b i => b.setPageout i pagedout) page pages

/-! ## Handing pages out -/

/-- The inner loop of `usePage`: the first clear bit below `size`. -/
def Pageblock.firstFree (b : Pageblock) : Option Nat :=
  (List.range b.size).find? (fun a => getBit128 b.used b.used2 a == 0#64)

/--
`usePage`: the block scan, with the popcount test that skips a block believed
full. The result is NULL (`none`) or a page, with the blocks after it.
-/
def usePage : Pageblocks → Option Nat × Pageblocks
  | [] => (none, [])
  | b :: pages =>
      let ones := popcountll b.used + popcountll b.used2
      let skip := ((usePage pages).1, b :: (usePage pages).2)
      if ones < b.size then
        match b.firstFree with
        | some a => (some (u32 (b.start + smallPageSize * a)), b.setUsed a true :: pages)
        | none => skip
      else skip

/-- `for (b = 0; b < size; b++) setPageUsedBit(page+SMALL_PAGE_SIZE*b, used)` -/
def setRun (page size : Nat) (used : Bool) (pages : Pageblocks) : Pageblocks :=
  (List.range size).foldl (fun ps b => setPageUsedBit (u32 (page + smallPageSize * b)) used ps) pages

/-- The inner `free` test of `useConsecutivePages`. -/
def runFree (page size : Nat) (pages : Pageblocks) : Bool :=
  (List.range size).all (fun b => !isPageUsed (u32 (page + smallPageSize * b)) pages)

/--
`(uint32_t) page % alignment`. Dividing by 0 is undefined in C; the run-time
division of the target leaves remainder 0, and `physical_mm_self_test` calls
`useConsecutivePages(10,0)` relying on it.
-/
def pageMod (page alignment : Nat) : Nat := if alignment = 0 then 0 else page % alignment

/-- The aligned page of one block at which a free run starts, if there is one. -/
def Pageblock.runStart (pages : Pageblocks) (size alignment : Nat) (b : Pageblock) : Option Nat :=
  ((List.range b.size).map (fun a => u32 (b.start + smallPageSize * a))).find?
    (fun page => pageMod page alignment == 0 && runFree page size pages)

def useConsecutivePages (size alignment : Nat) (pages : Pageblocks) : Option Nat × Pageblocks :=
  match pages.findSome? (Pageblock.runStart pages size alignment) with
  | some page => (some page, setRun page size true pages)
  | none => (none, pages)

def freeConsecutivePages (page size : Nat) (pages : Pageblocks) : Pageblocks :=
  setRun page size false pages

end OSExt.Memory
