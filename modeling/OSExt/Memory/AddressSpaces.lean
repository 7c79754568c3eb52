import OSExt.Memory.VirtualMM

/-!
# Address spaces

The part of `virtual_MM.c` that is about more than one address space: each has a
translation table and its own two lists of sections and page tables, and the
kernel's sections are copied into all of them. The pages and objects a call takes
or gives back are not part of this state; what a request to the slab allocator
returns is an argument. A request may make caches grow, and growing maps kernel
pages, so what it does to the address spaces is an argument too.
-/

namespace OSExt.Memory

open Lib

def newSD (c b domain ap : Byte) (baseAddress : Word) : Word :=
  0b10010#32 ||| ((c &&& 0b1#8).zeroExtend 32 <<< 3) ||| ((b &&& 0b1#8).zeroExtend 32 <<< 2)
    ||| ((domain &&& 0b1111#8).zeroExtend 32 <<< 5) ||| ((ap &&& 0b11#8).zeroExtend 32 <<< 10)
    ||| (baseAddress &&& ~~~0b11111111111111111111#32)

def sectionSize : Nat := 0x100000

/-- `struct address_space` -/
structure AddressSpace where
  tt : Nat → Word
  cptds : Entries
  cpts : Entries

structure Spaces where
  /-- `kernel_space` -/
  kernel : AddressSpace
  /-- the others, by the address of their `struct address_space` -/
  space : Nat → AddressSpace
  /-- `address_spaces`: the address spaces in use -/
  addressSpaces : Entries
  /-- physical memory, a word at a time, as far as page tables are in it -/
  pageTable : Nat → Word

/-- A request to the slab allocator: the object it returns, and what happens on the way. -/
structure Request where
  object : Nat
  grow : Spaces → Spaces

/-- The requests for a page table and its two list entries. -/
structure NewTable where
  cptd : Request
  cpt : Request
  table : Request

/-- A request that no cache grows for. -/
def Request.quiet (object : Nat) : Request := { object := object, grow := id }

def NewTable.quiet (cptd cpt table : Nat) : NewTable :=
  { cptd := .quiet cptd, cpt := .quiet cpt, table := .quiet table }

/-- No request makes a cache grow. -/
structure NewTable.Quiet (new : NewTable) : Prop where
  cptd : new.cptd.grow = id
  cpt : new.cpt.grow = id
  table : new.table.grow = id

theorem NewTable.quiet_quiet (cptd cpt table : Nat) : (NewTable.quiet cptd cpt table).Quiet :=
  ⟨rfl, rfl, rfl⟩

/-- The three requests, one after the other. -/
def NewTable.grow (new : NewTable) (s : Spaces) : Spaces :=
  new.table.grow (new.cpt.grow (new.cptd.grow s))

namespace Spaces

/-! ## Tables -/

/-- `getPhysicalAddress(&kernel_space, address)` -/
def physical (s : Spaces) (address : Nat) : Word :=
  getPhysicalAddress s.kernel.tt s.pageTable (BitVec.ofNat 32 address)

/-- `table[i] = w` for a page table, by its heap address. -/
def writeTable (s : Spaces) (table i : Nat) (w : Word) : Spaces :=
  { s with pageTable := Function.update s.pageTable ((s.physical table).toNat + 4 * i) w }

/-- `k_memset(table, 0, 1024)` -/
def clearTable (s : Spaces) (table : Nat) : Spaces :=
  let base := (s.physical table).toNat
  { s with
    pageTable := fun a => if base ≤ a ∧ a < base + 1024 then 0 else s.pageTable a }

/-- `k_memcpy(table, source, n*sizeof(uint32_t))` -/
def copyTable (source : Nat → Word) (table : Nat) : Nat → Spaces → Spaces
  | 0, s => s
  | n + 1, s => (copyTable source table n s).writeTable table n (source n)

/-- `kernel_space.tt[index] = w` -/
def setKernelTt (s : Spaces) (index : Nat) (w : Word) : Spaces :=
  { s with kernel := { s.kernel with tt := Function.update s.kernel.tt index w } }

def setSpace (s : Spaces) (a : Nat) (space : AddressSpace) : Spaces :=
  { s with space := Function.update s.space a space }

/-- `space->tt[index] = w` -/
def setTt (s : Spaces) (a index : Nat) (w : Word) : Spaces :=
  s.setSpace a { s.space a with tt := Function.update (s.space a).tt index w }

/-- The list `removeLinkedListEntry` leaves: the first entry at the address `e` is gone. -/
def removeEntry (e : Nat) (list : Entries) : Entries := list.eraseP fun x => x.1 == e

/-! ## Kernel pages -/

/-- Takes two list entries and a page table, clears the table and puts all three on the kernel's
lists. -/
def addKernelCPT (sect : Nat) (new : NewTable) (s : Spaces) : Spaces :=
  let s := (new.grow s).clearTable new.table.object
  { s with kernel := { s.kernel with
      cpts := (new.cpt.object, new.table.object) :: s.kernel.cpts
      cptds := (new.cptd.object, sect) :: s.kernel.cptds } }

/-- The first half of `migrateKernelCPT`: an earlier page table of the section is given up. -/
def dropKernelCPT (sect : Nat) (s : Spaces) : Except Stop Spaces :=
  match searchLinkedListEntry s.kernel.cptds sect with
  | none => .ok s
  | some (alreadyCptd, index) =>
    match s.kernel.cpts[index]? with
    | none => .error .dataAbort
    | some alreadyCpt =>
      .ok { s with kernel := { s.kernel with
        cptds := removeEntry alreadyCptd s.kernel.cptds
        cpts := removeEntry alreadyCpt.1 s.kernel.cpts } }

/-- `migrateKernelCPT(section, migrate_cpt, pages)` -/
def migrateKernelCPT (sect : Word) (migrateCpt : Nat → Word) (pages : Nat) (new : NewTable)
    (s : Spaces) : Except Stop Spaces := do
  let pages := if pages > sectionSize / smallPageSize then sectionSize / smallPageSize else pages
  let sect := sectionOf sect.toNat
  let s ← s.dropKernelCPT sect
  let s := copyTable migrateCpt new.table.object pages (s.addKernelCPT sect new)
  pure (s.setKernelTt (sect / sectionSize) (newCPTD 0 (s.physical new.table.object)))

/-- Adds the kernel's page table of a section to all address spaces. -/
def addToAddressSpaces (index : Nat) (s : Spaces) : Spaces :=
  s.addressSpaces.foldl (fun s' next => s'.setTt next.2 index (s'.kernel.tt index)) s

/-- What `addVirtualKernelPage` does for a section without a page table. -/
def addKernelSection (sect index : Nat) (descriptor : Word) (new : NewTable) (s : Spaces) :
    Spaces :=
  let s := s.addKernelCPT sect new
  let s := s.setKernelTt (sect / sectionSize) (newCPTD 0 (s.physical new.table.object))
  let s := s.writeTable new.table.object index descriptor
  s.addToAddressSpaces (sect / sectionSize)

/-- `addVirtualKernelPage`, and `addVirtualKernelPage_noncached` with `c` and `b` 0. -/
def addKernelPage (c b : Byte) (page virtualAddress : Word) (new : NewTable) (s : Spaces) :
    Except Stop Spaces :=
  let sect := sectionOf virtualAddress.toNat
  let index := (virtualAddress.toNat - sect) / smallPageSize
  let descriptor := newSPD c b 0b01010101#8 page
  match searchLinkedListEntry s.kernel.cptds sect with
  | none => .ok (s.addKernelSection sect index descriptor new)
  | some (_, i) =>
    match s.kernel.cpts[i]? with
    | none => .error (.panicked "no corresponding coarse page table for descriptor!\n")
    | some cpt => .ok (s.writeTable cpt.2 index descriptor)

def addVirtualKernelPage : Word → Word → NewTable → Spaces → Except Stop Spaces :=
  addKernelPage 1 1

def addVirtualKernelPageNoncached : Word → Word → NewTable → Spaces → Except Stop Spaces :=
  addKernelPage 0 0

/-! ## Pages of an address space -/

/-- The requests of `addVirtualPage`; the section is listed after the first. -/
def requestPageTable (a sect : Nat) (new : NewTable) (s : Spaces) : Spaces :=
  let s := new.cptd.grow s
  let s := s.setSpace a
    { s.space a with cptds := (new.cptd.object, sect) :: (s.space a).cptds }
  new.table.grow (new.cpt.grow s)

/-- What `addVirtualPage` does for a section without a page table. -/
def addSection (a sect index : Nat) (descriptor : Word) (new : NewTable) (s : Spaces) : Spaces :=
  let s := (s.requestPageTable a sect new).clearTable new.table.object
  let s := s.setSpace a
    { s.space a with cpts := (new.cpt.object, new.table.object) :: (s.space a).cpts }
  let s := s.setTt a (sect / sectionSize) (newCPTD 0 (s.physical new.table.object))
  s.writeTable new.table.object index descriptor

/-- `addVirtualPage(space, page, virtual_address)` -/
def addVirtualPage (a : Nat) (page virtualAddress : Word) (new : NewTable) (s : Spaces) :
    Except Stop Spaces :=
  let sect := sectionOf virtualAddress.toNat
  let index := (virtualAddress.toNat - sect) / smallPageSize
  let descriptor := newSPD 1 1 0b11111111#8 page
  match searchLinkedListEntry (s.space a).cptds sect with
  | none => .ok (s.addSection a sect index descriptor new)
  | some (_, i) =>
    match (s.space a).cpts[i]? with
    | none => .error (.panicked "no corresponding coarse page table for descriptor!\n")
    | some cpt => .ok (s.writeTable cpt.2 index descriptor)

/-! ## Making and destroying address spaces -/

/-- Maps the RAM into an address space for the kernel to use. -/
def mapRAM (tt : Nat → Word) : Nat → Word :=
  (List.range 64).foldl (fun tt i =>
    Function.update tt ((0xec000000 + i * sectionSize) / sectionSize)
      (newSD 1 1 0 0b01 (BitVec.ofNat 32 (0x10000000 + i * sectionSize)))) tt

/-- The sections of the io remapping, with what they map. -/
def ioSections : List (Nat × Word) :=
  [(0xe9000000, 0x90000000#32), (0xe9000000 + sectionSize, 0xb0000000#32),
    (0xe9000000 + 2 * sectionSize, 0xc0000000#32), (0xe9000000 + 3 * sectionSize, 0xdc000000#32),
    (0xe9000000 + 4 * sectionSize, 0xc4000000#32)]

def mapIoSections (tt : Nat → Word) : Nat → Word :=
  ioSections.foldl (fun tt io =>
    Function.update tt (io.1 / sectionSize) (newSD 0 0 0 0b01 io.2)) tt

/-- Copies the entries of the kernel's sections. -/
def mapKernelSections (kernel : AddressSpace) (tt : Nat → Word) : Nat → Word :=
  kernel.cptds.foldl (fun tt cptd =>
    Function.update tt (cptd.2 / sectionSize) (kernel.tt (cptd.2 / sectionSize))) tt

end Spaces

/-- The requests of `createAddressSpace`. -/
structure NewSpace where
  space : Request
  translationTable : Request
  entry : Request

def NewSpace.quiet (space translationTable entry : Nat) : NewSpace :=
  { space := .quiet space, translationTable := .quiet translationTable, entry := .quiet entry }

namespace Spaces

/-- A new address space, before it is in `address_spaces`. -/
def fillAddressSpace (new : NewSpace) (s : Spaces) : Spaces :=
  let s := new.translationTable.grow (new.space.grow s)
  s.setSpace new.space.object
    { tt := mapKernelSections s.kernel (mapIoSections (mapRAM fun _ => 0)), cptds := [], cpts := [] }

/-- `createAddressSpace()` -/
def createAddressSpace (new : NewSpace) (s : Spaces) : Spaces :=
  let s := new.entry.grow (s.fillAddressSpace new)
  { s with addressSpaces := (new.entry.object, new.space.object) :: s.addressSpaces }

/-- `destroyAddressSpace(space)`, when it returns. -/
def destroyAddressSpace (a : Nat) (s : Spaces) : Spaces :=
  match searchLinkedListEntry s.addressSpaces a with
  | none => s
  | some (entry, _) => { s with addressSpaces := removeEntry entry s.addressSpaces }

/-! ## Runs -/

/-- A call, with what its requests give. -/
inductive Op where
  | createAddressSpace (new : NewSpace)
  | addVirtualKernelPage (page virtualAddress : Word) (new : NewTable)
  | addVirtualKernelPageNoncached (page virtualAddress : Word) (new : NewTable)
  | migrateKernelCPT (sect : Word) (migrateCpt : Nat → Word) (pages : Nat) (new : NewTable)
  | addVirtualPage (a : Nat) (page virtualAddress : Word) (new : NewTable)
  | destroyAddressSpace (a : Nat)

def Op.run (s : Spaces) : Op → Except Stop Spaces
  | .createAddressSpace new => .ok (s.createAddressSpace new)
  | .addVirtualKernelPage page va new => s.addVirtualKernelPage page va new
  | .addVirtualKernelPageNoncached page va new => s.addVirtualKernelPageNoncached page va new
  | .migrateKernelCPT sect migrateCpt pages new => s.migrateKernelCPT sect migrateCpt pages new
  | .addVirtualPage a page va new => s.addVirtualPage a page va new
  | .destroyAddressSpace a => .ok (s.destroyAddressSpace a)

/-- The states reached by calls that return, each of which meets `C` when it is made. -/
inductive Run (C : Spaces → Op → Prop) (s0 : Spaces) : Spaces → Prop where
  | start : Run C s0 s0
  | step {s s' : Spaces} (op : Op) : Run C s0 s → C s op → op.run s = .ok s' → Run C s0 s'

/-- `initializeKernelSpace` begins with no address spaces and empty lists. -/
structure Initial (s : Spaces) : Prop where
  cptds : s.kernel.cptds = []
  cpts : s.kernel.cpts = []
  addressSpaces : s.addressSpaces = []

/-- **Runs**: what every call keeps holds in every state reached. -/
theorem Run.keeps {C : Spaces → Op → Prop} {I : Spaces → Prop}
    (hstep : ∀ s op s', I s → C s op → op.run s = .ok s' → I s') {s0 s : Spaces}
    (hrun : Run C s0 s) (h0 : I s0) : I s := by
  induction hrun with
  | start => exact h0
  | step op _ hc hop ih => exact hstep _ op _ ih hc hop

/-! ## What the parts leave alone -/

section

variable (s : Spaces) (table i n a : Nat) (w : Word)

@[simp] theorem kernel_writeTable : (s.writeTable table i w).kernel = s.kernel := rfl
@[simp] theorem space_writeTable : (s.writeTable table i w).space = s.space := rfl
@[simp] theorem addressSpaces_writeTable :
    (s.writeTable table i w).addressSpaces = s.addressSpaces := rfl

@[simp] theorem kernel_clearTable : (s.clearTable table).kernel = s.kernel := rfl
@[simp] theorem space_clearTable : (s.clearTable table).space = s.space := rfl
@[simp] theorem addressSpaces_clearTable :
    (s.clearTable table).addressSpaces = s.addressSpaces := rfl

@[simp] theorem space_setKernelTt : (s.setKernelTt n w).space = s.space := rfl
@[simp] theorem addressSpaces_setKernelTt :
    (s.setKernelTt n w).addressSpaces = s.addressSpaces := rfl
@[simp] theorem pageTable_setKernelTt : (s.setKernelTt n w).pageTable = s.pageTable := rfl

@[simp] theorem kernel_setSpace (sp : AddressSpace) : (s.setSpace a sp).kernel = s.kernel := rfl
@[simp] theorem addressSpaces_setSpace (sp : AddressSpace) :
    (s.setSpace a sp).addressSpaces = s.addressSpaces := rfl
@[simp] theorem pageTable_setSpace (sp : AddressSpace) :
    (s.setSpace a sp).pageTable = s.pageTable := rfl
@[simp] theorem space_setSpace_self (sp : AddressSpace) : (s.setSpace a sp).space a = sp := by
  simp [setSpace]

theorem space_setSpace_other {a' : Nat} (sp : AddressSpace) (h : a' ≠ a) :
    (s.setSpace a sp).space a' = s.space a' := by
  simp [setSpace, h]

@[simp] theorem kernel_setTt : (s.setTt a n w).kernel = s.kernel := rfl
@[simp] theorem addressSpaces_setTt : (s.setTt a n w).addressSpaces = s.addressSpaces := rfl
@[simp] theorem pageTable_setTt : (s.setTt a n w).pageTable = s.pageTable := rfl

/-- Copying a table writes page tables only. -/
theorem copyTable_eq (source : Nat → Word) :
    ∃ pageTable, copyTable source table n s = { s with pageTable := pageTable } := by
  induction n with
  | zero => exact ⟨s.pageTable, rfl⟩
  | succ n ih =>
      obtain ⟨pageTable, h⟩ := ih
      rw [copyTable, h]
      exact ⟨_, rfl⟩

end

theorem removeEntry_sublist (e : Nat) (list : Entries) : (removeEntry e list).Sublist list :=
  List.eraseP_sublist

/-- The model of the whole kernel leaves the same list. -/
theorem removeLinkedListEntry_eq (e : Nat) (mem : Nat → Byte) (list : Entries) :
    (removeLinkedListEntry e mem list).2 = removeEntry e list := by
  induction list with
  | nil => rfl
  | cons x rest ih =>
      unfold removeEntry at ih ⊢
      cases rest with
      | nil =>
          rw [removeLinkedListEntry]
          by_cases hx : x.1 = e
          · simp [hx]
          · simp [hx]
      | cons y rest =>
          rw [removeLinkedListEntry]
          by_cases hx : x.1 = e
          · simp [hx]
          · rw [if_neg hx]
            by_cases hy : y.1 = e
            · simp [hx, hy]
            · rw [if_neg hy]
              show x :: (removeLinkedListEntry e mem (y :: rest)).2 = _
              rw [ih]
              simp [hx]

/-- An entry is found where its data is. -/
theorem searchLinkedListEntry_none {list : Entries} {data : Nat} :
    searchLinkedListEntry list data = none ↔ data ∉ list.map Prod.snd := by
  unfold searchLinkedListEntry
  cases h : list.findIdx? (fun e => e.2 == data) with
  | none =>
      rw [List.findIdx?_eq_none_iff] at h
      simp only [true_iff]
      intro hmem
      obtain ⟨e, he, rfl⟩ := List.mem_map.mp hmem
      simpa using h e he
  | some i =>
      obtain ⟨hi, hdata, _⟩ := List.findIdx?_eq_some_iff_getElem.mp h
      simp only [List.getElem?_eq_getElem hi, Option.map_some, reduceCtorEq, false_iff, not_not]
      exact List.mem_map.mpr ⟨_, List.getElem_mem hi, by simpa using hdata⟩

theorem searchLinkedListEntry_some {list : Entries} {data e i : Nat}
    (h : searchLinkedListEntry list data = some (e, i)) : list[i]? = some (e, data) := by
  unfold searchLinkedListEntry at h
  cases hfind : list.findIdx? (fun e => e.2 == data) with
  | none => simp [hfind] at h
  | some j =>
      obtain ⟨hj, hdata, _⟩ := List.findIdx?_eq_some_iff_getElem.mp hfind
      simp only [hfind, List.getElem?_eq_getElem hj, Option.map_some, Option.some.injEq,
        Prod.mk.injEq] at h
      obtain ⟨he, rfl⟩ := h
      rw [List.getElem?_eq_getElem hj, ← he, ← show _ = data by simpa using hdata]

/-! ## Sections -/

theorem sectionOf_mod (address : Nat) : sectionOf address % sectionSize = 0 := by
  unfold sectionOf sectionSize
  omega

theorem sectionOf_div (address : Nat) : sectionOf address / sectionSize = address / sectionSize := by
  unfold sectionOf sectionSize
  omega

/-- Sections with the same entry in a translation table are the same. -/
theorem section_eq_of_div {x y : Nat} (hx : x % sectionSize = 0) (hy : y % sectionSize = 0)
    (h : x / sectionSize = y / sectionSize) : x = y := by
  unfold sectionSize at hx hy h
  omega

/-! ## The calls, case by case -/

section

variable {s s' : Spaces} {page va : Word} {new : NewTable}

/-- **`addKernelPage`** writes into a listed page table or adds a section. -/
theorem addKernelPage_cases {c b : Byte} (hop : s.addKernelPage c b page va new = .ok s') :
    (∃ (i cptd : Nat) (cpt : Nat × Nat), s.kernel.cptds[i]? = some (cptd, sectionOf va.toNat) ∧
      s.kernel.cpts[i]? = some cpt ∧
      s' = s.writeTable cpt.2 ((va.toNat - sectionOf va.toNat) / smallPageSize)
        (newSPD c b 0b01010101#8 page)) ∨
    (sectionOf va.toNat ∉ s.kernel.cptds.map Prod.snd ∧
      s' = s.addKernelSection (sectionOf va.toNat)
        ((va.toNat - sectionOf va.toNat) / smallPageSize) (newSPD c b 0b01010101#8 page) new) := by
  unfold addKernelPage at hop
  cases hsearch : searchLinkedListEntry s.kernel.cptds (sectionOf va.toNat) with
  | none =>
      simp only [hsearch, Except.ok.injEq] at hop
      exact .inr ⟨searchLinkedListEntry_none.mp hsearch, hop.symm⟩
  | some found =>
      obtain ⟨cptd, i⟩ := found
      cases hcpt : s.kernel.cpts[i]? with
      | none => simp [hsearch, hcpt] at hop
      | some cpt =>
          simp only [hsearch, hcpt, Except.ok.injEq] at hop
          exact .inl ⟨i, cptd, cpt, searchLinkedListEntry_some hsearch, hcpt, hop.symm⟩

/-- **`addVirtualPage`**, the same for the lists of an address space. -/
theorem addVirtualPage_cases {a : Nat} (hop : s.addVirtualPage a page va new = .ok s') :
    (∃ (i cptd : Nat) (cpt : Nat × Nat), (s.space a).cptds[i]? = some (cptd, sectionOf va.toNat) ∧
      (s.space a).cpts[i]? = some cpt ∧
      s' = s.writeTable cpt.2 ((va.toNat - sectionOf va.toNat) / smallPageSize)
        (newSPD 1 1 0b11111111#8 page)) ∨
    (sectionOf va.toNat ∉ (s.space a).cptds.map Prod.snd ∧
      s' = s.addSection a (sectionOf va.toNat)
        ((va.toNat - sectionOf va.toNat) / smallPageSize) (newSPD 1 1 0b11111111#8 page) new) := by
  unfold addVirtualPage at hop
  cases hsearch : searchLinkedListEntry (s.space a).cptds (sectionOf va.toNat) with
  | none =>
      simp only [hsearch, Except.ok.injEq] at hop
      exact .inr ⟨searchLinkedListEntry_none.mp hsearch, hop.symm⟩
  | some found =>
      obtain ⟨cptd, i⟩ := found
      cases hcpt : (s.space a).cpts[i]? with
      | none => simp [hsearch, hcpt] at hop
      | some cpt =>
          simp only [hsearch, hcpt, Except.ok.injEq] at hop
          exact .inl ⟨i, cptd, cpt, searchLinkedListEntry_some hsearch, hcpt, hop.symm⟩

/-- `dropKernelCPT` takes the section and its table off the lists, if they are there. -/
theorem dropKernelCPT_cases {sect : Nat} (hop : s.dropKernelCPT sect = .ok s') :
    (sect ∉ s.kernel.cptds.map Prod.snd ∧ s' = s) ∨
    ∃ (i cptd : Nat) (cpt : Nat × Nat), s.kernel.cptds[i]? = some (cptd, sect) ∧ s.kernel.cpts[i]? = some cpt ∧
      s' = { s with kernel := { s.kernel with
        cptds := removeEntry cptd s.kernel.cptds, cpts := removeEntry cpt.1 s.kernel.cpts } } := by
  unfold dropKernelCPT at hop
  cases hsearch : searchLinkedListEntry s.kernel.cptds sect with
  | none =>
      simp only [hsearch, Except.ok.injEq] at hop
      exact .inl ⟨searchLinkedListEntry_none.mp hsearch, hop.symm⟩
  | some found =>
      obtain ⟨cptd, i⟩ := found
      cases hcpt : s.kernel.cpts[i]? with
      | none => simp [hsearch, hcpt] at hop
      | some cpt =>
          simp only [hsearch, hcpt, Except.ok.injEq] at hop
          exact .inr ⟨i, cptd, cpt, searchLinkedListEntry_some hsearch, hcpt, hop.symm⟩

/-- What `migrateKernelCPT` does once the section is on no list. -/
def addMigrated (sect : Nat) (migrateCpt : Nat → Word) (pages : Nat) (new : NewTable)
    (s : Spaces) : Spaces :=
  let s := copyTable migrateCpt new.table.object pages (s.addKernelCPT sect new)
  s.setKernelTt (sect / sectionSize) (newCPTD 0 (s.physical new.table.object))

/-- **`migrateKernelCPT`** after an earlier table of the section is given up. -/
theorem migrateKernelCPT_eq (sect : Word) (migrateCpt : Nat → Word) (pages : Nat) :
    s.migrateKernelCPT sect migrateCpt pages new = (s.dropKernelCPT (sectionOf sect.toNat)).map
      (addMigrated (sectionOf sect.toNat) migrateCpt (min pages 256) new) := by
  have hpages : (if pages > sectionSize / smallPageSize then sectionSize / smallPageSize
      else pages) = min pages 256 := by
    rw [show sectionSize / smallPageSize = 256 by decide]
    split <;> omega
  simp only [migrateKernelCPT, hpages]
  cases s.dropKernelCPT (sectionOf sect.toNat) with
  | error e => rfl
  | ok s1 => rfl

theorem migrateKernelCPT_cases {sect : Word} {migrateCpt : Nat → Word} {pages : Nat}
    (hop : s.migrateKernelCPT sect migrateCpt pages new = .ok s') :
    ∃ s1, s.dropKernelCPT (sectionOf sect.toNat) = .ok s1 ∧
      s' = s1.addMigrated (sectionOf sect.toNat) migrateCpt (min pages 256) new := by
  rw [migrateKernelCPT_eq] at hop
  cases hdrop : s.dropKernelCPT (sectionOf sect.toNat) with
  | error e => simp [hdrop, Except.map] at hop
  | ok s1 =>
      rw [hdrop] at hop
      exact ⟨s1, rfl, (Except.ok.inj hop).symm⟩

theorem migrateKernelCPT_unlisted {sect : Word} (migrateCpt : Nat → Word) (pages : Nat)
    (h : sectionOf sect.toNat ∉ s.kernel.cptds.map Prod.snd) :
    s.migrateKernelCPT sect migrateCpt pages new =
      .ok (s.addMigrated (sectionOf sect.toNat) migrateCpt (min pages 256) new) := by
  rw [migrateKernelCPT_eq, dropKernelCPT, searchLinkedListEntry_none.mpr h]
  rfl

end

/-! ## Adding a page table to all address spaces -/

/-- `s'` is `s` with the kernel's entry at `index` in the address spaces of `list`. -/
structure Added (index : Nat) (list : Entries) (s s' : Spaces) : Prop where
  kernel : s'.kernel = s.kernel
  addressSpaces : s'.addressSpaces = s.addressSpaces
  pageTable : s'.pageTable = s.pageTable
  cptds : ∀ a, (s'.space a).cptds = (s.space a).cptds
  cpts : ∀ a, (s'.space a).cpts = (s.space a).cpts
  tt : ∀ a n, (s'.space a).tt n =
    if n = index ∧ a ∈ list.map Prod.snd then s.kernel.tt index else (s.space a).tt n

theorem added_setTt (s : Spaces) (index : Nat) (e : Nat × Nat) :
    Added index [e] s (s.setTt e.2 index (s.kernel.tt index)) := by
  refine ⟨rfl, rfl, rfl, ?_, ?_, ?_⟩
  · intro a
    by_cases ha : a = e.2
    · subst ha
      simp [setTt]
    · rw [setTt, space_setSpace_other _ _ _ ha]
  · intro a
    by_cases ha : a = e.2
    · subst ha
      simp [setTt]
    · rw [setTt, space_setSpace_other _ _ _ ha]
  · intro a n
    by_cases ha : a = e.2
    · subst ha
      by_cases hn : n = index
      · simp [setTt, hn]
      · simp [setTt, hn]
    · rw [setTt, space_setSpace_other _ _ _ ha]
      simp [ha]

/-- The loop over `address_spaces`: one address space after the other. -/
theorem added_foldl (index : Nat) (list : Entries) (s : Spaces) :
    Added index list s
      (list.foldl (fun s' next => s'.setTt next.2 index (s'.kernel.tt index)) s) := by
  induction list generalizing s with
  | nil => exact ⟨rfl, rfl, rfl, fun _ => rfl, fun _ => rfl, fun a n => by simp⟩
  | cons e rest ih =>
      have h1 := added_setTt s index e
      have h2 := ih (s.setTt e.2 index (s.kernel.tt index))
      rw [List.foldl_cons]
      refine ⟨h2.kernel.trans h1.kernel, h2.addressSpaces.trans h1.addressSpaces,
        h2.pageTable.trans h1.pageTable, fun a => (h2.cptds a).trans (h1.cptds a),
        fun a => (h2.cpts a).trans (h1.cpts a), fun a n => ?_⟩
      rw [h2.tt, h1.tt, h1.kernel]
      by_cases hn : n = index
      · subst hn
        by_cases ha : a = e.2
        · simp [ha]
        · simp only [List.map_cons, List.map_nil, List.mem_cons, List.not_mem_nil, ha, false_or,
            and_false, if_false]
      · simp [hn]

theorem added_addToAddressSpaces (index : Nat) (s : Spaces) :
    Added index s.addressSpaces s (s.addToAddressSpaces index) :=
  added_foldl index s.addressSpaces s

/-- What `addKernelSection` makes of the state `s` its requests leave. -/
structure KernelSectionAdded (sect index : Nat) (descriptor : Word) (new : NewTable)
    (s s' : Spaces) : Prop where
  kernel : s'.kernel =
    { tt := Function.update s.kernel.tt (sect / sectionSize)
        (newCPTD 0 ((s.clearTable new.table.object).physical new.table.object))
      cptds := (new.cptd.object, sect) :: s.kernel.cptds
      cpts := (new.cpt.object, new.table.object) :: s.kernel.cpts }
  addressSpaces : s'.addressSpaces = s.addressSpaces
  cptds : ∀ a, (s'.space a).cptds = (s.space a).cptds
  cpts : ∀ a, (s'.space a).cpts = (s.space a).cpts
  tt : ∀ a n, (s'.space a).tt n =
    if n = sect / sectionSize ∧ a ∈ s.addressSpaces.map Prod.snd then s'.kernel.tt n
    else (s.space a).tt n
  pageTable : s'.pageTable =
    (((s.clearTable new.table.object).setKernelTt (sect / sectionSize)
      (newCPTD 0 ((s.clearTable new.table.object).physical new.table.object))).writeTable
        new.table.object index descriptor).pageTable

theorem addKernelSection_spec (sect index : Nat) (descriptor : Word) (new : NewTable)
    (s : Spaces) : KernelSectionAdded sect index descriptor new (new.grow s)
      (s.addKernelSection sect index descriptor new) := by
  have h := added_addToAddressSpaces (sect / sectionSize)
    (((s.addKernelCPT sect new).setKernelTt (sect / sectionSize)
      (newCPTD 0 ((s.addKernelCPT sect new).physical new.table.object))).writeTable
        new.table.object index descriptor)
  refine ⟨h.kernel, h.addressSpaces, h.cptds, h.cpts, fun a n => (h.tt a n).trans ?_, h.pageTable⟩
  by_cases hn : n = sect / sectionSize
  · subst hn
    exact if_congr Iff.rfl (congrFun (congrArg AddressSpace.tt h.kernel) _).symm rfl
  · rw [if_neg (fun hc => hn hc.1), if_neg (fun hc => hn hc.1)]
    rfl

/-- What is copied depends on the kernel's table and the memory only. -/
theorem copyTable_congr (source : Nat → Word) (table n : Nat) {s s' : Spaces}
    (htt : s.kernel.tt = s'.kernel.tt) (hpage : s.pageTable = s'.pageTable) :
    (copyTable source table n s).pageTable = (copyTable source table n s').pageTable := by
  induction n with
  | zero => exact hpage
  | succ n ih =>
      obtain ⟨p, hp⟩ := copyTable_eq s table n source
      obtain ⟨p', hp'⟩ := copyTable_eq s' table n source
      rw [hp, hp'] at ih
      obtain rfl : p = p' := ih
      rw [copyTable, copyTable, hp, hp']
      simp only [writeTable, physical, htt]

/-- What `addMigrated` makes of the state `s` its requests leave. -/
structure Migrated (sect : Nat) (migrateCpt : Nat → Word) (pages : Nat) (new : NewTable)
    (s s' : Spaces) : Prop where
  kernel : s'.kernel =
    { tt := Function.update s.kernel.tt (sect / sectionSize) (newCPTD 0
        ((copyTable migrateCpt new.table.object pages
          (s.clearTable new.table.object)).physical new.table.object))
      cptds := (new.cptd.object, sect) :: s.kernel.cptds
      cpts := (new.cpt.object, new.table.object) :: s.kernel.cpts }
  addressSpaces : s'.addressSpaces = s.addressSpaces
  space : s'.space = s.space
  pageTable : s'.pageTable =
    (copyTable migrateCpt new.table.object pages (s.clearTable new.table.object)).pageTable

theorem addMigrated_spec (sect : Nat) (migrateCpt : Nat → Word) (pages : Nat) (new : NewTable)
    (s : Spaces) : Migrated sect migrateCpt pages new (new.grow s)
      (s.addMigrated sect migrateCpt pages new) := by
  have hcongr := copyTable_congr migrateCpt new.table.object pages
    (show (s.addKernelCPT sect new).kernel.tt = ((new.grow s).clearTable new.table.object).kernel.tt
      from rfl) rfl
  obtain ⟨p, hp⟩ := copyTable_eq (s.addKernelCPT sect new) new.table.object pages migrateCpt
  obtain ⟨p', hp'⟩ := copyTable_eq ((new.grow s).clearTable new.table.object) new.table.object
    pages migrateCpt
  rw [hp, hp'] at hcongr
  obtain rfl : p = p' := hcongr
  refine ⟨?_, ?_, ?_, ?_⟩
  · simp only [addMigrated, hp, hp']
    rfl
  · simp only [addMigrated, hp]
    rfl
  · simp only [addMigrated, hp]
    rfl
  · simp only [addMigrated, hp, hp']
    rfl

/-- What `addSection` makes of the state `s` its requests leave. -/
structure SectionAdded (a sect index : Nat) (descriptor : Word) (new : NewTable)
    (s s' : Spaces) : Prop where
  kernel : s'.kernel = s.kernel
  addressSpaces : s'.addressSpaces = s.addressSpaces
  space : s'.space a =
    { tt := Function.update (s.space a).tt (sect / sectionSize)
        (newCPTD 0 ((s.clearTable new.table.object).physical new.table.object))
      cptds := (s.space a).cptds
      cpts := (new.cpt.object, new.table.object) :: (s.space a).cpts }
  others : ∀ a', a' ≠ a → s'.space a' = s.space a'
  pageTable : s'.pageTable =
    ((s.clearTable new.table.object).writeTable new.table.object index descriptor).pageTable

theorem addSection_spec (a sect index : Nat) (descriptor : Word) (new : NewTable) (s : Spaces) :
    SectionAdded a sect index descriptor new (s.requestPageTable a sect new)
      (s.addSection a sect index descriptor new) := by
  refine ⟨rfl, rfl, ?_, ?_, rfl⟩
  · rw [addSection, space_writeTable, setTt, space_setSpace_self, space_setSpace_self]
    rfl
  · intro a' ha
    rw [addSection, space_writeTable, setTt, space_setSpace_other _ _ _ ha,
      space_setSpace_other _ _ _ ha]
    rfl

/-! ## The kernel heap when the slab allocator starts -/

/-- The temporary page table: the four heap pages of the first caches. -/
def heapPds (i : Nat) : Word :=
  if i < 4 then newSPD 1 1 0b01010101#8 (BitVec.ofNat 32 (0x13000000 + i * smallPageSize)) else 0

/-- `kernel_space` when `initSlabAllocator` migrates the heap's section: the lists are empty, and
the section's entry is the temporary page table at `0x12345400`. -/
def heapStarted : Spaces where
  kernel :=
    { tt := Function.update (fun _ => 0) 0xe40 (newCPTD 0 0x12345400#32), cptds := [], cpts := [] }
  space := fun _ => { tt := fun _ => 0, cptds := [], cpts := [] }
  addressSpaces := []
  pageTable := fun a => if 0x12345400 ≤ a then heapPds ((a - 0x12345400) / 4) else 0

theorem initial_heapStarted : heapStarted.Initial := ⟨rfl, rfl, rfl⟩

/-- The heap's section after the migration: its table is the first object of the fourth page. -/
def heapMigrated : Spaces :=
  heapStarted.addMigrated 0xe4000000 heapPds 4 (.quiet 0xe400205c 0xe4002064 0xe4003000)

theorem heapStarted_migrate : Op.run heapStarted (.migrateKernelCPT 0xe4000000#32 heapPds 4
    (.quiet 0xe400205c 0xe4002064 0xe4003000)) = .ok heapMigrated :=
  migrateKernelCPT_unlisted heapPds 4 (List.not_mem_nil)

end Spaces

end OSExt.Memory
