import OSExt.Lib.Bytes
import OSExt.Libk.Strings
import OSExt.Memory.PageOwnership

/-!
# Loading a module file

`elf.c`: a file is read into pages of its own, an image is allocated for its first
loadable segment, the words of its global offset table are fixed in the file, and the
segment is copied into the image.

The functions work on addresses, so the state is the whole memory, with the page blocks
the image comes from. Every access to memory that is not on the stack is kept.
Arithmetic is that of 32-bit registers.
-/

namespace OSExt.Elf

open Lib Memory Libk

/-! ## The file format -/

/-- `struct elf_header` -/
structure ElfHeader where
  magic : List UInt8
  wordwidth : Nat
  endianness : Nat
  elfHVersion : Nat
  abi : Nat
  type : Nat
  instructionSet : Nat
  elfVersion : Nat
  entry : Nat
  progTable : Nat
  sectTable : Nat
  headerSize : Nat
  progSize : Nat
  progCount : Nat
  sectSize : Nat
  sectCount : Nat
  sectStrtab : Nat

/-- `struct elf_prog_header` -/
structure ProgHeader where
  type : Nat
  offset : Nat
  vaddr : Nat
  paddr : Nat
  filesz : Nat
  memsz : Nat
  flags : Nat
  align : Nat
deriving DecidableEq

/-- `struct elf_sect_header` -/
structure SectHeader where
  name : Nat
  type : Nat
  flags : Nat
  addr : Nat
  offset : Nat
  size : Nat
  link : Nat
  info : Nat
  addraling : Nat
  entsize : Nat
deriving DecidableEq

/-- `struct elf_desc` -/
structure ElfDesc where
  pages : Nat
  start : Nat
  image : Nat
  imagePages : Nat
deriving DecidableEq

abbrev half (ram : Bytes) (a : Nat) : Nat := Bytes.number 4294967296 ram a 2
abbrev word (ram : Bytes) (a : Nat) : Nat := Bytes.number 4294967296 ram a 4

/-- `elf_read_header_mem`, and `elf_read_header` behind its read of the file. -/
def elfReadHeaderMem (ram : Bytes) (header : Nat) : ElfHeader where
  magic := (List.range 4).map fun i => ram (u32 (header + i))
  wordwidth := (ram (u32 (header + 4))).toNat
  endianness := (ram (u32 (header + 5))).toNat
  elfHVersion := (ram (u32 (header + 6))).toNat
  abi := (ram (u32 (header + 7))).toNat
  type := half ram (header + 0x10)
  instructionSet := half ram (header + 0x12)
  elfVersion := word ram (header + 0x14)
  entry := word ram (header + 0x18)
  progTable := word ram (header + 0x1c)
  sectTable := word ram (header + 0x20)
  headerSize := half ram (header + 0x28)
  progSize := half ram (header + 0x2a)
  progCount := half ram (header + 0x2c)
  sectSize := half ram (header + 0x2e)
  sectCount := half ram (header + 0x30)
  sectStrtab := half ram (header + 0x32)

/-- Where in the header its fields are read, and how many bytes each. -/
def headerFields : List (Nat × Nat) :=
  [(0, 4), (4, 1), (5, 1), (6, 1), (7, 1), (0x10, 2), (0x12, 2), (0x14, 4), (0x18, 4),
    (0x1c, 4), (0x20, 4), (0x28, 2), (0x2a, 2), (0x2c, 2), (0x2e, 2), (0x30, 2), (0x32, 2)]

/-- `elf_check_header` -/
def elfCheckHeader (h : ElfHeader) : Bool :=
  h.magic == [0x7f, 0x45, 0x4c, 0x46] && h.wordwidth == 1 && h.endianness == 1 &&
    h.instructionSet == 0x28

/-- `sizeof(struct elf_prog_header)` and `sizeof(struct elf_sect_header)` -/
def sizeofProgHeader : Nat := 32
def sizeofSectHeader : Nat := 40

def readProgHeader (ram : Bytes) (a : Nat) : ProgHeader where
  type := word ram a
  offset := word ram (a + 4)
  vaddr := word ram (a + 8)
  paddr := word ram (a + 12)
  filesz := word ram (a + 16)
  memsz := word ram (a + 20)
  flags := word ram (a + 24)
  align := word ram (a + 28)

def readSectHeader (ram : Bytes) (a : Nat) : SectHeader where
  name := word ram a
  type := word ram (a + 4)
  flags := word ram (a + 8)
  addr := word ram (a + 12)
  offset := word ram (a + 16)
  size := word ram (a + 20)
  link := word ram (a + 24)
  info := word ram (a + 28)
  addraling := word ram (a + 32)
  entsize := word ram (a + 36)

/-! ## Memory -/

/-- Memory and the page blocks, with the accesses so far, latest first. -/
structure Machine where
  ram : Bytes
  pages : Pageblocks
  reads : List Access
  writes : List Access

namespace Machine

/-- A read into a variable. -/
def read (m : Machine) (a n : Nat) : Machine := { m with reads := (a, n) :: m.reads }

def readAll (m : Machine) (l : List Access) : Machine := { m with reads := l ++ m.reads }

/-- `k_memset` -/
def memset (m : Machine) (a : Nat) (c : UInt8) (n : Nat) : Machine :=
  { m with ram := Bytes.fill 4294967296 m.ram a c n, writes := (a, n) :: m.writes }

/-- `k_memcpy` -/
def memcpy (m : Machine) (dst src n : Nat) : Machine where
  ram := Bytes.copy 4294967296 m.ram dst src n
  pages := m.pages
  reads := (src, n) :: m.reads
  writes := (dst, n) :: m.writes

/-- A word stored. -/
def setWord (m : Machine) (a v : Nat) : Machine :=
  { m with ram := Bytes.store 4294967296 m.ram a 4 v, writes := (a, 4) :: m.writes }

/-- The reads of a header in memory. -/
def readHeader (m : Machine) (header : Nat) : Machine :=
  m.readAll (headerFields.map fun f => (header + f.1, f.2))

/-- `nuc_fread` of a file, from its start. -/
def fread (m : Machine) (a : Nat) (file : List UInt8) : Machine :=
  { m with
    ram := fun x => if a ≤ x ∧ x < a + file.length then file.getD (x - a) 0 else m.ram x
    writes := (a, file.length) :: m.writes }

end Machine

namespace ElfDesc

/-- `elf->pages*SMALL_PAGE_SIZE` -/
def fileSize (elf : ElfDesc) : Nat := u32 (elf.pages * smallPageSize)

/-- `elf->start + (elf->pages*SMALL_PAGE_SIZE)` -/
def fileEnd (elf : ElfDesc) : Nat := u32 (elf.start + elf.fileSize)

end ElfDesc

/-! ## The functions -/

/--
`elf_load_file`, for what `kmalloc` gave for the descriptor. `nuc_fread` asks for `size`
bytes and gets as many as the file has.
-/
def elfLoadFile (desc size : Nat) (file : List UInt8) (m : Machine) : Option ElfDesc × Machine :=
  if desc = 0 then (none, m)
  else
    let pages := size / smallPageSize + 1
    let r := useConsecutivePages pages 0 m.pages
    let start := r.1.getD 0
    let m := { m with pages := r.2 }
    if start = 0 then (none, m)
    else
      (some { pages := pages, start := start, image := 0, imagePages := 0 },
        m.fread start (file.take size))

/-- `elf_entry`, NULL or an address. -/
def elfEntry (elf : ElfDesc) (m : Machine) : Nat :=
  if elf.image = 0 then 0
  else if elf.start = 0 then 0
  else
    let h := elfReadHeaderMem m.ram elf.start
    if !elfCheckHeader h then 0
    else if h.entry ≥ u32 (elf.imagePages * smallPageSize) then 0
    else u32 (elf.image + h.entry)

/--
The loop of `elf_alloc_image` and `elf_assemble_image` over `count` program headers: the
first one of type 1. Both end at a header out of bounds.
-/
def findLoad (elf : ElfDesc) (progSize : Nat) : Nat → Nat → Machine → Option ProgHeader × Machine
  | 0, _, m => (none, m)
  | count + 1, progPointer, m =>
    if progPointer < elf.start ∨ u32 (progPointer + sizeofProgHeader) ≥ elf.fileEnd then (none, m)
    else
      let progH := readProgHeader m.ram progPointer
      let m := m.read progPointer sizeofProgHeader
      if progH.type = 1 then (some progH, m)
      else findLoad elf progSize count (u32 (progPointer + progSize)) m

/-- `elf_alloc_image` -/
def elfAllocImage (elf : ElfDesc) (m : Machine) : ElfDesc × Machine :=
  if elf.start = 0 then (elf, m)
  else if elf.image ≠ 0 then (elf, m)
  else
    let h := elfReadHeaderMem m.ram elf.start
    let m := m.readHeader elf.start
    if !elfCheckHeader h then (elf, m)
    else
      let found := findLoad elf h.progSize h.progCount (u32 (elf.start + h.progTable)) m
      match found.1 with
      | none => (elf, found.2)
      | some progH =>
        let imagePages := progH.memsz / smallPageSize + 1
        let r := useConsecutivePages imagePages 0 found.2.pages
        let image := r.1.getD 0
        let m := { found.2 with pages := r.2 }
        if image = 0 then (elf, m)
        else
          ({ elf with image := image, imagePages := imagePages },
            m.memset image 0 (u32 (imagePages * smallPageSize)))

/-- `elf_assemble_image` -/
def elfAssembleImage (elf : ElfDesc) (m : Machine) : Machine :=
  if elf.start = 0 then m
  else if elf.image = 0 then m
  else
    let h := elfReadHeaderMem m.ram elf.start
    let m := m.readHeader elf.start
    if !elfCheckHeader h then m
    else
      let found := findLoad elf h.progSize h.progCount (u32 (elf.start + h.progTable)) m
      match found.1 with
      | none => found.2
      | some progH =>
        if progH.offset > elf.fileSize ∨ u32 (progH.offset + progH.filesz) > elf.fileSize then
          found.2
        else found.2.memcpy elf.image (u32 (elf.start + progH.offset)) progH.filesz

/-- `".got"` -/
def gotName : CString := ofBytes (".got".toList.map Char.toUInt8)

/-- The string at an address. -/
def stringAt (ram : Bytes) (a : Nat) : CString := fun i => ram (u32 (a + i))

/-- The test of `elf_fix_got` on the name of a section, with `maxlen` bytes left. -/
def namedGot (name : CString) (maxlen : Nat) : Bool :=
  kStrcmp name gotName (maxlen - 1) == 0 && kStrlen name (maxlen - 1) == 4

/-- What the test reads; `k_strlen` looks at one character more than it counts. -/
def namedGotReads (name : CString) (a maxlen : Nat) : List Access :=
  if kStrcmp name gotName (maxlen - 1) = 0 then
    [(a, kStrlen name (maxlen - 1) + 1), (a, kStrcmpReads name gotName (maxlen - 1))]
  else [(a, kStrcmpReads name gotName (maxlen - 1))]

/-- Where the name of a section is. -/
def nameAt (elf : ElfDesc) (strtab sect : SectHeader) : Nat :=
  u32 (elf.start + strtab.offset + sect.name)

/-- The loop of `elf_fix_got` over `count` section headers: the first one named `.got`. -/
def findGot (elf : ElfDesc) (strtab : SectHeader) (sectSize : Nat) :
    Nat → Nat → Machine → Option SectHeader × Machine
  | 0, _, m => (none, m)
  | count + 1, sectHeader, m =>
    if sectHeader < elf.start ∨ u32 (sectHeader + sizeofSectHeader) ≥ elf.fileEnd then (none, m)
    else
      let got := readSectHeader m.ram sectHeader
      let m := m.read sectHeader sizeofSectHeader
      let name := nameAt elf strtab got
      if name < elf.start ∨ name ≥ elf.fileEnd then (none, m)
      else
        let maxlen := elf.fileEnd - name
        let m := m.readAll (namedGotReads (stringAt m.ram name) name maxlen)
        if namedGot (stringAt m.ram name) maxlen then (some got, m)
        else findGot elf strtab sectSize count (u32 (sectHeader + sectSize)) m

/-- One word of the table: the image's address is added unless it is all ones. -/
def fixWord (image gotEntry : Nat) (m : Machine) : Machine :=
  if word m.ram gotEntry ≠ 0xffffffff then
    (m.read gotEntry 4).setWord gotEntry (u32 (word m.ram gotEntry + image))
  else m.read gotEntry 4

/-- The loop of `elf_fix_got` over `count` words. -/
def fixWords (image : Nat) : Nat → Nat → Machine → Machine
  | 0, _, m => m
  | count + 1, gotEntry, m => fixWords image count (u32 (gotEntry + 4)) (fixWord image gotEntry m)

/-- What `elf_fix_got` does with the section it found. -/
def fixTable (elf : ElfDesc) (got : SectHeader) (m : Machine) : Machine :=
  if got.offset ≥ elf.fileSize then m
  else if got.offset % 4 ≠ 0 then m
  else if u32 (got.offset + got.size) ≥ elf.fileSize then m
  else fixWords elf.image (got.size / 4) (u32 (elf.start + got.offset)) m

/-- `elf_fix_got` -/
def elfFixGot (elf : ElfDesc) (m : Machine) : Machine :=
  if elf.start = 0 then m
  else
    let h := elfReadHeaderMem m.ram elf.start
    let m := m.readHeader elf.start
    if !elfCheckHeader h then m
    else if h.sectCount = 0 then m
    else
      let strtabHeader := u32 (h.sectTable + h.sectStrtab * h.sectSize)
      if u32 (strtabHeader + sizeofSectHeader) > elf.fileSize then m
      else
        let strtab := readSectHeader m.ram (u32 (elf.start + strtabHeader))
        let m := m.read (u32 (elf.start + strtabHeader)) sizeofSectHeader
        if strtab.offset ≥ elf.fileSize then m
        else
          let found := findGot elf strtab h.sectSize h.sectCount (u32 (elf.start + h.sectTable)) m
          match found.1 with
          | none => found.2
          | some got => fixTable elf got found.2

end OSExt.Elf
