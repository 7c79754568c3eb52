import OSExt.Elf.Loading
import OSExt.Lib.Call
import OSExt.Lib.Rebase

/-!
# The loader

`zehn_load`: a Zehn file is read or decompressed into a block of memory, its flags are held
against the calculator and the version of Ndless, and its relocations are done in the block.

The layout of the file is fixed elsewhere and is a parameter, and so are the decompression
and what `malloc` returns. Of what is printed only the text of an error is kept.
-/

namespace OSExt.Boot

open Lib Memory Elf

/-! ## The file -/

/-- `Zehn_reloc_type`, as far as it is known to the loader -/
inductive ZehnRelocType where
  | fileCompressed
  | unalignedReloc
  | addBase
  | addBaseGot
  | setZero
  | other (n : Nat)
deriving DecidableEq

/-- `Zehn_reloc` -/
structure ZehnReloc where
  type : ZehnRelocType
  offset : Nat

/-- `Zehn_flag_type` -/
inductive ZehnFlagType where
  | executableName
  | executableNotice
  | executableAuthor
  | executableVersion
  | ndlessVersionMin
  | ndlessRevisionMin
  | ndlessVersionMax
  | ndlessRevisionMax
  | runsOnColor
  | runsOnClickpad
  | runsOnTouchpad
  | runsOn32mb
  | runsOnHww
  | other (n : Nat)
deriving DecidableEq

/-- `Zehn_flag` -/
structure ZehnFlag where
  type : ZehnFlagType
  data : Nat

/-- `Zehn_header` -/
structure ZehnHeader where
  signature : Nat
  version : Nat
  fileSize : Nat
  allocSize : Nat
  entryOffset : Nat
  relocCount : Nat
  flagCount : Nat
  extraSize : Nat

/-- The constants of the format: `ZEHN_SIGNATURE`, `ZEHN_VERSION`, the sizes of the records and
`Zehn_compress_type::ZLIB`. -/
structure ZehnFormat where
  signature : Nat
  version : Nat
  sizeofHeader : Nat
  sizeofReloc : Nat
  sizeofFlag : Nat
  zlib : Nat

/-- What `nuc_fread` gets of the parts of a file, the last of them the rest of the file. -/
structure ZehnFile where
  header : Option ZehnHeader
  relocs : List ZehnReloc
  flags : List ZehnFlag
  extra : List UInt8
  body : List UInt8

/-! ## The outside -/

/-- `has_colors`, `is_cm` and `is_touchpad` -/
structure Calculator where
  hasColors : Bool
  isCm : Bool
  isTouchpad : Bool

/-- What `malloc` returns in the order of the calls, 0 for NULL, and what the memory has that
nothing was read into. -/
structure LoadAnswers where
  relocs : Nat
  flags : Nat
  extra : Nat
  mem : Nat
  compressed : Nat
  /-- `relocs.data[0]` of a table without relocations -/
  noReloc : ZehnReloc
  /-- the bytes behind the extra data -/
  behind : Bytes
  /-- `uncompress`, for the length of the destination -/
  uncompress : List UInt8 → Nat → Option (List UInt8)

/-- Why `zehn_load` does not load. -/
inductive ZehnStop where
  /-- it returns the code, after the text -/
  | returned (code : Nat) (text : String)
  | nullAccess
  | outOfFuel
deriving DecidableEq

/-- What `zehn_load` gives back: `*mem_ptr`, `*entry` and `*supports_hww`. -/
structure ZehnLoaded where
  mem : Nat
  entry : Nat
  supportsHww : Bool

/-! ## Flags -/

/-- `zehn_check_string`, from `ptr` on -/
def zehnCheckString (extraData : Bytes) : Nat → Nat → Bool
  | 0, ptr => extraData ptr == 0
  | maxLength + 1, ptr => extraData ptr == 0 || zehnCheckString extraData maxLength (ptr + 1)

def uintMax : Nat := 4294967295

/-- The variables the flags are read into, as far as something depends on them. -/
structure ZehnInfo where
  ndlessVersionMin : Nat
  ndlessVersionMax : Nat
  ndlessRevisionMin : Nat
  ndlessRevisionMax : Nat
  supportsHww : Bool

def ZehnInfo.start (supportsHww : Bool) : ZehnInfo where
  ndlessVersionMin := 0
  ndlessVersionMax := uintMax
  ndlessRevisionMin := 0
  ndlessRevisionMax := uintMax
  supportsHww := supportsHww

/-- One round of the loop over the flags. -/
def zehnFlag (c : Calculator) (extraData : Bytes) (info : ZehnInfo) (f : ZehnFlag) :
    Except ZehnStop ZehnInfo :=
  match f.type with
  | .executableName =>
    if !zehnCheckString extraData 255 f.data then
      .error (.returned 1 "[Zehn] Invalid application name!")
    else .ok info
  | .ndlessVersionMin => .ok { info with ndlessVersionMin := f.data }
  | .ndlessRevisionMin => .ok { info with ndlessRevisionMin := f.data }
  | .ndlessVersionMax => .ok { info with ndlessVersionMax := f.data }
  | .ndlessRevisionMax => .ok { info with ndlessRevisionMax := f.data }
  | .runsOnColor =>
    if f.data = 0 ∧ c.hasColors then
      .error (.returned 2 "The application %s doesn't support CX and CM calculators!")
    else .ok info
  | .runsOnClickpad =>
    if f.data = 0 ∧ !c.isTouchpad then
      .error (.returned 2 "The application %s doesn't support clickpads!")
    else .ok info
  | .runsOnTouchpad =>
    if f.data = 0 ∧ c.isTouchpad then
      .error (.returned 2 "The application %s doesn't support touchpads!")
    else .ok info
  | .runsOn32mb =>
    if f.data = 0 ∧ (!c.hasColors ∨ c.isCm) then
      .error (.returned 2 "The application %s requires more than 32MB of RAM!")
    else .ok info
  | .runsOnHww => .ok { info with supportsHww := decide (f.data ≠ 0) }
  -- the notice, the author and the version of the application are used nowhere
  | .executableNotice | .executableAuthor | .executableVersion | .other _ => .ok info

def zehnFlags (c : Calculator) (extraData : Bytes) :
    ZehnInfo → List ZehnFlag → Except ZehnStop ZehnInfo
  | info, [] => .ok info
  | info, f :: fs =>
    match zehnFlag c extraData info f with
    | .error e => .error e
    | .ok info => zehnFlags c extraData info fs

/-- `NDLESS_VERSION` and `NDLESS_REVISION` -/
def ndlessVersion : Nat := 45
def ndlessRevision : Nat := 2014

/-- The two tests of the version of Ndless. -/
def checkNdless (info : ZehnInfo) : Option ZehnStop :=
  if ndlessVersion < info.ndlessVersionMin ∨
      (ndlessVersion = info.ndlessVersionMin ∧ ndlessRevision < info.ndlessRevisionMin) then
    some (.returned 2 "The application %s requires at least ndless %d.%d.%d!")
  else if ndlessVersion > info.ndlessVersionMax ∨
      (ndlessVersion = info.ndlessVersionMax ∧ ndlessRevision > info.ndlessRevisionMax) then
    if info.ndlessRevisionMax ≠ uintMax then
      some (.returned 2 "The application %s requires ndless %d.%d.%d or older!")
    else some (.returned 2 "The application %s requires ndless %d.%d or older!")
  else none

/-! ## Relocations -/

/-- One round of the loop over the relocations. -/
def zehnReloc (fuel base remainingMem : Nat) (r : ZehnReloc) : Call Bytes ZehnStop Unit :=
  if r.offset ≥ remainingMem then stop (.returned 1 "[Zehn] Wrong reloc in Zehn file!")
  else
    let place := u32 (base + r.offset)
    match r.type with
    | .fileCompressed => pure ()
    | .unalignedReloc =>
      if r.offset ≠ 0 then stop (.returned 1 "[Zehn] Unexpected UNALIGNED_RELOC value %lu!\n")
      else pure ()
    | .addBase => update fun ram => Bytes.editAt 4294967296 4 ram (place, (· + base))
    | .addBaseGot => do
      let fixed ← gets (Bytes.addUntil 4294967296 4 base 0xFFFFFFFF fuel place)
      match fixed with
      | none => stop .outOfFuel
      | some ram => update fun _ => ram
    | .setZero => update fun ram => Bytes.editAt 4294967296 4 ram (place, fun _ => 0)
    | .other _ => stop (.returned 1 "[Zehn] Unsupported reloc %d!\n")

def zehnRelocs (fuel base remainingMem : Nat) : List ZehnReloc → Call Bytes ZehnStop Unit
  | [] => pure ()
  | r :: rs => do
    zehnReloc fuel base remainingMem r
    zehnRelocs fuel base remainingMem rs

/-! ## Loading -/

namespace ZehnFormat

variable (fmt : ZehnFormat) (h : ZehnHeader)

/-- `nuc_ftell(file) - file_start`, with the tables read -/
def consumed : Nat :=
  fmt.sizeofHeader + fmt.sizeofReloc * h.relocCount + fmt.sizeofFlag * h.flagCount + h.extraSize

/-- What is left of a size behind the tables. -/
def remaining (size : Nat) : Nat := u32 (size + (4294967296 - u32 (fmt.consumed h)))

/-- `remaining_mem` and `remaining_file` -/
def remainingMem : Nat := fmt.remaining h h.allocSize
def remainingFile : Nat := fmt.remaining h h.fileSize

end ZehnFormat

/-- A table that is to be read into memory that there is none of. -/
def nullStorage (file : ZehnFile) (ans : LoadAnswers) : Bool :=
  (ans.relocs == 0 && !file.relocs.isEmpty) || (ans.flags == 0 && !file.flags.isEmpty) ||
    (ans.extra == 0 && !file.extra.isEmpty)

/-- `extra_data.data`, and on -/
def extraData (file : ZehnFile) (ans : LoadAnswers) : Bytes := fun x =>
  if x < file.extra.length then file.extra.getD x 0 else ans.behind x

/-- `nuc_fread(..., size, 1, file)` of the rest of the file -/
def readBody (file : ZehnFile) (size : Nat) : Except ZehnStop (List UInt8) :=
  if size = 0 ∨ file.body.length < size then .error (.returned 1 "[Zehn] File read failed!")
  else .ok (file.body.take size)

/-- The bytes that the block starts with. -/
def zehnContents (fmt : ZehnFormat) (h : ZehnHeader) (file : ZehnFile) (ans : LoadAnswers) :
    Except ZehnStop (List UInt8) :=
  let first := file.relocs.headD ans.noReloc
  if first.type = .fileCompressed then
    if first.offset ≠ fmt.zlib then
      .error (.returned 1 "[Zehn] Compression format not supported!")
    else if ans.compressed = 0 ∧ fmt.remainingFile h ≠ 0 then .error .nullAccess
    else
      match readBody file (fmt.remainingFile h) with
      | .error e => .error e
      | .ok compressed =>
        match ans.uncompress compressed (fmt.remainingMem h) with
        | none => .error (.returned 1 "[Zehn] Decompression failed!")
        | some bytes => .ok bytes
  else readBody file (fmt.remainingFile h)

/-- The block with its contents, and zeros behind them. -/
def fillBlock (base remainingMem : Nat) (contents : List UInt8) (ram : Bytes) : Bytes := fun x =>
  if base ≤ x ∧ x < base + remainingMem then contents.getD (x - base) 0 else ram x

/-- `zehn_load` -/
def zehnLoad (fmt : ZehnFormat) (c : Calculator) (fuel : Nat) (file : ZehnFile)
    (ans : LoadAnswers) (supportsHww : Bool) : Call Bytes ZehnStop ZehnLoaded :=
  match file.header with
  | none => stop (.returned 1 "")
  | some h =>
    if h.signature ≠ fmt.signature ∨ h.version ≠ fmt.version ∨ h.fileSize > h.allocSize then
      stop (.returned 1 "[Zehn] This Zehn file is not supported!")
    else if nullStorage file ans then stop .nullAccess
    else if file.relocs.length ≠ h.relocCount ∨ file.flags.length ≠ h.flagCount ∨
        file.extra.length ≠ h.extraSize then
      stop (.returned 1 "[Zehn] File read failed!")
    else if ans.mem = 0 then stop (.returned 1 "[Zehn] Memory allocation failed!")
    else
      match zehnContents fmt h file ans with
      | .error e => stop e
      | .ok contents => do
        update (fillBlock ans.mem (fmt.remainingMem h) contents)
        match zehnFlags c (extraData file ans) (.start supportsHww) file.flags with
        | .error e => stop e
        | .ok info =>
          match checkNdless info with
          | some e => stop e
          | none => do
            zehnRelocs fuel ans.mem (fmt.remainingMem h) file.relocs
            pure {
              mem := ans.mem
              entry := u32 (ans.mem + h.entryOffset)
              supportsHww := info.supportsHww }

end OSExt.Boot
