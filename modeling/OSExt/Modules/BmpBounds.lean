import OSExt.Lib.Buffers
import OSExt.Modules.Bmp

/-!
# What loading and drawing a background touches

`load_bmp_file` once more, with what it claims and gives back and with every address it
reads or writes; what the allocators answer is a parameter. The width and height in the file
are 32 bits wide and bound the loops, an image keeps 16 of each, and the product that its
data is allocated by is an `int`. The address of pages is moved into the remapped RAM before
it is tested. `background_draw_image` goes over the screen, however small the image is.
-/

namespace OSExt.Modules

open Lib Memory Elf

/-! ## Images -/

/-- What is claimed and given back: pages of `useConsecutivePages`, objects of `kmalloc`. -/
inductive Claim where
  | pages (address : Word) (count : Nat)
  | object (address : Word)
deriving DecidableEq

/-- `struct img565` -/
structure ImgStruct where
  width : BitVec 16
  height : BitVec 16
  data : Word
deriving DecidableEq

/-- What the allocators answer, NULL or an address: for the pages of the file, for the
structure of the image and for its pixels. -/
structure Outcomes where
  restFile : Word
  img : Word
  pixels : Word

/-- `width*height*2`, an `int`. -/
def imgBytes (width height : BitVec 16) : Nat := u32 (width.toNat * height.toNat * 2)

/-- The bytes of an image are more than 1024 as an `int`: it takes pages. -/
def Paged (bytes : Nat) : Prop := 1024 < bytes ∧ bytes < 2 ^ 31

instance (bytes : Nat) : Decidable (Paged bytes) := inferInstanceAs (Decidable (_ ∧ _))

def imgPages (bytes : Nat) : Nat := bytes / smallPageSize + 1

/-- `-old_RAM+remapped_RAM` -/
def toRemapped (a : Word) : Word := a - BitVec.ofNat 32 oldRAM + BitVec.ofNat 32 remappedRAM

/-- `-remapped_RAM+old_RAM` -/
def toOld (a : Word) : Word := a - BitVec.ofNat 32 remappedRAM + BitVec.ofNat 32 oldRAM

/-- `img->data`, from the answer for the pixels. -/
def pixelData (answer : Word) (bytes : Nat) : Word :=
  if Paged bytes then toRemapped answer else answer

def pixelClaim (answer : Word) (bytes : Nat) : Claim :=
  if Paged bytes then .pages answer (imgPages bytes) else .object answer

/-- How many bytes the pixels were given. -/
def pixelRoom (bytes : Nat) : Nat :=
  if Paged bytes then imgPages bytes * smallPageSize else bytes

/-- What `create_img565` returns, what it has claimed, and the buffer behind `data` if there is
one. -/
structure Created where
  img : Option (Word × ImgStruct)
  claimed : List Claim
  buffer : Option (Word × Nat)

/-- `create_img565` -/
def createImg (o : Outcomes) (width height : BitVec 16) : Created :=
  if o.img = 0 then ⟨none, [], none⟩
  else
    let bytes := imgBytes width height
    let data := pixelData o.pixels bytes
    let pixels := if o.pixels = 0 then [] else [pixelClaim o.pixels bytes]
    let buffer := if o.pixels = 0 then none else some (data, pixelRoom bytes)
    -- the structure is not given back here
    if data = 0 then ⟨none, .object o.img :: pixels, buffer⟩
    else ⟨some (o.img, ⟨width, height, data⟩), .object o.img :: pixels, buffer⟩

/-- The allocation the data of an image is taken for. -/
def ImgStruct.pixels (img : ImgStruct) : Claim :=
  let bytes := imgBytes img.width img.height
  if Paged bytes then .pages (toOld img.data) (imgPages bytes) else .object img.data

/-- What `destroy_img565` gives back for a structure that is at `p`. -/
def destroyImg (p : Word) (img : ImgStruct) : List Claim :=
  if p ≠ 0 then [img.pixels, .object p] else []

/-! ## Loading -/

/-- The fields of both headers that are read. -/
structure BmpFields where
  identifier : Nat
  size : Word
  /-- from the rest of the file on -/
  pixelOffset : Word
  width : Word
  height : Word
  colorPlanes : Nat
  bpp : BitVec 16
  compression : Nat

/-- They are read from `bmp_h`, over what is on the stack, and from the file's pages, over what is in
them. -/
def bmpFields (file : List UInt8) (stack pages : Bytes) : BmpFields :=
  let header := readHeader file stack
  let rest := readRest file (word header 2) pages
  { identifier := half header 0
    size := BitVec.ofNat 32 (word header 2)
    pixelOffset := BitVec.ofNat 32 (word header 10) - 14#32
    width := BitVec.ofNat 32 (word rest 4)
    height := BitVec.ofNat 32 (word rest 8)
    colorPlanes := half rest 12
    bpp := BitVec.ofNat 16 (half rest 14)
    compression := word rest 16 }

namespace BmpFields

def pages (f : BmpFields) : Nat := f.size.toNat / smallPageSize + 1

/-- `signedtounsigned32(dib.height)` -/
def rows (f : BmpFields) : Nat := signedtounsigned32 f.height.toNat

def bottomUp (f : BmpFields) : Bool := decide (0 < f.height.toNat ∧ f.height.toNat < 2 ^ 31)

def rowsize (f : BmpFields) : Nat := paddedRow (u32 (f.bpp.toNat * f.width.toNat) / 8)

/-- The bytes behind the header that `nuc_fread` is asked for. -/
def restSize (f : BmpFields) : Nat := (f.size - 14#32).toNat

/-- The bytes of the image that is created. -/
def bytes (f : BmpFields) : Nat :=
  imgBytes (f.width.setWidth 16) (BitVec.ofNat 16 f.rows)

end BmpFields

/-- The addresses of `n` bytes from `base` on. -/
def addresses (base : Word) (n : Nat) : List Word :=
  (List.range n).map fun i => base + BitVec.ofNat 32 i

/-- The bytes of the pixels that the loops read. -/
def decodeReads (pixelData : Word) (rowsize width height : Nat) : List Word :=
  (List.range height).flatMap fun y => (List.range width).flatMap fun x =>
    addresses (pixelData + BitVec.ofNat 32 (rowsize * y + x * 3)) 3

/-- The bytes of `img_data` that the loops write. -/
def decodeWrites (imgData : Word) (width height : Nat) (bottomUp : Bool) : List Word :=
  (List.range height).flatMap fun y => (List.range width).flatMap fun x =>
    addresses (imgData + BitVec.ofNat 32 (2 * pixelPlace width height bottomUp y x)) 2

/-- What a load returns, what it has claimed and released, the buffers it has for the file and for
the pixels, and the addresses it has touched: those the file was read to, and those its
own code has read and written. -/
structure Load where
  img : Option (Word × ImgStruct)
  claimed : List Claim
  released : List Claim
  file : Word × Nat
  buffer : Option (Word × Nat)
  stored : List Word
  reads : List Word
  writes : List Word

/-- NULL, before anything was claimed. -/
def Load.nothing : Load := ⟨none, [], [], (0, 0), none, [], [], []⟩

/-- `load_bmp_file` behind its header, with `left` bytes left in the file. -/
def loadFields (f : BmpFields) (left : Nat) (o : Outcomes) : Load :=
  if f.identifier ≠ 0x4D42 then .nothing
  else if o.restFile = 0 then .nothing
  else
    let restFile := Claim.pages o.restFile f.pages
    let l : Load :=
      { img := none
        claimed := [restFile]
        released := [restFile]
        file := (o.restFile, f.pages * smallPageSize)
        buffer := none
        stored := addresses o.restFile (min left f.restSize)
        -- the `k_memcpy` of the header
        reads := addresses o.restFile 40
        writes := [] }
    if f.colorPlanes ≠ 1 then l
    else if f.compression ≠ 0 then l
    else
      let created := createImg o (f.width.setWidth 16) (BitVec.ofNat 16 f.rows)
      let l := { l with claimed := restFile :: created.claimed, buffer := created.buffer }
      match created.img with
      | none => l
      | some (p, img) =>
        if f.bpp = 24 then
          { l with
            img := some (p, img)
            reads := l.reads ++
              decodeReads (o.restFile + f.pixelOffset) f.rowsize f.width.toNat f.rows
            writes := decodeWrites img.data f.width.toNat f.rows f.bottomUp }
        else { l with released := restFile :: destroyImg p img }

/-- `load_bmp_file` -/
def loadBmp (file : List UInt8) (stack pages : Bytes) (o : Outcomes) : Load :=
  loadFields (bmpFields file stack pages) (file.length - 14) o

/-! ## What a load owes -/

/-- The load gives everything back when it returns NULL, an image has the room for its pixels,
and nothing is touched outside the buffers. -/
structure Load.Safe (l : Load) : Prop where
  released : l.img = none → l.claimed.Subperm l.released
  room : ∀ p img, l.img = some (p, img) →
    ∃ len, l.buffer = some (img.data, len) ∧ 2 * (img.width.toNat * img.height.toNat) ≤ len
  stored : ∀ a ∈ l.stored, Within l.file.1 l.file.2 a
  reads : ∀ a ∈ l.reads, Within l.file.1 l.file.2 a
  writes : ∀ a ∈ l.writes, ∃ b, l.buffer = some b ∧ Within b.1 b.2 a

namespace BmpFields

/-- What is read of the file has room in its pages. -/
def FileFits (f : BmpFields) (left : Nat) : Prop := min left f.restSize ≤ f.pages * smallPageSize

/-- Pixels were given, or refused where the depth ends the load anyway and the address that is
tested is not NULL. -/
def PixelsGiven (f : BmpFields) (o : Outcomes) : Prop :=
  pixelData o.pixels f.bytes ≠ 0 ∧ (f.bpp = 24 → o.pixels ≠ 0)

/-- The rows lie in the pages of the file. -/
def RowsFit (f : BmpFields) : Prop :=
  f.width = 0 ∨ f.rows = 0 ∨ f.pages * smallPageSize = 2 ^ 32 ∨
    f.pixelOffset.toNat + f.rowsize * (f.rows - 1) + 3 * f.width.toNat ≤ f.pages * smallPageSize

/-- The pixels of the file, in its 32-bit dimensions, have room in the image. -/
def ImageFits (f : BmpFields) : Prop := 2 * (f.width.toNat * f.rows) ≤ pixelRoom f.bytes

/-- When a load is safe. -/
def LoadsSafely (f : BmpFields) (left : Nat) (o : Outcomes) : Prop :=
  f.identifier = 0x4D42 → o.restFile ≠ 0 → f.FileFits left ∧
    (f.colorPlanes = 1 → f.compression = 0 → o.img ≠ 0 →
      f.PixelsGiven o ∧ (f.bpp = 24 → f.RowsFit ∧ f.ImageFits))

end BmpFields

/-! ## Addresses of the loops -/

section

variable {base : Word} {len : Nat}

theorem mem_addresses {n : Nat} {a : Word} :
    a ∈ addresses base n ↔ ∃ i < n, a = base + BitVec.ofNat 32 i := by
  simp only [addresses, List.mem_map, List.mem_range, eq_comm]

/-- A stretch of bytes at the start of a buffer. -/
theorem addresses_within_iff {n : Nat} (hn : n < 2 ^ 32) :
    (∀ a ∈ addresses base n, Within base len a) ↔ n ≤ len := by
  have hoffsets : (∀ a ∈ addresses base n, Within base len a) ↔ ∀ i < n, i % 2 ^ 32 < len := by
    constructor
    · exact fun h i hi => within_add.mp (h _ (mem_addresses.mpr ⟨i, hi, rfl⟩))
    · intro h a ha
      obtain ⟨i, hi, rfl⟩ := mem_addresses.mp ha
      exact within_add.mpr (h i hi)
  rw [hoffsets]
  refine ⟨fun h => ?_, fun h i hi => ?_⟩
  · by_contra hover
    have hlen := h len (by omega)
    rw [Nat.mod_eq_of_lt (by omega)] at hlen
    exact absurd hlen (Nat.lt_irrefl len)
  · rw [Nat.mod_eq_of_lt (by omega)]
    omega

theorem mem_decodeReads {pixelData : Word} {rowsize width height : Nat} {a : Word} :
    a ∈ decodeReads pixelData rowsize width height ↔ ∃ y < height, ∃ k < 3 * width,
      a = pixelData + BitVec.ofNat 32 (rowsize * y + k) := by
  unfold decodeReads
  simp only [List.mem_flatMap, List.mem_range, mem_addresses]
  refine ⟨fun h => ?_, fun h => ?_⟩
  · rcases h with ⟨y, hy, x, hx, j, hj, rfl⟩
    refine ⟨y, hy, x * 3 + j, by omega, ?_⟩
    rw [BitVec.add_assoc, ← BitVec.ofNat_add, Nat.add_assoc]
  · rcases h with ⟨y, hy, k, hk, rfl⟩
    refine ⟨y, hy, k / 3, by omega, k % 3, by omega, ?_⟩
    rw [BitVec.add_assoc, ← BitVec.ofNat_add, Nat.add_assoc, show k / 3 * 3 + k % 3 = k by omega]

/-- **What is read** lies in the file's pages exactly if the last row does. -/
theorem decodeReads_within_iff {off : Word} {rowsize width height : Nat} (hlen : len ≤ 2 ^ 32)
    (hpage : smallPageSize ∣ len) (hrow : rowsize ≤ 3 * width + 3) :
    (∀ a ∈ decodeReads (base + off) rowsize width height, Within base len a) ↔
      width = 0 ∨ height = 0 ∨ len = 2 ^ 32 ∨
        off.toNat + rowsize * (height - 1) + 3 * width ≤ len := by
  have hoffsets : (∀ a ∈ decodeReads (base + off) rowsize width height, Within base len a) ↔
      ∀ y < height, ∀ k < 3 * width, (off.toNat + rowsize * y + k) % 2 ^ 32 < len := by
    have haddr : ∀ y k, base + off + BitVec.ofNat 32 (rowsize * y + k) =
        base + BitVec.ofNat 32 (off.toNat + rowsize * y + k) := by
      intro y k
      rw [BitVec.add_assoc, Nat.add_assoc, BitVec.ofNat_add off.toNat, BitVec.ofNat_toNat,
        BitVec.setWidth_eq]
    constructor
    · intro h y hy k hk
      rw [← @within_add base len, ← haddr]
      exact h _ (mem_decodeReads.mpr ⟨y, hy, k, hk, rfl⟩)
    · intro h a ha
      obtain ⟨y, hy, k, hk, rfl⟩ := mem_decodeReads.mp ha
      rw [haddr]
      exact within_add.mpr (h y hy k hk)
  rw [hoffsets]
  rcases Nat.eq_zero_or_pos width with hwidth | hwidth
  · exact iff_of_true (fun y _ k hk => absurd hk (by omega)) (Or.inl hwidth)
  rcases Nat.eq_zero_or_pos height with hheight | hheight
  · exact iff_of_true (fun y hy => absurd hy (by omega)) (Or.inr (Or.inl hheight))
  rcases Nat.lt_or_eq_of_le hlen with hlt | hall
  · have hroom : len + 3 < 2 ^ 32 := by
      obtain ⟨n, hn⟩ := hpage
      unfold smallPageSize at hn
      omega
    rw [rows_inside_iff off.isLt hroom (by omega) hheight hrow, or_iff_right (by omega),
      or_iff_right (by omega), or_iff_right (by omega)]
  · rw [hall]
    exact iff_of_true (fun y _ k _ => Nat.mod_lt _ (by omega)) (Or.inr (Or.inr (Or.inl rfl)))

theorem mem_decodeWrites {imgData : Word} {width height : Nat} {bottomUp : Bool} {a : Word} :
    a ∈ decodeWrites imgData width height bottomUp ↔
      ∃ k < 2 * (width * height), a = imgData + BitVec.ofNat 32 k := by
  -- the factor 2 brings every place back below 2^32
  have haddr : ∀ x y j, imgData + BitVec.ofNat 32 (2 * pixelPlace width height bottomUp y x) +
      BitVec.ofNat 32 j =
        imgData + BitVec.ofNat 32 (2 * (x + flipRow height bottomUp y * width) + j) := by
    intro x y j
    have hplace : pixelPlace width height bottomUp y x =
        (x + flipRow height bottomUp y * width) % 2 ^ 32 := by
      unfold pixelPlace flipRow
      cases bottomUp <;> rfl
    rw [BitVec.add_assoc, ← BitVec.ofNat_add]
    congr 1
    apply BitVec.eq_of_toNat_eq
    rw [BitVec.toNat_ofNat, BitVec.toNat_ofNat, hplace, Nat.add_mod, Nat.mul_mod, Nat.mod_mod,
      ← Nat.mul_mod, ← Nat.add_mod]
  unfold decodeWrites
  simp only [List.mem_flatMap, List.mem_range, mem_addresses]
  refine ⟨fun h => ?_, fun h => ?_⟩
  · rcases h with ⟨y, hy, x, hx, j, hj, rfl⟩
    have hlt := place_lt hx (flipRow_lt bottomUp hy)
    exact ⟨_, by omega, haddr x y j⟩
  · rcases h with ⟨k, hk, rfl⟩
    have hwidth : 0 < width := by
      rcases Nat.eq_zero_or_pos width with h0 | hpos
      · rw [h0, Nat.zero_mul] at hk
        exact absurd hk (Nat.not_lt_zero k)
      · exact hpos
    have hrow : k / 2 / width < height := by
      rw [Nat.div_lt_iff_lt_mul hwidth, Nat.mul_comm height width]
      omega
    refine ⟨flipRow height bottomUp (k / 2 / width), flipRow_lt bottomUp hrow, k / 2 % width,
      Nat.mod_lt _ hwidth, k % 2, Nat.mod_lt _ (by omega), ?_⟩
    rw [haddr, flipRow_flipRow bottomUp hrow]
    have hsplit : k / 2 % width + k / 2 / width * width = k / 2 := by
      rw [Nat.mul_comm]
      exact Nat.mod_add_div _ _
    rw [hsplit, show 2 * (k / 2) + k % 2 = k by omega]

/-- **What is written** lies in the image exactly if there is room for all of the file's pixels. -/
theorem decodeWrites_within_iff {width height : Nat} {bottomUp : Bool} (hlen : len < 2 ^ 32) :
    (∀ a ∈ decodeWrites base width height bottomUp, Within base len a) ↔
      2 * (width * height) ≤ len := by
  refine ⟨fun h => ?_, fun h => ?_⟩
  · by_contra hover
    -- the first byte behind the buffer is written
    have hbehind := h _ (mem_decodeWrites.mpr ⟨len, by omega, rfl⟩)
    rw [within_add, Nat.mod_eq_of_lt hlen] at hbehind
    exact absurd hbehind (Nat.lt_irrefl len)
  · intro a ha
    rcases mem_decodeWrites.mp ha with ⟨k, hk, rfl⟩
    rw [within_add, Nat.mod_eq_of_lt (by omega)]
    omega

end

/-! ## Allocations of an image -/

theorem toOld_toRemapped (a : Word) : toOld (toRemapped a) = a := by
  unfold toOld toRemapped
  ring

theorem pixelRoom_lt (width height : BitVec 16) : pixelRoom (imgBytes width height) < 2 ^ 32 := by
  unfold pixelRoom imgPages smallPageSize
  split
  · rename_i hpaged
    have hlt := hpaged.2
    omega
  · exact Nat.mod_lt _ (by omega)

/-- Without room for a structure nothing is claimed. -/
theorem createImg_refused {o : Outcomes} (width height : BitVec 16) (himg : o.img = 0) :
    createImg o width height = ⟨none, [], none⟩ := by
  rw [createImg, if_pos himg]

/-- The claims of an image that has its structure. -/
def imgClaims (o : Outcomes) (bytes : Nat) : List Claim :=
  .object o.img :: if o.pixels = 0 then [] else [pixelClaim o.pixels bytes]

def imgBuffer (o : Outcomes) (bytes : Nat) : Option (Word × Nat) :=
  if o.pixels = 0 then none else some (pixelData o.pixels bytes, pixelRoom bytes)

/-- NULL after the structure was claimed. -/
theorem createImg_leaked {o : Outcomes} {width height : BitVec 16} (himg : o.img ≠ 0)
    (hdata : pixelData o.pixels (imgBytes width height) = 0) :
    createImg o width height =
      ⟨none, imgClaims o (imgBytes width height), imgBuffer o (imgBytes width height)⟩ := by
  rw [createImg, if_neg himg]
  simp only [if_pos hdata]
  rfl

theorem createImg_made {o : Outcomes} {width height : BitVec 16} (himg : o.img ≠ 0)
    (hdata : pixelData o.pixels (imgBytes width height) ≠ 0) :
    createImg o width height =
      ⟨some (o.img, ⟨width, height, pixelData o.pixels (imgBytes width height)⟩),
        imgClaims o (imgBytes width height), imgBuffer o (imgBytes width height)⟩ := by
  rw [createImg, if_neg himg]
  simp only [if_neg hdata]
  rfl

/-- The data of an image is taken for what it was made of. -/
theorem pixels_made (answer : Word) (width height : BitVec 16) :
    (⟨width, height, pixelData answer (imgBytes width height)⟩ : ImgStruct).pixels =
      pixelClaim answer (imgBytes width height) := by
  unfold ImgStruct.pixels pixelData pixelClaim
  by_cases hpaged : Paged (imgBytes width height)
  · simp only [if_pos hpaged, toOld_toRemapped]
  · simp only [if_neg hpaged]

theorem destroyImg_made {o : Outcomes} {width height : BitVec 16} (himg : o.img ≠ 0) :
    destroyImg o.img ⟨width, height, pixelData o.pixels (imgBytes width height)⟩ =
      [pixelClaim o.pixels (imgBytes width height), .object o.img] := by
  rw [destroyImg, if_pos himg, pixels_made]

/-! ## Ways through a load -/

section

variable {f : BmpFields} {left : Nat} {o : Outcomes}

/-- What all loads that read the file have in common. -/
def fileRead (f : BmpFields) (left : Nat) (o : Outcomes) : Load where
  img := none
  claimed := [.pages o.restFile f.pages]
  released := [.pages o.restFile f.pages]
  file := (o.restFile, f.pages * smallPageSize)
  buffer := none
  stored := addresses o.restFile (min left f.restSize)
  reads := addresses o.restFile 40
  writes := []

/-- The bytes of the file that are claimed and the image that is made. -/
def withImage (f : BmpFields) (left : Nat) (o : Outcomes) : Load :=
  { fileRead f left o with
    claimed := .pages o.restFile f.pages :: imgClaims o f.bytes
    buffer := imgBuffer o f.bytes }

/-- The image is given back as well, for its depth. -/
def destroyed (f : BmpFields) (left : Nat) (o : Outcomes) : Load :=
  { withImage f left o with
    released := [.pages o.restFile f.pages, pixelClaim o.pixels f.bytes, .object o.img] }

/-- The image is returned. -/
def decoded (f : BmpFields) (left : Nat) (o : Outcomes) : Load :=
  { withImage f left o with
    img := some (o.img, ⟨f.width.setWidth 16, BitVec.ofNat 16 f.rows, pixelData o.pixels f.bytes⟩)
    reads := addresses o.restFile 40 ++
      decodeReads (o.restFile + f.pixelOffset) f.rowsize f.width.toNat f.rows
    writes := decodeWrites (pixelData o.pixels f.bytes) f.width.toNat f.rows f.bottomUp }

/-- Both headers are accepted and there is a structure for the image. -/
structure Accepted (f : BmpFields) (o : Outcomes) : Prop where
  identifier : f.identifier = 0x4D42
  restFile : o.restFile ≠ 0
  colorPlanes : f.colorPlanes = 1
  compression : f.compression = 0
  img : o.img ≠ 0

/-- **Every way** a load can go. -/
inductive Goes (f : BmpFields) (left : Nat) (o : Outcomes) : Load → Prop where
  | nothing : f.identifier ≠ 0x4D42 ∨ o.restFile = 0 → Goes f left o .nothing
  | rejected : f.identifier = 0x4D42 → o.restFile ≠ 0 →
      f.colorPlanes ≠ 1 ∨ f.compression ≠ 0 ∨ o.img = 0 → Goes f left o (fileRead f left o)
  | leaked : Accepted f o → pixelData o.pixels f.bytes = 0 → Goes f left o (withImage f left o)
  | destroyed : Accepted f o → pixelData o.pixels f.bytes ≠ 0 → f.bpp ≠ 24 →
      Goes f left o (destroyed f left o)
  | decoded : Accepted f o → pixelData o.pixels f.bytes ≠ 0 → f.bpp = 24 →
      Goes f left o (decoded f left o)

theorem loadFields_goes (f : BmpFields) (left : Nat) (o : Outcomes) :
    Goes f left o (loadFields f left o) := by
  unfold loadFields
  by_cases hident : f.identifier = 0x4D42
  case neg =>
    rw [if_pos hident]
    exact .nothing (Or.inl hident)
  rw [if_neg (not_not_intro hident)]
  by_cases hrest : o.restFile = 0
  · rw [if_pos hrest]
    exact .nothing (Or.inr hrest)
  rw [if_neg hrest]
  by_cases hplanes : f.colorPlanes = 1
  case neg =>
    simp only [if_pos hplanes]
    exact .rejected hident hrest (Or.inl hplanes)
  by_cases hcmp : f.compression = 0
  case neg =>
    simp only [if_neg (not_not_intro hplanes), if_pos hcmp]
    exact .rejected hident hrest (Or.inr (Or.inl hcmp))
  simp only [if_neg (not_not_intro hplanes), if_neg (not_not_intro hcmp)]
  by_cases himg : o.img = 0
  · rw [createImg_refused _ _ himg]
    exact .rejected hident hrest (Or.inr (Or.inr himg))
  -- from here on there is a structure, and only its pixels and the depth are left to tell
  have haccepted : Accepted f o := ⟨hident, hrest, hplanes, hcmp, himg⟩
  by_cases hdata : pixelData o.pixels f.bytes = 0
  · rw [createImg_leaked himg hdata]
    exact .leaked haccepted hdata
  rw [createImg_made himg hdata]
  by_cases hbpp : f.bpp = 24
  · simp only [if_pos hbpp]
    exact .decoded haccepted hdata hbpp
  · simp only [if_neg hbpp, destroyImg_made himg]
    exact .destroyed haccepted hdata hbpp

/-! ## When a load is safe -/

theorem pages_room (f : BmpFields) :
    smallPageSize ≤ f.pages * smallPageSize ∧ f.pages * smallPageSize ≤ 2 ^ 32 := by
  have hlt := f.size.isLt
  unfold BmpFields.pages smallPageSize
  omega

theorem rowsize_le (hbpp : f.bpp = 24) : f.rowsize ≤ 3 * f.width.toNat + 3 := by
  have hdepth : f.bpp.toNat = 24 := by rw [hbpp]; rfl
  have hle : u32 (24 * f.width.toNat) ≤ 24 * f.width.toNat := Nat.mod_le _ _
  unfold BmpFields.rowsize paddedRow
  rw [hdepth]
  split <;> omega

theorem stored_within_iff : (∀ a ∈ (fileRead f left o).stored,
    Within (fileRead f left o).file.1 (fileRead f left o).file.2 a) ↔ f.FileFits left := by
  have hlt := (f.size - 14#32).isLt
  exact addresses_within_iff (by
    have hle := Nat.min_le_right left f.restSize
    unfold BmpFields.restSize at hle ⊢
    omega)

theorem header_within : ∀ a ∈ addresses o.restFile 40,
    Within o.restFile (f.pages * smallPageSize) a := by
  have hroom := (pages_room f).1
  unfold smallPageSize at hroom
  exact (addresses_within_iff (by omega)).mpr (by unfold smallPageSize; omega)

theorem rejected_safe_iff : (fileRead f left o).Safe ↔ f.FileFits left := by
  refine ⟨fun h => stored_within_iff.mp h.stored, fun h => ?_⟩
  exact {
    released := fun _ => List.Subperm.refl _
    room := nofun
    stored := stored_within_iff.mpr h
    reads := header_within
    writes := nofun }

/-- A structure that was claimed is not given back. -/
theorem leaked_notSafe : ¬ (withImage f left o).Safe := by
  intro h
  have hle := (h.released rfl).length_le
  have hclaims : (imgClaims o f.bytes).length ≥ 1 := Nat.le_add_left 1 _
  have hclaimed : (withImage f left o).claimed.length = (imgClaims o f.bytes).length + 1 := rfl
  have hreleased : (withImage f left o).released.length = 1 := rfl
  omega

theorem destroyed_safe_iff : (destroyed f left o).Safe ↔ f.FileFits left := by
  refine ⟨fun h => stored_within_iff.mp h.stored, fun h => ?_⟩
  constructor
  case released =>
    intro _
    show List.Subperm (.pages o.restFile f.pages :: imgClaims o f.bytes) _
    unfold imgClaims
    by_cases hpixels : o.pixels = 0
    · rw [if_pos hpixels]
      exact (List.Sublist.cons_cons _ (List.sublist_cons_self _ _)).subperm
    · rw [if_neg hpixels]
      exact ((List.Perm.swap _ _ _).cons _).subperm
  case room => exact nofun
  case stored => exact stored_within_iff.mpr h
  case reads => exact header_within
  case writes => exact nofun

/-- The image's own dimensions are no larger than the loops'. -/
theorem narrowed_le (f : BmpFields) :
    (f.width.setWidth 16).toNat * (BitVec.ofNat 16 f.rows).toNat ≤ f.width.toNat * f.rows := by
  rw [BitVec.toNat_setWidth, BitVec.toNat_ofNat]
  exact Nat.mul_le_mul (Nat.mod_le _ _) (Nat.mod_le _ _)

theorem decoded_safe_iff (hbpp : f.bpp = 24) :
    (decoded f left o).Safe ↔ f.FileFits left ∧ o.pixels ≠ 0 ∧ f.RowsFit ∧ f.ImageFits := by
  have hbuffer : o.pixels ≠ 0 →
      imgBuffer o f.bytes = some (pixelData o.pixels f.bytes, pixelRoom f.bytes) :=
    fun h => if_neg h
  have hreads : (∀ a ∈ decodeReads (o.restFile + f.pixelOffset) f.rowsize f.width.toNat f.rows,
      Within o.restFile (f.pages * smallPageSize) a) ↔ f.RowsFit := by
    rw [decodeReads_within_iff (pages_room f).2 (Dvd.intro_left _ rfl) (rowsize_le hbpp),
      BmpFields.RowsFit, ← BitVec.toNat_inj]
    exact Iff.rfl
  have hwrites : (∀ a ∈ decodeWrites (pixelData o.pixels f.bytes) f.width.toNat f.rows f.bottomUp,
      Within (pixelData o.pixels f.bytes) (pixelRoom f.bytes) a) ↔ f.ImageFits :=
    decodeWrites_within_iff (pixelRoom_lt _ _)
  refine ⟨fun h => ?_, fun h => ?_⟩
  · -- an image whose pixels were refused has no buffer
    have hpixels : o.pixels ≠ 0 := by
      intro hnone
      obtain ⟨len, hlen, -⟩ := h.room _ _ rfl
      have hno : imgBuffer o f.bytes = none := if_pos hnone
      exact absurd (hno.symm.trans hlen) (Option.some_ne_none _).symm
    refine ⟨stored_within_iff.mp h.stored, hpixels, hreads.mp fun a ha => ?_,
      hwrites.mp fun a ha => ?_⟩
    · exact h.reads a (List.mem_append_right _ ha)
    · obtain ⟨b, hb, hwithin⟩ := h.writes a ha
      have hb' := Option.some.inj ((hbuffer hpixels).symm.trans hb)
      rw [← hb'] at hwithin
      exact hwithin
  · rcases h with ⟨hfile, hpixels, hrows, himage⟩
    constructor
    case released => exact fun hnone => absurd hnone (Option.some_ne_none _)
    case room =>
      intro p img himg
      obtain ⟨rfl, rfl⟩ := Prod.mk.inj (Option.some.inj himg)
      refine ⟨_, hbuffer hpixels, ?_⟩
      exact Nat.le_trans (Nat.mul_le_mul_left 2 (narrowed_le f)) himage
    case stored => exact stored_within_iff.mpr hfile
    case reads =>
      intro a ha
      rcases List.mem_append.mp ha with ha | ha
      · exact header_within a ha
      · exact hreads.mpr hrows a ha
    case writes => exact fun a ha => ⟨_, hbuffer hpixels, hwrites.mpr himage a ha⟩

/-- **A load is safe** exactly if the file has room in its pages, the pixels are given where they
are needed, the rows lie in the file's pages and the image has room for the file's dimensions. -/
theorem loadFields_safe_iff (f : BmpFields) (left : Nat) (o : Outcomes) :
    (loadFields f left o).Safe ↔ f.LoadsSafely left o := by
  have hgoes := loadFields_goes f left o
  generalize loadFields f left o = l at hgoes
  cases hgoes with
  | nothing hnone =>
      refine iff_of_true ⟨fun _ => List.Subperm.refl _, nofun, nofun, nofun, nofun⟩ ?_
      intro hident hrest
      cases hnone with
      | inl h => exact absurd hident h
      | inr h => exact absurd h hrest
  | rejected hident hrest hrejected =>
      rw [rejected_safe_iff]
      refine ⟨fun h _ _ => ⟨h, fun hplanes hcmp himg => ?_⟩, fun h => (h hident hrest).1⟩
      rcases hrejected with hne | hne | hnull
      · exact absurd hplanes hne
      · exact absurd hcmp hne
      · exact absurd hnull himg
  | leaked h hdata =>
      refine iff_of_false leaked_notSafe fun hloads => ?_
      exact ((hloads h.identifier h.restFile).2 h.colorPlanes h.compression h.img).1.1 hdata
  | destroyed h hdata hbpp =>
      rw [destroyed_safe_iff]
      refine ⟨fun hfile _ _ => ⟨hfile, fun _ _ _ => ?_⟩, fun hl => (hl h.identifier h.restFile).1⟩
      exact ⟨⟨hdata, fun h24 => absurd h24 hbpp⟩, fun h24 => absurd h24 hbpp⟩
  | decoded h hdata hbpp =>
      rw [decoded_safe_iff hbpp]
      refine ⟨fun hsafe _ _ => ?_, fun hloads => ?_⟩
      · obtain ⟨hfile, hpixels, hfits⟩ := hsafe
        exact ⟨hfile, fun _ _ _ => ⟨⟨hdata, fun _ => hpixels⟩, fun _ => hfits⟩⟩
      · obtain ⟨hfile, himage⟩ := hloads h.identifier h.restFile
        obtain ⟨hgiven, hfits⟩ := himage h.colorPlanes h.compression h.img
        exact ⟨hfile, hgiven.2 hbpp, hfits hbpp⟩

end

/-! ## The same load with its pixels -/

/-- The width, the height and the address of the data. -/
def Img565.dims (img : Img565) : Nat × Nat × Nat := (img.width, img.height, img.data)

def ImgStruct.dims (img : ImgStruct) : Nat × Nat × Nat :=
  (img.width.toNat, img.height.toNat, img.data.toNat)

/-- The outcomes that the allocators' answers are, for a file with these fields. -/
structure Outcomes.Of (f : BmpFields) (a : ImgAnswers) (pages : Pageblocks) (o : Outcomes) :
    Prop where
  restFile : o.restFile.toNat = (useConsecutivePages f.pages 0 pages).1.getD 0
  img : o.img.toNat = a.img.addr
  pixels : o.pixels.toNat =
    if Paged f.bytes then
      (useConsecutivePages (imgPages f.bytes) 0
        (serveAll a.img.requests (useConsecutivePages f.pages 0 pages).2).2).1.getD 0
    else a.data.addr

theorem toRemapped_toNat (a : Word) :
    (toRemapped a).toNat = u32 (a.toNat + (remappedRAM - oldRAM)) := by
  have hlt := a.isLt
  unfold toRemapped oldRAM remappedRAM u32
  rw [BitVec.toNat_add, BitVec.toNat_sub, BitVec.toNat_ofNat, BitVec.toNat_ofNat]
  omega

theorem toNat_eq_zero_iff {a : Word} : a.toNat = 0 ↔ a = 0 := by
  rw [← BitVec.toNat_inj]
  rfl

section

variable {f : BmpFields} {a : ImgAnswers} {pages : Pageblocks} {o : Outcomes}

/-- The product of the dimensions that an image keeps, as the `int` it is. -/
theorem bytes_eq (hsmall : f.width.toNat % 65536 * (f.rows % 65536) * 2 < 2 ^ 31) :
    f.bytes = f.width.toNat % 65536 * (f.rows % 65536) * 2 := by
  unfold BmpFields.bytes imgBytes
  rw [BitVec.toNat_setWidth, BitVec.toNat_ofNat]
  exact u32_of_lt (Nat.lt_trans hsmall (by norm_num))

theorem pixelData_toNat (h : Outcomes.Of f a pages o) (hsmall : f.bytes < 2 ^ 31) :
    (pixelData o.pixels f.bytes).toNat = (allocPixels a.data f.bytes
      (serveAll a.img.requests (useConsecutivePages f.pages 0 pages).2).2).1 := by
  have hpixels := h.pixels
  unfold pixelData allocPixels
  by_cases hpaged : Paged f.bytes
  · rw [if_pos hpaged] at hpixels ⊢
    rw [if_pos hpaged.1, toRemapped_toNat, hpixels]
    rfl
  · have hobject : ¬ f.bytes > 1024 := fun hgt => hpaged ⟨hgt, hsmall⟩
    rw [if_neg hpaged] at hpixels ⊢
    rw [if_neg hobject, hpixels]

/-- Both make the same image, or none. -/
theorem createImg_dims (h : Outcomes.Of f a pages o)
    (hsmall : f.width.toNat % 65536 * (f.rows % 65536) * 2 < 2 ^ 31) :
    (createImg565 a f.width.toNat f.rows (useConsecutivePages f.pages 0 pages).2).1.map
        Img565.dims =
      (createImg o (f.width.setWidth 16) (BitVec.ofNat 16 f.rows)).img.map fun r => r.2.dims := by
  have hbytes := bytes_eq hsmall
  have hdata := pixelData_toNat h (hbytes ▸ hsmall)
  unfold createImg565
  simp only [← hbytes, ← hdata, ← h.img, toNat_eq_zero_iff]
  by_cases himg : o.img = 0
  · rw [if_pos himg, createImg_refused _ _ himg]
    rfl
  rw [if_neg himg]
  by_cases hnull : pixelData o.pixels f.bytes = 0
  · rw [if_pos hnull, createImg_leaked himg hnull]
    rfl
  rw [if_neg hnull, createImg_made himg hnull]
  unfold ImgStruct.dims
  simp only [Option.map_some, BitVec.toNat_setWidth, BitVec.toNat_ofNat]
  rfl

end

theorem ofNat_number (n : Nat) (m : Bytes) (i : Nat) :
    (BitVec.ofNat (8 * n) (Bytes.number 4294967296 m i n)).toNat =
      Bytes.number 4294967296 m i n := by
  rw [BitVec.toNat_ofNat, Nat.pow_mul]
  exact Nat.mod_eq_of_lt (Bytes.number_lt m n i)

/-- The fields are the numbers that are read. -/
theorem bmpFields_numbers (file : List UInt8) (stack buffer : Bytes) :
    (bmpFields file stack buffer).size.toNat = word (readHeader file stack) 2 ∧
    ∀ rest, rest = readRest file (word (readHeader file stack) 2) buffer →
      (bmpFields file stack buffer).width.toNat = word rest 4 ∧
      (bmpFields file stack buffer).height.toNat = word rest 8 ∧
      (bmpFields file stack buffer).bpp.toNat = half rest 14 := by
  refine ⟨ofNat_number 4 _ _, ?_⟩
  rintro rest rfl
  exact ⟨ofNat_number 4 _ _, ofNat_number 4 _ _, ofNat_number 2 _ _⟩

/-- **Both models of the load return the same image**, the one with its pixels and the one with its
addresses. -/
theorem loadBmp_dims {file : List UInt8} {stack buffer : Bytes} {a : ImgAnswers}
    {pages : Pageblocks} {o : Outcomes} {f : BmpFields} (hf : f = bmpFields file stack buffer)
    (h : Outcomes.Of f a pages o)
    (hsmall : f.width.toNat % 65536 * (f.rows % 65536) * 2 < 2 ^ 31) :
    (loadBmpFile file stack buffer a pages).1.map Img565.dims =
      (loadBmp file stack buffer o).img.map fun r => r.2.dims := by
  -- the fields of one model are the numbers of the other
  obtain ⟨hsize, hrest⟩ := bmpFields_numbers file stack buffer
  obtain ⟨hwidth, hheight, hbpp⟩ := hrest _ rfl
  have hidentifier : half (readHeader file stack) 0 = f.identifier := by rw [hf]; rfl
  have hcolors : half (readRest file (word (readHeader file stack) 2) buffer) 12 =
    f.colorPlanes := by rw [hf]; rfl
  have hcompression : word (readRest file (word (readHeader file stack) 2) buffer) 16 =
    f.compression := by rw [hf]; rfl
  rw [← hf] at hsize hwidth hheight hbpp
  have hn : word (readHeader file stack) 2 / smallPageSize + 1 = f.pages := by
    rw [← hsize]
    rfl
  have hrows : signedtounsigned32 f.height.toNat = f.rows := rfl
  unfold loadBmpFile loadBmp loadFields
  rw [← hf]
  simp only [hidentifier, hcolors, hcompression, ← hwidth, ← hheight, ← hbpp, hn, ← h.restFile,
    toNat_eq_zero_iff, hrows]
  have hcreated := createImg_dims h hsmall
  have hdepth : f.bpp.toNat = 24 ↔ f.bpp = 24 := by
    rw [← BitVec.toNat_inj]
    rfl
  by_cases hident : f.identifier = 0x4D42
  case neg =>
    rw [if_pos hident, if_pos hident]
    rfl
  rw [if_neg (not_not_intro hident), if_neg (not_not_intro hident)]
  by_cases hnull : o.restFile = 0
  · rw [if_pos hnull, if_pos hnull]
    rfl
  rw [if_neg hnull, if_neg hnull]
  by_cases hplanes : f.colorPlanes = 1
  case neg =>
    rw [if_pos hplanes, if_pos hplanes]
    rfl
  rw [if_neg (not_not_intro hplanes), if_neg (not_not_intro hplanes)]
  by_cases hcmp : f.compression = 0
  case neg =>
    rw [if_pos hcmp, if_pos hcmp]
    rfl
  rw [if_neg (not_not_intro hcmp), if_neg (not_not_intro hcmp)]
  -- both headers are accepted in both, and what is left is the image
  generalize createImg565 a f.width.toNat f.rows (useConsecutivePages f.pages 0 pages).2 = c
    at hcreated ⊢
  generalize createImg o (f.width.setWidth 16) (BitVec.ofNat 16 f.rows) = c' at hcreated ⊢
  cases hmade : c.1 with
  | none =>
      rw [hmade] at hcreated
      rw [Option.map_eq_none_iff.mp hcreated.symm]
      rfl
  | some img =>
      rw [hmade] at hcreated
      obtain ⟨r, hr, hdims⟩ := Option.map_eq_some_iff.mp hcreated.symm
      rw [hr]
      simp only [hdepth]
      by_cases hbpp : f.bpp = 24
      · rw [if_pos hbpp, if_pos hbpp]
        exact congrArg some hdims.symm
      · rw [if_neg hbpp, if_neg hbpp]
        rfl

end OSExt.Modules
