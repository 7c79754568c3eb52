import OSExt.Lib.Table
import OSExt.Modules.Registry

/-!
# Background images

`bmp.c` and `img565.c` of the background module: a Windows bitmap is read into pages of
its own and decoded into an image of 16-bit pixels. Rows are stored padded to 4 bytes,
the lowest one first unless the height is negative, and pixels as blue, green, red.

The file's pages and the image's data are objects of their own; what they hold before
they are written is a parameter, as are the answers of `kmalloc`.
-/

namespace OSExt.Modules

open Lib Memory Elf

/-! ## Images -/

/-- `struct img565`, with what its data holds. -/
structure Img565 where
  width : Nat
  height : Nat
  data : Nat
  pixels : Nat → Nat

/-- What `create_img565` is given: two answers of `kmalloc`, and what the data holds. -/
structure ImgAnswers where
  img : Kmalloc
  data : Kmalloc
  memory : Nat → Nat

def oldRAM : Nat := 0x10000000
def remappedRAM : Nat := 0xec000000

/-- The data of an image: pages under their second address, or an object. -/
def allocPixels (a : Kmalloc) (bytes : Nat) (pages : Pageblocks) : Nat × Pageblocks :=
  if bytes > 1024 then
    let r := useConsecutivePages (bytes / smallPageSize + 1) 0 pages
    (u32 (r.1.getD 0 + (remappedRAM - oldRAM)), r.2)
  else (a.addr, (serveAll a.requests pages).2)

/-- `create_img565`; the product is an `int`, and below 2^31 here. -/
def createImg565 (a : ImgAnswers) (width height : Nat) (pages : Pageblocks) :
    Option Img565 × Pageblocks :=
  let width := width % 65536
  let height := height % 65536
  let pages := (serveAll a.img.requests pages).2
  if a.img.addr = 0 then (none, pages)
  else
    let r := allocPixels a.data (width * height * 2) pages
    if r.1 = 0 then (none, r.2)
    else (some { width, height, data := r.1, pixels := a.memory }, r.2)

/-- What `destroy_img565` does to the page blocks. -/
def destroyImg565 (img : Img565) (pages : Pageblocks) : Pageblocks :=
  let bytes := img.width * img.height * 2
  if bytes > 1024 then
    freeConsecutivePages (u32 (img.data + 4294967296 - (remappedRAM - oldRAM)))
      (bytes / smallPageSize + 1) pages
  else pages

def rgbto565 (r g b : Nat) : Nat :=
  if ¬ (r > 255 ∨ g > 255 ∨ b > 255) then
    ((r &&& 0b11111000) <<< 8) ||| ((g &&& 0b11111100) <<< 3) ||| (b >>> 3)
  else 0

/-! ## Bitmaps -/

/-- `signedtounsigned32`, on the bits of its argument. -/
def signedtounsigned32 (i : Nat) : Nat := if 2 ^ 31 ≤ i then u32 (4294967296 - i) else i

/-- Bytes read over what was there. -/
def readOver (m : Bytes) (l : List UInt8) : Bytes := fun i => l.getD i (m i)

/-- The 14 bytes of the header, over what is on the stack. -/
def readHeader (file : List UInt8) (stack : Bytes) : Bytes := readOver stack (file.take 14)

/-- The rest of the file, as long as its header says. -/
def readRest (file : List UInt8) (size : Nat) (buffer : Bytes) : Bytes :=
  readOver buffer ((file.drop 14).take (u32 (size + 4294967296 - 14)))

/-- `rowsize`, rounded to 4 bytes. -/
def paddedRow (rowsize : Nat) : Nat :=
  if rowsize % 4 ≠ 0 then rowsize + (4 - rowsize % 4) else rowsize

/-- The pixel at an address: blue byte, green byte, red byte. -/
def pixel24 (rest : Bytes) (pixel : Nat) : Nat :=
  rgbto565 (rest (u32 (pixel + 2))).toNat (rest (u32 (pixel + 1))).toNat (rest (u32 pixel)).toNat

/-- Where in the image a pixel of row `y` of the file goes. -/
def pixelPlace (width height : Nat) (bottomUp : Bool) (y x : Nat) : Nat :=
  if bottomUp then u32 (x + (height - 1 - y) * width) else u32 (x + y * width)

/-- The two loops for 24 bits a pixel; the sign of `dib.height` tells the order of rows. -/
def decode24 (rest : Bytes) (pixelData rowsize width height : Nat) (bottomUp : Bool)
    (data : Nat → Nat) : Nat → Nat :=
  (List.range height).foldl (fun data y =>
    writeEach (pixelPlace width height bottomUp y)
      (fun x => pixel24 rest (pixelData + rowsize * y + x * 3)) (List.range width) data) data

/-- `load_bmp_file`; addresses in the rest of the file count from its start. -/
def loadBmpFile (file : List UInt8) (stack buffer : Bytes) (a : ImgAnswers) (pages : Pageblocks) :
    Option Img565 × Pageblocks :=
  let header := readHeader file stack
  let size := word header 2
  if half header 0 ≠ 0x4D42 then (none, pages)
  else
    let pixelOffset := u32 (word header 10 + 4294967296 - 14)
    let n := size / smallPageSize + 1
    let r := useConsecutivePages n 0 pages
    let restFile := r.1.getD 0
    if restFile = 0 then (none, r.2)
    else
      let rest := readRest file size buffer
      if half rest 12 ≠ 1 then (none, freeConsecutivePages restFile n r.2)
      else if word rest 16 ≠ 0 then (none, freeConsecutivePages restFile n r.2)
      else
        let width := word rest 4
        let height := signedtounsigned32 (word rest 8)
        let created := createImg565 a width height r.2
        match created.1 with
        | none => (none, freeConsecutivePages restFile n created.2)
        | some img =>
          let bpp := half rest 14
          let rowsize := paddedRow (u32 (bpp * width) / 8)
          if bpp = 24 then
            let bottomUp := decide (0 < word rest 8 ∧ word rest 8 < 2 ^ 31)
            let pixels := decode24 rest pixelOffset rowsize width height bottomUp img.pixels
            (some { img with pixels }, freeConsecutivePages restFile n created.2)
          else (none, destroyImg565 img (freeConsecutivePages restFile n created.2))

/-! ## What a bitmap file says -/

/-- A field of the file's headers. -/
def bmpField (file : List UInt8) (a n : Nat) : Nat :=
  Bytes.number 4294967296 (fun i => file.getD i 0) a n

def bmpSize (file : List UInt8) : Nat := bmpField file 2 4
def bmpPixelOffset (file : List UInt8) : Nat := bmpField file 10 4
def bmpWidth (file : List UInt8) : Nat := bmpField file 18 4

/-- Rows are stored from the top down if the height is negative. -/
def bmpTopDown (file : List UInt8) : Bool := 2 ^ 31 ≤ bmpField file 22 4

/-- The magnitude of the height. -/
def bmpHeight (file : List UInt8) : Nat :=
  if bmpTopDown file then 2 ^ 32 - bmpField file 22 4 else bmpField file 22 4

/-- The bytes of a row, with its padding. -/
def bmpRowBytes (file : List UInt8) : Nat := (3 * bmpWidth file + 3) / 4 * 4

/-- Where the pixel at column `x` of row `y` is, counted from the top left. -/
def bmpPixelAt (file : List UInt8) (x y : Nat) : Nat :=
  let row := if bmpTopDown file then y else bmpHeight file - 1 - y
  bmpPixelOffset file + bmpRowBytes file * row + 3 * x

def bmpBlue (file : List UInt8) (x y : Nat) : Nat := (file.getD (bmpPixelAt file x y) 0).toNat
def bmpGreen (file : List UInt8) (x y : Nat) : Nat := (file.getD (bmpPixelAt file x y + 1) 0).toNat
def bmpRed (file : List UInt8) (x y : Nat) : Nat := (file.getD (bmpPixelAt file x y + 2) 0).toNat

/-- **An uncompressed Windows bitmap** of 24 bits a pixel, with its rows in the file. -/
structure Bmp24 (file : List UInt8) : Prop where
  identifier : bmpField file 0 2 = 0x4D42
  colorPlanes : bmpField file 26 2 = 1
  bpp : bmpField file 28 2 = 24
  compression : bmpField file 30 4 = 0
  width : 1 ≤ bmpWidth file ∧ bmpWidth file ≤ 65535
  height : 1 ≤ bmpHeight file ∧ bmpHeight file ≤ 65535
  small : bmpWidth file * bmpHeight file * 2 < 2 ^ 31
  /-- both headers are there -/
  headers : 54 ≤ bmpSize file ∧ 54 ≤ file.length
  offset : 14 ≤ bmpPixelOffset file
  rows : bmpPixelOffset file + bmpRowBytes file * bmpHeight file ≤ bmpSize file
    ∧ bmpPixelOffset file + bmpRowBytes file * bmpHeight file ≤ file.length

/-- The allocations that a load makes succeed. -/
structure Allocated (file : List UInt8) (a : ImgAnswers) (pages : Pageblocks) : Prop where
  restFile : ((useConsecutivePages (bmpSize file / smallPageSize + 1) 0 pages).1.getD 0) ≠ 0
  img : a.img.addr ≠ 0
  data : (allocPixels a.data (bmpWidth file * bmpHeight file * 2) (serveAll a.img.requests
    (useConsecutivePages (bmpSize file / smallPageSize + 1) 0 pages).2).2).1 ≠ 0

/-! ## Reading the file -/

section

variable {file : List UInt8} {stack buffer : Bytes}

theorem readHeader_number {a n : Nat} (hlen : 14 ≤ file.length) (h : a + n ≤ 14) :
    Bytes.number 4294967296 (readHeader file stack) a n = bmpField file a n := by
  unfold readHeader
  refine Bytes.number_congr fun i hi => ?_
  have hin : (a + i) % 4294967296 < (file.take 14).length := by
    rw [List.length_take]
    omega
  rw [readOver, List.getD_eq_getElem _ _ hin, List.getElem_take, List.getD_eq_getElem]

theorem bmpSize_lt (file : List UInt8) : bmpSize file < 4294967296 := by
  unfold bmpSize bmpField
  exact lt_of_lt_of_eq (Bytes.number_lt _ 4 2) (by norm_num)

/-- A byte behind the header. -/
theorem readRest_apply {i : Nat} (hi : i + 14 < bmpSize file) (hlen : i + 14 < file.length) :
    readRest file (bmpSize file) buffer i = file.getD (i + 14) 0 := by
  have hsize := bmpSize_lt file
  have hcount : u32 (bmpSize file + 4294967296 - 14) = bmpSize file - 14 := by
    unfold u32
    omega
  have hin : i < ((file.drop 14).take (bmpSize file - 14)).length := by
    rw [List.length_take, List.length_drop]
    omega
  rw [readRest, hcount, readOver, List.getD_eq_getElem _ _ hin, List.getElem_take, List.getElem_drop,
    List.getD_eq_getElem _ _ hlen]
  exact getElem_congr_idx (Nat.add_comm 14 i)

theorem readRest_number {a n : Nat} (h : Bmp24 file) (han : a + n ≤ 40) :
    Bytes.number 4294967296 (readRest file (bmpSize file) buffer) a n
      = bmpField file (a + 14) n := by
  have hheaders := h.headers
  refine Bytes.number_congr fun i hi => ?_
  have hmod : (a + i) % 4294967296 = a + i := Nat.mod_eq_of_lt (by omega)
  have hmod' : (a + 14 + i) % 4294967296 = a + i + 14 := by omega
  rw [hmod, hmod', readRest_apply (by omega) (by omega)]

end

/-! ## Decoding -/

theorem paddedRow_eq (width : Nat) : paddedRow (24 * width / 8) = (3 * width + 3) / 4 * 4 := by
  unfold paddedRow
  split
  · omega
  · omega

/-- The place of a pixel is one of the image. -/
theorem place_lt {width height x y : Nat} (hx : x < width) (hy : y < height) :
    x + y * width < width * height := by
  have hle : (y + 1) * width ≤ height * width := Nat.mul_le_mul_right width hy
  rw [Nat.add_mul, Nat.one_mul] at hle
  rw [Nat.mul_comm width height]
  omega

/-- The row of the image that row `y` of the file is, and the other way round. -/
def flipRow (height : Nat) (bottomUp : Bool) (y : Nat) : Nat :=
  if bottomUp then height - 1 - y else y

theorem flipRow_lt {height y : Nat} (bottomUp : Bool) (hy : y < height) :
    flipRow height bottomUp y < height := by
  unfold flipRow
  cases bottomUp with
  | true =>
      show height - 1 - y < height
      omega
  | false => exact hy

theorem flipRow_flipRow {height y : Nat} (bottomUp : Bool) (hy : y < height) :
    flipRow height bottomUp (flipRow height bottomUp y) = y := by
  unfold flipRow
  cases bottomUp with
  | true =>
      show height - 1 - (height - 1 - y) = y
      omega
  | false => rfl

section

variable {width height : Nat} (bottomUp : Bool) (hsmall : width * height < 4294967296)
include hsmall

theorem pixelPlace_eq {x y : Nat} (hx : x < width) (hy : y < height) :
    pixelPlace width height bottomUp y x = x + flipRow height bottomUp y * width := by
  have hlt := place_lt hx (flipRow_lt bottomUp hy)
  unfold pixelPlace
  cases bottomUp with
  | true => exact u32_of_lt (Nat.lt_trans hlt hsmall)
  | false => exact u32_of_lt (Nat.lt_trans hlt hsmall)

/-- Pixels go to places of their own. -/
theorem pixelPlace_inj {x y x' y' : Nat} (hx : x < width) (hy : y < height) (hx' : x' < width)
    (hy' : y' < height)
    (h : pixelPlace width height bottomUp y x = pixelPlace width height bottomUp y' x') :
    y = y' ∧ x = x' := by
  rw [pixelPlace_eq bottomUp hsmall hx hy, pixelPlace_eq bottomUp hsmall hx' hy'] at h
  have hpos : 0 < width := by omega
  have hcol := congrArg (· % width) h
  have hrow := congrArg (· / width) h
  simp only [Nat.add_mul_mod_self_right, Nat.mod_eq_of_lt hx, Nat.mod_eq_of_lt hx'] at hcol
  simp only [Nat.add_mul_div_right _ _ hpos, Nat.div_eq_of_lt hx, Nat.div_eq_of_lt hx',
    Nat.zero_add] at hrow
  refine ⟨?_, hcol⟩
  rw [← flipRow_flipRow bottomUp hy, hrow, flipRow_flipRow bottomUp hy']

/-- **The loops decode every pixel**, each from its row in the file. -/
theorem decode24_apply {rest : Bytes} {pixelData rowsize : Nat} {data : Nat → Nat} {x y : Nat}
    (hx : x < width) (hy : y < height) :
    decode24 rest pixelData rowsize width height bottomUp data (x + y * width)
      = pixel24 rest (pixelData + rowsize * flipRow height bottomUp y + x * 3) := by
  -- the round that writes the pixel is that of its row in the file
  have hrow := flipRow_lt bottomUp hy
  have hplace : pixelPlace width height bottomUp (flipRow height bottomUp y) x = x + y * width := by
    rw [pixelPlace_eq bottomUp hsmall hx hrow, flipRow_flipRow bottomUp hy]
  have hround : ∀ p : Nat × Nat, p ∈ (List.range height).product (List.range width) ↔
      p.1 < height ∧ p.2 < width := by
    intro p
    rw [← List.mem_range, ← List.mem_range]
    exact List.mem_product
  unfold decode24
  rw [writeEach_nested, ← hplace]
  refine writeEach_of_mem (i := (flipRow height bottomUp y, x)) ((hround _).mpr ⟨hrow, hx⟩) ?_
  intro p hp he
  obtain ⟨hp1, hp2⟩ := (hround p).mp hp
  obtain ⟨h1, h2⟩ := pixelPlace_inj bottomUp hsmall hp2 hp1 hx hrow he
  exact Prod.ext h1 h2

end

/-! ## The whole load -/

section

variable {file : List UInt8}

theorem bmpHeight_eq (h : Bmp24 file) :
    signedtounsigned32 (bmpField file 22 4) = bmpHeight file := by
  have hheight := h.height
  unfold bmpHeight bmpTopDown signedtounsigned32 at *
  by_cases hneg : 2 ^ 31 ≤ bmpField file 22 4
  · rw [if_pos hneg, decide_eq_true hneg, if_pos rfl, u32_of_lt (by omega)]
    rfl
  · rw [if_neg hneg, decide_eq_false hneg]
    rfl

/-- The sign that the loops test. -/
theorem bottomUp_eq (h : Bmp24 file) :
    decide (0 < bmpField file 22 4 ∧ bmpField file 22 4 < 2 ^ 31) = !bmpTopDown file := by
  have hheight := h.height
  unfold bmpHeight bmpTopDown at *
  by_cases hneg : 2 ^ 31 ≤ bmpField file 22 4
  · rw [decide_eq_true hneg, decide_eq_false (by omega)]
    rfl
  · rw [decide_eq_false hneg] at hheight ⊢
    have hpos : 0 < bmpField file 22 4 := hheight.1
    rw [decide_eq_true (by omega)]
    rfl

/-- The pixel the loops read is the file's. -/
theorem pixel24_eq (h : Bmp24 file) (buffer : Bytes) {x y : Nat} (hx : x < bmpWidth file)
    (hy : y < bmpHeight file) :
    pixel24 (readRest file (bmpSize file) buffer)
        (bmpPixelOffset file - 14
          + bmpRowBytes file * flipRow (bmpHeight file) (!bmpTopDown file) y + x * 3)
      = rgbto565 (bmpRed file x y) (bmpGreen file x y) (bmpBlue file x y) := by
  have hoffset := h.offset
  obtain ⟨hsize, hlen⟩ := h.rows
  have hheaders := h.headers
  have hsizelt := bmpSize_lt file
  have hrow := flipRow_lt (!bmpTopDown file) hy
  obtain ⟨row, hdef⟩ : ∃ row, row = flipRow (bmpHeight file) (!bmpTopDown file) y := ⟨_, rfl⟩
  have hat : bmpPixelAt file x y = bmpPixelOffset file + bmpRowBytes file * row + 3 * x := by
    rw [hdef]
    unfold bmpPixelAt flipRow
    cases bmpTopDown file <;> rfl
  rw [← hdef] at hrow ⊢
  -- the row ends inside the file, and the pixel inside the row
  have hend : bmpRowBytes file * row + bmpRowBytes file
      ≤ bmpRowBytes file * bmpHeight file := by
    rw [← Nat.mul_succ]
    exact Nat.mul_le_mul_left _ hrow
  have hwide : 3 * x + 3 ≤ bmpRowBytes file := by
    unfold bmpRowBytes
    omega
  have hbyte : ∀ j < 3, readRest file (bmpSize file) buffer
      (u32 (bmpPixelOffset file - 14 + bmpRowBytes file * row + x * 3 + j))
        = file.getD (bmpPixelAt file x y + j) 0 := by
    intro j hj
    rw [u32_of_lt (by omega), readRest_apply (by omega) (by omega), hat]
    congr 1
    omega
  have h0 := hbyte 0 (by omega)
  rw [Nat.add_zero, Nat.add_zero] at h0
  unfold pixel24 bmpRed bmpGreen bmpBlue
  rw [hbyte 2 (by omega), hbyte 1 (by omega), h0]

/-- **Decoding a bitmap.** If the allocations succeed, a load of an uncompressed Windows
bitmap of 24 bits a pixel returns an image of its width and height, and the pixel at column
`x` of row `y` from the top left has the file's red, green and blue bytes. -/
theorem loadBmpFile_decodes (h : Bmp24 file) (stack buffer : Bytes) {a : ImgAnswers}
    {pages : Pageblocks} (halloc : Allocated file a pages) :
    ∃ img, (loadBmpFile file stack buffer a pages).1 = some img
      ∧ img.width = bmpWidth file ∧ img.height = bmpHeight file
      ∧ ∀ x < bmpWidth file, ∀ y < bmpHeight file,
        img.pixels (x + y * bmpWidth file)
          = rgbto565 (bmpRed file x y) (bmpGreen file x y) (bmpBlue file x y) := by
  obtain ⟨hheader, hlen⟩ := h.headers
  obtain ⟨hwpos, hwle⟩ := h.width
  obtain ⟨hhpos, hhle⟩ := h.height
  have hsmall := h.small
  have hoffset := h.offset
  -- the fields, as the code reads them from the two buffers
  have hsize : word (readHeader file stack) 2 = bmpSize file :=
    readHeader_number (by omega) (by omega)
  have hident : half (readHeader file stack) 0 = 0x4D42 :=
    (readHeader_number (by omega) (by omega)).trans h.identifier
  have hpixel : u32 (word (readHeader file stack) 10 + 4294967296 - 14)
      = bmpPixelOffset file - 14 := by
    have hfield : word (readHeader file stack) 10 = bmpPixelOffset file :=
      readHeader_number (by omega) (by omega)
    have hlt := bmpSize_lt file
    have hrows := h.rows
    rw [hfield]
    unfold u32
    omega
  have hplanes : half (readRest file (bmpSize file) buffer) 12 = 1 :=
    (readRest_number h (by omega)).trans h.colorPlanes
  have hcompression : word (readRest file (bmpSize file) buffer) 16 = 0 :=
    (readRest_number h (by omega)).trans h.compression
  have hbpp : half (readRest file (bmpSize file) buffer) 14 = 24 :=
    (readRest_number h (by omega)).trans h.bpp
  have hwidth : word (readRest file (bmpSize file) buffer) 4 = bmpWidth file :=
    readRest_number h (by omega)
  have hheight : word (readRest file (bmpSize file) buffer) 8 = bmpField file 22 4 :=
    readRest_number h (by omega)
  have hrow : paddedRow (u32 (24 * bmpWidth file) / 8) = bmpRowBytes file := by
    rw [u32_of_lt (by omega), paddedRow_eq]
    rfl
  -- both allocations succeed
  have hcreate : ∃ data pages', createImg565 a (bmpWidth file) (bmpHeight file)
      (useConsecutivePages (bmpSize file / smallPageSize + 1) 0 pages).2
      = (some ⟨bmpWidth file, bmpHeight file, data, a.memory⟩, pages') := by
    have hdata := halloc.data
    unfold createImg565
    simp only [Nat.mod_eq_of_lt (show bmpWidth file < 65536 by omega),
      Nat.mod_eq_of_lt (show bmpHeight file < 65536 by omega), if_neg halloc.img, if_neg hdata]
    exact ⟨_, _, rfl⟩
  obtain ⟨data, pages', hcreate⟩ := hcreate
  refine ⟨⟨bmpWidth file, bmpHeight file, data, decode24 (readRest file (bmpSize file) buffer)
    (bmpPixelOffset file - 14) (bmpRowBytes file) (bmpWidth file) (bmpHeight file)
    (!bmpTopDown file) a.memory⟩, ?_, ?_⟩
  · unfold loadBmpFile
    simp only [hident, hsize, hpixel, hplanes, hcompression, hbpp, hwidth, hheight, hrow,
      bmpHeight_eq h, bottomUp_eq h, hcreate, if_neg halloc.restFile]
    rfl
  · refine ⟨rfl, rfl, fun x hx y hy => ?_⟩
    exact (decode24_apply (!bmpTopDown file) (by omega) hx hy).trans (pixel24_eq h buffer hx hy)

end

/-- A bitmap of one column: a red pixel over a blue one, stored the blue one first. -/
def redOverBlue : List UInt8 :=
  [0x42, 0x4D, 62, 0, 0, 0, 0, 0, 0, 0, 54, 0, 0, 0] ++
    [40, 0, 0, 0, 1, 0, 0, 0, 2, 0, 0, 0, 1, 0, 24, 0, 0, 0, 0, 0] ++ List.replicate 20 0 ++
    [255, 0, 0, 0] ++ [0, 0, 255, 0]

theorem redOverBlue_bmp24 : Bmp24 redOverBlue where
  identifier := by decide
  colorPlanes := by decide
  bpp := by decide
  compression := by decide
  width := by decide
  height := by decide
  small := by decide
  headers := by decide
  offset := by decide
  rows := by decide

/-- The answers for a small image. -/
def smallAnswers : ImgAnswers := ⟨⟨0x2000, []⟩, ⟨0x3000, []⟩, fun _ => 0⟩

/-- A block of four free pages. -/
def fourPages : Pageblocks := [⟨0x10000, 0x10000, 4, 0, 0, 0, 0, 0, 0⟩]

theorem loadBmpFile_decodes_redOverBlue :
    ∃ img, (loadBmpFile redOverBlue (fun _ => 0) (fun _ => 0) smallAnswers fourPages).1 = some img
      ∧ img.width = 1 ∧ img.height = 2 ∧ img.pixels 0 = 0xF800 ∧ img.pixels 1 = 0x001F := by
  have halloc : Allocated redOverBlue smallAnswers fourPages :=
    ⟨by decide, by decide, by decide⟩
  obtain ⟨img, hload, hwidth, hheight, hpixels⟩ :=
    loadBmpFile_decodes redOverBlue_bmp24 (fun _ => 0) (fun _ => 0) halloc
  refine ⟨img, hload, hwidth.trans (by decide), hheight.trans (by decide), ?_, ?_⟩
  · exact (hpixels 0 (by decide) 0 (by decide)).trans (by decide)
  · exact (hpixels 0 (by decide) 1 (by decide)).trans (by decide)

end OSExt.Modules
