import OSExt.Lib.BitStream
import Mathlib.Data.BitVec

/-!
# The font

`pngtoascii.java` packs the pixels of the font image into the file `charset_load` reads, one
character of 10 by 10 pixels after the other and row by row; `x` counts the rows there and `y`
the columns. `isAsciiPixel` finds a pixel by its bit offset, which wraps, and looks at a byte
only behind a test against the size of the charset.
-/

namespace OSExt.Charset

open Lib

/-! ## The packer -/

/-- `dat`, the three samples of a pixel. -/
structure Dat where
  dat0 : Int
  dat1 : Int
  dat2 : Int

/-- The test on `dat`. -/
def Dat.Black (dat : Dat) : Prop := dat.dat0 = 0 ∧ dat.dat1 = 0 ∧ dat.dat2 = 0

instance (dat : Dat) : Decidable dat.Black := inferInstanceAs (Decidable (_ ∧ _))

/-- `bitbuffer` and `bitindex`, and what `w` was given. -/
structure Packer where
  bitbuffer : Nat
  bitindex : Nat
  w : List UInt8

/-- `bitindex++`, and a full buffer is written; `write` takes the low byte of its argument. -/
def Packer.next (p : Packer) : Packer :=
  let bitindex := p.bitindex + 1
  if bitindex = 8 then { bitbuffer := 0, bitindex := 0, w := p.w ++ [UInt8.ofNat p.bitbuffer] }
  else { p with bitindex := bitindex }

/-- The body of the loops. -/
def Packer.pixel (p : Packer) (dat : Dat) : Packer :=
  if dat.Black then { p with bitbuffer := p.bitbuffer ||| (1 <<< p.bitindex) }.next
  else p.next

/-- The loops of `main` over the image, which is given by column and row; the bytes that are
in the file afterwards. -/
def pngtoascii (getPixel : Nat → Nat → Dat) : List UInt8 :=
  let p : Packer := { bitbuffer := 0, bitindex := 0, w := [] }
  ((List.range 128).foldl (fun p chr =>
    (List.range 10).foldl (fun p x =>
      (List.range 10).foldl (fun p y => p.pixel (getPixel (y + 10 * chr) x)) p) p) p).w

/-! ## The charset -/

/-- `sizeof(charset_ascii)` -/
def sizeofCharsetAscii : Nat := 1600

/-- `k_memset` and `nuc_fread` over the whole array. -/
def readCharset (file : List UInt8) (charsetAscii : Nat → UInt8) : Nat → UInt8 := fun i =>
  if i < min sizeofCharsetAscii file.length then file.getD i 0
  else if i < sizeofCharsetAscii then 0
  else charsetAscii i

/-- `charset_load`, given what lies at the two paths; without a file nothing changes. -/
def charsetLoad (file file2 : Option (List UInt8)) (charsetAscii : Nat → UInt8) : Nat → UInt8 :=
  match file with
  | some f => readCharset f charsetAscii
  | none =>
    match file2 with
    | some f => readCharset f charsetAscii
    | none => charsetAscii

/-- `isAsciiPixel`, with the indices of `charset_ascii` it has read. -/
def isAsciiPixel (charsetAscii : Nat → UInt8) (x y index : BitVec 32) : Bool × List Nat :=
  let bitoffset := index * 10#32 * 10#32 + 10#32 * y + x
  let byteoffset := bitoffset / 8#32
  let bitoffset := bitoffset % 8#32
  if byteoffset.toNat < sizeofCharsetAscii then
    if ((charsetAscii byteoffset.toNat).toNat >>> bitoffset.toNat) &&& 0b1 = 0b1 then
      (true, [byteoffset.toNat])
    else (false, [byteoffset.toNat])
  else (false, [])

/-! ## Packing -/

section

variable {bits : Nat → Bool} {n : Nat} {p : Packer}

/-- The packer has taken the first `n` bits. -/
structure Packer.Holds (bits : Nat → Bool) (n : Nat) (p : Packer) : Prop where
  packed : Packed bits n p.w p.bitbuffer p.bitindex
  room : p.bitindex < 8

theorem Packer.Holds.next {buffer : Nat} (hroom : p.bitindex < 8)
    (h : Packed bits (n + 1) p.w buffer (p.bitindex + 1)) :
    ({ p with bitbuffer := buffer } : Packer).next.Holds bits (n + 1) := by
  unfold Packer.next
  by_cases hfull : p.bitindex + 1 = 8
  · simp only [if_pos hfull]
    rw [hfull] at h
    exact ⟨h.flush, by show 0 < 8; omega⟩
  · simp only [if_neg hfull]
    exact ⟨h, by show p.bitindex + 1 < 8; omega⟩

/-- **A pixel** is the next bit. -/
theorem Packer.Holds.pixel (h : p.Holds bits n) {dat : Dat} (hdat : dat.Black ↔ bits n = true) :
    (p.pixel dat).Holds bits (n + 1) := by
  have hpush := h.packed.push h.room
  unfold Packer.pixel
  by_cases hblack : dat.Black
  · rw [if_pos (hdat.mp hblack)] at hpush
    rw [if_pos hblack]
    exact Packer.Holds.next h.room hpush
  · rw [if_neg fun hbit => hblack (hdat.mpr hbit)] at hpush
    rw [if_neg hblack]
    exact Packer.Holds.next h.room hpush

end

/-- Bit `i` of the font: the pixel of its character, row and column. -/
def fontBit (image : Nat → Nat → Dat) (i : Nat) : Bool :=
  decide (image (10 * (i / 100) + i % 10) (i / 10 % 10)).Black

/-- **The whole image** is packed, character by character and row by row. -/
theorem pngtoascii_packed (image : Nat → Nat → Dat) :
    (pngtoascii image).length = 1600 ∧
      ∀ i < 12800, bitAt (pngtoascii image) i = fontBit image i := by
  have hcolumns : ∀ chr < 128, ∀ x < 10, ∀ p : Packer,
      p.Holds (fontBit image) (100 * chr + 10 * x) →
      ((List.range 10).foldl (fun p y => p.pixel (image (y + 10 * chr) x)) p).Holds
        (fontBit image) (100 * chr + 10 * (x + 1)) := by
    intro chr _ x hx p hp
    refine foldl_range_induct (fun y p => Packer.Holds (fontBit image) (100 * chr + 10 * x + y) p) hp 10
      fun y hy p hp => hp.pixel ?_
    have hchr : (100 * chr + 10 * x + y) / 100 = chr := by omega
    have hrow : (100 * chr + 10 * x + y) / 10 % 10 = x := by omega
    have hcolumn : (100 * chr + 10 * x + y) % 10 = y := by omega
    unfold fontBit
    rw [hchr, hrow, hcolumn, Nat.add_comm (10 * chr) y, decide_eq_true_iff]
  have hrows : ∀ chr < 128, ∀ p : Packer, p.Holds (fontBit image) (100 * chr) →
      ((List.range 10).foldl (fun p x =>
        (List.range 10).foldl (fun p y => p.pixel (image (y + 10 * chr) x)) p) p).Holds
        (fontBit image) (100 * (chr + 1)) := by
    intro chr hchr p hp
    exact foldl_range_induct (fun x p => Packer.Holds (fontBit image) (100 * chr + 10 * x) p) hp 10
      (hcolumns chr hchr)
  have hstart : (⟨0, 0, []⟩ : Packer).Holds (fontBit image) (100 * 0) :=
    ⟨packed_nil _, by show 0 < 8; omega⟩
  have hall : Packer.Holds (fontBit image) (100 * 128) _ :=
    foldl_range_induct (fun chr p => Packer.Holds (fontBit image) (100 * chr) p) hstart 128 hrows
  -- 12800 bits leave nothing in the buffer
  have hcount := hall.packed.count
  have hroom := hall.room
  refine ⟨by unfold pngtoascii; dsimp only; omega, fun i hi => ?_⟩
  rw [← hall.packed.bit i hi, bitAt_written _ (by omega)]
  rfl

/-! ## Looking a pixel up -/

theorem charsetLoad_getD {bytes : List UInt8} (hsize : bytes.length = sizeofCharsetAscii)
    (file2 : Option (List UInt8)) (charsetAscii : Nat → UInt8) {i : Nat}
    (hi : i < sizeofCharsetAscii) : charsetLoad (some bytes) file2 charsetAscii i = bytes.getD i 0 :=
  if_pos (by rw [hsize, Nat.min_self]; exact hi)

/-- **The lookup** answers with its bit, as long as that is in the charset. -/
theorem isAsciiPixel_bit {charsetAscii : Nat → UInt8} {bytes : List UInt8}
    (hbytes : ∀ i < sizeofCharsetAscii, charsetAscii i = bytes.getD i 0) {x y ch : BitVec 32}
    (hch : ch.toNat < 128) (hx : x.toNat < 10) (hy : y.toNat < 10) :
    (isAsciiPixel charsetAscii x y ch).1 =
      bitAt bytes (100 * ch.toNat + 10 * y.toNat + x.toNat) := by
  have hoffset : (ch * 10#32 * 10#32 + 10#32 * y + x).toNat =
      100 * ch.toNat + 10 * y.toNat + x.toNat := by
    simp only [BitVec.toNat_add, BitVec.toNat_mul, BitVec.toNat_ofNat]
    omega
  have hbyte : ((ch * 10#32 * 10#32 + 10#32 * y + x) / 8#32).toNat =
      (100 * ch.toNat + 10 * y.toNat + x.toNat) / 8 := by
    rw [BitVec.toNat_udiv, hoffset]
    rfl
  have hbit : ((ch * 10#32 * 10#32 + 10#32 * y + x) % 8#32).toNat =
      (100 * ch.toNat + 10 * y.toNat + x.toNat) % 8 := by
    rw [BitVec.toNat_umod, hoffset]
    rfl
  have hinside : (100 * ch.toNat + 10 * y.toNat + x.toNat) / 8 < sizeofCharsetAscii := by
    unfold sizeofCharsetAscii
    omega
  unfold isAsciiPixel bitAt
  simp only [hbyte, hbit, if_pos hinside, hbytes _ hinside, Nat.testBit_eq_decide_div_mod_eq,
    Nat.shiftRight_eq_div_pow, Nat.and_one_is_mod]
  split
  · rename_i hset
    exact (decide_eq_true hset).symm
  · rename_i hclear
    exact (decide_eq_false hclear).symm

/-- Whatever the arguments, only the charset is read. -/
theorem isAsciiPixel_inside (charsetAscii : Nat → UInt8) (x y ch : BitVec 32) :
    ∀ i ∈ (isAsciiPixel charsetAscii x y ch).2, i < sizeofCharsetAscii := by
  intro i hi
  unfold isAsciiPixel at hi
  simp only at hi
  split at hi
  · rename_i hinside
    split at hi
    · rw [List.mem_singleton.mp hi]
      exact hinside
    · rw [List.mem_singleton.mp hi]
      exact hinside
  · exact absurd hi List.not_mem_nil

end OSExt.Charset
