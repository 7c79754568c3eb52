import OSExt.Charset.Font
import OSExt.Lib.Arm
import OSExt.Lib.Picture
import OSExt.Libk.Strings
import OSExt.Modules.Bmp

/-!
# Drawing on the screen

The drawing functions of `lcd.c` all end in setting single pixels, which are dropped if they
lie outside of the screen. The framebuffer is stored by columns on the calculators of the kind
`_HW_W` and by rows on the others. What a function paints is a picture and a region of the
screen: every pixel in the region shows the picture afterwards, and nothing else in memory
has changed. Coordinates are words, so that a rectangle whose end wraps is not drawn and an
image that begins left of the screen is cut.
-/

namespace OSExt.Drivers

open Lib Libk Charset

/-- The words of a framebuffer and behind it, by index. -/
abbrev Framebuffer := Nat → Nat

/-- The arguments `r`, `g` and `b`. -/
structure Colour where
  r : Word
  g : Word
  b : Word

def Colour.to565 (c : Colour) : Nat := Modules.rgbto565 c.r.toNat c.g.toNat c.b.toNat

/-- `struct img565`, with the pixels at `data`. -/
structure Image where
  width : BitVec 16
  height : BitVec 16
  data : Nat → Nat

/-- `x*240+y` with `_HW_W`, else `y*320+x`. -/
def place (hwW : Bool) (x y : Nat) : Nat := if hwW then x * 240 + y else y * 320 + x

/-- `framebuffer_setpixel565` -/
def framebufferSetpixel565 (hwW : Bool) (x y : Word) (rgb565 : Nat) (buff : Framebuffer) :
    Framebuffer :=
  if x.toNat < 320 ∧ y.toNat < 240 then
    Function.update buff (place hwW x.toNat y.toNat) rgb565
  else buff

/-- `framebuffer_setpixel` -/
def framebufferSetpixel (hwW : Bool) (x y : Word) (c : Colour) (buff : Framebuffer) :
    Framebuffer :=
  framebufferSetpixel565 hwW x y c.to565 buff

/-- `framebuffer_draw_img565` -/
def framebufferDrawImg565 (hwW : Bool) (img : Image) (xs ys : Word) (buff : Framebuffer) :
    Framebuffer :=
  forWord 0 (img.width.setWidth 32) (fun x =>
    forWord 0 (img.height.setWidth 32) fun y =>
      framebufferSetpixel565 hwW (xs + x) (ys + y)
        (img.data (x + y * img.width.setWidth 32).toNat)) buff

/-- `framebuffer_fillrect` -/
def framebufferFillrect (hwW : Bool) (xs ys w h : Word) (c : Colour) (buff : Framebuffer) :
    Framebuffer :=
  forWord xs (xs + w) (fun x =>
    forWord ys (ys + h) fun y => framebufferSetpixel hwW x y c) buff

/-- `framebuffer_drawrect` -/
def framebufferDrawrect (hwW : Bool) (xs ys w h : Word) (c : Colour) (buff : Framebuffer) :
    Framebuffer :=
  forWord ys (ys + h) (fun y buff =>
      framebufferSetpixel hwW (xs + w - 1) y c (framebufferSetpixel hwW xs y c buff))
    (forWord xs (xs + w) (fun x buff =>
      framebufferSetpixel hwW x (ys + h - 1) c (framebufferSetpixel hwW x ys c buff)) buff)

/-- The two loops over the pixels of a character. -/
def drawGlyph (hwW : Bool) (isPixel : Word → Word → Bool) (xx yy : Int) (c : Colour)
    (buff : Framebuffer) : Framebuffer :=
  (List.range 10).foldl (fun buff x =>
    (List.range 10).foldl (fun buff y =>
      if isPixel (BitVec.ofNat 32 x) (BitVec.ofNat 32 y) then
        framebufferSetpixel hwW (BitVec.ofInt 32 (xx + x)) (BitVec.ofInt 32 (yy + y)) c buff
      else buff) buff) buff

/-- `isDigitPixel` -/
def isDigitPixel (charset : Nat → UInt8) (digit x y : Word) : Bool :=
  (isAsciiPixel charset x y (digit + 48)).1

/-- `isCharPixel` -/
def isCharPixel (charset : Nat → UInt8) (character : UInt8) (x y : Word) : Bool :=
  (isAsciiPixel charset x y (BitVec.ofNat 32 (character.toNat + 97))).1

/-- `framebuffer_write10pchar` -/
def framebufferWrite10pchar (hwW : Bool) (charset : Nat → UInt8) (xx yy : Int) (c : Colour)
    (charn : Int) (buff : Framebuffer) : Framebuffer :=
  drawGlyph hwW (isCharPixel charset (UInt8.ofInt charn)) xx yy c buff

/-- `framebuffer_write10pdigit` -/
def framebufferWrite10pdigit (hwW : Bool) (charset : Nat → UInt8) (xx yy : Int) (c : Colour)
    (charn : Int) (buff : Framebuffer) : Framebuffer :=
  drawGlyph hwW (isDigitPixel charset (BitVec.ofInt 32 charn)) xx yy c buff

/-- The loop over a string, for at most so many characters. -/
def writeString (hwW : Bool) (glyph : UInt8 → Word → Word → Bool) (yy : Int) (c : Colour) :
    Nat → CString → Int → Framebuffer → Option Framebuffer
  | 0, _, _, _ => none
  | fuel + 1, cchar, xx, buff =>
    if cchar 0 = 0 then some buff
    else
      writeString hwW glyph yy c fuel (fun i => cchar (i + 1)) (xx + 10)
        (drawGlyph hwW (glyph (cchar 0)) xx yy c buff)

/-- The pixels `framebuffer_write10pstring` draws for a character. -/
def stringPixel (charset : Nat → UInt8) (cchar : UInt8) : Word → Word → Bool :=
  let charn : UInt8 := 0
  let charn := if cchar ≥ 65 ∧ cchar ≤ 90 then cchar - 65 else charn
  let charn := if cchar ≥ 97 ∧ cchar ≤ 122 then cchar - 97 else charn
  if cchar ≥ 48 ∧ cchar ≤ 57 then isDigitPixel charset (BitVec.ofNat 32 (cchar - 48).toNat)
  else isCharPixel charset charn

/-- Those `framebuffer_write10pstring_ascii` draws. -/
def asciiPixel (charset : Nat → UInt8) (cchar : UInt8) (x y : Word) : Bool :=
  (isAsciiPixel charset x y (BitVec.ofNat 32 cchar.toNat)).1

/-- `framebuffer_write10pstring` -/
def framebufferWrite10pstring (hwW : Bool) (charset : Nat → UInt8) (string : CString)
    (xx yy : Int) (c : Colour) (fuel : Nat) (buff : Framebuffer) : Option Framebuffer :=
  writeString hwW (stringPixel charset) yy c fuel string xx buff

/-- `framebuffer_write10pstring_ascii` -/
def framebufferWrite10pstringAscii (hwW : Bool) (charset : Nat → UInt8) (string : CString)
    (xx yy : Int) (c : Colour) (fuel : Nat) (buff : Framebuffer) : Option Framebuffer :=
  writeString hwW (asciiPixel charset) yy c fuel string xx buff

/-! ## Where a pixel is -/

/-- The column of the pixel at an index. -/
def columnOf (hwW : Bool) (i : Nat) : Nat := if hwW then i / 240 else i % 320

/-- The row of the pixel at an index. -/
def rowOf (hwW : Bool) (i : Nat) : Nat := if hwW then i % 240 else i / 320

/-- The index is that of a pixel in the region. -/
def On (hwW : Bool) (R : Nat → Nat → Prop) (i : Nat) : Prop :=
  i < 320 * 240 ∧ R (columnOf hwW i) (rowOf hwW i)

/-- A framebuffer with this picture. -/
def showing (hwW : Bool) (p : Nat → Nat → Nat) : Framebuffer :=
  fun i => p (columnOf hwW i) (rowOf hwW i)

section

variable {hwW : Bool} {i x y : Nat} {R R' : Nat → Nat → Prop}

theorem columnOf_lt (hwW : Bool) (h : i < 320 * 240) : columnOf hwW i < 320 := by
  unfold columnOf
  split
  · omega
  · omega

theorem rowOf_lt (hwW : Bool) (h : i < 320 * 240) : rowOf hwW i < 240 := by
  unfold rowOf
  split
  · omega
  · omega

/-- Each pixel of the screen has a place of its own. -/
theorem eq_place_iff (hx : x < 320) (hy : y < 240) :
    i = place hwW x y ↔ On hwW (fun px py => px = x ∧ py = y) i := by
  unfold On place columnOf rowOf
  cases hwW
  · simp only [Bool.false_eq_true, if_false]
    omega
  · simp only [if_true]
    omega

theorem On.congr (h : ∀ px py, px < 320 → py < 240 → (R px py ↔ R' px py)) :
    On hwW R i ↔ On hwW R' i := by
  unfold On
  refine and_congr_right fun hi => h _ _ (columnOf_lt hwW hi) (rowOf_lt hwW hi)

theorem showing_place (p : Nat → Nat → Nat) (hx : x < 320) (hy : y < 240) :
    showing hwW p (place hwW x y) = p x y := by
  have hon : On hwW (fun px py => px = x ∧ py = y) (place hwW x y) := (eq_place_iff hx hy).mp rfl
  obtain ⟨-, hcolumn, hrow⟩ := hon
  unfold showing
  rw [hcolumn, hrow]

end

/-! ## What is painted -/

section

variable {hwW : Bool} {p : Nat → Nat → Nat} {c : Colour}

/-- **A pixel**, if it is on the screen. -/
theorem paints_setpixel565 {x y : Word} {rgb565 : Nat}
    (h : x.toNat < 320 → y.toNat < 240 → p x.toNat y.toNat = rgb565) :
    Paints (showing hwW p) (On hwW fun px py => px = x.toNat ∧ py = y.toNat)
      (framebufferSetpixel565 hwW x y rgb565) := by
  have hwrite := Paints.ite (c := x.toNat < 320 ∧ y.toNat < 240)
    (v := showing hwW p) fun hin =>
      (Paints.write (showing hwW p) (place hwW x.toNat y.toNat)).congr fun i =>
        eq_place_iff hin.1 hin.2
  have hstep : framebufferSetpixel565 hwW x y rgb565 =
      fun buff => if x.toNat < 320 ∧ y.toNat < 240 then
        Function.update buff (place hwW x.toNat y.toNat)
          (showing hwW p (place hwW x.toNat y.toNat)) else buff := by
    funext buff
    unfold framebufferSetpixel565
    split
    · next hin => rw [showing_place p hin.1 hin.2, h hin.1 hin.2]
    · rfl
  rw [hstep]
  refine hwrite.congr fun i => ⟨And.right, fun hi => ⟨?_, hi⟩⟩
  obtain ⟨hlt, hcolumn, hrow⟩ := hi
  rw [← hcolumn, ← hrow]
  exact ⟨columnOf_lt hwW hlt, rowOf_lt hwW hlt⟩

/-- The picture of one colour. -/
abbrev plain (c : Colour) : Nat → Nat → Nat := fun _ _ => c.to565

theorem paints_setpixel (x y : Word) :
    Paints (showing hwW (plain c)) (On hwW fun px py => px = x.toNat ∧ py = y.toNat)
      (framebufferSetpixel hwW x y c) :=
  paints_setpixel565 fun _ _ => rfl

/-- The words between two words, by their number. -/
theorem exists_word_iff {n : Nat} {lo hi : Word} :
    (∃ x : Word, lo ≤ x ∧ x < hi ∧ n = x.toNat) ↔ lo.toNat ≤ n ∧ n < hi.toNat := by
  constructor
  · intro h
    obtain ⟨x, hlo, hhi, rfl⟩ := h
    exact ⟨BitVec.le_def.mp hlo, BitVec.lt_def.mp hhi⟩
  · intro h
    obtain ⟨hlo, hhi⟩ := h
    have hnat : (BitVec.ofNat 32 n).toNat = n := by
      rw [BitVec.toNat_ofNat]
      exact Nat.mod_eq_of_lt (hhi.trans hi.isLt)
    exact ⟨_, BitVec.le_def.mpr (by rwa [hnat]), BitVec.lt_def.mpr (by rwa [hnat]), hnat.symm⟩

/-- **A rectangle**: its end may wrap, and then nothing is drawn. -/
theorem paints_fillrect (xs ys w h : Word) :
    Paints (showing hwW (plain c))
      (On hwW fun px py => (xs.toNat ≤ px ∧ px < (xs + w).toNat) ∧
        ys.toNat ≤ py ∧ py < (ys + h).toNat)
      (framebufferFillrect hwW xs ys w h c) := by
  refine (Paints.forWord fun x _ _ => Paints.forWord fun y _ _ => paints_setpixel x y).congr
    fun i => ?_
  simp only [On, ← exists_word_iff]
  constructor
  · intro hi
    obtain ⟨x, hxlo, hxhi, y, hylo, hyhi, hlt, hx, hy⟩ := hi
    exact ⟨hlt, ⟨x, hxlo, hxhi, hx⟩, y, hylo, hyhi, hy⟩
  · intro hi
    obtain ⟨hlt, ⟨x, hxlo, hxhi, hx⟩, y, hylo, hyhi, hy⟩ := hi
    exact ⟨x, hxlo, hxhi, y, hylo, hyhi, hlt, hx, hy⟩

/-- **A frame**, each side with the range of its loop. -/
theorem paints_drawrect (xs ys w h : Word) :
    Paints (showing hwW (plain c))
      (On hwW fun px py =>
        (xs.toNat ≤ px ∧ px < (xs + w).toNat) ∧ (py = ys.toNat ∨ py = (ys + h - 1).toNat) ∨
        (ys.toNat ≤ py ∧ py < (ys + h).toNat) ∧ (px = xs.toNat ∨ px = (xs + w - 1).toNat))
      (framebufferDrawrect hwW xs ys w h c) := by
  refine ((Paints.forWord fun x _ _ => (paints_setpixel x ys).seq
    (paints_setpixel x (ys + h - 1))).seq (Paints.forWord fun y _ _ =>
      (paints_setpixel xs y).seq (paints_setpixel (xs + w - 1) y))).congr fun i => ?_
  simp only [On, ← exists_word_iff]
  constructor
  · intro hi
    rcases hi with ⟨x, hlo, hhi, ⟨hlt, hx, hy⟩ | ⟨hlt, hx, hy⟩⟩ |
      ⟨y, hlo, hhi, ⟨hlt, hx, hy⟩ | ⟨hlt, hx, hy⟩⟩
    · exact ⟨hlt, Or.inl ⟨⟨x, hlo, hhi, hx⟩, Or.inl hy⟩⟩
    · exact ⟨hlt, Or.inl ⟨⟨x, hlo, hhi, hx⟩, Or.inr hy⟩⟩
    · exact ⟨hlt, Or.inr ⟨⟨y, hlo, hhi, hy⟩, Or.inl hx⟩⟩
    · exact ⟨hlt, Or.inr ⟨⟨y, hlo, hhi, hy⟩, Or.inr hx⟩⟩
  · intro hi
    obtain ⟨hlt, ⟨⟨x, hlo, hhi, hx⟩, hy⟩ | ⟨⟨y, hlo, hhi, hy⟩, hx⟩⟩ := hi
    · refine Or.inl ⟨x, hlo, hhi, ?_⟩
      exact hy.imp (fun hy => ⟨hlt, hx, hy⟩) fun hy => ⟨hlt, hx, hy⟩
    · refine Or.inr ⟨y, hlo, hhi, ?_⟩
      exact hx.imp (fun hx => ⟨hlt, hx, hy⟩) fun hx => ⟨hlt, hx, hy⟩

/-- The picture of an image with its corner at `xs`, `ys`. -/
def Image.shownAt (img : Image) (xs ys : Word) (px py : Nat) : Nat :=
  img.data ((BitVec.ofNat 32 px - xs).toNat + (BitVec.ofNat 32 py - ys).toNat * img.width.toNat)

/-- **An image**: also the part of one that begins before the screen. -/
theorem paints_drawImg565 (img : Image) (xs ys : Word) :
    Paints (showing hwW (img.shownAt xs ys))
      (On hwW fun px py => (BitVec.ofNat 32 px - xs).toNat < img.width.toNat ∧
        (BitVec.ofNat 32 py - ys).toNat < img.height.toNat)
      (framebufferDrawImg565 hwW img xs ys) := by
  have hwide : ∀ b : BitVec 16, (b.setWidth 32).toNat = b.toNat := by
    intro b
    rw [BitVec.toNat_setWidth]
    exact Nat.mod_eq_of_lt (b.isLt.trans (by decide))
  have hpixel : ∀ x y : Word, x < img.width.setWidth 32 → y < img.height.setWidth 32 →
      Paints (showing hwW (img.shownAt xs ys))
        (On hwW fun px py => px = (xs + x).toNat ∧ py = (ys + y).toNat)
        (framebufferSetpixel565 hwW (xs + x) (ys + y)
          (img.data (x + y * img.width.setWidth 32).toNat)) := by
    intro x y hx hy
    refine paints_setpixel565 fun _ _ => ?_
    rw [BitVec.lt_def, hwide] at hx hy
    have hwidth := img.width.isLt
    have hheight := img.height.isLt
    have hy' : y.toNat ≤ 65534 := by omega
    have hprod : y.toNat * img.width.toNat ≤ 65534 * 65535 :=
      Nat.mul_le_mul hy' (by omega)
    unfold Image.shownAt
    rw [BitVec.ofNat_toNat, BitVec.setWidth_eq, BitVec.ofNat_toNat, BitVec.setWidth_eq,
      add_sub_cancel_left, add_sub_cancel_left, BitVec.toNat_add, BitVec.toNat_mul,
      hwide, Nat.mod_eq_of_lt (by omega : y.toNat * img.width.toNat < 2 ^ 32),
      Nat.mod_eq_of_lt (by omega)]
  refine (Paints.forWord fun x _ hx => Paints.forWord fun y _ hy => hpixel x y hx hy).congr
    fun i => ?_
  have hat : ∀ {n : Nat} {a x : Word}, n < 320 →
      (n = (a + x).toNat ↔ BitVec.ofNat 32 n - a = x) := by
    intro n a x hn
    rw [sub_eq_iff_eq_add, add_comm x a, ← BitVec.toNat_inj, BitVec.toNat_ofNat,
      Nat.mod_eq_of_lt (by omega)]
  unfold On
  refine ⟨fun hi => ?_, fun hi => ?_⟩
  · obtain ⟨x, -, hx, y, -, hy, hlt, hpx, hpy⟩ := hi
    rw [hat (columnOf_lt hwW hlt)] at hpx
    rw [hat ((rowOf_lt hwW hlt).trans (by decide))] at hpy
    rw [BitVec.lt_def, hwide, ← hpx] at hx
    rw [BitVec.lt_def, hwide, ← hpy] at hy
    exact ⟨hlt, hx, hy⟩
  · obtain ⟨hlt, hx, hy⟩ := hi
    have hle : ∀ a : Word, 0 ≤ a := fun a => BitVec.le_def.mpr (Nat.zero_le _)
    refine ⟨_, hle _, ?_, _, hle _, ?_, hlt, (hat (columnOf_lt hwW hlt)).mpr rfl,
      (hat ((rowOf_lt hwW hlt).trans (by decide))).mpr rfl⟩
    · rw [BitVec.lt_def, hwide]
      exact hx
    · rw [BitVec.lt_def, hwide]
      exact hy

/-- **Shapes are clipped**: for all arguments and framebuffers, a rectangle, a frame and an image
change the pixels of the screen that are theirs, to their colour, and nothing else. -/
theorem shapes_clipped (hwW : Bool) (c : Colour) (img : Image) (xs ys w h : Word) :
    Paints (showing hwW (plain c))
      (On hwW fun px py => (xs.toNat ≤ px ∧ px < (xs + w).toNat) ∧
        ys.toNat ≤ py ∧ py < (ys + h).toNat) (framebufferFillrect hwW xs ys w h c) ∧
    Paints (showing hwW (plain c))
      (On hwW fun px py =>
        (xs.toNat ≤ px ∧ px < (xs + w).toNat) ∧ (py = ys.toNat ∨ py = (ys + h - 1).toNat) ∨
        (ys.toNat ≤ py ∧ py < (ys + h).toNat) ∧ (px = xs.toNat ∨ px = (xs + w - 1).toNat))
      (framebufferDrawrect hwW xs ys w h c) ∧
    Paints (showing hwW (img.shownAt xs ys))
      (On hwW fun px py => (BitVec.ofNat 32 px - xs).toNat < img.width.toNat ∧
        (BitVec.ofNat 32 py - ys).toNat < img.height.toNat)
      (framebufferDrawImg565 hwW img xs ys) :=
  ⟨paints_fillrect xs ys w h, paints_drawrect xs ys w h, paints_drawImg565 img xs ys⟩

/-! ## Text -/

/-- An `int` handed on as a word is a number on the screen if it is that number. -/
theorem eq_toNat_ofInt_iff {n : Nat} {a : Int} (hn : n < 320) (hlo : -2147483648 ≤ a)
    (hhi : a < 2147483648) : n = (BitVec.ofInt 32 a).toNat ↔ (n : Int) = a := by
  rw [BitVec.toNat_ofInt]
  omega

/-- **A character** is drawn where its pixels are. -/
theorem paints_drawGlyph (isPixel : Word → Word → Bool) {xx yy : Int}
    (hx : -2147483648 ≤ xx ∧ xx + 10 ≤ 2147483648) (hy : -2147483648 ≤ yy ∧ yy + 10 ≤ 2147483648) :
    Paints (showing hwW (plain c))
      (On hwW fun px py => ∃ x < 10, ∃ y < 10,
        isPixel (BitVec.ofNat 32 x) (BitVec.ofNat 32 y) = true ∧ (px : Int) = xx + x ∧
          (py : Int) = yy + y)
      (drawGlyph hwW isPixel xx yy c) := by
  have hpixel : ∀ x y : Nat, x < 10 → y < 10 → Paints (showing hwW (plain c))
      (On hwW fun px py => (px : Int) = xx + x ∧ (py : Int) = yy + y)
      (framebufferSetpixel hwW (BitVec.ofInt 32 (xx + x)) (BitVec.ofInt 32 (yy + y)) c) := by
    intro x y hxlt hylt
    refine (paints_setpixel _ _).congr fun i => On.congr fun px py hpx hpy => ?_
    rw [eq_toNat_ofInt_iff hpx (by omega) (by omega),
      eq_toNat_ofInt_iff (by omega) (by omega) (by omega)]
  refine (Paints.foldl fun x hxmem => Paints.foldl fun y hymem =>
    Paints.ite fun _ => hpixel x y (List.mem_range.mp hxmem) (List.mem_range.mp hymem)).congr
    fun i => ?_
  simp only [On, List.mem_range]
  constructor
  · intro hi
    obtain ⟨x, hxlt, y, hylt, hp, hlt, hat⟩ := hi
    exact ⟨hlt, x, hxlt, y, hylt, hp, hat⟩
  · intro hi
    obtain ⟨hlt, x, hxlt, y, hylt, hp, hat⟩ := hi
    exact ⟨x, hxlt, y, hylt, hp, hlt, hat⟩

/-- The pixel is one of the character at index `k` of a text that begins at `xx`, `yy`. -/
def InText (glyph : UInt8 → Word → Word → Bool) (text : List UInt8) (xx yy : Int) (px py : Nat) :
    Prop :=
  ∃ k x y, ∃ h : k < text.length, x < 10 ∧ y < 10 ∧
    glyph text[k] (BitVec.ofNat 32 x) (BitVec.ofNat 32 y) = true ∧
    (px : Int) = xx + 10 * k + x ∧ (py : Int) = yy + y

theorem inText_cons {glyph : UInt8 → Word → Word → Bool} {ch : UInt8} {text : List UInt8}
    {xx yy : Int} {px py : Nat} :
    InText glyph (ch :: text) xx yy px py ↔
      (∃ x < 10, ∃ y < 10, glyph ch (BitVec.ofNat 32 x) (BitVec.ofNat 32 y) = true ∧
        (px : Int) = xx + x ∧ (py : Int) = yy + y) ∨ InText glyph text (xx + 10) yy px py := by
  unfold InText
  constructor
  · intro h
    obtain ⟨k, x, y, hk, hx, hy, hp, hpx, hpy⟩ := h
    cases k with
    | zero => exact Or.inl ⟨x, hx, y, hy, hp, by simpa using hpx, hpy⟩
    | succ k => exact Or.inr ⟨k, x, y, Nat.lt_of_succ_lt_succ hk, hx, hy, hp, by omega, hpy⟩
  · intro h
    rcases h with ⟨x, hx, y, hy, hp, hpx, hpy⟩ | ⟨k, x, y, hk, hx, hy, hp, hpx, hpy⟩
    · exact ⟨0, x, y, Nat.succ_pos _, hx, hy, hp, by simpa using hpx, hpy⟩
    · exact ⟨k + 1, x, y, Nat.succ_lt_succ hk, hx, hy, hp, by push_cast; omega, hpy⟩

/-- **A string** is drawn up to its terminator, one character beside the other. -/
theorem paints_writeString (glyph : UInt8 → Word → Word → Bool) {yy : Int}
    (hy : -2147483648 ≤ yy ∧ yy + 10 ≤ 2147483648) : ∀ (text : List UInt8) (fuel : Nat)
    (cchar : CString) (xx : Int), (∀ k, ∀ h : k < text.length, cchar k = text[k]) →
    cchar text.length = 0 → 0 ∉ text → text.length < fuel → -2147483648 ≤ xx →
    xx + 10 * text.length ≤ 2147483648 →
    ∃ f, (∀ buff, writeString hwW glyph yy c fuel cchar xx buff = some (f buff)) ∧
      Paints (showing hwW (plain c)) (On hwW (InText glyph text xx yy)) f := by
  intro text
  induction text with
  | nil =>
      intro fuel cchar xx _ hend _ hfuel _ _
      obtain ⟨fuel, rfl⟩ := Nat.exists_eq_add_one_of_ne_zero (Nat.ne_of_gt hfuel)
      refine ⟨id, fun buff => ?_, (Paints.idle _).congr fun i => ?_⟩
      · rw [writeString, if_pos (show cchar 0 = 0 from hend)]
        rfl
      · unfold On InText
        simp
  | cons ch text ih =>
      intro fuel cchar xx hchars hend hzero hfuel hlo hhi
      obtain ⟨fuel, rfl⟩ :=
        Nat.exists_eq_add_one_of_ne_zero (Nat.ne_of_gt (Nat.zero_lt_of_lt hfuel))
      rw [List.length_cons] at hhi hfuel
      push_cast at hhi
      have hfirst : cchar 0 = ch := hchars 0 (Nat.succ_pos _)
      have hne : ch ≠ 0 := fun heq => hzero (heq ▸ List.mem_cons_self)
      obtain ⟨f, hf, hpaints⟩ := ih fuel (fun i => cchar (i + 1)) (xx + 10)
        (fun k hk => hchars (k + 1) (Nat.succ_lt_succ hk)) hend
        (fun hmem => hzero (List.mem_cons_of_mem ch hmem)) (by omega) (by omega) (by omega)
      refine ⟨fun buff => f (drawGlyph hwW (glyph ch) xx yy c buff), fun buff => ?_, ?_⟩
      · rw [writeString, hfirst, if_neg hne, hf]
      · refine ((paints_drawGlyph (glyph ch) ⟨hlo, by omega⟩ hy).seq hpaints).congr fun i => ?_
        unfold On
        rw [inText_cons, and_or_left]

end

end OSExt.Drivers
