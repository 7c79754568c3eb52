import OSExt.Drivers.Lcd
import OSExt.Libk.SprintfText

/-!
# The debug shell

`debug_shell.c` prints formatted text on a framebuffer, one row of characters below the other.
A text that is wider than the screen goes on in the rows below, one column further right. When
the last row is used up, the shell waits for a key and clears the framebuffer. In the loop over
the later rows `shell_println` clears the framebuffer that is displayed instead of its own.

What is drawn beyond the right edge is dropped pixel by pixel, so each row shows the beginning
of what is left of the text. The log over the UART is left out.
-/

namespace OSExt.Gui

open Lib Libk Drivers

/-- What the shell runs on: the kind of screen, the font, and the physical address of a virtual
one. -/
structure Machine where
  hwW : Bool
  charset : Nat → UInt8
  physical : Word → Word

/-- `line`, `shell_framebuffer` and `*LCD_UPBASE`, with the framebuffers by their physical
address. Of the shell's own one there is a copy for each time a key was waited for. -/
structure Shell where
  line : Word
  shellFramebuffer : Word
  lcdUpbase : Word
  frames : Word → Framebuffer
  barriers : List Framebuffer

/-- What a text is printed with: `println_rgb` is given a colour, `println` is not. -/
structure Print where
  rgb : Option Colour
  string : List UInt8
  va : Nat → Arg

namespace Shell

variable (m : Machine) (s : Shell)

/-- The shell's own framebuffer. -/
def own : Framebuffer := s.frames (m.physical s.shellFramebuffer)

def setOwn (buff : Framebuffer) : Shell :=
  { s with frames := Function.update s.frames (m.physical s.shellFramebuffer) buff }

/-- `k_memset(framebuffer,0,320*240*2)` -/
def clear (framebuffer : Word) : Shell :=
  let buff := s.frames (m.physical framebuffer)
  { s with frames := Function.update s.frames (m.physical framebuffer) fun i =>
      if i < 320 * 240 then 0 else buff i }

/-- `if (line >= 240)` and what it guards. -/
def turnPage (framebuffer : Word) : Shell :=
  if s.line ≥ 240 then
    { ({ s with barriers := s.own m :: s.barriers }.clear m framebuffer) with line := 0 }
  else s

/-- `framebuffer_write10pstring_ascii(string,shell_framebuffer,xx,line,r,g,b); line += 10;` -/
def write (string : CString) (xx : Int) (c : Colour) (fuel : Nat) : Option Shell :=
  match framebufferWrite10pstringAscii m.hwW m.charset string xx s.line.toInt c fuel (s.own m) with
  | none => none
  | some buff => some { s.setOwn m buff with line := s.line + 10 }

end Shell

/-- The loop over the rows behind the first. -/
def writeParts (m : Machine) (toClear : Shell → Word) (c : Colour) (fuel : Nat) :
    Nat → CString → Shell → Option Shell
  | 0, _, _ => none
  | rounds + 1, strpart, s =>
    if kStrlen strpart 190 > 0 then
      match s.write m strpart 10 c fuel with
      | none => none
      | some s =>
        let s := s.turnPage m (toClear s)
        let add := kStrlen strpart 190
        let add := if add > 31 then 31 else add
        writeParts m toClear c fuel rounds (fun i => strpart (add + i)) s
    else some s

/-- `str`: 190 bytes are cleared, the rest is what the stack held. -/
def formatted (stack : CString) (stored : List (UInt8 × Nat)) : CString :=
  stored.foldl (fun str e => Function.update str e.2 e.1) fun i => if i < 190 then 0 else stack i

/-- `sprintf_safe_va(str,string,180,va)`, if it returns after so many rounds. -/
def format (stack : CString) (string : List UInt8) (va : Nat → Arg) (rounds : Nat) :
    Option CString :=
  if (sprintfStep 180 va (sprintfLoop 180 va rounds ⟨string, 0, 0, []⟩)).isNone then
    some (formatted stack (sprintfSafeVa string 180 va rounds))
  else none

/-- The body of the four functions, which differ in the colour and in what the loop clears. -/
def printText (m : Machine) (toClear : Shell → Word) (c : Colour) (str : CString) (fuel : Nat)
    (s : Shell) : Option Shell :=
  match (s.turnPage m s.shellFramebuffer).write m str 0 c fuel with
  | none => none
  | some s => writeParts m toClear c fuel fuel (fun i => str (32 + i)) s

def white : Colour := ⟨255, 255, 255⟩

/-- `shell_println`, and `debug_shell_println` without `RELEASE`. -/
def shellPrintln (m : Machine) (stack : CString) (string : List UInt8) (va : Nat → Arg) (fuel : Nat)
    (s : Shell) : Option Shell :=
  match format stack string va fuel with
  | none => none
  | some str => printText m Shell.lcdUpbase white str fuel s

/-- `shell_println_rgb`, and `debug_shell_println_rgb` without `RELEASE`. -/
def shellPrintlnRgb (m : Machine) (stack : CString) (string : List UInt8) (c : Colour)
    (va : Nat → Arg) (fuel : Nat) (s : Shell) : Option Shell :=
  match format stack string va fuel with
  | none => none
  | some str => printText m Shell.shellFramebuffer c str fuel s

/-- `debug_shell_reset` -/
def debugShellReset (s : Shell) : Shell := { s with line := 0 }

/-- `setShellFramebuffer` -/
def setShellFramebuffer (framebuffer : Word) (s : Shell) : Shell :=
  { s with shellFramebuffer := framebuffer }

/-- One of the two calls. -/
def Print.run (m : Machine) (stack : CString) (fuel : Nat) (p : Print) (s : Shell) : Option Shell :=
  match p.rgb with
  | none => shellPrintln m stack p.string p.va fuel s
  | some c => shellPrintlnRgb m stack p.string c p.va fuel s

/-- One call after the other. -/
def runPrints (m : Machine) (stack : CString) (fuel : Nat) : List Print → Shell → Option Shell
  | [], s => some s
  | p :: ps, s =>
    match p.run m stack fuel s with
    | none => none
    | some s => runPrints m stack fuel ps s

/-! ## What a screen shows -/

/-- A row of the screen: the characters from the column `indent` on. -/
structure Row where
  indent : Nat
  text : List UInt8
  colour : Colour

/-- The pixel of a screen with these rows. -/
def rowsPicture (charset : Nat → UInt8) (rows : List Row) (px py : Nat) : Nat :=
  match rows[py / 10]? with
  | none => 0
  | some r =>
    if px / 10 < r.indent then 0
    else
      match r.text[px / 10 - r.indent]? with
      | none => 0
      | some ch =>
        if asciiPixel charset ch (BitVec.ofNat 32 (px % 10)) (BitVec.ofNat 32 (py % 10)) then
          r.colour.to565
        else 0

/-- The framebuffer shows the rows, and nothing else. -/
def Shows (m : Machine) (rows : List Row) (buff : Framebuffer) : Prop :=
  ∀ i < 320 * 240, buff i = showing m.hwW (rowsPicture m.charset rows) i

/-- The rows behind the first. -/
def partsOf (c : Colour) (text : List UInt8) : List Row :=
  if text = [] then [] else ⟨1, text.take 31, c⟩ :: partsOf c (text.drop 31)
termination_by text.length
decreasing_by
  have hpos := List.length_pos_iff.mpr ‹_›
  rw [List.length_drop]
  omega

/-- The rows of a text. -/
def rowsOf (c : Colour) (text : List UInt8) : List Row :=
  ⟨0, text.take 32, c⟩ :: partsOf c (text.drop 32)

/-! ## Rows -/

section

variable {m : Machine} {rows : List Row} {buff : Framebuffer} {c : Colour} {text : List UInt8}

theorem shows_nil (buff : Framebuffer) :
    Shows m [] fun i => if i < 320 * 240 then 0 else buff i := by
  intro i hi
  simp only [if_pos hi]
  rfl

/-- The rows of a text say what it says. -/
theorem partsOf_text (c : Colour) (text : List UInt8) :
    (partsOf c text).flatMap Row.text = text := by
  induction text using partsOf.induct with
  | case1 => simp [partsOf]
  | case2 text hne ih =>
      rw [partsOf, if_neg hne, List.flatMap_cons, ih]
      exact List.take_append_drop 31 text

theorem rowsOf_text (c : Colour) (text : List UInt8) :
    (rowsOf c text).flatMap Row.text = text := by
  rw [rowsOf, List.flatMap_cons, partsOf_text]
  exact List.take_append_drop 32 text

/-- The pixels of a text that begins at a column and a row. -/
theorem inText_iff {glyph : UInt8 → Word → Word → Bool} {indent n px py : Nat} :
    InText glyph text (10 * indent) (10 * n) px py ↔
      py / 10 = n ∧ indent ≤ px / 10 ∧ ∃ h : px / 10 - indent < text.length,
        glyph text[px / 10 - indent] (BitVec.ofNat 32 (px % 10)) (BitVec.ofNat 32 (py % 10))
          = true := by
  constructor
  · intro h
    obtain ⟨k, x, y, hk, hx, hy, hp, hatx, haty⟩ := h
    obtain rfl : k = px / 10 - indent := by omega
    obtain rfl : x = px % 10 := by omega
    obtain rfl : y = py % 10 := by omega
    exact ⟨by omega, by omega, hk, hp⟩
  · intro h
    obtain ⟨hrow, hcolumn, hk, hp⟩ := h
    exact ⟨_, _, _, hk, Nat.mod_lt _ (by omega), Nat.mod_lt _ (by omega), hp, by omega, by omega⟩

/-- **A text written behind the rows** adds what of it fits on the screen. -/
theorem Shows.snoc {indent : Nat} {xx yy : Int} {f : Framebuffer → Framebuffer}
    (hshows : Shows m rows buff) (hindent : indent ≤ 32) (hxx : xx = 10 * indent)
    (hyy : yy = 10 * rows.length)
    (hpaints : Paints (showing m.hwW (plain c))
      (On m.hwW (InText (asciiPixel m.charset) text xx yy)) f) :
    Shows m (rows ++ [⟨indent, text.take (32 - indent), c⟩]) (f buff) := by
  subst hxx hyy
  intro i hi
  obtain ⟨hin, hout⟩ := hpaints buff i
  obtain ⟨px, hpx⟩ : ∃ px, columnOf m.hwW i = px := ⟨_, rfl⟩
  obtain ⟨py, hpy⟩ : ∃ py, rowOf m.hwW i = py := ⟨_, rfl⟩
  have hlt : px < 320 := hpx ▸ columnOf_lt m.hwW hi
  have hold := hshows i hi
  simp only [On, showing, hpx, hpy, hi, true_and, inText_iff] at hin hout hold ⊢
  rcases Nat.lt_trichotomy (py / 10) rows.length with hrow | hrow | hrow
  · -- a row further up
    rw [hout (by omega), hold, rowsPicture, rowsPicture, List.getElem?_append_left hrow]
  · -- the new row, where nothing was drawn before
    have hzero : rowsPicture m.charset rows px py = 0 := by
      rw [rowsPicture, List.getElem?_eq_none (by omega)]
    have hnew : (rows ++ [⟨indent, text.take (32 - indent), c⟩])[py / 10]? =
        some (⟨indent, text.take (32 - indent), c⟩ : Row) := by
      rw [hrow, List.getElem?_append_right (Nat.le_refl _), Nat.sub_self]
      rfl
    rw [hold, hzero] at hout
    rw [rowsPicture, hnew]
    by_cases hcol : px / 10 < indent
    · simp only [if_pos hcol]
      exact hout (by omega)
    · simp only [if_neg hcol]
      rw [List.getElem?_take_of_lt (by omega)]
      cases hch : text[px / 10 - indent]? with
      | none =>
          have hend := List.getElem?_eq_none_iff.mp hch
          exact hout fun h => absurd h.2.2.1 (by omega)
      | some ch =>
          obtain ⟨hk, rfl⟩ := List.getElem?_eq_some_iff.mp hch
          by_cases hpixel : asciiPixel m.charset text[px / 10 - indent] (BitVec.ofNat 32 (px % 10))
              (BitVec.ofNat 32 (py % 10)) = true
          · simp only [if_pos hpixel]
            exact hin ⟨hrow, by omega, hk, hpixel⟩
          · simp only [if_neg hpixel]
            exact hout fun h => hpixel h.2.2.2
  · -- below the rows
    have hnone : ∀ l : List Row, l.length ≤ rows.length + 1 → l[py / 10]? = none :=
      fun l hl => List.getElem?_eq_none (by omega)
    rw [hout (by omega), hold, rowsPicture, rowsPicture, hnone rows (by omega), hnone _ (by simp)]

/-- Nothing of a text below the screen is drawn. -/
theorem Shows.below {xx yy : Int} {f : Framebuffer → Framebuffer} (hshows : Shows m rows buff)
    (hyy : 240 ≤ yy)
    (hpaints : Paints (showing m.hwW (plain c))
      (On m.hwW (InText (asciiPixel m.charset) text xx yy)) f) : Shows m rows (f buff) := by
  intro i hi
  rw [(hpaints buff i).2, hshows i hi]
  intro hon
  obtain ⟨-, k, x, y, _, _, hy, _, _, hat⟩ := hon
  have hlt := rowOf_lt m.hwW hi
  omega

/-! ## The text in memory -/

/-- The text with NULs behind it, up to `room`. -/
structure Spells (room : Nat) (str : CString) (text : List UInt8) : Prop where
  chars : ∀ k, ∀ h : k < text.length, str k = text[k]
  rest : ∀ k, text.length ≤ k → k < room → str k = 0
  zero : 0 ∉ text

namespace Spells

variable {room : Nat} {str : CString}

theorem drop (h : Spells room str text) (n : Nat) :
    Spells (room - n) (fun i => str (n + i)) (text.drop n) := by
  refine ⟨fun k hk => ?_, fun k hk hroom => ?_, fun hmem => h.zero (List.mem_of_mem_drop hmem)⟩
  · rw [List.length_drop] at hk
    rw [List.getElem_drop]
    exact h.chars (n + k) (by omega)
  · rw [List.length_drop] at hk
    exact h.rest (n + k) (by omega) (by omega)

theorem kStrlen (h : Spells room str text) (hroom : text.length < room) (hmax : room ≤ 190) :
    Libk.kStrlen str 190 = text.length := by
  refine (kStrlen_isLength str 190).unique ⟨by omega, fun n hn => ?_, fun _ => ?_⟩
  · rw [h.chars n hn]
    exact fun heq => h.zero (heq ▸ List.getElem_mem hn)
  · exact h.rest _ (Nat.le_refl _) hroom

end Spells

/-- The stores of a text, over what was there before. -/
theorem foldl_update_zipIdx (text : List UInt8) : ∀ (start : Nat) (str : CString) (i : Nat),
    (text.zipIdx start).foldl (fun str e => Function.update str e.2 e.1) str i =
      if start ≤ i then (text[i - start]?).getD (str i) else str i := by
  induction text with
  | nil => simp
  | cons ch text ih =>
      intro start str i
      rw [List.zipIdx_cons, List.foldl_cons, ih]
      rcases Nat.lt_trichotomy i start with hlt | rfl | hgt
      · rw [if_neg (by omega), if_neg (by omega), Function.update_of_ne (by omega)]
      · rw [if_neg (by omega), if_pos (Nat.le_refl _), Nat.sub_self, Function.update_self]
        rfl
      · obtain ⟨k, rfl⟩ : ∃ k, i = start + 1 + k := ⟨i - (start + 1), by omega⟩
        rw [if_pos (by omega), if_pos (by omega), Function.update_of_ne (by omega),
          Nat.add_sub_cancel_left, show start + 1 + k - start = k + 1 by omega]
        rfl

theorem spells_formatted (stack : CString) (hzero : 0 ∉ text) :
    Spells 190 (formatted stack text.zipIdx) text := by
  have hat : ∀ i, formatted stack text.zipIdx i =
      (text[i]?).getD (if i < 190 then 0 else stack i) := by
    intro i
    rw [formatted, foldl_update_zipIdx, if_pos (Nat.zero_le _), Nat.sub_zero]
  refine ⟨fun k hk => ?_, fun k hk hroom => ?_, hzero⟩
  · rw [hat, List.getElem?_eq_getElem hk]
    rfl
  · rw [hat, List.getElem?_eq_none hk]
    exact if_pos hroom

end

end OSExt.Gui
