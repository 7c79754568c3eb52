import Mathlib.Tactic
import Mathlib.Data.BitVec

/-!
# The keypad

`keypad.c`: the keys stand in a matrix of 16 columns, with a register for each row. A scan
asks for one key after the other, and the registers may change in between, so that each
question has its own.
-/

namespace OSExt.Drivers

/-- `enum keycode` -/
inductive Keycode where
  | ret | enter | mathMinus | space | z | y | zero | question | on
  | x | w | v | three | u | t | s | one | pi | trig | tenPow
  | r | q | p | six | o | n | m | four | ee | squared
  | l | k | j | nine | i | h | g | seven | slash | ePow
  | f | e | d | c | b | a | equals | star | circumflex
  | var | minus | closingBracket | dot | openingBracket | five | cat | frac | del | scratch
  | flag | plus | doc | two | menu | eight | escape | tab
  | shift | ctrl | comma
deriving DecidableEq

namespace Keycode

/-- In the order of the enumeration. -/
def all : List Keycode :=
  [.ret, .enter, .mathMinus, .space, .z, .y, .zero, .question, .on,
   .x, .w, .v, .three, .u, .t, .s, .one, .pi, .trig, .tenPow,
   .r, .q, .p, .six, .o, .n, .m, .four, .ee, .squared,
   .l, .k, .j, .nine, .i, .h, .g, .seven, .slash, .ePow,
   .f, .e, .d, .c, .b, .a, .equals, .star, .circumflex,
   .var, .minus, .closingBracket, .dot, .openingBracket, .five, .cat, .frac, .del, .scratch,
   .flag, .plus, .doc, .two, .menu, .eight, .escape, .tab,
   .shift, .ctrl, .comma]

/-- `keycode_ascii` -/
def asciiTable : List UInt8 :=
  [0, 10, 0, 32, 122, 121, 48, 63, 0,
   120, 119, 118, 51, 117, 116, 115, 49, 0, 0, 0,
   114, 113, 112, 54, 111, 110, 109, 52, 0, 0,
   108, 107, 106, 57, 105, 104, 103, 55, 47, 0,
   102, 101, 100, 99, 98, 97, 61, 42, 94,
   0, 45, 41, 46, 40, 53, 0, 0, 127, 0,
   0, 43, 0, 50, 0, 56, 27, 0,
   0, 0, 44]

/-- `keymap_cas` -/
def keymapCas : List Nat :=
  [0, 1, 3, 4, 5, 6, 7, 8, 9,
   16, 17, 18, 19, 20, 21, 22, 23, 24, 25, 26,
   32, 33, 34, 35, 36, 37, 38, 39, 40, 41,
   48, 49, 50, 51, 52, 53, 54, 55, 56, 57,
   64, 65, 66, 68, 69, 70, 71, 72, 73,
   81, 82, 83, 84, 85, 86, 87, 88, 89, 90,
   96, 98, 99, 100, 101, 102, 103, 105,
   120, 121, 122]

def ascii (key : Keycode) : UInt8 := asciiTable.getD (all.idxOf key) 0
def bit (key : Keycode) : Nat := keymapCas.getD (all.idxOf key) 0

/-- The keys that `getAlphanumericKeyPressed` passes over. -/
def special : List Keycode :=
  [.ret, .enter, .mathMinus, .on, .pi, .trig, .tenPow, .ee, .squared, .ePow, .var, .cat, .frac,
   .del, .scratch, .flag, .doc, .menu, .escape, .tab, .shift, .ctrl]

end Keycode

/-- The registers, a row each. -/
abbrev KeypadData := Nat → BitVec 16

/-- `isKeyPressed` -/
def isKeyPressed (data : KeypadData) (key : Keycode) : Bool :=
  if key.bit / 16 ≤ 0x1f then data (key.bit / 16) &&& (1#16 <<< (key.bit % 16)) != 0 else false

/-- `getAlphanumericKeyPressed`, with the registers when it asks for each key -/
def getAlphanumericKeyPressed (data : Keycode → KeypadData) : UInt8 :=
  match (Keycode.all.filter (!Keycode.special.contains ·)).find?
    fun key => isKeyPressed (data key) key with
  | some key => key.ascii
  | none => 0

namespace Keycode

theorem mem_all (key : Keycode) : key ∈ all := by
  cases key <;> decide

/-- Every key has a place of its own in the matrix, and its row is one of the eight. -/
theorem bit_inj : (all.map bit).Nodup ∧ ∀ key ∈ all, key.bit / 16 < 8 := by decide +kernel

/-- A character that can be printed. -/
def Printable (c : UInt8) : Prop := 0x20 ≤ c ∧ c ≤ 0x7e

instance (c : UInt8) : Decidable (Printable c) := inferInstanceAs (Decidable (_ ∧ _))

theorem ascii_printable :
    ∀ key ∈ all, key ∉ special → key.ascii = 0 ∨ Printable key.ascii := by decide +kernel

end Keycode

/-- **What is typed can be printed.** -/
theorem getAlphanumericKeyPressed_printable (data : Keycode → KeypadData) :
    getAlphanumericKeyPressed data = 0 ∨ Keycode.Printable (getAlphanumericKeyPressed data) := by
  unfold getAlphanumericKeyPressed
  cases hfind : (Keycode.all.filter (!Keycode.special.contains ·)).find?
      fun key => isKeyPressed (data key) key with
  | none => exact Or.inl rfl
  | some key =>
      obtain ⟨hmem, hnot⟩ := List.mem_filter.mp (List.mem_of_find?_eq_some hfind)
      refine Keycode.ascii_printable key hmem fun hspecial => ?_
      rw [List.contains_iff_mem.mpr hspecial] at hnot
      exact Bool.false_ne_true hnot

end OSExt.Drivers
