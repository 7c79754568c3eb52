import Mathlib.Tactic
import Mathlib.Data.BitVec

/-!
# Bit fields

A word packed by shifts and ors. A field is a run of bits with the value that goes there; as
long as every value fits its field and no two fields overlap, each is read back as its value,
and the bits between them are zero.
-/

namespace OSExt.Lib

variable {w : Nat}

/-- The `width` bits of a word from `lo` on, as a number. -/
def field (x : BitVec w) (lo width : Nat) : Nat := x.toNat / 2 ^ lo % 2 ^ width

theorem field_or (x y : BitVec w) (lo width : Nat) :
    field (x ||| y) lo width = field x lo width ||| field y lo width := by
  unfold field
  rw [BitVec.toNat_or, Nat.or_div_two_pow, Nat.or_mod_two_pow]

theorem field_zero (lo width : Nat) : field 0#w lo width = 0 := by
  unfold field
  rw [BitVec.toNat_zero, Nat.zero_div, Nat.zero_mod]

/-- A value and the bits it is put into. -/
structure Field (w : Nat) where
  lo : Nat
  width : Nat
  value : BitVec w

namespace Field

/-- The value, shifted to its bits. -/
def word (f : Field w) : BitVec w := f.value <<< f.lo

/-- The value needs no more bits than the field has, and the field lies in the word. -/
structure Fits (f : Field w) : Prop where
  value : f.value.toNat < 2 ^ f.width
  top : f.lo + f.width ≤ w

/-- No bit of the field is among the `width` bits from `lo` on. -/
def Apart (f : Field w) (lo width : Nat) : Prop := f.lo + f.width ≤ lo ∨ lo + width ≤ f.lo

theorem toNat_word {f : Field w} (hf : f.Fits) : f.word.toNat = f.value.toNat * 2 ^ f.lo := by
  have hlt : f.value.toNat * 2 ^ f.lo < 2 ^ w :=
    calc f.value.toNat * 2 ^ f.lo < 2 ^ f.width * 2 ^ f.lo :=
          Nat.mul_lt_mul_of_pos_right hf.value (Nat.two_pow_pos _)
      _ = 2 ^ (f.lo + f.width) := by rw [← Nat.pow_add, Nat.add_comm]
      _ ≤ 2 ^ w := Nat.pow_le_pow_right (by omega) hf.top
  rw [word, BitVec.toNat_shiftLeft, Nat.shiftLeft_eq, Nat.mod_eq_of_lt hlt]

theorem field_word {f : Field w} (hf : f.Fits) : field f.word f.lo f.width = f.value.toNat := by
  unfold field
  rw [toNat_word hf, Nat.mul_div_cancel _ (Nat.two_pow_pos _), Nat.mod_eq_of_lt hf.value]

theorem field_word_apart {f : Field w} (hf : f.Fits) {lo width : Nat} (h : f.Apart lo width) :
    field f.word lo width = 0 := by
  unfold field
  rw [toNat_word hf]
  rcases h with hbelow | habove
  · have hlt : f.value.toNat * 2 ^ f.lo < 2 ^ lo :=
      calc f.value.toNat * 2 ^ f.lo < 2 ^ f.width * 2 ^ f.lo :=
            Nat.mul_lt_mul_of_pos_right hf.value (Nat.two_pow_pos _)
        _ = 2 ^ (f.lo + f.width) := by rw [← Nat.pow_add, Nat.add_comm]
        _ ≤ 2 ^ lo := Nat.pow_le_pow_right (by omega) hbelow
    rw [Nat.div_eq_of_lt hlt, Nat.zero_mod]
  · obtain ⟨d, hd⟩ := Nat.exists_eq_add_of_le habove
    have hsplit : f.value.toNat * 2 ^ f.lo = 2 ^ width * (f.value.toNat * 2 ^ d) * 2 ^ lo := by
      rw [hd, Nat.pow_add, Nat.pow_add]
      ring
    rw [hsplit, Nat.mul_div_cancel _ (Nat.two_pow_pos _), Nat.mul_mod_right]

end Field

/-! ## Packed words -/

/-- All fields of a word. -/
def pack : List (Field w) → BitVec w
  | [] => 0#w
  | f :: fs => f.word ||| pack fs

/-- The bits no field has are zero. -/
theorem field_pack_gap {lo width : Nat} : ∀ {fs : List (Field w)}, (∀ f ∈ fs, f.Fits) →
    (∀ f ∈ fs, f.Apart lo width) → field (pack fs) lo width = 0 := by
  intro fs
  induction fs with
  | nil => exact fun _ _ => field_zero lo width
  | cons f fs ih =>
      intro hfits hapart
      rw [pack, field_or,
        Field.field_word_apart (hfits f List.mem_cons_self) (hapart f List.mem_cons_self),
        ih (fun g hg => hfits g (List.mem_cons_of_mem f hg))
          (fun g hg => hapart g (List.mem_cons_of_mem f hg)), Nat.or_zero]

/-- **Every field is read back** as the value that was put there. -/
theorem field_pack : ∀ {fs : List (Field w)}, (∀ f ∈ fs, f.Fits) →
    fs.Pairwise (fun f g => f.Apart g.lo g.width) → ∀ f ∈ fs,
      field (pack fs) f.lo f.width = f.value.toNat := by
  intro fs
  induction fs with
  | nil => exact fun _ _ f hf => absurd hf List.not_mem_nil
  | cons g fs ih =>
      intro hfits hapart f hf
      have hrest : ∀ f ∈ fs, f.Fits := fun f hf => hfits f (List.mem_cons_of_mem g hf)
      obtain ⟨hg, hapart⟩ := List.pairwise_cons.mp hapart
      rw [pack, field_or]
      rcases List.mem_cons.mp hf with rfl | hf
      · have hgap : field (pack fs) f.lo f.width = 0 :=
          field_pack_gap hrest fun h hh => (hg h hh).symm
        rw [hgap, Field.field_word (hfits f List.mem_cons_self), Nat.or_zero]
      · rw [Field.field_word_apart (hfits g List.mem_cons_self) (hg f hf), ih hrest hapart f hf,
          Nat.zero_or]

end OSExt.Lib
