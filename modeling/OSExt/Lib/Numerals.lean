import Mathlib.Tactic

/-!
# Numerals

A number written in a base up to 16, highest digit first, as ASCII bytes. The last digit
is the remainder, the digits before it are the numeral of the quotient, and a number has
one numeral only. Read back digit by digit a numeral gives its number.
-/

namespace OSExt.Lib

/-- The digits of `a`, without leading zeros. -/
def numeral (base a : Nat) : List UInt8 := (Nat.toDigits base a).map Char.toUInt8

/-- The byte of one digit. -/
def digitByte (d : Nat) : UInt8 := (Nat.digitChar d).toUInt8

variable {base a b : Nat}

theorem digitByte_injective {d e : Nat} (hd : d < 16) (he : e < 16)
    (h : digitByte d = digitByte e) : d = e := by
  have hbytes : ∀ d < 16, ∀ e < 16, digitByte d = digitByte e → d = e := by decide
  exact hbytes d hd e he h

theorem numeral_of_lt (h : a < base) : numeral base a = [digitByte a] := by
  rw [numeral, Nat.toDigits_of_lt_base h]
  rfl

/-- **The last digit** comes off the end. -/
theorem numeral_of_le (hb : 1 < base) (h : base ≤ a) :
    numeral base a = numeral base (a / base) ++ [digitByte (a % base)] := by
  rw [numeral, Nat.toDigits_of_base_le hb h, List.map_append]
  rfl

theorem numeral_ne_nil (base a : Nat) : numeral base a ≠ [] := by
  intro h
  exact Nat.toDigits_ne_nil (List.map_eq_nil_iff.mp h)

/-- A numeral has no NUL. -/
theorem zero_not_mem_numeral (hb : 1 < base) (h16 : base ≤ 16) : ∀ a, 0 ∉ numeral base a := by
  have hbytes : ∀ d < 16, digitByte d ≠ 0 := by decide
  intro a
  induction a using Nat.strongRecOn with
  | ind a ih =>
    intro hmem
    by_cases h : a < base
    · rw [numeral_of_lt h, List.mem_singleton] at hmem
      exact hbytes a (by omega) hmem.symm
    · rw [numeral_of_le hb (by omega), List.mem_append, List.mem_singleton] at hmem
      rcases hmem with hmem | hmem
      · exact ih _ (Nat.div_lt_self (by omega) hb) hmem
      · have hlt := Nat.mod_lt a (show 0 < base by omega)
        exact hbytes _ (by omega) hmem.symm

theorem length_numeral_le_iff {k : Nat} (hb : 1 < base) (hk : 0 < k) :
    (numeral base a).length ≤ k ↔ a < base ^ k := by
  rw [numeral, List.length_map, Nat.length_toDigits_le_iff hb hk]

/-- A smaller number has no longer numeral. -/
theorem length_numeral_mono (hb : 1 < base) (h : a ≤ b) :
    (numeral base a).length ≤ (numeral base b).length := by
  have hpos : 0 < (numeral base b).length := List.length_pos_iff.mpr (numeral_ne_nil base b)
  rw [length_numeral_le_iff hb hpos]
  exact Nat.lt_of_le_of_lt h ((length_numeral_le_iff hb hpos).mp (Nat.le_refl _))

/-- **A number has one numeral.** -/
theorem numeral_injective (hb : 1 < base) (h16 : base ≤ 16) :
    ∀ {a b : Nat}, numeral base a = numeral base b → a = b := by
  intro a
  induction a using Nat.strongRecOn with
  | ind a ih =>
      intro b h
      have hlast : ∀ x y : Nat, digitByte (x % base) = digitByte (y % base) → x % base = y % base :=
        fun x y => digitByte_injective (Nat.lt_of_lt_of_le (Nat.mod_lt x (by omega)) h16)
          (Nat.lt_of_lt_of_le (Nat.mod_lt y (by omega)) h16)
      by_cases ha : a < base
      · by_cases hb' : b < base
        · rw [numeral_of_lt ha, numeral_of_lt hb', List.singleton_inj] at h
          exact digitByte_injective (by omega) (by omega) h
        · rw [numeral_of_lt ha, numeral_of_le hb (by omega)] at h
          have hlen := congrArg List.length h
          have hpos := List.length_pos_iff.mpr (numeral_ne_nil base (b / base))
          rw [List.length_append, List.length_singleton, List.length_singleton] at hlen
          omega
      · by_cases hb' : b < base
        · rw [numeral_of_le hb (by omega), numeral_of_lt hb'] at h
          have hlen := congrArg List.length h
          have hpos := List.length_pos_iff.mpr (numeral_ne_nil base (a / base))
          rw [List.length_append, List.length_singleton, List.length_singleton] at hlen
          omega
        · rw [numeral_of_le hb (Nat.le_of_not_lt ha), numeral_of_le hb (Nat.le_of_not_lt hb')] at h
          obtain ⟨hinit, hdigit⟩ := List.append_inj' h rfl
          have hquot : a / base = b / base :=
            ih (a / base) (Nat.div_lt_self (by omega) hb) hinit
          have hrem := hlast a b (List.singleton_inj.mp hdigit)
          rw [← Nat.div_add_mod a base, ← Nat.div_add_mod b base, hquot, hrem]

/-! ## Reading back -/

/-- The digit a byte stands for. -/
def digitOf (c : UInt8) : Nat := if c.toNat < 58 then c.toNat - 48 else c.toNat - 87

/-- The number a string of digits stands for. -/
def valueOf (base : Nat) (text : List UInt8) : Nat :=
  text.foldl (fun value c => value * base + digitOf c) 0

theorem digitOf_digitByte {d : Nat} (hd : d < 16) : digitOf (digitByte d) = d := by
  have hall : ∀ d < 16, digitOf (digitByte d) = d := by decide
  exact hall d hd

theorem valueOf_concat (base : Nat) (text : List UInt8) (c : UInt8) :
    valueOf base (text ++ [c]) = valueOf base text * base + digitOf c := by
  rw [valueOf, List.foldl_append]
  rfl

/-- **Reading a numeral back** gives the number. -/
theorem valueOf_numeral (hb : 1 < base) (h16 : base ≤ 16) : ∀ a, valueOf base (numeral base a) = a := by
  intro a
  induction a using Nat.strongRecOn with
  | ind a ih =>
      by_cases ha : a < base
      · rw [numeral_of_lt ha, valueOf, List.foldl_cons, List.foldl_nil,
          digitOf_digitByte (by omega), Nat.zero_mul, Nat.zero_add]
      · have hrem : a % base < 16 := Nat.lt_of_lt_of_le (Nat.mod_lt a (by omega)) h16
        rw [numeral_of_le hb (by omega), valueOf_concat, ih (a / base) (Nat.div_lt_self (by omega) hb),
          digitOf_digitByte hrem, Nat.mul_comm, Nat.div_add_mod]

/-- A numeral of a positive number does not start with a zero. -/
theorem head_numeral_ne_zero (hb : 1 < base) (h16 : base ≤ 16) :
    ∀ {a : Nat}, 0 < a → (numeral base a).head? ≠ some (digitByte 0) := by
  intro a
  induction a using Nat.strongRecOn with
  | ind a ih =>
      intro hpos
      by_cases ha : a < base
      · rw [numeral_of_lt ha, List.head?_cons]
        intro h
        have hzero := digitByte_injective (by omega) (by omega) (Option.some.inj h)
        omega
      · rw [numeral_of_le hb (by omega), List.head?_append_of_ne_nil _ (numeral_ne_nil _ _)]
        exact ih (a / base) (Nat.div_lt_self hpos hb) (Nat.div_pos (by omega) (by omega))

end OSExt.Lib
