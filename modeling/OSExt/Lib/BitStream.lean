import Mathlib.Tactic
import Mathlib.Data.List.GetD

/-!
# Bit streams

Bits packed into bytes, the lowest bit of a byte first. While they are packed the whole
bytes are written and the bits of the next one wait in a buffer; reading bit `i` back takes
byte `i / 8`, bit `i % 8`. A loop over a range keeps what each of its rounds keeps.
-/

namespace OSExt.Lib

/-- Bit `i` of a string of bytes. -/
def bitAt (bytes : List UInt8) (i : Nat) : Bool := (bytes.getD (i / 8) 0).toNat.testBit (i % 8)

/-- The first `n` bits are packed, the last `index` of them in the buffer. -/
structure Packed (bits : Nat → Bool) (n : Nat) (written : List UInt8) (buffer index : Nat) :
    Prop where
  count : 8 * written.length + index = n
  buffer_lt : buffer < 2 ^ index
  bit : ∀ i < n, bitAt (written ++ [UInt8.ofNat buffer]) i = bits i

section

variable {bits : Nat → Bool} {n buffer index : Nat} {written : List UInt8}

theorem bitAt_written (last : List UInt8) {i : Nat} (h : i / 8 < written.length) :
    bitAt (written ++ last) i = bitAt written i := by
  unfold bitAt
  rw [List.getD_append _ _ _ _ h]

theorem bitAt_buffer (hbuffer : buffer < 2 ^ 8) {i : Nat} (h : i / 8 = written.length) :
    bitAt (written ++ [UInt8.ofNat buffer]) i = buffer.testBit (i % 8) := by
  unfold bitAt
  rw [List.getD_append_right _ _ _ _ (Nat.le_of_eq h.symm), h, Nat.sub_self,
    List.getD_cons_zero, UInt8.toNat_ofNat', Nat.mod_eq_of_lt hbuffer]

theorem packed_nil (bits : Nat → Bool) : Packed bits 0 [] 0 0 :=
  ⟨rfl, Nat.zero_lt_one, fun _ hi => absurd hi (Nat.not_lt_zero _)⟩

/-- **One more bit** goes into the buffer. -/
theorem Packed.push (h : Packed bits n written buffer index) (hindex : index < 8) :
    Packed bits (n + 1) written (if bits n = true then buffer ||| 1 <<< index else buffer)
      (index + 1) := by
  have hcount := h.count
  have hpow : 2 ^ (index + 1) ≤ 2 ^ 8 := Nat.pow_le_pow_right (by omega) (by omega)
  have hlt : buffer < 2 ^ (index + 1) :=
    Nat.lt_trans h.buffer_lt (Nat.pow_lt_pow_right (by omega) (by omega))
  have hone : 1 <<< index < 2 ^ (index + 1) := by
    rw [Nat.one_shiftLeft]
    exact Nat.pow_lt_pow_right (by omega) (by omega)
  obtain ⟨pushed, hpushed⟩ :
      ∃ b, b = if bits n = true then buffer ||| 1 <<< index else buffer := ⟨_, rfl⟩
  have hpushed_lt : pushed < 2 ^ (index + 1) := by
    rw [hpushed]
    by_cases hbit : bits n = true
    · rw [if_pos hbit]
      exact Nat.or_lt_two_pow hlt hone
    · rw [if_neg hbit]
      exact hlt
  have htest : ∀ j ≤ index, pushed.testBit j = if j = index then bits n else buffer.testBit j := by
    intro j hj
    have hself : buffer.testBit index = false := Nat.testBit_lt_two_pow h.buffer_lt
    rw [hpushed]
    by_cases hbit : bits n = true
    · rw [if_pos hbit, Nat.testBit_or, Nat.one_shiftLeft, Nat.testBit_two_pow]
      by_cases hself' : j = index
      · rw [if_pos hself', hself', hbit, decide_eq_true rfl, Bool.or_true]
      · rw [if_neg hself', decide_eq_false (fun heq => hself' heq.symm), Bool.or_false]
    · rw [if_neg hbit]
      by_cases hself' : j = index
      · rw [if_pos hself', hself', hself, Bool.eq_false_iff.mpr hbit]
      · rw [if_neg hself']
  rw [← hpushed]
  constructor
  case count => omega
  case buffer_lt => exact hpushed_lt
  case bit =>
    intro i hi
    by_cases hold : i / 8 < written.length
    · rw [bitAt_written _ hold, ← h.bit i (by omega), bitAt_written _ hold]
    · -- the bits of the buffer, of which the new one is the last
      have hlast : i / 8 = written.length := by omega
      rw [bitAt_buffer (by omega) hlast, htest _ (by omega)]
      by_cases hnew : i = n
      · rw [if_pos (by omega), hnew]
      · rw [if_neg (by omega), ← h.bit i (by omega), bitAt_buffer (by omega) hlast]

/-- A full buffer is written. -/
theorem Packed.flush (h : Packed bits n written buffer 8) :
    Packed bits n (written ++ [UInt8.ofNat buffer]) 0 0 := by
  have hcount := h.count
  constructor
  case count => rw [List.length_append, List.length_singleton]; omega
  case buffer_lt => exact Nat.zero_lt_one
  case bit =>
    intro i hi
    rw [bitAt_written _ (by rw [List.length_append, List.length_singleton]; omega)]
    exact h.bit i hi

end

/-! ## Loops over a range -/

/-- **What a round keeps**, all rounds keep. -/
theorem foldl_range_induct {σ : Type} {f : σ → Nat → σ} (I : Nat → σ → Prop) {s : σ} (h0 : I 0 s) :
    ∀ n, (∀ i < n, ∀ s, I i s → I (i + 1) (f s i)) → I n ((List.range n).foldl f s) := by
  intro n
  induction n with
  | zero => exact fun _ => h0
  | succ n ih =>
      intro hstep
      rw [List.range_succ, List.foldl_append]
      exact hstep n (Nat.lt_succ_self n) _ (ih fun i hi => hstep i (Nat.lt_succ_of_lt hi))

end OSExt.Lib
