import Mathlib.Tactic
import Mathlib.Data.BitVec
import OSExt.Lib.Arm

/-!
# Buffers in a wrapping address space

A buffer is a number of bytes from a base on; addresses wrap. Which offsets of it a loop
touches is arithmetic: bytes that follow each other lie inside exactly if the last one does,
and rows that begin no further than a few bytes behind each other if the last row does.
-/

namespace OSExt.Lib

/-- The address is among the `len` bytes from `base` on. -/
def Within (base : Word) (len : Nat) (a : Word) : Prop := (a - base).toNat < len

instance (base : Word) (len : Nat) (a : Word) : Decidable (Within base len a) :=
  inferInstanceAs (Decidable (_ < _))

theorem within_add {base : Word} {len n : Nat} :
    Within base len (base + BitVec.ofNat 32 n) ↔ n % 2 ^ 32 < len := by
  unfold Within
  rw [add_sub_cancel_left, BitVec.toNat_ofNat]

section

variable {s w p t : Nat}

/-- `w` bytes from `s` on, counted modulo `t`, are all below `p`. -/
theorem run_inside (hs : s < t) (hp : p < t) (hw : 0 < w) (h : ∀ k < w, (s + k) % t < p) :
    s + w ≤ p := by
  have h0 := h 0 hw
  rw [Nat.add_zero, Nat.mod_eq_of_lt hs] at h0
  by_contra hover
  -- the first byte behind the buffer would be one of them
  have hbehind := h (p - s) (by omega)
  rw [show s + (p - s) = p by omega, Nat.mod_eq_of_lt hp] at hbehind
  exact absurd hbehind (Nat.lt_irrefl p)

/-- **Rows of `w` bytes**, each at most three bytes behind the end of the one before: they are all
inside exactly if the last one is. -/
theorem rows_inside_iff {step n : Nat} (hs : s < t) (hp : p + 3 < t) (hw : 0 < w) (hn : 0 < n)
    (hstep : step ≤ w + 3) :
    (∀ y < n, ∀ k < w, (s + step * y + k) % t < p) ↔ s + step * (n - 1) + w ≤ p := by
  refine ⟨fun h => ?_, fun h y hy k hk => ?_⟩
  · have hall : ∀ y < n, s + step * y + w ≤ p := by
      intro y
      induction y with
      | zero =>
          intro hy
          rw [Nat.mul_zero, Nat.add_zero]
          exact run_inside hs (by omega) hw fun k hk => by simpa using h 0 hy k hk
      | succ y ih =>
          intro hy
          have hbefore := ih (by omega)
          have hnext : step * (y + 1) = step * y + step := Nat.mul_succ step y
          exact run_inside (by omega) (by omega) hw (h (y + 1) hy)
    exact hall (n - 1) (by omega)
  · have hle : step * y ≤ step * (n - 1) := Nat.mul_le_mul_left step (by omega)
    rw [Nat.mod_eq_of_lt (by omega)]
    omega

end

end OSExt.Lib
