import Mathlib.Tactic

/-!
# Byte memories

A memory is a byte for every address below `top`; address arithmetic wraps there.
Numbers are stored lowest byte first. What a fill, a copy or a store leaves at an
address is a lemma each, for ranges that do not wrap. An access is a range of bytes,
and lies inside an interval if every byte of it does.
-/

namespace OSExt.Lib

abbrev Bytes := Nat → UInt8

namespace Bytes

variable (top : Nat)

/-- The number in the bytes from an address on. -/
def number (m : Bytes) : Nat → Nat → Nat
  | _, 0 => 0
  | a, n + 1 => (m (a % top)).toNat + 256 * number m (a + 1) n

/-- The lowest `n` bytes of a number, stored from `a` on. -/
def store (m : Bytes) (a : Nat) : Nat → Nat → Bytes
  | 0, _ => m
  | n + 1, v => Function.update (store m a n v) ((a + n) % top) (UInt8.ofNat (v / 256 ^ n))

/-- The byte `v` in `n` places from `a` on. -/
def fill (m : Bytes) (a : Nat) (v : UInt8) : Nat → Bytes
  | 0 => m
  | n + 1 => Function.update (fill m a v n) ((a + n) % top) v

/-- `n` bytes copied one after the other. -/
def copy (m : Bytes) (dst src : Nat) : Nat → Bytes
  | 0 => m
  | n + 1 => Function.update (copy m dst src n) ((dst + n) % top) (copy m dst src n ((src + n) % top))

/-! ## Ranges that do not wrap -/

section NoWrap

variable {top} {m m' : Bytes} {a dst src n x : Nat}

theorem fill_apply (v : UInt8) (h : a + n ≤ top) :
    fill top m a v n x = if a ≤ x ∧ x < a + n then v else m x := by
  induction n with
  | zero => rw [fill, if_neg (by omega)]
  | succ n ih =>
      rw [fill, Nat.mod_eq_of_lt (by omega), Function.update_apply, ih (by omega)]
      by_cases hx : x = a + n
      · rw [if_pos hx, if_pos (by omega)]
      · rw [if_neg hx]
        exact if_congr (by omega) rfl rfl

/-- A copy between ranges that do not overlap. -/
theorem copy_apply (hdst : dst + n ≤ top) (hsrc : src + n ≤ top)
    (hdisj : src + n ≤ dst ∨ dst + n ≤ src) :
    copy top m dst src n x = if dst ≤ x ∧ x < dst + n then m (src + (x - dst)) else m x := by
  induction n generalizing x with
  | zero => rw [copy, if_neg (by omega)]
  | succ n ih =>
      have hread : copy top m dst src n (src + n) = m (src + n) := by
        rw [ih (by omega) (by omega) (by omega), if_neg (by omega)]
      rw [copy, Nat.mod_eq_of_lt (by omega), Nat.mod_eq_of_lt (by omega), hread,
        Function.update_apply, ih (by omega) (by omega) (by omega)]
      by_cases hx : x = dst + n
      · rw [if_pos hx, if_pos (by omega), show src + (x - dst) = src + n by omega]
      · rw [if_neg hx]
        exact if_congr (by omega) rfl rfl

theorem store_apply (v : Nat) (h : a + n ≤ top) :
    store top m a n v x =
      if a ≤ x ∧ x < a + n then UInt8.ofNat (v / 256 ^ (x - a)) else m x := by
  induction n with
  | zero => rw [store, if_neg (by omega)]
  | succ n ih =>
      rw [store, Nat.mod_eq_of_lt (by omega), Function.update_apply, ih (by omega)]
      by_cases hx : x = a + n
      · rw [if_pos hx, if_pos (by omega), show x - a = n by omega]
      · rw [if_neg hx]
        exact if_congr (by omega) rfl rfl

/-- A number depends on its bytes only, wherever they are. -/
theorem number_congr {b : Nat} (h : ∀ i < n, m ((a + i) % top) = m' ((b + i) % top)) :
    number top m a n = number top m' b n := by
  induction n generalizing a b with
  | zero => rfl
  | succ n ih =>
      have h0 := h 0 (by omega)
      rw [Nat.add_zero, Nat.add_zero] at h0
      rw [number, number, h0, ih fun i hi => ?_]
      have hi1 := h (i + 1) (by omega)
      rwa [show a + (i + 1) = a + 1 + i by omega, show b + (i + 1) = b + 1 + i by omega] at hi1

theorem number_lt (m : Bytes) : ∀ n a : Nat, number top m a n < 256 ^ n := by
  intro n
  induction n with
  | zero => exact fun a => Nat.one_pos
  | succ n ih =>
      intro a
      have hbyte := (m (a % top)).toNat_lt
      have hrest := ih (a + 1)
      rw [number, Nat.pow_succ]
      omega

/-- Where a number stands whose bytes are the lowest `n` of `v`. -/
theorem number_of_bytes : ∀ {n a v : Nat},
    (∀ i < n, m ((a + i) % top) = UInt8.ofNat (v / 256 ^ i)) → number top m a n = v % 256 ^ n := by
  intro n
  induction n with
  | zero =>
      intro a v _
      rw [number, Nat.pow_zero, Nat.mod_one]
  | succ n ih =>
      intro a v h
      have h0 := h 0 (by omega)
      rw [Nat.add_zero, Nat.pow_zero, Nat.div_one] at h0
      have hrest : number top m (a + 1) n = v / 256 % 256 ^ n := by
        refine ih fun i hi => ?_
        have hi1 := h (i + 1) (by omega)
        rwa [show a + (i + 1) = a + 1 + i by omega, Nat.pow_succ, Nat.mul_comm,
          ← Nat.div_div_eq_div_mul] at hi1
      have hbyte : (UInt8.ofNat v).toNat = v % 256 := UInt8.toNat_ofNat'
      rw [number, h0, hrest, hbyte, Nat.pow_succ 256 n, Nat.mul_comm (256 ^ n) 256, Nat.mod_mul]

/-- **A stored number reads back**, cut to its width. -/
theorem number_store (v : Nat) (h : a + n ≤ top) :
    number top (store top m a n v) a n = v % 256 ^ n := by
  refine number_of_bytes fun i hi => ?_
  rw [Nat.mod_eq_of_lt (by omega), store_apply v h, if_pos (by omega),
    show a + i - a = i by omega]

end NoWrap

end Bytes

/-! ## Accesses -/

/-- An access: its address and how many bytes it touches. -/
abbrev Access := Nat × Nat

namespace Access

variable (top : Nat)

/-- Every byte touched is in `[lo, hi)`. -/
def Inside (lo hi : Nat) (a : Access) : Prop :=
  ∀ i < a.2, lo ≤ (a.1 + i) % top ∧ (a.1 + i) % top < hi

variable {top} {lo hi a n : Nat}

theorem inside_of_le (hlo : lo ≤ a) (hhi : a + n ≤ hi) (htop : hi ≤ top) :
    Inside top lo hi (a, n) := by
  intro i hi'
  rw [Nat.mod_eq_of_lt (show a + i < top by omega)]
  omega

theorem inside_empty : Inside top lo hi (a, 0) := fun _ hi' => absurd hi' (Nat.not_lt_zero _)

/-- An access that starts in an interval below `top` leaves it where it is too long. -/
theorem inside_iff (hlo : lo ≤ a) (ha : a ≤ hi) (htop : hi < top) :
    Inside top lo hi (a, n) ↔ n = 0 ∨ a + n ≤ hi := by
  constructor
  · intro h
    by_contra hout
    -- the byte at `hi` is touched
    have hbyte := (h (hi - a) (by omega)).2
    rw [Nat.mod_eq_of_lt (by omega)] at hbyte
    omega
  · intro hor
    rcases hor with rfl | h
    · exact inside_empty
    · exact inside_of_le hlo h htop.le

/-- An access that starts outside is not inside. -/
theorem not_inside (hpos : 0 < n) (ha : a < top) (hout : a < lo ∨ hi ≤ a) :
    ¬ Inside top lo hi (a, n) := by
  intro h
  have hbyte := h 0 hpos
  rw [Nat.add_zero, Nat.mod_eq_of_lt ha] at hbyte
  omega

end Access

end OSExt.Lib
