import Mathlib.Tactic
import Mathlib.Algebra.BigOperators.Intervals

/-!
# Counting down

The loop that takes amounts off a number until it is no longer positive, and
counts how many. With its last step undone it splits a number in units of varying
length: the unit it falls in, and what is left in there.
-/

namespace OSExt.Lib

open Finset

variable {size : Nat} {amount : Nat → Nat}

/-- `while (x > 0) { x -= amount(c); c++; }`, for a counter of `size` values. -/
def countDown (size : Nat) (amount : Nat → Nat) : Nat → Nat → Int → Option (Nat × Int)
  | 0, _, _ => none
  | fuel + 1, c, x =>
      if 0 < x then countDown size amount fuel ((c + 1) % size) (x - amount c)
      else some (c, x)

/-- `countDown`, and then `c--; x += amount(c);`. -/
def unitOf (size : Nat) (amount : Nat → Nat) (fuel c : Nat) (x : Int) : Option (Nat × Int) :=
  (countDown size amount fuel c x).map fun (c, x) =>
    let c := (c + (size - 1)) % size
    (c, x + amount c)

/-- The counters whose amounts the loop asks for, in order. -/
def asked (size : Nat) (amount : Nat → Nat) : Nat → Nat → Int → List Nat
  | 0, _, _ => []
  | fuel + 1, c, x =>
      if 0 < x then c :: asked size amount fuel ((c + 1) % size) (x - amount c) else []

/-- The total of the units from `c` up to `d`. -/
def upTo (amount : Nat → Nat) (c d : Nat) : Nat := ∑ i ∈ Ico c d, amount i

@[simp] theorem upTo_self (c : Nat) : upTo amount c c = 0 := by
  simp [upTo]

theorem upTo_succ {c d : Nat} (h : c ≤ d) : upTo amount c (d + 1) = upTo amount c d + amount d :=
  Finset.sum_Ico_succ_top h _

theorem upTo_head {c d : Nat} (h : c < d) : upTo amount c d = amount c + upTo amount (c + 1) d :=
  Finset.sum_eq_sum_Ico_succ_bot h _

theorem upTo_const (a c n : Nat) : upTo (fun _ => a) c (c + n) = n * a := by
  simp [upTo]

/-- The loop leaves the first counter at which the units reach `x`. -/
theorem countDown_spec {n : Nat} : ∀ {fuel c : Nat} {x : Int}, 0 < x →
    x ≤ upTo amount c (c + n) → c + n ≤ size → n < fuel →
    ∃ d, c ≤ d ∧ d < c + n ∧ 0 < x - upTo amount c d ∧ x - upTo amount c d ≤ amount d ∧
      countDown size amount fuel c x = some ((d + 1) % size, x - upTo amount c (d + 1)) := by
  induction n with
  | zero =>
      intro fuel c x hx hsum
      rw [Nat.add_zero, upTo_self] at hsum
      omega
  | succ n ih =>
      intro fuel c x hx hsum hsize hfuel
      obtain ⟨fuel, rfl⟩ : ∃ f, fuel = f + 1 := ⟨fuel - 1, by omega⟩
      rw [countDown, if_pos hx]
      by_cases hlast : x ≤ amount c
      · -- this unit is the last one: the next test fails
        refine ⟨c, le_refl _, by omega, by simpa using hx, by simpa using hlast, ?_⟩
        obtain ⟨fuel, rfl⟩ : ∃ f, fuel = f + 1 := ⟨fuel - 1, by omega⟩
        rw [countDown, if_neg (by omega), upTo_succ (le_refl c), upTo_self, Nat.zero_add]
      · have hhead : upTo amount c (c + (n + 1))
            = amount c + upTo amount (c + 1) (c + 1 + n) := by
          rw [upTo_head (by omega)]
          congr 2
          omega
        have hn : 0 < n := by
          rcases Nat.eq_zero_or_pos n with rfl | hn
          · rw [hhead, Nat.add_zero, upTo_self] at hsum
            omega
          · exact hn
        have hmod : (c + 1) % size = c + 1 := Nat.mod_eq_of_lt (by omega)
        rw [hmod]
        obtain ⟨d, hcd, hdn, hpos, hle, heq⟩ := @ih fuel (c + 1) (x - amount c)
          (by omega) (by rw [hhead] at hsum; push_cast at hsum; omega) (by omega) (by omega)
        have hsplit : upTo amount c d = amount c + upTo amount (c + 1) d := upTo_head (by omega)
        have hsplit' : upTo amount c (d + 1) = amount c + upTo amount (c + 1) (d + 1) :=
          upTo_head (by omega)
        refine ⟨d, by omega, by omega, by rw [hsplit]; push_cast; omega,
          by rw [hsplit]; push_cast; omega, ?_⟩
        rw [heq, hsplit']
        push_cast
        rw [sub_sub]

/-- The step undone is the last one. -/
theorem unitOf_of_countDown {fuel c d : Nat} {x r : Int} (hd : d < size)
    (h : countDown size amount fuel c x = some ((d + 1) % size, r - amount d)) :
    unitOf size amount fuel c x = some (d, r) := by
  have hback : ((d + 1) % size + (size - 1)) % size = d := by
    have hsum : d + 1 + (size - 1) = d + size := by omega
    rw [Nat.mod_add_mod, hsum, Nat.add_mod_right, Nat.mod_eq_of_lt hd]
  rw [unitOf, h, Option.map_some]
  show some (((d + 1) % size + (size - 1)) % size, _) = _
  rw [hback, sub_add_cancel]

/-- **The unit `x` falls in**, and what is left of `x` in it: more than nothing,
and at most the whole unit. -/
theorem unitOf_spec (size : Nat) (amount : Nat → Nat) {n fuel c : Nat} {x : Int} (hx : 0 < x)
    (hsum : x ≤ upTo amount c (c + n)) (hsize : c + n ≤ size) (hfuel : n < fuel) :
    ∃ (d : Nat) (r : Int), c ≤ d ∧ d < c + n ∧ 0 < r ∧ r ≤ amount d ∧
      x = upTo amount c d + r ∧ unitOf size amount fuel c x = some (d, r) := by
  obtain ⟨d, hcd, hdn, hpos, hle, heq⟩ := countDown_spec hx hsum hsize hfuel
  refine ⟨d, x - upTo amount c d, hcd, hdn, hpos, hle, by omega,
    unitOf_of_countDown (by omega) ?_⟩
  rw [heq, upTo_succ hcd]
  push_cast
  rw [sub_sub]

/-! ## Counters that wrap -/

/-- Amounts that are never 0 take any number down, even where the counter wraps. -/
theorem countDown_ends (hpos : ∀ c, 0 < amount c) : ∀ {fuel c : Nat} {x : Int}, c < size →
    0 < x → x < fuel → ∃ (d : Nat) (r : Int), d < size ∧ 0 < r ∧ r ≤ amount d ∧
      countDown size amount fuel c x = some ((d + 1) % size, r - amount d) := by
  intro fuel
  induction fuel with
  | zero => exact fun _ hx hfuel => absurd hfuel (by omega)
  | succ fuel ih =>
      intro c x hc hx hfuel
      rw [countDown, if_pos hx]
      by_cases hlast : x ≤ amount c
      · refine ⟨c, x, hc, hx, hlast, ?_⟩
        obtain ⟨fuel, rfl⟩ : ∃ f, fuel = f + 1 := ⟨fuel - 1, by omega⟩
        rw [countDown, if_neg (by omega)]
      · have hstep := hpos c
        exact ih (Nat.mod_lt _ (by omega)) (by omega) (by omega)

/-- There is a unit for every number then. -/
theorem unitOf_ends (hpos : ∀ c, 0 < amount c) {fuel c : Nat} {x : Int} (hc : c < size)
    (hx : 0 < x) (hfuel : x < fuel) : ∃ (d : Nat) (r : Int), d < size ∧ 0 < r ∧ r ≤ amount d ∧
      unitOf size amount fuel c x = some (d, r) := by
  obtain ⟨d, r, hd, hr, hle, h⟩ := countDown_ends hpos hc hx hfuel
  exact ⟨d, r, hd, hr, hle, unitOf_of_countDown hd h⟩

/-- Where `n` units reach `x`, no others are asked for. -/
theorem asked_lt {n : Nat} : ∀ {fuel c : Nat} {x : Int}, x ≤ upTo amount c (c + n) →
    c + n ≤ size → ∀ i ∈ asked size amount fuel c x, c ≤ i ∧ i < c + n := by
  induction n with
  | zero =>
      intro fuel c x hsum _ i hi
      rw [Nat.add_zero, upTo_self] at hsum
      cases fuel with
      | zero => exact nomatch hi
      | succ fuel =>
          rw [asked, if_neg (by omega)] at hi
          exact nomatch hi
  | succ n ih =>
      intro fuel c x hsum hsize i hi
      cases fuel with
      | zero => exact nomatch hi
      | succ fuel =>
          rw [asked] at hi
          split at hi
          · rcases List.mem_cons.mp hi with rfl | hi
            · omega
            · have hhead : upTo amount c (c + (n + 1))
                  = amount c + upTo amount (c + 1) (c + 1 + n) := by
                rw [upTo_head (by omega)]
                congr 2
                omega
              rw [hhead] at hsum
              push_cast at hsum
              by_cases hwrap : c + 1 < size
              · rw [Nat.mod_eq_of_lt hwrap] at hi
                have := ih (by omega) (by omega) i hi
                omega
              · -- the counter wraps behind the last unit, and nothing is left
                obtain rfl : n = 0 := by omega
                rw [Nat.add_zero, upTo_self] at hsum
                cases fuel with
                | zero => exact nomatch hi
                | succ fuel =>
                    rw [asked, if_neg (by omega)] at hi
                    exact nomatch hi
          · exact nomatch hi

end OSExt.Lib
