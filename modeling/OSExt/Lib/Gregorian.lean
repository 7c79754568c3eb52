import Mathlib.Tactic
import Mathlib.Algebra.BigOperators.Intervals

/-!
# The Gregorian calendar

Dates and times of the proleptic Gregorian calendar, and the seconds from the
start of 1970 to them. Leap seconds are left out, as in UTC clocks of this kind.
-/

namespace OSExt.Lib.Gregorian

open Finset

def Leap (y : Nat) : Prop := 4 ∣ y ∧ (100 ∣ y → 400 ∣ y)

instance (y : Nat) : Decidable (Leap y) := inferInstanceAs (Decidable (_ ∧ _))

def daysInYear (y : Nat) : Nat := if Leap y then 366 else 365

def daysInMonth (y m : Nat) : Nat :=
  if m = 2 then if Leap y then 29 else 28
  else if m = 4 ∨ m = 6 ∨ m = 9 ∨ m = 11 then 30
  else 31

/-- Days from the first day of year 1 to the first day of `y`. -/
def yearStart (y : Nat) : Nat := 365 * (y - 1) + (y - 1) / 4 - (y - 1) / 100 + (y - 1) / 400

/-- Days from the first day of the year to the first day of month `m`. -/
def monthStart (y m : Nat) : Nat := ∑ i ∈ Ico 1 m, daysInMonth y i

theorem yearStart_succ {y : Nat} (hy : 1 ≤ y) :
    yearStart (y + 1) = yearStart y + daysInYear y := by
  obtain ⟨z, rfl⟩ : ∃ z, y = z + 1 := ⟨y - 1, by omega⟩
  have h4 : 100 ∣ z + 1 → 4 ∣ z + 1 := fun h => Nat.dvd_trans (by omega) h
  have h100 : 400 ∣ z + 1 → 100 ∣ z + 1 := fun h => Nat.dvd_trans (by omega) h
  have hle : z / 100 ≤ z / 4 := Nat.div_le_div_left (by omega) (by omega)
  unfold yearStart daysInYear Leap
  simp only [Nat.add_sub_cancel, Nat.succ_div]
  by_cases d4 : 4 ∣ z + 1
  · by_cases d100 : 100 ∣ z + 1
    · by_cases d400 : 400 ∣ z + 1
      · simp only [d4, d100, d400, if_true, implies_true, and_self]
        omega
      · simp only [d4, d100, d400, if_true, if_false, imp_false, not_true, and_false]
        omega
    · have d400 : ¬ 400 ∣ z + 1 := fun h => d100 (h100 h)
      simp only [d4, d100, d400, if_true, if_false, false_imp_iff, and_self]
      omega
  · have d100 : ¬ 100 ∣ z + 1 := fun h => d4 (h4 h)
    have d400 : ¬ 400 ∣ z + 1 := fun h => d100 (h100 h)
    simp only [d4, d100, d400, if_false, false_and]
    omega

theorem yearStart_add_sum (a n : Nat) (ha : 1 ≤ a) :
    yearStart (a + n) = yearStart a + ∑ y ∈ Ico a (a + n), daysInYear y := by
  induction n with
  | zero => simp
  | succ n ih =>
      rw [← Nat.add_assoc, yearStart_succ (by omega), ih, Finset.sum_Ico_succ_top (by omega)]
      omega

/-- The months fill the year. -/
theorem monthStart_thirteen (y : Nat) : monthStart y 13 = daysInYear y := by
  by_cases h : Leap y <;>
    simp [monthStart, daysInMonth, daysInYear, h, Finset.sum_Ico_succ_top]

theorem daysInMonth_pos (y m : Nat) : 28 ≤ daysInMonth y m ∧ daysInMonth y m ≤ 31 := by
  unfold daysInMonth
  split_ifs <;> omega

theorem daysInYear_pos (y : Nat) : 365 ≤ daysInYear y ∧ daysInYear y ≤ 366 := by
  unfold daysInYear
  split_ifs <;> omega

/-- A date and a time of day, as six numbers. -/
structure DateTime where
  year : Nat
  month : Nat
  day : Nat
  hour : Nat
  minute : Nat
  second : Nat
  deriving DecidableEq

/-- The six numbers name a date and a time. -/
structure DateTime.Valid (d : DateTime) : Prop where
  month : 1 ≤ d.month ∧ d.month ≤ 12
  day : 1 ≤ d.day ∧ d.day ≤ daysInMonth d.year d.month
  hour : d.hour ≤ 23
  minute : d.minute ≤ 59
  second : d.second ≤ 59

/-- Days from the first day of 1970 to the first day of `y`. -/
def daysBefore (y : Nat) : Int := yearStart y - yearStart 1970

/-- Seconds from 1970-01-01 00:00:00. -/
def DateTime.seconds (d : DateTime) : Int :=
  (daysBefore d.year + monthStart d.year d.month + (d.day - 1)) * 86400
    + d.hour * 3600 + d.minute * 60 + d.second

example : DateTime.seconds ⟨2000, 3, 1, 0, 0, 0⟩ = 951868800 := by decide

end OSExt.Lib.Gregorian
