import OSExt.Drivers.Calendar
import OSExt.Drivers.Systime
import OSExt.Lib.Arm

/-!
# The dialog that sets the time

`touchpad_is_arrow` and the loop of `set_time_dialog`: each round reads a report of the
touchpad, changes the number that is selected and then which one is. The numbers stay in
their ranges, and **every choice in the ranges can be reached**, also days that the month
does not have, minute 60 and second 60.
-/

namespace OSExt.Modules

open Lib Drivers

/-! ## The touchpad -/

/-- `struct touchpad_report` -/
structure TouchpadReport where
  contact : Bool
  proximity : BitVec 8
  x : BitVec 16
  y : BitVec 16
  xrel : BitVec 8
  yrel : BitVec 8
  pressed : Bool

/-- `enum touchpad_arrow` -/
inductive TouchpadArrow where
  | up
  | right
  | down
  | left

/-- `bswap16` -/
def bswap16 (s : BitVec 16) : BitVec 16 := ((s &&& 0xff) <<< 8) ||| ((s &&& 0xff00) >>> 8)

/-- What `touchpad_get_report` makes of the 11 bytes it reads from the controller. -/
def touchpadGetReport (buff : Nat → BitVec 8) : TouchpadReport where
  contact := buff 0 == 1
  proximity := buff 1
  x := bswap16 (buff 3 ++ buff 2)
  y := bswap16 (buff 5 ++ buff 4)
  xrel := buff 6
  yrel := buff 7
  pressed := buff 10 == 1

def touchpadMaxX : Nat := 0x0918
def touchpadMaxY : Nat := 0x069B

/-- `touchpad_is_arrow` -/
def touchpadIsArrow (arrow : TouchpadArrow) (rep : TouchpadReport) : Bool :=
  let fx := touchpadMaxX / 8
  let fy := touchpadMaxY / 8
  if !rep.pressed then false
  else
    match arrow with
    | .up => decide (rep.y.toNat ≥ touchpadMaxY - fy)
    | .right => decide (rep.x.toNat ≥ touchpadMaxX - fx)
    | .down => decide (rep.y.toNat ≤ fy)
    | .left => decide (rep.x.toNat ≤ fx)

/-! ## The dialog -/

/-- `selected` and `numbers`: year, month, day, hour, minute and second. -/
structure TimeDialog where
  selected : Nat
  numbers : Nat → Nat

namespace TimeDialog

def start : TimeDialog where
  selected := 0
  numbers
    | 0 => 2020
    | 1 => 1
    | 2 => 1
    | _ => 0

/-- `numbers[selected] = value` -/
def set (d : TimeDialog) (value : Nat) : TimeDialog :=
  { d with numbers := Function.update d.numbers d.selected value }

/-- `if (numbers[selected] < limit) numbers[selected]++;` -/
def raise (d : TimeDialog) (limit : Nat) : TimeDialog :=
  if d.numbers d.selected < limit then d.set (d.numbers d.selected + 1) else d

/-- `if (numbers[selected] > limit) numbers[selected]--;` -/
def lower (d : TimeDialog) (limit : Nat) : TimeDialog :=
  if d.numbers d.selected > limit then d.set (d.numbers d.selected - 1) else d

def arrowUp (d : TimeDialog) : TimeDialog :=
  match d.selected with
  | 0 => d.raise 2040
  | 1 => d.raise 12
  | 2 => d.raise 31
  | 3 => d.raise 23
  | 4 | 5 => d.raise 60
  | _ => d

def arrowDown (d : TimeDialog) : TimeDialog :=
  match d.selected with
  | 0 => d.lower 1970
  | 1 | 2 => d.lower 1
  | 3 | 4 | 5 => d.lower 0
  | _ => d

def arrowLeft (d : TimeDialog) : TimeDialog :=
  if d.selected > 0 then { d with selected := d.selected - 1 } else d

def arrowRight (d : TimeDialog) : TimeDialog :=
  if d.selected < 5 then { d with selected := d.selected + 1 } else d

/-- What one round of the loop does to `selected` and `numbers`. -/
def round (d : TimeDialog) (rep : TouchpadReport) : TimeDialog :=
  let d := if touchpadIsArrow .up rep then d.arrowUp else d
  let d := if touchpadIsArrow .down rep then d.arrowDown else d
  let d := if touchpadIsArrow .left rep then d.arrowLeft else d
  if touchpadIsArrow .right rep then d.arrowRight else d

/-- The loop, with the reports of its rounds until the escape key is pressed. -/
def run (reports : List TouchpadReport) : TimeDialog := reports.foldl round start

/-- The time the dialog sets. -/
def unix (d : TimeDialog) : Int :=
  systimeTimestampToUnix (d.numbers 0) (d.numbers 1) (d.numbers 2) (d.numbers 3) (d.numbers 4)
    (d.numbers 5)

end TimeDialog

/-- `set_time_dialog` -/
def setTimeDialog (reports : List TouchpadReport) (s : Systime) : Systime :=
  systimeSetUnix (TimeDialog.run reports).unix s

namespace TimeDialog

/-! ## What can be reached -/

/-- The range of each number. -/
def lowest : Nat → Nat
  | 0 => 1970
  | 1 | 2 => 1
  | _ => 0

def highest : Nat → Nat
  | 0 => 2040
  | 1 => 12
  | 2 => 31
  | 3 => 23
  | 4 | 5 => 60
  | _ => 0

structure InRange (d : TimeDialog) : Prop where
  selected : d.selected ≤ 5
  numbers : ∀ i, lowest i ≤ d.numbers i ∧ d.numbers i ≤ highest i

section

variable {d : TimeDialog}

theorem arrowUp_eq (h : d.selected ≤ 5) : d.arrowUp = d.raise (highest d.selected) := by
  obtain ⟨selected, numbers⟩ := d
  have hcases : ∀ i ≤ 5, TimeDialog.arrowUp ⟨i, numbers⟩ = raise ⟨i, numbers⟩ (highest i) := by
    intro i hi
    interval_cases i <;> rfl
  exact hcases selected h

theorem arrowDown_eq (h : d.selected ≤ 5) : d.arrowDown = d.lower (lowest d.selected) := by
  obtain ⟨selected, numbers⟩ := d
  have hcases : ∀ i ≤ 5, TimeDialog.arrowDown ⟨i, numbers⟩ = lower ⟨i, numbers⟩ (lowest i) := by
    intro i hi
    interval_cases i <;> rfl
  exact hcases selected h

theorem inRange_start : InRange start := by
  refine ⟨by decide, fun i => ?_⟩
  rcases i with _ | _ | _ | i
  · decide
  · decide
  · decide
  · exact ⟨Nat.le_refl _, Nat.zero_le _⟩

namespace InRange

theorem set (h : d.InRange) {value : Nat}
    (hvalue : lowest d.selected ≤ value ∧ value ≤ highest d.selected) : (d.set value).InRange := by
  refine ⟨h.selected, fun i => ?_⟩
  by_cases hi : i = d.selected
  · subst hi
    simpa [TimeDialog.set] using hvalue
  · simpa [TimeDialog.set, hi] using h.numbers i

theorem arrowUp (h : d.InRange) : d.arrowUp.InRange := by
  rw [arrowUp_eq h.selected, raise]
  have hrange := h.numbers d.selected
  split
  · next hlt => exact h.set (by omega)
  · exact h

theorem arrowDown (h : d.InRange) : d.arrowDown.InRange := by
  rw [arrowDown_eq h.selected, lower]
  have hrange := h.numbers d.selected
  split
  · next hlt => exact h.set (by omega)
  · exact h

theorem arrowLeft (h : d.InRange) : d.arrowLeft.InRange := by
  have hselected := h.selected
  unfold TimeDialog.arrowLeft
  split
  · exact ⟨by show d.selected - 1 ≤ 5; omega, h.numbers⟩
  · exact h

theorem arrowRight (h : d.InRange) : d.arrowRight.InRange := by
  unfold TimeDialog.arrowRight
  split
  · next hlt => exact ⟨by show d.selected + 1 ≤ 5; omega, h.numbers⟩
  · exact h

/-- **One round** keeps every number in its range, whatever is pressed. -/
theorem round (h : d.InRange) (rep : TouchpadReport) : (d.round rep).InRange := by
  have hite : ∀ {d : TimeDialog} {f : TimeDialog → TimeDialog} (c : Bool), d.InRange →
      (d.InRange → (f d).InRange) → (if c then f d else d).InRange := by
    intro d f c hd hf
    cases c
    · exact hd
    · exact hf hd
  exact hite _ (hite _ (hite _ (hite _ h arrowUp) arrowDown) arrowLeft) arrowRight

end InRange

theorem inRange_run (reports : List TouchpadReport) : (run reports).InRange := by
  unfold run
  induction reports using List.reverseRecOn with
  | nil => exact inRange_start
  | append_singleton reports rep ih =>
      rw [List.foldl_append]
      exact ih.round rep

/-! ## Everything in range can be reached -/

/-- The dialog gets here. -/
def Reached (d : TimeDialog) : Prop := ∃ reports, run reports = d

theorem Reached.round (h : d.Reached) (rep : TouchpadReport) : (d.round rep).Reached := by
  obtain ⟨reports, rfl⟩ := h
  refine ⟨reports ++ [rep], ?_⟩
  unfold run
  rw [List.foldl_append]
  rfl

/-- A finger in the middle of one edge of the touchpad. -/
def press : TouchpadArrow → TouchpadReport
  | .up => ⟨true, 0, 1000, touchpadMaxY, 0, 0, true⟩
  | .right => ⟨true, 0, touchpadMaxX, 800, 0, 0, true⟩
  | .down => ⟨true, 0, 1000, 0, 0, 0, true⟩
  | .left => ⟨true, 0, 0, 800, 0, 0, true⟩

theorem round_press (d : TimeDialog) : d.round (press .up) = d.arrowUp ∧
    d.round (press .down) = d.arrowDown ∧ d.round (press .left) = d.arrowLeft ∧
    d.round (press .right) = d.arrowRight := by
  refine ⟨?_, ?_, ?_, ?_⟩ <;> rfl

/-- **Any number can be selected.** -/
theorem Reached.select (h : d.Reached) {i : Nat} (hi : i ≤ 5) :
    Reached { d with selected := i } := by
  obtain ⟨selected, numbers⟩ := d
  have hleft : ∀ n, Reached ⟨n, numbers⟩ → Reached ⟨0, numbers⟩ := by
    intro n
    induction n with
    | zero => exact id
    | succ n ih =>
        intro hn
        have hround := hn.round (press .left)
        rw [(round_press _).2.2.1, arrowLeft, if_pos (Nat.succ_pos n)] at hround
        exact ih hround
  have hright : ∀ n ≤ 5, Reached ⟨n, numbers⟩ := by
    intro n
    induction n with
    | zero => exact fun _ => hleft selected h
    | succ n ih =>
        intro hn
        have hround := (ih (by omega)).round (press .right)
        rw [(round_press _).2.2.2, arrowRight, if_pos (Nat.lt_of_succ_le hn)] at hround
        exact hround
  exact hright i hi

theorem set_set (d : TimeDialog) (v w : Nat) : (d.set v).set w = d.set w := by
  simp [TimeDialog.set]

theorem numbers_set (d : TimeDialog) (v : Nat) : (d.set v).numbers d.selected = v := by
  simp [TimeDialog.set]

/-- **The selected number can be anything in its range.** -/
theorem Reached.set (h : d.Reached) {value : Nat}
    (hvalue : lowest d.selected ≤ value ∧ value ≤ highest d.selected) : (d.set value).Reached := by
  have hrange : d.InRange := by
    obtain ⟨reports, rfl⟩ := h
    exact inRange_run reports
  have hstart : (d.set (d.numbers d.selected)).Reached := by
    have hsame : d.set (d.numbers d.selected) = d := by simp [TimeDialog.set]
    rw [hsame]
    exact h
  have hup : ∀ v, (d.set v).Reached → v < highest d.selected → (d.set (v + 1)).Reached := by
    intro v hv hlt
    have hround := hv.round (press .up)
    have hnow : (d.set v).numbers (d.set v).selected = v := numbers_set d v
    rw [(round_press _).1, arrowUp_eq (d := d.set v) hrange.selected, raise, hnow] at hround
    rw [if_pos (show v < highest (d.set v).selected from hlt), set_set] at hround
    exact hround
  have hdown : ∀ v, (d.set (v + 1)).Reached → lowest d.selected < v + 1 → (d.set v).Reached := by
    intro v hv hlt
    have hround := hv.round (press .down)
    have hnow : (d.set (v + 1)).numbers (d.set (v + 1)).selected = v + 1 := numbers_set d _
    rw [(round_press _).2.1, arrowDown_eq (d := d.set _) hrange.selected, lower, hnow] at hround
    rw [if_pos (show v + 1 > lowest (d.set (v + 1)).selected from hlt), set_set] at hround
    exact hround
  have habove : ∀ n, d.numbers d.selected + n ≤ highest d.selected →
      (d.set (d.numbers d.selected + n)).Reached := by
    intro n
    induction n with
    | zero => exact fun _ => hstart
    | succ n ih =>
        intro hn
        rw [← Nat.add_assoc] at hn ⊢
        exact hup _ (ih (by omega)) (by omega)
  have hbelow : ∀ n v, v + n = d.numbers d.selected → lowest d.selected ≤ v →
      (d.set v).Reached := by
    intro n
    induction n with
    | zero =>
        intro v hv _
        rw [show v = d.numbers d.selected from hv]
        exact hstart
    | succ n ih => exact fun v hv hlow => hdown v (ih (v + 1) (by omega) (by omega)) (by omega)
  rcases Nat.le_total (d.numbers d.selected) value with hle | hle
  · have hreached := habove (value - d.numbers d.selected) (by omega)
    rwa [Nat.add_sub_cancel' hle] at hreached
  · exact hbelow (d.numbers d.selected - value) value (by omega) hvalue.1

/-- **The dialog reaches exactly what is in range.** -/
theorem reached_iff : d.Reached ↔ d.InRange := by
  constructor
  · intro h
    obtain ⟨reports, rfl⟩ := h
    exact inRange_run reports
  · intro h
    -- the numbers are set one after the other
    have hfirst : ∀ n ≤ 6,
        Reached ⟨0, fun i => if i < n then d.numbers i else start.numbers i⟩ := by
      intro n
      induction n with
      | zero => exact fun _ => ⟨[], rfl⟩
      | succ n ih =>
          intro hn
          have hset := ((ih (by omega)).select (i := n) (by omega)).set (h.numbers n)
          have hnext := hset.select (i := 0) (by omega)
          convert hnext using 2
          funext i
          simp only [TimeDialog.set, Function.update_apply]
          by_cases hi : i = n
          · subst hi
            simp
          · simp only [hi, if_false]
            congr 1
            simp
            omega
    have hnumbers : (fun i => if i < 6 then d.numbers i else start.numbers i) = d.numbers := by
      funext i
      split
      · rfl
      · next hi =>
          obtain ⟨j, rfl⟩ := Nat.exists_eq_add_of_le (Nat.not_lt.mp hi)
          have hhigh : d.numbers (6 + j) ≤ highest (6 + j) := (h.numbers (6 + j)).2
          rw [Nat.add_comm] at hhigh ⊢
          exact (Nat.le_zero.mp hhigh).symm
    have hall := (hfirst 6 (Nat.le_refl _)).select h.selected
    rw [hnumbers] at hall
    exact hall

end

end TimeDialog

end OSExt.Modules
