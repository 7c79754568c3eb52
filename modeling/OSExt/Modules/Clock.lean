import OSExt.Drivers.Lcd
import OSExt.Modules.TimeDialog

/-!
# The clock on the screen

`drawfunc` of the clock module draws the face: a black field with a white frame, two digits
each for hour, minute and second, and two dots between them. The time is the system time.

What the dialog sets is a wrong date, but the time of day is the chosen one. **The face
shows it, and goes on with it**; only a second 0 is second 60 of the minute before.
-/

namespace OSExt.Modules

open Lib Drivers

/-- The digits and dots of `drawfunc`. -/
def drawTime (hwW : Bool) (charset : Nat → UInt8) (hr min sec : Nat) (buffer : Framebuffer) :
    Framebuffer :=
  let clockx : Int := 180
  let clocky : Int := 1
  let red : Colour := ⟨255, 0, 0⟩
  let digit (x : Int) (n : Nat) := framebufferWrite10pdigit hwW charset x clocky red n
  let pixel (x y : Int) := framebufferSetpixel hwW (BitVec.ofInt 32 x) (BitVec.ofInt 32 y) red
  let buffer := digit (clockx + 60) (sec % 10) buffer
  let buffer := digit (clockx + 50) (sec / 10 % 10) buffer
  let buffer := pixel (clockx + 47) (clocky + 3) buffer
  let buffer := pixel (clockx + 47) (clocky + 7) buffer
  let buffer := digit (clockx + 35) (min % 10) buffer
  let buffer := digit (clockx + 25) (min / 10 % 10) buffer
  let buffer := pixel (clockx + 23) (clocky + 3) buffer
  let buffer := pixel (clockx + 23) (clocky + 7) buffer
  let buffer := digit (clockx + 10) (hr % 10) buffer
  digit clockx (hr / 10 % 10) buffer

/-- `drawfunc`, with `draw_clock` -/
def drawfunc (hwW : Bool) (charset : Nat → UInt8) (fuel : Nat) (drawClock : Bool) (s : Systime)
    (buffer : Framebuffer) : Option Framebuffer :=
  if drawClock then do
    let buffer := framebufferFillrect hwW 180 1 70 10 ⟨0, 0, 0⟩ buffer
    let buffer := framebufferDrawrect hwW 179 0 72 12 ⟨255, 255, 255⟩ buffer
    let cells ← systimeUnixToTimestamp fuel (systimeUnix s)
      ⟨none, none, none, some 0, some 0, some 0⟩
    return drawTime hwW charset (cells.hour.getD 0) (cells.minute.getD 0) (cells.second.getD 0)
      buffer
  else some buffer

/-! ## The face -/

/-- The pixel is lit in the digit whose left edge is at `left`. -/
def InDigit (charset : Nat → UInt8) (left digit px py : Nat) : Prop :=
  ∃ x < 10, ∃ y < 10,
    isDigitPixel charset (BitVec.ofNat 32 digit) (BitVec.ofNat 32 x) (BitVec.ofNat 32 y) = true ∧
      px = left + x ∧ py = 1 + y

/-- The pixel is one of the two dots of a column. -/
def InDots (column px py : Nat) : Prop := px = column ∧ py = 4 ∨ px = column ∧ py = 8

/-- The pixel is lit on a face that shows this time. -/
def Lit (charset : Nat → UInt8) (hr min sec px py : Nat) : Prop :=
  InDigit charset 240 (sec % 10) px py ∨ InDigit charset 230 (sec / 10) px py ∨
    InDots 227 px py ∨
    InDigit charset 215 (min % 10) px py ∨ InDigit charset 205 (min / 10) px py ∨
    InDots 203 px py ∨
    InDigit charset 190 (hr % 10) px py ∨ InDigit charset 180 (hr / 10) px py

/-- The face, with its frame. -/
def OnFace (px py : Nat) : Prop := (179 ≤ px ∧ px < 251) ∧ py < 12

open scoped Classical in
/-- The picture of a face that shows this time. -/
noncomputable def face (charset : Nat → UInt8) (hr min sec px py : Nat) : Nat :=
  if Lit charset hr min sec px py then (⟨255, 0, 0⟩ : Colour).to565
  else if px = 179 ∨ px = 250 ∨ py = 0 ∨ py = 11 then (⟨255, 255, 255⟩ : Colour).to565
  else (⟨0, 0, 0⟩ : Colour).to565

section

variable {hwW : Bool} {charset : Nat → UInt8}

theorem paints_digit (xx : Int) (left digit : Nat) (c : Colour) (hxx : xx = left)
    (hleft : left ≤ 240) : Paints (showing hwW (plain c)) (On hwW (InDigit charset left digit))
      (framebufferWrite10pdigit hwW charset xx 1 c digit) := by
  subst hxx
  refine (paints_drawGlyph _ ⟨by omega, by omega⟩ ⟨by decide, by decide⟩).congr fun i => ?_
  refine On.congr fun px py _ _ => ?_
  rw [BitVec.ofInt_natCast]
  unfold InDigit
  refine exists_congr fun x => and_congr_right fun _ => exists_congr fun y =>
    and_congr_right fun _ => and_congr_right fun _ => ?_
  omega

theorem paints_dot (xx yy : Int) (x y : Nat) (c : Colour) (hxx : xx = x) (hyy : yy = y)
    (hx : x < 320) (hy : y < 240) :
    Paints (showing hwW (plain c)) (On hwW fun px py => px = x ∧ py = y)
      (framebufferSetpixel hwW (BitVec.ofInt 32 xx) (BitVec.ofInt 32 yy) c) := by
  subst hxx
  subst hyy
  refine (paints_setpixel _ _).congr fun i => On.congr fun px py _ _ => ?_
  rw [BitVec.ofInt_natCast, BitVec.ofInt_natCast, BitVec.toNat_ofNat, BitVec.toNat_ofNat,
    Nat.mod_eq_of_lt (by omega), Nat.mod_eq_of_lt (by omega)]

/-- What is lit is within the field. -/
theorem InDigit.within {left digit px py : Nat} (h : InDigit charset left digit px py) :
    (left ≤ px ∧ px < left + 10) ∧ 1 ≤ py ∧ py < 11 := by
  obtain ⟨x, hx, y, hy, -, rfl, rfl⟩ := h
  omega

theorem InDots.within {column px py : Nat} (h : InDots column px py) :
    px = column ∧ 1 ≤ py ∧ py < 11 := by
  unfold InDots at h
  omega

theorem Lit.within {hr min sec px py : Nat} (h : Lit charset hr min sec px py) :
    (180 ≤ px ∧ px < 250) ∧ 1 ≤ py ∧ py < 11 := by
  rcases h with h | h | h | h | h | h | h | h
  all_goals
    have hwithin := h.within
    omega

theorem paints_drawTime {hr min sec : Nat} (htwo : hr < 100 ∧ min < 100 ∧ sec < 100) :
    Paints (showing hwW (plain ⟨255, 0, 0⟩)) (On hwW (Lit charset hr min sec))
      (drawTime hwW charset hr min sec) := by
  have hdigit : ∀ (xx : Int) (left n : Nat), xx = left → left ≤ 240 →
      Paints (showing hwW (plain ⟨255, 0, 0⟩)) (On hwW (InDigit charset left n))
        (framebufferWrite10pdigit hwW charset xx 1 ⟨255, 0, 0⟩ n) :=
    fun xx left n => paints_digit xx left n _
  have hdot : ∀ (xx yy : Int) (x y : Nat), xx = x → yy = y → x < 320 → y < 240 →
      Paints (showing hwW (plain ⟨255, 0, 0⟩)) (On hwW fun px py => px = x ∧ py = y)
        (framebufferSetpixel hwW (BitVec.ofInt 32 xx) (BitVec.ofInt 32 yy) ⟨255, 0, 0⟩) :=
    fun xx yy x y => paints_dot xx yy x y _
  have hsec := (hdigit (180 + 60) 240 (sec % 10) rfl (by decide)).seq
    (hdigit (180 + 50) 230 (sec / 10 % 10) rfl (by decide))
  have hdots := (hdot (180 + 47) (1 + 3) 227 4 rfl rfl (by decide) (by decide)).seq
    (hdot (180 + 47) (1 + 7) 227 8 rfl rfl (by decide) (by decide))
  have hmin := (hdigit (180 + 35) 215 (min % 10) rfl (by decide)).seq
    (hdigit (180 + 25) 205 (min / 10 % 10) rfl (by decide))
  have hdots' := (hdot (180 + 23) (1 + 3) 203 4 rfl rfl (by decide) (by decide)).seq
    (hdot (180 + 23) (1 + 7) 203 8 rfl rfl (by decide) (by decide))
  have hhr := (hdigit (180 + 10) 190 (hr % 10) rfl (by decide)).seq
    (hdigit 180 180 (hr / 10 % 10) rfl (by decide))
  refine ((((hsec.seq hdots).seq hmin).seq hdots').seq hhr).congr fun i => ?_
  have htens : ∀ {n : Nat}, n < 100 → n / 10 % 10 = n / 10 := fun hn => by omega
  rw [htens htwo.1, htens htwo.2.1, htens htwo.2.2]
  simp only [On, Lit, InDots, and_or_left, or_assoc]

/-- The sides of the face. -/
def OnFrame (px py : Nat) : Prop :=
  (179 ≤ px ∧ px < 251) ∧ (py = 0 ∨ py = 11) ∨ (0 ≤ py ∧ py < 12) ∧ (px = 179 ∨ px = 250)

theorem paints_field (c : Colour) : Paints (showing hwW (plain c))
    (On hwW fun px py => (180 ≤ px ∧ px < 250) ∧ 1 ≤ py ∧ py < 11)
    (framebufferFillrect hwW 180 1 70 10 c) := paints_fillrect 180 1 70 10

theorem paints_frame (c : Colour) : Paints (showing hwW (plain c)) (On hwW OnFrame)
    (framebufferDrawrect hwW 179 0 72 12 c) := paints_drawrect 179 0 72 12

/-- **The face**, for a time of two digits each. -/
theorem paints_face {fuel hr min sec : Nat} {s : Systime} {cells : Cells}
    (hcells : systimeUnixToTimestamp fuel (systimeUnix s)
      ⟨none, none, none, some 0, some 0, some 0⟩ = some cells)
    (hhr : cells.hour = some hr) (hmin : cells.minute = some min) (hsec : cells.second = some sec)
    (htwo : hr < 100 ∧ min < 100 ∧ sec < 100) :
    ∃ f, (∀ buffer, drawfunc hwW charset fuel true s buffer = some (f buffer)) ∧
      Paints (showing hwW (face charset hr min sec)) (On hwW OnFace) f := by
  refine ⟨fun buffer => drawTime hwW charset hr min sec (framebufferDrawrect hwW 179 0 72 12
    ⟨255, 255, 255⟩ (framebufferFillrect hwW 180 1 70 10 ⟨0, 0, 0⟩ buffer)), fun buffer => ?_, ?_⟩
  · unfold drawfunc
    rw [if_pos rfl, hcells]
    simp only [Option.bind_eq_bind, Option.bind_some, hhr, hmin, hsec, Option.getD_some]
    rfl
  · classical
    refine ((((paints_field _).covered (paints_frame _)).covered
      (paints_drawTime htwo)).congr_picture fun i hi => ?_).congr fun i => ?_
    · have hlt : i < 320 * 240 := by
        rcases hi with (hi | hi) | hi
        · exact hi.1
        · exact hi.1
        · exact hi.1
      have hon : ∀ R : Nat → Nat → Prop, On hwW R i ↔ R (columnOf hwW i) (rowOf hwW i) :=
        fun R => and_iff_right hlt
      simp only [hon] at hi ⊢
      unfold showing face
      refine if_congr Iff.rfl rfl (if_congr ?_ rfl rfl)
      unfold OnFrame at hi ⊢
      rcases hi with (hi | hi) | hi
      · omega
      · omega
      · have hwithin := hi.within
        omega
    · unfold On
      rw [← and_or_left, ← and_or_left]
      refine and_congr_right fun _ => ?_
      unfold OnFace OnFrame
      constructor
      · intro hi
        rcases hi with (hi | hi) | hi
        · omega
        · omega
        · have hwithin := hi.within
          omega
      · intro hi
        left
        omega

/-! ## The time of day -/

/-- The seconds of the day that the numbers of the dialog name. -/
def TimeDialog.secondsOfDay (d : TimeDialog) : Nat :=
  d.numbers 3 * 3600 + d.numbers 4 * 60 + d.numbers 5

/-- Minute 60 is the minute after minute 59. -/
theorem systimeTimestampToUnix_sixty (year month day hour second : Nat) :
    systimeTimestampToUnix year month day hour 60 second =
      systimeTimestampToUnix year month day hour 59 (second + 60) := by
  have hsum : (second : Int) + uint32 (60 * 60) = (second + 60 : Nat) + uint32 (59 * 60) := by
    unfold uint32
    omega
  unfold systimeTimestampToUnix
  simp only [hsum]

/-- **The dialog sets the time of day**: the days before it are wrong, but they are days. -/
theorem TimeDialog.unix_eq {d : TimeDialog} (h : d.InRange) :
    ∃ days : Nat, 0 < days ∧ days < 100000 ∧ d.unix = days * 86400 + d.secondsOfDay := by
  have hyear : 1970 ≤ d.numbers 0 ∧ d.numbers 0 ≤ 2040 := h.numbers 0
  have hmonth : 1 ≤ d.numbers 1 ∧ d.numbers 1 ≤ 12 := h.numbers 1
  have hday : 1 ≤ d.numbers 2 ∧ d.numbers 2 ≤ 31 := h.numbers 2
  have hhour : 0 ≤ d.numbers 3 ∧ d.numbers 3 ≤ 23 := h.numbers 3
  have hminute : 0 ≤ d.numbers 4 ∧ d.numbers 4 ≤ 60 := h.numbers 4
  unfold TimeDialog.unix secondsOfDay
  generalize d.numbers 0 = y at *
  generalize d.numbers 1 = m at *
  have hdim := Gregorian.daysInMonth_pos y m
  have hdiy := Gregorian.daysInYear_pos y
  have hmonths : m * Gregorian.daysInMonth y m ≤ 12 * 31 := Nat.mul_le_mul hmonth.2 hdim.2
  have hbefore : 0 ≤ Gregorian.daysBefore y ∧ Gregorian.daysBefore y ≤ 26000 := by
    refine ⟨?_, ?_⟩
    · obtain ⟨n, rfl⟩ := Nat.exists_eq_add_of_le hyear.1
      exact (Int.natCast_nonneg n).trans (le_daysBefore n)
    · unfold Gregorian.daysBefore Gregorian.yearStart
      omega
  have hunix : ∀ minute second, minute ≤ 59 →
      systimeTimestampToUnix y m (d.numbers 2) (d.numbers 3) minute second =
        (Gregorian.daysBefore y + d.numbers 2 + (m * Gregorian.daysInMonth y m : Nat) +
          (Gregorian.daysInYear y - 365 : Nat)) * 86400 +
            (d.numbers 3 * 3600 + minute * 60 + second : Nat) := by
    intro minute second hminute
    have hof := unixOf_eq (d := ⟨y, m, d.numbers 2, d.numbers 3, minute, second⟩) hyear.1 hmonth
      hday.2 hhour.2 hminute
    unfold unixOf at hof
    rw [hof, Gregorian.DateTime.seconds]
    push_cast [Nat.cast_sub hdiy.1]
    ring
  refine ⟨(Gregorian.daysBefore y + d.numbers 2 + (m * Gregorian.daysInMonth y m : Nat) +
    (Gregorian.daysInYear y - 365 : Nat)).toNat, by omega, by omega, ?_⟩
  rw [Int.toNat_of_nonneg (by omega)]
  by_cases hlast : d.numbers 4 = 60
  · rw [hlast, systimeTimestampToUnix_sixty, hunix 59 _ (Nat.le_refl _)]
    push_cast
    ring
  · exact hunix _ _ (by omega)

/-- What a time whose second is in 1..60 says is the time of the day. -/
theorem secondsOfDay_late {d : Gregorian.DateTime} (h : LateSecond d) {days n : Nat}
    (hseconds : d.seconds = days * 86400 + n) :
    (d.hour * 3600 + d.minute * 60 + d.second) % 86400 = n % 86400 := by
  have hhour := h.hour
  unfold Gregorian.DateTime.seconds at hseconds
  omega

/-- **The clock shows the time of day that was set**, however long ago that was: with second 60
for second 0. Just after it was set it shows what was chosen, unless that is minute 60 or
second 0. -/
theorem clock_shows (hwW : Bool) (charset : Nat → UInt8) (reports : List TouchpadReport)
    {s s' : Systime} {n fuel : Nat} (hn : n < 2 ^ 56)
    (hlater : systimeUnix s' = systimeUnix (setTimeDialog reports s) + n)
    (hfuel : systimeUnix s' + 62 ≤ fuel) :
    ∃ hr min sec, (hr ≤ 23 ∧ min ≤ 59 ∧ 1 ≤ sec ∧ sec ≤ 60) ∧
      (hr * 3600 + min * 60 + sec) % 86400 =
        ((TimeDialog.run reports).secondsOfDay + n) % 86400 ∧
      (n = 0 → (((hr, min, sec) = ((TimeDialog.run reports).numbers 3,
        (TimeDialog.run reports).numbers 4, (TimeDialog.run reports).numbers 5)) ↔
          (TimeDialog.run reports).numbers 4 ≠ 60 ∧ (TimeDialog.run reports).numbers 5 ≠ 0)) ∧
      ∃ f, (∀ buffer, drawfunc hwW charset fuel true s' buffer = some (f buffer)) ∧
        Paints (showing hwW (face charset hr min sec)) (On hwW OnFace) f := by
  have hrange := TimeDialog.inRange_run reports
  obtain ⟨days, hpos, hdays, hunix⟩ := TimeDialog.unix_eq hrange
  have hhour : (TimeDialog.run reports).numbers 3 ≤ 23 := (hrange.numbers 3).2
  have hminute : (TimeDialog.run reports).numbers 4 ≤ 60 := (hrange.numbers 4).2
  have hsecond : (TimeDialog.run reports).numbers 5 ≤ 60 := (hrange.numbers 5).2
  have hday : (TimeDialog.run reports).secondsOfDay ≤ 90000 := by
    unfold TimeDialog.secondsOfDay
    omega
  have hset : systimeUnix (setTimeDialog reports s) = (TimeDialog.run reports).unix := by
    unfold setTimeDialog
    exact systimeUnix_setUnix (by omega) (by omega) s
  rw [hset, hunix] at hlater
  -- the time is within the years that a word can number
  have hyears : systimeUnix s' ≤ Gregorian.daysBefore (2 ^ 32) * 86400 := by
    unfold Gregorian.daysBefore Gregorian.yearStart
    omega
  obtain ⟨d, hlate, hseconds, hrun⟩ := systimeUnixToTimestamp_eq (by omega) hyears hfuel
  have hof : d.seconds = days * 86400 + ((TimeDialog.run reports).secondsOfDay + n : Nat) := by
    push_cast
    omega
  have htime := secondsOfDay_late hlate hof
  have hlatehour := hlate.hour
  have hlateminute := hlate.minute
  have hlatesecond := hlate.second
  refine ⟨d.hour, d.minute, d.second, ⟨hlatehour, hlateminute, hlatesecond⟩, htime, ?_, ?_⟩
  · rintro rfl
    unfold TimeDialog.secondsOfDay at htime
    rw [Prod.mk.injEq, Prod.mk.injEq]
    omega
  · exact paints_face (hrun _) rfl rfl rfl (by omega)

/-- A clock that stands at 1970. -/
def stoppedClock : Systime := ⟨0, 0, fun _ _ => 0, 0⟩

/-- The clock a second after the dialog was opened and closed. -/
def secondLater : Systime := { setTimeDialog [] stoppedClock with rtc := 1580688001 }

/-- The face shows the first second of the day, with digits that are filled. -/
theorem clock_shows_secondLater : ∃ f,
    (∀ buffer, drawfunc true (fun _ => 0xff) 1580688063 true secondLater buffer =
      some (f buffer)) ∧
    Paints (showing true (face (fun _ => 0xff) 0 0 1)) (On true OnFace) f := by
  have hnow : systimeUnix secondLater = 1580688001 := by decide +kernel
  have hset : systimeUnix (setTimeDialog [] stoppedClock) = 1580688000 := by decide +kernel
  obtain ⟨hr, min, sec, hranges, htime, -, hface⟩ :=
    @clock_shows true (fun _ => 0xff) [] stoppedClock secondLater 1 1580688063 (by decide)
      (by rw [hnow, hset]; rfl) (by rw [hnow]; decide)
  have hday : (TimeDialog.run []).secondsOfDay = 0 := rfl
  rw [hday] at htime
  obtain ⟨rfl, rfl, rfl⟩ : hr = 0 ∧ min = 0 ∧ sec = 1 := by omega
  exact hface

end

end OSExt.Modules
