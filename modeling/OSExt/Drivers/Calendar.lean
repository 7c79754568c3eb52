import OSExt.Lib.Gregorian
import OSExt.Lib.Countdown

/-!
# Timestamps of the system time

The conversions between unix times and timestamps of `systime.c`. A timestamp is
handed out through six pointers, each of which may be `NULL`.

The loops of `systime_unix_to_timestamp` run while the rest is positive, so a rest
that is a whole number of units stays with the unit before: the conversion splits
every time right up to the second, and the second is in 1..60. The loops of
`systime_timestamp_to_unix` count the first day, add the last month `month` times
and the last year instead of the first.
-/

namespace OSExt.Drivers

open Lib Lib.Gregorian

/-- The value of an unsigned 32-bit expression. -/
def uint32 (x : Nat) : Nat := x % 2 ^ 32

/-! ## The source -/

def daysInMonth (year month : Nat) : Nat :=
  match month with
  | 1 => 31
  | 2 =>
      if year % 4 = 0 then
        if year % 100 = 0 then
          if year % 400 = 0 then 29 else 28
        else 29
      else 28
  | 3 => 31
  | 4 => 30
  | 5 => 31
  | 6 => 30
  | 7 => 31
  | 8 => 31
  | 9 => 30
  | 10 => 31
  | 11 => 30
  | 12 => 31
  | _ => 0

def daysInYear (year : Nat) : Nat :=
  if year % 4 = 0 then
    if year % 100 = 0 then
      if year % 400 = 0 then 366 else 365
    else 366
  else 365

/-- `for (m = month; m>0; m--)`: the summand does not depend on `m`. -/
def addMonths (year month : Nat) : Nat → Int → Int
  | 0, unix => unix
  | m + 1, unix => addMonths year month m (unix + uint32 (daysInMonth year month * 24 * 60 * 60))

/-- `for (y = year; y>1970; y--)` -/
def addYears : Nat → Int → Int
  | 0, unix => unix
  | y + 1, unix =>
      if y + 1 > 1970 then addYears y (unix + uint32 (daysInYear (y + 1) * 24 * 60 * 60))
      else unix

/-- `for (y = year; y<1970; y++)`, at most `n` times. -/
def subYears : Nat → Nat → Int → Int
  | 0, _, unix => unix
  | n + 1, y, unix =>
      if y < 1970 then subYears n (y + 1) (unix - uint32 (daysInYear y * 24 * 60 * 60))
      else unix

/-- The sums stay below 2^57, so the 64-bit `unix` never overflows. -/
def systimeTimestampToUnix (year month day hour minute second : Nat) : Int :=
  let unix : Int := second
  let unix := unix + uint32 (minute * 60)
  let unix := unix + uint32 (hour * 60 * 60)
  let unix := unix + uint32 (day * 24 * 60 * 60)
  let unix := addMonths year month month unix
  if year = 1970 then unix
  else if year < 1970 then subYears (1970 - year) year unix
  else addYears year unix

/-- The cells six pointers point to; `none` for a pointer that is `NULL`. -/
structure Cells where
  year : Option Nat
  month : Option Nat
  day : Option Nat
  hour : Option Nat
  minute : Option Nat
  second : Option Nat
  deriving DecidableEq

/-- `if (p != NULL) *p = v;` -/
def store (p : Option Nat) (v : Nat) : Option Nat := p.map fun _ => v

def systimeUnixToTimestamp (fuel : Nat) (unix : Int) (out : Cells) : Option Cells :=
  if unix ≤ 0 then some out
  else do
    let (y, unix) ← unitOf (2 ^ 32) (fun y => uint32 (daysInYear y * 24 * 60 * 60)) fuel 1970 unix
    let out := { out with year := store out.year y }
    let (m, unix) ← unitOf (2 ^ 32) (fun m => uint32 (daysInMonth y m * 24 * 60 * 60)) fuel 1 unix
    let out := { out with month := store out.month m }
    let (d, unix) ← unitOf (2 ^ 32) (fun _ => 24 * 60 * 60) fuel 1 unix
    let out := { out with day := store out.day d }
    let (h, unix) ← unitOf (2 ^ 32) (fun _ => 60 * 60) fuel 0 unix
    let out := { out with hour := store out.hour h }
    let (min, unix) ← unitOf (2 ^ 32) (fun _ => 60) fuel 0 unix
    let out := { out with minute := store out.minute min }
    return { out with second := store out.second (unix % 2 ^ 32).toNat }

/-! ## Months and years are the calendar's -/

/-- The three nested tests on the year ask for a leap year. -/
theorem leap_test (y a b : Nat) :
    (if y % 4 = 0 then if y % 100 = 0 then if y % 400 = 0 then a else b else a else b)
      = if Leap y then a else b := by
  have hleap : Leap y ↔ y % 4 = 0 ∧ (y % 100 = 0 → y % 400 = 0) := by
    unfold Leap
    omega
  by_cases h4 : y % 4 = 0 <;> by_cases h100 : y % 100 = 0 <;> by_cases h400 : y % 400 = 0 <;>
    simp [hleap, h4, h100, h400]

theorem daysInYear_eq (y : Nat) : daysInYear y = Gregorian.daysInYear y := leap_test y 366 365

theorem daysInMonth_eq (y : Nat) {m : Nat} (h1 : 1 ≤ m) (h2 : m ≤ 12) :
    daysInMonth y m = Gregorian.daysInMonth y m := by
  interval_cases m
  case «2» => exact leap_test y 29 28
  all_goals rfl

theorem yearSeconds_eq (y : Nat) :
    uint32 (daysInYear y * 24 * 60 * 60) = Gregorian.daysInYear y * 86400 := by
  have h := daysInYear_pos y
  rw [daysInYear_eq]
  unfold uint32
  omega

theorem monthSeconds_eq (y : Nat) {m : Nat} (h1 : 1 ≤ m) (h2 : m ≤ 12) :
    uint32 (daysInMonth y m * 24 * 60 * 60) = Gregorian.daysInMonth y m * 86400 := by
  have h := daysInMonth_pos y m
  rw [daysInMonth_eq y h1 h2]
  unfold uint32
  omega

/-! ## From unix times to timestamps -/

theorem upTo_years (y : Nat) (hy : 1970 ≤ y) :
    (upTo (fun y => uint32 (daysInYear y * 24 * 60 * 60)) 1970 y : Int) = daysBefore y * 86400 := by
  obtain ⟨n, rfl⟩ := Nat.exists_eq_add_of_le hy
  have hsum := yearStart_add_sum 1970 n (by omega)
  have : upTo (fun y => uint32 (daysInYear y * 24 * 60 * 60)) 1970 (1970 + n)
      = (∑ y ∈ Finset.Ico 1970 (1970 + n), Gregorian.daysInYear y) * 86400 := by
    rw [upTo, Finset.sum_mul]
    exact Finset.sum_congr rfl fun y _ => yearSeconds_eq y
  rw [this, daysBefore, hsum]
  push_cast
  ring

theorem upTo_months (y m : Nat) (hm : m ≤ 13) :
    upTo (fun m => uint32 (daysInMonth y m * 24 * 60 * 60)) 1 m = monthStart y m * 86400 := by
  rw [upTo, monthStart, Finset.sum_mul]
  refine Finset.sum_congr rfl fun i hi => ?_
  rw [Finset.mem_Ico] at hi
  exact monthSeconds_eq y hi.1 (by omega)

/-- Every year after 1970 has started by as many seconds as there are years. -/
theorem le_daysBefore (n : Nat) : (n : Int) ≤ daysBefore (1970 + n) := by
  rcases Nat.eq_zero_or_pos n with rfl | hn
  · exact le_refl _
  · unfold daysBefore yearStart
    omega

/-- The cells after the numbers of `d` are stored where a pointer was given. -/
def Cells.put (out : Cells) (d : DateTime) : Cells :=
  { year := store out.year d.year
    month := store out.month d.month
    day := store out.day d.day
    hour := store out.hour d.hour
    minute := store out.minute d.minute
    second := store out.second d.second }

/-- A date and time whose minute may be said to last through second 60. -/
structure LateSecond (d : DateTime) : Prop where
  year : 1970 ≤ d.year ∧ d.year < 2 ^ 32
  month : 1 ≤ d.month ∧ d.month ≤ 12
  day : 1 ≤ d.day ∧ d.day ≤ Gregorian.daysInMonth d.year d.month
  hour : d.hour ≤ 23
  minute : d.minute ≤ 59
  second : 1 ≤ d.second ∧ d.second ≤ 60

/-- **From the month on**: what is left of a time in year `y` is split into the other
five numbers. -/
theorem splitYear {y fuel : Nat} {r : Int} (hr : 0 < r)
    (hle : r ≤ Gregorian.daysInYear y * 86400) (hfuel : 62 ≤ fuel) :
    ∃ d : DateTime, (1970 ≤ y → y < 2 ^ 32 → LateSecond d) ∧
      d.seconds = daysBefore y * 86400 + r ∧
      ∀ t out, 0 < t →
        unitOf (2 ^ 32) (fun y => uint32 (daysInYear y * 24 * 60 * 60)) fuel 1970 t = some (y, r) →
        systimeUnixToTimestamp fuel t out = some (out.put d) := by
  -- the months
  have hmonths : r ≤ upTo (fun m => uint32 (daysInMonth y m * 24 * 60 * 60)) 1 (1 + 12) := by
    rw [upTo_months y _ (by omega), monthStart_thirteen]
    exact hle
  obtain ⟨m, r2, hm1, hm2, hr2, hr2', heq2, hun2⟩ :=
    unitOf_spec (2 ^ 32) _ hr hmonths (by norm_num) (by omega : 12 < fuel)
  rw [monthSeconds_eq y hm1 (by omega)] at hr2'
  rw [upTo_months y _ (by omega)] at heq2
  have hdim := daysInMonth_pos y m
  -- the days
  obtain ⟨d, r3, hd1, hd2, hr3, hr3', heq3, hun3⟩ :=
    unitOf_spec (2 ^ 32) (fun _ => 24 * 60 * 60) (n := Gregorian.daysInMonth y m) (c := 1) hr2
      (by rw [upTo_const]; push_cast; omega) (by omega)
      (by omega : Gregorian.daysInMonth y m < fuel)
  -- the hours
  obtain ⟨h, r4, _, hh2, hr4, hr4', heq4, hun4⟩ :=
    unitOf_spec (2 ^ 32) (fun _ => 60 * 60) (n := 24) (c := 0) hr3
      (by rw [upTo_const]; push_cast; omega) (by norm_num) (by omega : 24 < fuel)
  -- the minutes
  obtain ⟨min, r5, _, hmin2, hr5, hr5', heq5, hun5⟩ :=
    unitOf_spec (2 ^ 32) (fun _ => 60) (n := 60) (c := 0) hr4
      (by rw [upTo_const]; push_cast; omega) (by norm_num) (by omega : 60 < fuel)
  obtain ⟨d, rfl⟩ := Nat.exists_eq_add_of_le hd1
  have hdays : upTo (fun _ => 24 * 60 * 60) 1 (1 + d) = d * 86400 := upTo_const ..
  have hhours : upTo (fun _ => 60 * 60) 0 h = h * 3600 := by
    simpa using upTo_const 3600 0 h
  have hmins : upTo (fun _ => 60) 0 min = min * 60 := by
    simpa using upTo_const 60 0 min
  have hr5 : 1 ≤ r5.toNat ∧ r5.toNat ≤ 60 := by omega
  have hsec : (r5 % 2 ^ 32).toNat = r5.toNat := by omega
  have hm12 : m ≤ 12 := by omega
  have hday : 1 + d ≤ Gregorian.daysInMonth y m := by omega
  have hh23 : h ≤ 23 := by omega
  have hmin59 : min ≤ 59 := by omega
  refine ⟨⟨y, m, 1 + d, h, min, r5.toNat⟩, fun hy1 hy2 => ⟨⟨hy1, hy2⟩, ⟨hm1, hm12⟩,
    ⟨Nat.le_add_right .., hday⟩, hh23, hmin59, hr5⟩, ?_, ?_⟩
  · rw [hdays] at heq3
    rw [hhours] at heq4
    rw [hmins] at heq5
    unfold DateTime.seconds
    push_cast at *
    omega
  · intro t out ht hun1
    rw [systimeUnixToTimestamp, if_neg (by omega)]
    simp only [hun1, hun2, hun3, hun4, hun5, Option.bind_eq_bind, Option.bind_some, hsec]
    rfl

/-- **What `systime_unix_to_timestamp` stores**: the numbers of the time `t`, with
second 60 of the minute before in place of second 0. -/
theorem systimeUnixToTimestamp_eq {t : Int} {fuel : Nat} (ht : 0 < t)
    (hyear : t ≤ daysBefore (2 ^ 32) * 86400) (hfuel : t + 62 ≤ fuel) :
    ∃ d : DateTime, LateSecond d ∧ d.seconds = t ∧
      ∀ out, systimeUnixToTimestamp fuel t out = some (out.put d) := by
  -- the years: as many as there are seconds are enough, or all that fit in 32 bits
  obtain ⟨n, hsum, hn, hnt⟩ : ∃ n : Nat,
      t ≤ upTo (fun y => uint32 (daysInYear y * 24 * 60 * 60)) 1970 (1970 + n) ∧
      1970 + n ≤ 2 ^ 32 ∧ n ≤ t := by
    by_cases h : t ≤ 2 ^ 32 - 1970
    · refine ⟨t.toNat, ?_, by omega, by omega⟩
      rw [upTo_years _ (by omega)]
      have := le_daysBefore t.toNat
      omega
    · refine ⟨2 ^ 32 - 1970, ?_, by norm_num, by omega⟩
      rw [upTo_years _ (by norm_num)]
      exact hyear
  obtain ⟨y, r, hy1, hy2, hr, hr', heq, hun⟩ :=
    unitOf_spec (2 ^ 32) _ ht hsum hn (by omega : n < fuel)
  rw [yearSeconds_eq] at hr'
  rw [upTo_years _ hy1] at heq
  obtain ⟨d, hlate, hseconds, hrun⟩ := splitYear hr hr' (by omega : 62 ≤ fuel)
  refine ⟨d, hlate hy1 (Nat.lt_of_lt_of_le hy2 hn), ?_, fun out => hrun t out ht hun⟩
  rw [hseconds]
  omega

/-- **When the stored time is the canonical one**: unless `t` is a whole number of
minutes. -/
theorem systimeUnixToTimestamp_canonical_iff {t : Int} {fuel : Nat} (ht : 0 < t)
    (hyear : t < daysBefore (2 ^ 32) * 86400) (hfuel : t + 62 ≤ fuel) {out : Cells}
    (hout : out.second ≠ none) :
    (∃ d : DateTime, d.Valid ∧ d.seconds = t ∧
      systimeUnixToTimestamp fuel t out = some (out.put d)) ↔ t % 60 ≠ 0 := by
  obtain ⟨d, hd, hseconds, hrun⟩ := systimeUnixToTimestamp_eq ht (Int.le_of_lt hyear) hfuel
  have hsecond := hd.second
  have hmod : t % 60 = d.second % 60 := by
    rw [← hseconds]
    unfold DateTime.seconds
    omega
  constructor
  · intro h hzero
    obtain ⟨d', hvalid, _, hrun'⟩ := h
    have hsame : store out.second d.second = store out.second d'.second := by
      have hput : out.put d = out.put d' := Option.some.inj ((hrun out).symm.trans hrun')
      exact congrArg Cells.second hput
    obtain ⟨v, hv⟩ := Option.ne_none_iff_exists'.mp hout
    rw [hv] at hsame
    have heq : d.second = d'.second := Option.some.inj hsame
    have := hvalid.second
    omega
  · intro hne
    have hlt : d.second ≤ 59 := by omega
    exact ⟨d, ⟨hd.month, hd.day, hd.hour, hd.minute, hlt⟩, hseconds, hrun out⟩

theorem systimeUnixToTimestamp_canonical_iff_oneSecond :
    (∃ d : DateTime, d.Valid ∧ d.seconds = 1 ∧
      systimeUnixToTimestamp 63 1 ⟨none, none, none, none, none, some 0⟩
        = some (Cells.put ⟨none, none, none, none, none, some 0⟩ d)) ↔ (1 : Int) % 60 ≠ 0 :=
  systimeUnixToTimestamp_canonical_iff (by decide) (by decide) (by decide) (by decide)

/-- One minute after the start of 1970 it is said to be 00:00:60. -/
theorem systimeUnixToTimestamp_not_canonical :
    systimeUnixToTimestamp 122 60 ⟨some 0, some 0, some 0, some 0, some 0, some 0⟩
      = some ⟨some 1970, some 1, some 1, some 0, some 0, some 60⟩ ∧
    ¬ ∃ d : DateTime, d.Valid ∧ d.seconds = 60 ∧
      systimeUnixToTimestamp 122 60 ⟨some 0, some 0, some 0, some 0, some 0, some 0⟩
        = some (Cells.put ⟨some 0, some 0, some 0, some 0, some 0, some 0⟩ d) := by
  have hrun : systimeUnixToTimestamp 122 60 ⟨some 0, some 0, some 0, some 0, some 0, some 0⟩
      = some ⟨some 1970, some 1, some 1, some 0, some 0, some 60⟩ := by decide +kernel
  refine ⟨hrun, ?_⟩
  intro h
  obtain ⟨d, hvalid, _, hput⟩ := h
  rw [hrun] at hput
  have hsecond : 60 = d.second :=
    Option.some.inj (congrArg Cells.second (Option.some.inj hput))
  have := hvalid.second
  omega

/-! ## The loops end -/

/-- The twelve months of the source fill its year. -/
theorem sum_daysInMonth (y : Nat) : ∑ m ∈ Finset.Ico 1 13, daysInMonth y m = daysInYear y := by
  rw [daysInYear_eq, ← monthStart_thirteen]
  refine Finset.sum_congr rfl fun m hm => ?_
  rw [Finset.mem_Ico] at hm
  exact daysInMonth_eq y hm.1 (by omega)

/-- A rest inside year `y` ends the loop over the months by month 12. -/
theorem monthLoop_ends {y fuel : Nat} {r : Int} (hr : 0 < r)
    (hle : r ≤ Gregorian.daysInYear y * 86400) (hfuel : 12 < fuel) :
    (∃ m x, countDown (2 ^ 32) (fun m => uint32 (daysInMonth y m * 24 * 60 * 60)) fuel 1 r
      = some (m, x) ∧ 2 ≤ m ∧ m ≤ 13) ∧
    ∀ i ∈ asked (2 ^ 32) (fun m => uint32 (daysInMonth y m * 24 * 60 * 60)) fuel 1 r,
      1 ≤ i ∧ i ≤ 12 := by
  have hmonths : r ≤ upTo (fun m => uint32 (daysInMonth y m * 24 * 60 * 60)) 1 (1 + 12) := by
    rw [upTo_months y _ (by omega), monthStart_thirteen]
    exact hle
  constructor
  · obtain ⟨d, hd1, hd2, -, -, heq⟩ := countDown_spec hr hmonths (by norm_num : _ ≤ 2 ^ 32) hfuel
    refine ⟨_, _, heq, ?_⟩
    rw [Nat.mod_eq_of_lt (by omega)]
    omega
  · intro i hi
    have := asked_lt hmonths (by norm_num) i hi
    omega

/-- **The five loops end** for every time, also where the year wraps around, and the one
over the months never asks for a month that does not exist. -/
theorem systimeUnixToTimestamp_ends {t : Int} {fuel : Nat} (ht : 0 < t)
    (hfuel : t + 62 ≤ fuel) (out : Cells) :
    (∃ cells, systimeUnixToTimestamp fuel t out = some cells) ∧
    (∃ y r, unitOf (2 ^ 32) (fun y => uint32 (daysInYear y * 24 * 60 * 60)) fuel 1970 t
        = some (y, r) ∧
      (∃ m x, countDown (2 ^ 32) (fun m => uint32 (daysInMonth y m * 24 * 60 * 60)) fuel 1 r
        = some (m, x) ∧ 2 ≤ m ∧ m ≤ 13) ∧
      ∀ i ∈ asked (2 ^ 32) (fun m => uint32 (daysInMonth y m * 24 * 60 * 60)) fuel 1 r,
        1 ≤ i ∧ i ≤ 12) ∧
    ∀ y, ∑ m ∈ Finset.Ico 1 13, daysInMonth y m = daysInYear y := by
  have hpos : ∀ y, 0 < uint32 (daysInYear y * 24 * 60 * 60) := by
    intro y
    rw [yearSeconds_eq]
    have := daysInYear_pos y
    omega
  obtain ⟨y, r, -, hr, hle, hun⟩ :=
    unitOf_ends hpos (by norm_num : 1970 < 2 ^ 32) ht (by omega : t < fuel)
  rw [yearSeconds_eq] at hle
  push_cast at hle
  obtain ⟨d, -, -, hrun⟩ := splitYear hr hle (by omega : 62 ≤ fuel)
  exact ⟨⟨_, hrun t out ht hun⟩, ⟨y, r, hun, monthLoop_ends hr hle (by omega)⟩, sum_daysInMonth⟩

/-- The first second needs few rounds. -/
theorem systimeUnixToTimestamp_ends_oneSecond :
    (∃ cells, systimeUnixToTimestamp 63 1 ⟨none, none, none, none, none, some 0⟩ = some cells) ∧
    (∃ y r, unitOf (2 ^ 32) (fun y => uint32 (daysInYear y * 24 * 60 * 60)) 63 1970 1
        = some (y, r) ∧
      (∃ m x, countDown (2 ^ 32) (fun m => uint32 (daysInMonth y m * 24 * 60 * 60)) 63 1 r
        = some (m, x) ∧ 2 ≤ m ∧ m ≤ 13) ∧
      ∀ i ∈ asked (2 ^ 32) (fun m => uint32 (daysInMonth y m * 24 * 60 * 60)) 63 1 r,
        1 ≤ i ∧ i ≤ 12) ∧
    ∀ y, ∑ m ∈ Finset.Ico 1 13, daysInMonth y m = daysInYear y :=
  systimeUnixToTimestamp_ends (by omega) (by omega) _

/-! ## From timestamps to unix times -/

theorem addMonths_eq (y month n : Nat) (unix : Int) :
    addMonths y month n unix
      = unix + n * (uint32 (daysInMonth y month * 24 * 60 * 60) : Int) := by
  induction n generalizing unix with
  | zero => simp [addMonths]
  | succ n ih =>
      rw [addMonths, ih]
      push_cast
      ring

/-- The loop over the years adds those after 1970, the last one included. -/
theorem addYears_eq (n : Nat) (unix : Int) :
    addYears (1970 + n) unix = unix + (yearStart (1971 + n) - yearStart 1971 : Int) * 86400 := by
  induction n generalizing unix with
  | zero => simp [addYears]
  | succ n ih =>
      have hyear : yearStart (1971 + (n + 1)) = yearStart (1971 + n)
          + Gregorian.daysInYear (1971 + n) :=
        yearStart_succ (y := 1971 + n) (by omega)
      have hsum : 1970 + (n + 1) = 1970 + n + 1 := rfl
      have hnext : 1970 + n + 1 = 1971 + n := by omega
      rw [hsum, addYears, if_pos (by omega : 1970 + n + 1 > 1970), ih, hnext, yearSeconds_eq, hyear]
      push_cast
      ring

/-- `systime_timestamp_to_unix` of the six numbers. -/
def unixOf (d : DateTime) : Int :=
  systimeTimestampToUnix d.year d.month d.day d.hour d.minute d.second

/-- **What `systime_timestamp_to_unix` returns**: too many days. -/
theorem unixOf_eq {d : DateTime} (hyear : 1970 ≤ d.year) (hmonth : 1 ≤ d.month ∧ d.month ≤ 12)
    (hday : d.day ≤ 31) (hhour : d.hour ≤ 23) (hminute : d.minute ≤ 59) :
    unixOf d = d.seconds + (1 + (d.month * Gregorian.daysInMonth d.year d.month
      - monthStart d.year d.month) + (Gregorian.daysInYear d.year - 365) : Int) * 86400 := by
  obtain ⟨n, hn⟩ := Nat.exists_eq_add_of_le hyear
  have hyears : ∀ unix, (if d.year = 1970 then unix else if d.year < 1970 then
      subYears (1970 - d.year) d.year unix else addYears d.year unix)
        = unix + (daysBefore d.year + (Gregorian.daysInYear d.year - 365)) * 86400 := by
    intro unix
    have hadd : addYears d.year unix
        = unix + (daysBefore d.year + (Gregorian.daysInYear d.year - 365)) * 86400 := by
      have hlast : yearStart (1971 + n) = yearStart (1970 + n)
          + Gregorian.daysInYear (1970 + n) := by
        rw [← yearStart_succ (by omega)]
        congr 1
        omega
      have hfirst : yearStart 1971 = yearStart 1970 + 365 := by decide
      rw [hn, addYears_eq, hlast, hfirst, daysBefore]
      push_cast
      ring
    by_cases h : d.year = 1970
    · rw [if_pos h, ← hadd, h]
      rfl
    · rw [if_neg h, if_neg (by omega), hadd]
  unfold unixOf systimeTimestampToUnix
  rw [hyears, addMonths_eq, monthSeconds_eq _ hmonth.1 hmonth.2]
  -- no product wraps at 32 bits
  have h1 : uint32 (d.minute * 60) = d.minute * 60 := by
    unfold uint32
    omega
  have h2 : uint32 (d.hour * 60 * 60) = d.hour * 3600 := by
    unfold uint32
    omega
  have h3 : uint32 (d.day * 24 * 60 * 60) = d.day * 86400 := by
    unfold uint32
    omega
  rw [h1, h2, h3, DateTime.seconds]
  push_cast
  ring

/-- The last month, as often as its number says, is more than the months before it. -/
theorem monthStart_le (y : Nat) {m : Nat} (h1 : 1 ≤ m) (h2 : m ≤ 12) :
    monthStart y m ≤ m * Gregorian.daysInMonth y m := by
  have hle : monthStart y m ≤ (m - 1) * 31 := by
    have hcard := Finset.sum_le_card_nsmul (Finset.Ico 1 m) (Gregorian.daysInMonth y) 31
      fun i _ => (daysInMonth_pos y i).2
    rwa [Nat.card_Ico] at hcard
  have hdays : m = 2 ∨ 30 ≤ Gregorian.daysInMonth y m := by
    unfold Gregorian.daysInMonth
    split_ifs <;> omega
  rcases hdays with rfl | hdays
  · have := daysInMonth_pos y 2
    omega
  · have := Nat.mul_le_mul_left m hdays
    omega

theorem seconds_lt_unixOf {d : DateTime} (hyear : 1970 ≤ d.year)
    (hmonth : 1 ≤ d.month ∧ d.month ≤ 12) (hday : d.day ≤ 31) (hhour : d.hour ≤ 23)
    (hminute : d.minute ≤ 59) : d.seconds < unixOf d := by
  have hmonths := monthStart_le d.year hmonth.1 hmonth.2
  have hdays := daysInYear_pos d.year
  rw [unixOf_eq hyear hmonth hday hhour hminute]
  zify at hmonths hdays
  linarith

/-- **No timestamp is converted to its unix time**, and no unix time comes back from
its timestamp. -/
theorem unixOf_never (d : DateTime) (t : Int) (fuel : Nat) :
    (d.Valid → 1970 ≤ d.year → unixOf d ≠ d.seconds) ∧
    (0 < t → t < daysBefore (2 ^ 32) * 86400 → t + 62 ≤ fuel →
      ∃ d, (∀ out, systimeUnixToTimestamp fuel t out = some (out.put d)) ∧ unixOf d ≠ t) := by
  constructor
  · intro hd hyear
    have hday : d.day ≤ 31 := Nat.le_trans hd.day.2 (daysInMonth_pos ..).2
    exact (seconds_lt_unixOf hyear hd.month hday hd.hour hd.minute).ne'
  · intro ht hyear hfuel
    obtain ⟨d, hd, hseconds, hrun⟩ := systimeUnixToTimestamp_eq ht (Int.le_of_lt hyear) hfuel
    have hday : d.day ≤ 31 := Nat.le_trans hd.day.2 (daysInMonth_pos ..).2
    have hlt := seconds_lt_unixOf hd.year.1 hd.month hday hd.hour hd.minute
    exact ⟨d, hrun, (hseconds ▸ hlt).ne'⟩

theorem unixOf_never_start :
    unixOf ⟨1970, 1, 1, 0, 0, 0⟩ ≠ DateTime.seconds ⟨1970, 1, 1, 0, 0, 0⟩ ∧
    ∃ d, (∀ out, systimeUnixToTimestamp 63 1 out = some (out.put d)) ∧ unixOf d ≠ 1 :=
  have h := unixOf_never ⟨1970, 1, 1, 0, 0, 0⟩ 1 63
  ⟨h.1 ⟨by decide, by decide, by decide, by decide, by decide⟩ (by decide),
    h.2 (by decide) (by decide) (by decide)⟩

/-- The start of 1970 is said to be 32 days after itself, and the second after it
does not come back either. -/
theorem unixOf_wrong :
    DateTime.seconds ⟨1970, 1, 1, 0, 0, 0⟩ = 0 ∧
    systimeTimestampToUnix 1970 1 1 0 0 0 = 2764800 ∧
    systimeUnixToTimestamp 63 1 ⟨some 0, some 0, some 0, some 0, some 0, some 0⟩
      = some ⟨some 1970, some 1, some 1, some 0, some 0, some 1⟩ ∧
    systimeTimestampToUnix 1970 1 1 0 0 1 ≠ 1 := by
  decide +kernel

end OSExt.Drivers
