import Mathlib.Tactic

/-!
# The system time

The time is kept twice. The RTC counts seconds, and the overflows of its 32-bit
register are counted beside it. Timer `1,0` counts down at 32 kHz, and its
overflows are counted too: the milliseconds are the ticks so far, by 32.

The idea for the milliseconds: `overflows * 2^32 + (0xffffffff - value)` is a tick
counter that no wrap of the register disturbs, and `systime_set_unix` sets it to
the ticks of the new time.
-/

namespace OSExt.Drivers

/-- The value of a signed 64-bit expression. -/
def int64 (x : Int) : Int := (x + 2 ^ 63) % 2 ^ 64 - 2 ^ 63

theorem int64_of_range {x : Int} (h1 : -2 ^ 63 ≤ x) (h2 : x < 2 ^ 63) : int64 x = x := by
  unfold int64
  omega

/-- The counters of `systime.c` with the registers they go with: the values of the
timers by module and timer, and the value of the RTC. -/
structure Systime where
  timerMilisOverflows : BitVec 32
  timerSecondsOverflows : BitVec 32
  timers : Nat → Nat → BitVec 32
  rtc : BitVec 32

variable {s s' : Systime} {t : Int} {k n : Nat}

/-! ## The source -/

def timerValue (timermodule timer : Nat) (s : Systime) : BitVec 32 :=
  if timer > 1 then 0
  else if timermodule > 2 then 0
  else s.timers timermodule timer

/-- The value register takes over what is written to the load register. -/
def timerSetLoad (timermodule timer : Nat) (load : BitVec 32) (s : Systime) : Systime :=
  if timer > 1 then s
  else if timermodule > 2 then s
  else { s with timers := fun m i => if m = timermodule ∧ i = timer then load else s.timers m i }

def rtcGetValue (s : Systime) : BitVec 32 := s.rtc

/-- The value register takes over what is written to the set register. -/
def rtcSetValue (newval : BitVec 32) (s : Systime) : Systime := { s with rtc := newval }

def systimeRtcOverflow (s : Systime) : Systime :=
  { s with timerSecondsOverflows := s.timerSecondsOverflows + 1 }

def systimeTimerOverflow (s : Systime) : Systime :=
  { s with timerMilisOverflows := s.timerMilisOverflows + 1 }

def systimeUnix (s : Systime) : Int :=
  int64 (int64 (s.timerSecondsOverflows.toNat * 0x100000000) + (rtcGetValue s).toNat)

def systimeUnixMilli (s : Systime) : Int :=
  int64 ((int64 (s.timerMilisOverflows.toNat * 0x100000000)).tdiv 32
    + ((0xffffffff - timerValue 1 0 s).toNat / 32 : Nat))

def systimeSetUnixMilli (unixTimeMilis : Int) (s : Systime) : Systime :=
  if unixTimeMilis ≤ 0 then s
  else
    let seconds := unixTimeMilis.tdiv 1000
    let milisRemaining := unixTimeMilis - seconds * 1000
    let s := timerSetLoad 1 0 (BitVec.ofInt 32 (0xffffffff - milisRemaining * 32)) s
    let unixTime := unixTimeMilis.tdiv 1000
    let s := { s with timerSecondsOverflows := BitVec.ofInt 32 (unixTime / 0x100000000) }
    rtcSetValue (BitVec.ofInt 32 (unixTime % 0x100000000)) s

def systimeSetUnix (unixTime : Int) (s : Systime) : Systime :=
  if unixTime ≤ 0 then s
  else
    let s := { s with timerSecondsOverflows := BitVec.ofInt 32 (unixTime.tdiv 0x100000000) }
    let s := rtcSetValue (BitVec.ofInt 32 (unixTime.tmod 0x100000000)) s
    let milis := int64 (unixTime * 1000)
    let s := { s with timerMilisOverflows := BitVec.ofInt 32 (milis.tdiv (0x100000000 / 32)) }
    let milisRemaining := BitVec.ofInt 32 (milis.tmod (0x100000000 / 32))
    timerSetLoad 1 0 (0xffffffff - milisRemaining * 32) s

/-- The 64-bit value in two registers, `(top << 32) | bottom`. -/
def joinRegs (bottom top : BitVec 32) : Int :=
  ((top.setWidth 64 <<< 32) ||| bottom.setWidth 64).toInt

def syscallSetUnixTimeMilli (r0 r1 : BitVec 32) (s : Systime) : Systime :=
  systimeSetUnixMilli (joinRegs r0 r1) s

def syscallUnixTimeMilli (s : Systime) : BitVec 32 × BitVec 32 :=
  let time := systimeUnixMilli s
  (BitVec.ofInt 32 time, BitVec.ofInt 32 (time >>> (32 : Nat)))

/-! ## Reading the parts -/

@[simp] theorem timerValue_setLoad (load : BitVec 32) :
    timerValue 1 0 (timerSetLoad 1 0 load s) = load := by
  simp [timerValue, timerSetLoad]

@[simp] theorem timerSetLoad_milis (m i : Nat) (load : BitVec 32) :
    (timerSetLoad m i load s).timerMilisOverflows = s.timerMilisOverflows := by
  unfold timerSetLoad
  split_ifs <;> rfl

@[simp] theorem timerSetLoad_seconds (m i : Nat) (load : BitVec 32) :
    (timerSetLoad m i load s).timerSecondsOverflows = s.timerSecondsOverflows := by
  unfold timerSetLoad
  split_ifs <;> rfl

@[simp] theorem timerSetLoad_rtc (m i : Nat) (load : BitVec 32) :
    (timerSetLoad m i load s).rtc = s.rtc := by
  unfold timerSetLoad
  split_ifs <;> rfl

theorem toNat_ofInt_of_range {x : Int} (h1 : 0 ≤ x) (h2 : x < 2 ^ 32) :
    ((BitVec.ofInt 32 x).toNat : Int) = x := by
  rw [BitVec.toNat_ofInt]
  push_cast
  omega

theorem toNat_ofInt_mul_32 {x : Int} (h1 : 0 ≤ x) (h2 : x < 2 ^ 27) :
    ((BitVec.ofInt 32 x * 32).toNat : Int) = x * 32 := by
  have hx := toNat_ofInt_of_range h1 (by omega : x < 2 ^ 32)
  rw [BitVec.toNat_mul]
  generalize (BitVec.ofInt 32 x).toNat = m at hx
  show ((m * 32 % 2 ^ 32 : Nat) : Int) = x * 32
  omega

/-- A load of `0xffffffff - x` has let `x` ticks elapse. -/
theorem elapsed_load (x : BitVec 32) : 0xffffffff - (0xffffffff - x) = x := by
  bv_omega

/-- The seconds, from the two halves they are kept in. -/
theorem systimeUnix_of (h1 : s.timerSecondsOverflows.toNat < 2 ^ 31) :
    systimeUnix s = s.timerSecondsOverflows.toNat * 2 ^ 32 + s.rtc.toNat := by
  have hr := s.rtc.isLt
  have hover : int64 (s.timerSecondsOverflows.toNat * 0x100000000)
      = s.timerSecondsOverflows.toNat * 2 ^ 32 := int64_of_range (by omega) (by omega)
  unfold systimeUnix rtcGetValue
  rw [hover, int64_of_range (by omega) (by omega)]

/-- The ticks so far: those of the overflows and those since the last one. -/
def ticks (s : Systime) : Nat :=
  s.timerMilisOverflows.toNat * 2 ^ 32 + (0xffffffff - timerValue 1 0 s).toNat

theorem ticks_congr (h1 : s'.timerMilisOverflows = s.timerMilisOverflows)
    (h2 : timerValue 1 0 s' = timerValue 1 0 s) : ticks s' = ticks s := by
  rw [ticks, ticks, h1, h2]

/-- The milliseconds, with the count of overflows read as a signed number. -/
theorem systimeUnixMilli_eq (s : Systime) :
    systimeUnixMilli s = s.timerMilisOverflows.toInt * 2 ^ 27
      + ((0xffffffff - timerValue 1 0 s).toNat / 32 : Nat) := by
  have hv := (0xffffffff - timerValue 1 0 s).isLt
  have ho := s.timerMilisOverflows.isLt
  have hint : s.timerMilisOverflows.toInt = if 2 * s.timerMilisOverflows.toNat < 2 ^ 32
      then (s.timerMilisOverflows.toNat : Int) else s.timerMilisOverflows.toNat - 2 ^ 32 :=
    BitVec.toInt_eq_toNat_cond _
  have hover : int64 (s.timerMilisOverflows.toNat * 0x100000000)
      = s.timerMilisOverflows.toInt * 2 ^ 27 * 32 := by
    unfold int64
    split_ifs at hint <;> omega
  have hrange : -2 ^ 31 ≤ s.timerMilisOverflows.toInt ∧ s.timerMilisOverflows.toInt < 2 ^ 31 := by
    split_ifs at hint <;> omega
  unfold systimeUnixMilli
  rw [hover, Int.mul_tdiv_cancel _ (by omega), int64_of_range (by omega) (by omega)]

/-- **The milliseconds are the ticks by 32.** -/
theorem systimeUnixMilli_of (h : s.timerMilisOverflows.toNat < 2 ^ 31) :
    systimeUnixMilli s = (ticks s / 32 : Nat) := by
  rw [systimeUnixMilli_eq, BitVec.toInt_eq_toNat_of_lt (by omega), ticks]
  omega

/-! ## Setting the seconds -/

/-- `systime_set_unix` sets the seconds. -/
theorem systimeUnix_setUnix (ht : 0 < t) (hbound : t < 2 ^ 63) (s : Systime) :
    systimeUnix (systimeSetUnix t s) = t := by
  have hover : ((systimeSetUnix t s).timerSecondsOverflows.toNat : Int) = t / 2 ^ 32 := by
    unfold systimeSetUnix
    rw [if_neg (by omega), timerSetLoad_seconds]
    show ((BitVec.ofInt 32 (t.tdiv 0x100000000)).toNat : Int) = _
    rw [Int.tdiv_eq_ediv_of_nonneg (by omega), toNat_ofInt_of_range (by omega) (by omega)]
    rfl
  have hrtc : ((systimeSetUnix t s).rtc.toNat : Int) = t % 2 ^ 32 := by
    unfold systimeSetUnix
    rw [if_neg (by omega), timerSetLoad_rtc]
    show ((BitVec.ofInt 32 (t.tmod 0x100000000)).toNat : Int) = _
    rw [Int.tmod_eq_emod_of_nonneg (by omega), toNat_ofInt_of_range (by omega) (by omega)]
    rfl
  rw [systimeUnix_of (by omega)]
  omega

/-- `systime_set_unix` sets the ticks of the new time. -/
theorem ticks_setUnix (ht : 0 < t) (hbound : 1000 * t < 2 ^ 58) (s : Systime) :
    (ticks (systimeSetUnix t s) : Int) = 32 * (1000 * t) := by
  have hmilis : int64 (t * 1000) = 1000 * t := by
    rw [int64_of_range (by omega) (by omega), Int.mul_comm]
  have hover : ((systimeSetUnix t s).timerMilisOverflows.toNat : Int) = 1000 * t / 2 ^ 27 := by
    unfold systimeSetUnix
    rw [if_neg (by omega), timerSetLoad_milis]
    show ((BitVec.ofInt 32 ((int64 (t * 1000)).tdiv (0x100000000 / 32))).toNat : Int) = _
    rw [hmilis, Int.tdiv_eq_ediv_of_nonneg (by omega), toNat_ofInt_of_range (by omega) (by omega)]
    rfl
  have hrem : ((0xffffffff - timerValue 1 0 (systimeSetUnix t s)).toNat : Int)
      = 1000 * t % 2 ^ 27 * 32 := by
    unfold systimeSetUnix
    rw [if_neg (by omega), timerValue_setLoad, elapsed_load]
    rw [hmilis, Int.tmod_eq_emod_of_nonneg (by omega)]
    exact toNat_ofInt_mul_32 (Int.emod_nonneg _ (by omega)) (Int.emod_lt_of_pos _ (by omega))
  rw [ticks, Nat.cast_add, Nat.cast_mul, hover, hrem]
  push_cast
  omega

/-! ## The clock runs -/

/-- `k` ticks of the timer with `n` overflows. The value counts down and wraps from
0 to 0xffffffff, where the overflow is counted; the RTC and the other timers run too. -/
inductive Elapsed (s : Systime) : Nat → Nat → Systime → Prop
  | start : Elapsed s 0 0 s
  | down {k n : Nat} {s' : Systime} : Elapsed s k n s' → timerValue 1 0 s' ≠ 0 →
      Elapsed s (k + 1) n (timerSetLoad 1 0 (timerValue 1 0 s' - 1) s')
  | wrap {k n : Nat} {s' : Systime} : Elapsed s k n s' → timerValue 1 0 s' = 0 →
      Elapsed s (k + 1) (n + 1) (systimeTimerOverflow (timerSetLoad 1 0 0xffffffff s'))
  | others {k n : Nat} {s' s'' : Systime} : Elapsed s k n s' →
      s''.timerMilisOverflows = s'.timerMilisOverflows → timerValue 1 0 s'' = timerValue 1 0 s' →
      Elapsed s k n s''

/-- **Every tick counts**, through any number of overflows. -/
theorem Elapsed.ticks (h : Elapsed s k n s') (hfit : s.timerMilisOverflows.toNat + n < 2 ^ 32) :
    s'.timerMilisOverflows.toNat = s.timerMilisOverflows.toNat + n ∧
      ticks s' = ticks s + k := by
  induction h with
  | start => exact ⟨(Nat.add_zero _).symm, (Nat.add_zero _).symm⟩
  | @down k n s' _ hne ih =>
      obtain ⟨hover, hticks⟩ := ih hfit
      refine ⟨by rw [timerSetLoad_milis, hover], ?_⟩
      have hv : timerValue 1 0 s' ≠ 0#32 := hne
      unfold Drivers.ticks at hticks ⊢
      rw [timerSetLoad_milis, timerValue_setLoad]
      bv_omega
  | @wrap k n s' _ hzero ih =>
      obtain ⟨hover, hticks⟩ := ih (by omega)
      have hnext : (systimeTimerOverflow (timerSetLoad 1 0 0xffffffff s')).timerMilisOverflows.toNat
          = s'.timerMilisOverflows.toNat + 1 := by
        show (((timerSetLoad 1 0 0xffffffff s').timerMilisOverflows + 1#32).toNat) = _
        rw [timerSetLoad_milis, BitVec.toNat_add_of_lt (by rw [hover]; exact hfit)]
        rfl
      have hvalue : timerValue 1 0 (systimeTimerOverflow (timerSetLoad 1 0 0xffffffff s'))
          = 0xffffffff := timerValue_setLoad (s := s') 0xffffffff
      refine ⟨by rw [hnext, hover, Nat.add_assoc], ?_⟩
      have hlast : Drivers.ticks s' = s'.timerMilisOverflows.toNat * 2 ^ 32 + 4294967295 := by
        rw [Drivers.ticks, hzero]
        rfl
      have hfirst : Drivers.ticks (systimeTimerOverflow (timerSetLoad 1 0 0xffffffff s'))
          = (s'.timerMilisOverflows.toNat + 1) * 2 ^ 32 + 0 := by
        rw [Drivers.ticks, hnext, hvalue]
        rfl
      rw [hfirst, ← Nat.add_assoc, ← hticks, hlast]
      ring
  | @others k n s' s'' _ hover' hvalue ih =>
      obtain ⟨hover, hticks⟩ := ih hfit
      exact ⟨by rw [hover', hover], (ticks_congr hover' hvalue).trans hticks⟩

/-- **The clock is continuous**: `k` ticks after the time was set, it has moved by
`k/32` milliseconds. -/
theorem systimeUnixMilli_continuous (ht : 0 < t) (hbound : 1000 * t < 2 ^ 58)
    (hrun : Elapsed (systimeSetUnix t s) k n s')
    (hfit : (systimeSetUnix t s).timerMilisOverflows.toNat + n < 2 ^ 31) :
    systimeUnixMilli s' = 1000 * t + k / 32 ∧ systimeUnix (systimeSetUnix t s) = t := by
  have hset := ticks_setUnix ht hbound s
  obtain ⟨hover, hticks⟩ := hrun.ticks (by omega)
  refine ⟨?_, systimeUnix_setUnix ht (by omega) s⟩
  rw [systimeUnixMilli_of (by omega), hticks]
  push_cast
  omega

/-- The time and the state from which a first tick is counted. -/
theorem systimeUnixMilli_continuous_oneTick :
    systimeUnixMilli (timerSetLoad 1 0
        (timerValue 1 0 (systimeSetUnix 1 ⟨0, 0, fun _ _ => 0, 0⟩) - 1)
        (systimeSetUnix 1 ⟨0, 0, fun _ _ => 0, 0⟩)) = 1000 * 1 + ((0 + 1 : Nat) : Int) / 32 ∧
      systimeUnix (systimeSetUnix 1 ⟨0, 0, fun _ _ => 0, 0⟩) = 1 :=
  systimeUnixMilli_continuous (by omega) (by omega)
    (.down .start (by decide +kernel)) (by decide +kernel)

/-! ## Setting the milliseconds -/

/-- `systime_set_unix_milli` sets the seconds. -/
theorem systimeUnix_setUnixMilli (ht : 0 < t) (hbound : t < 2 ^ 63) (s : Systime) :
    systimeUnix (systimeSetUnixMilli t s) = t / 1000 := by
  have hdiv : t.tdiv 1000 = t / 1000 := Int.tdiv_eq_ediv_of_nonneg (by omega)
  have hover : ((systimeSetUnixMilli t s).timerSecondsOverflows.toNat : Int)
      = t / 1000 / 2 ^ 32 := by
    unfold systimeSetUnixMilli
    rw [if_neg (by omega), hdiv]
    exact toNat_ofInt_of_range (by omega) (by omega)
  have hrtc : ((systimeSetUnixMilli t s).rtc.toNat : Int) = t / 1000 % 2 ^ 32 := by
    unfold systimeSetUnixMilli
    rw [if_neg (by omega), hdiv]
    exact toNat_ofInt_of_range (by omega) (by omega)
  rw [systimeUnix_of (by omega)]
  omega

/-- `systime_set_unix_milli` sets the timer to the milliseconds of the second, and
leaves the count of its overflows. -/
theorem systimeUnixMilli_setUnixMilli (ht : 0 < t) (s : Systime) :
    systimeUnixMilli (systimeSetUnixMilli t s)
      = s.timerMilisOverflows.toInt * 2 ^ 27 + t % 1000 := by
  have hdiv : t.tdiv 1000 = t / 1000 := Int.tdiv_eq_ediv_of_nonneg (by omega)
  have hover : (systimeSetUnixMilli t s).timerMilisOverflows = s.timerMilisOverflows := by
    unfold systimeSetUnixMilli
    rw [if_neg (by omega)]
    exact timerSetLoad_milis ..
  have helapsed : ((0xffffffff - timerValue 1 0 (systimeSetUnixMilli t s)).toNat : Int)
      = t % 1000 * 32 := by
    have hload : timerValue 1 0 (systimeSetUnixMilli t s)
        = BitVec.ofInt 32 (0xffffffff - t % 1000 * 32) := by
      have hrem : t - t / 1000 * 1000 = t % 1000 := by omega
      unfold systimeSetUnixMilli
      rw [if_neg (by omega), hdiv]
      show timerValue 1 0
        (timerSetLoad 1 0 (BitVec.ofInt 32 (0xffffffff - (t - t / 1000 * 1000) * 32)) s) = _
      rw [hrem]
      exact timerValue_setLoad ..
    have hvalue := toNat_ofInt_of_range (x := 0xffffffff - t % 1000 * 32) (by omega) (by omega)
    rw [← hload] at hvalue
    generalize timerValue 1 0 (systimeSetUnixMilli t s) = v at hvalue
    bv_omega
  rw [systimeUnixMilli_eq, hover]
  omega

/-- **When the milliseconds are read back**: the overflows counted before are already
those of the new time, on the second. -/
theorem systimeSetUnixMilli_readBack_iff (ht : 0 < t) (hbound : t < 2 ^ 58) (s : Systime) :
    (systimeUnixMilli (systimeSetUnixMilli t s) = t ∧
      systimeUnix (systimeSetUnixMilli t s) = t / 1000) ↔
    s.timerMilisOverflows.toNat * 2 ^ 27 = 1000 * (t / 1000) := by
  have ho := s.timerMilisOverflows.isLt
  have hint : s.timerMilisOverflows.toInt = if 2 * s.timerMilisOverflows.toNat < 2 ^ 32
      then (s.timerMilisOverflows.toNat : Int) else s.timerMilisOverflows.toNat - 2 ^ 32 :=
    BitVec.toInt_eq_toNat_cond _
  rw [systimeUnixMilli_setUnixMilli ht, systimeUnix_setUnixMilli ht (by omega),
    and_iff_left rfl]
  constructor
  · intro h
    -- a count from 2^31 on is read as a negative one
    split_ifs at hint <;> omega
  · intro h
    split_ifs at hint <;> omega

theorem systimeSetUnixMilli_readBack_iff_halfSecond :
    (systimeUnixMilli (systimeSetUnixMilli 500 ⟨0, 0, fun _ _ => 0, 0⟩) = 500 ∧
      systimeUnix (systimeSetUnixMilli 500 ⟨0, 0, fun _ _ => 0, 0⟩) = 500 / 1000) ↔
    ((0#32).toNat * 2 ^ 27 : Int) = 1000 * (500 / 1000) :=
  systimeSetUnixMilli_readBack_iff (by omega) (by omega) _

/-- Set to one second, the clock says 0 ms. -/
theorem systimeSetUnixMilli_not_readBack :
    systimeUnixMilli (systimeSetUnixMilli 1000 ⟨0, 0, fun _ _ => 0, 0⟩) = 0 ∧
    systimeUnixMilli (systimeSetUnixMilli 1000 ⟨0, 0, fun _ _ => 0, 0⟩) ≠ 1000 := by
  decide +kernel

/-! ## The system calls -/

theorem words_or {x y : Nat} (hx : x < 2 ^ 32) (hy : y < 2 ^ 32) :
    (x % 2 ^ 64) <<< 32 % 2 ^ 64 ||| y % 2 ^ 64 = x * 2 ^ 32 + y := by
  have hhigh : (x % 2 ^ 64) <<< 32 % 2 ^ 64 = x <<< 32 := by
    rw [Nat.shiftLeft_eq, Nat.shiftLeft_eq]
    omega
  have hlow : y % 2 ^ 64 = y := Nat.mod_eq_of_lt (by omega)
  rw [hhigh, hlow, ← Nat.shiftLeft_add_eq_or_of_lt hy, Nat.shiftLeft_eq]

/-- The two registers hold the low and the high word of a 64-bit value. -/
theorem joinRegs_words (h1 : -2 ^ 63 ≤ t) (h2 : t < 2 ^ 63) :
    joinRegs (BitVec.ofInt 32 t) (BitVec.ofInt 32 (t >>> (32 : Nat))) = t := by
  have hnat : (((BitVec.ofInt 32 (t >>> (32 : Nat))).setWidth 64 <<< 32) |||
      (BitVec.ofInt 32 t).setWidth 64).toNat = (t % 2 ^ 64).toNat := by
    rw [BitVec.toNat_or, BitVec.toNat_shiftLeft, BitVec.toNat_setWidth, BitVec.toNat_setWidth,
      BitVec.toNat_ofInt, BitVec.toNat_ofInt, Int.shiftRight_eq_div_pow]
    rw [words_or (by omega) (by omega)]
    omega
  rw [joinRegs, BitVec.toInt_eq_toNat_cond, hnat]
  split_ifs <;> omega

/-- The system call sets the time whose words it is given. -/
theorem syscallSetUnixTimeMilli_words (h1 : -2 ^ 63 ≤ t) (h2 : t < 2 ^ 63) (s : Systime) :
    syscallSetUnixTimeMilli (BitVec.ofInt 32 t) (BitVec.ofInt 32 (t >>> (32 : Nat))) s
      = systimeSetUnixMilli t s := by
  rw [syscallSetUnixTimeMilli, joinRegs_words h1 h2]

/-- What `syscall_unix_time_milli` returns is the time, in two words. -/
theorem joinRegs_syscallUnixTimeMilli (s : Systime) :
    joinRegs (syscallUnixTimeMilli s).1 (syscallUnixTimeMilli s).2 = systimeUnixMilli s := by
  have hrange : -2 ^ 63 ≤ systimeUnixMilli s ∧ systimeUnixMilli s < 2 ^ 63 := by
    unfold systimeUnixMilli int64
    omega
  exact joinRegs_words hrange.1 hrange.2

end OSExt.Drivers
