import Mathlib.Tactic
import Mathlib.Data.BitVec
import Mathlib.Data.List.GetD

/-!
# The string functions

`string.c`: lengths and comparisons of C strings, which are read through the bytes at
and behind their address. All take a maximum, so that a string without its terminator
ends a scan too.
-/

namespace OSExt.Libk

/-- The bytes of a string, by offset from its address. -/
abbrev CString := Nat → UInt8

/-- The bytes of a list, with the terminator behind. -/
def ofBytes (l : List UInt8) : CString := fun i => l.getD i 0

/-- The loop of `k_strlen`. -/
def strlenLoop (s : CString) (max : Nat) : Nat → Nat → Nat
  | 0, len => len
  | fuel + 1, len =>
    if s len = 0 then len
    else if len ≥ max then max
    else strlenLoop s max fuel (len + 1)

/-- `k_strlen` -/
def kStrlen (s : CString) (max : Nat) : Nat := strlenLoop s max (max + 1) 0

/-- The loop of `k_strcmp`: the count, and how many characters it has looked at. -/
def strcmpLoop (s1 s2 : CString) : Nat → Nat → BitVec 32 → BitVec 32 × Nat
  | 0, i, count => (count, i)
  | fuel + 1, i, count =>
    if s1 i = 0 ∨ s2 i = 0 then (count, i + 1)
    else
      strcmpLoop s1 s2 fuel (i + 1)
        (count + (BitVec.ofNat 32 (s1 i).toNat - BitVec.ofNat 32 (s2 i).toNat))

/-- `k_strcmp`: the sum of the differences of the characters. -/
def kStrcmp (s1 s2 : CString) (max : Nat) : BitVec 32 := (strcmpLoop s1 s2 max 0 0).1

/-- How many characters of each string `k_strcmp` looks at. -/
def kStrcmpReads (s1 s2 : CString) (max : Nat) : Nat := (strcmpLoop s1 s2 max 0 0).2

/-- The loop of `k_streq`. -/
def streqLoop (s1 s2 : CString) : Nat → Nat → Bool
  | 0, _ => true
  | fuel + 1, i =>
    if s1 i = 0 ∨ s2 i = 0 then true
    else if s1 i ≠ s2 i then false
    else streqLoop s1 s2 fuel (i + 1)

/-- `k_streq` -/
def kStreq (s1 s2 : CString) (max : Nat) : Bool :=
  if kStrlen s1 max ≠ kStrlen s2 max then false else streqLoop s1 s2 max 0

/-! ## Lengths -/

/-- `l` characters in front of the terminator, or `max` of them without one. -/
structure IsLength (s : CString) (max l : Nat) : Prop where
  le : l ≤ max
  chars : ∀ n < l, s n ≠ 0
  stop : l < max → s l = 0

theorem IsLength.unique {s : CString} {max l l' : Nat} (h : IsLength s max l)
    (h' : IsLength s max l') : l = l' := by
  have hle := h.le
  have hle' := h'.le
  rcases Nat.lt_trichotomy l l' with hlt | heq | hlt
  · exact absurd (h.stop (by omega)) (h'.chars l hlt)
  · exact heq
  · exact absurd (h'.stop (by omega)) (h.chars l' hlt)

theorem strlenLoop_isLength {s : CString} {max : Nat} : ∀ fuel len, len ≤ max → max < len + fuel →
    (∀ n < len, s n ≠ 0) → IsLength s max (strlenLoop s max fuel len) := by
  intro fuel
  induction fuel with
  | zero => exact fun len hle hfuel _ => absurd hfuel (by omega)
  | succ fuel ih =>
      intro len hle hfuel hchars
      rw [strlenLoop]
      by_cases hzero : s len = 0
      · rw [if_pos hzero]
        exact ⟨hle, hchars, fun _ => hzero⟩
      · rw [if_neg hzero]
        by_cases hmax : len ≥ max
        · obtain rfl : max = len := Nat.le_antisymm hmax hle
          rw [if_pos hmax]
          exact ⟨hle, hchars, fun hlt => absurd hlt (by omega)⟩
        · rw [if_neg hmax]
          refine ih (len + 1) (by omega) (by omega) fun n hn => ?_
          rcases Nat.lt_succ_iff_lt_or_eq.mp hn with hn | rfl
          · exact hchars n hn
          · exact hzero

/-- `k_strlen` counts the characters, up to the maximum. -/
theorem kStrlen_isLength (s : CString) (max : Nat) : IsLength s max (kStrlen s max) :=
  strlenLoop_isLength (max + 1) 0 (Nat.zero_le _) (by omega) nofun

/-- A length is at most the maximum. -/
theorem kStrlen_le (s : CString) (max : Nat) : kStrlen s max ≤ max := (kStrlen_isLength s max).le

/-! ## Comparing -/

/-- Strings with the same characters up to a terminator do not differ. -/
theorem strcmpLoop_agree {s1 s2 : CString} {stop : Nat} (hagree : ∀ n < stop, s1 n = s2 n)
    (hstop : s1 stop = 0) : ∀ fuel i count, i ≤ stop → (strcmpLoop s1 s2 fuel i count).1 = count := by
  intro fuel
  induction fuel with
  | zero => exact fun _ _ _ => rfl
  | succ fuel ih =>
      intro i count hi
      rw [strcmpLoop]
      by_cases hzero : s1 i = 0 ∨ s2 i = 0
      · rw [if_pos hzero]
      · have hne : i ≠ stop := by
          intro heq
          subst heq
          exact hzero (Or.inl hstop)
        rw [if_neg hzero, ih (i + 1) _ (by omega), hagree i (by omega), BitVec.sub_self,
          BitVec.add_zero]

theorem strcmpLoop_reads_le (s1 s2 : CString) : ∀ fuel i count,
    (strcmpLoop s1 s2 fuel i count).2 ≤ i + fuel := by
  intro fuel
  induction fuel with
  | zero => exact fun i _ => Nat.le_refl i
  | succ fuel ih =>
      intro i count
      rw [strcmpLoop]
      split
      · show i + 1 ≤ i + (fuel + 1)
        omega
      · have hrest := ih (i + 1) (count + (BitVec.ofNat 32 (s1 i).toNat -
          BitVec.ofNat 32 (s2 i).toNat))
        omega

/-- A comparison looks at no more characters than the maximum. -/
theorem kStrcmpReads_le (s1 s2 : CString) (max : Nat) : kStrcmpReads s1 s2 max ≤ max := by
  have hreads := strcmpLoop_reads_le s1 s2 max 0 0
  rwa [Nat.zero_add] at hreads

/-- The sum of the `n` characters from the `i`th on. -/
def charSum (s : CString) (i n : Nat) : Nat := ((List.range' i n).map fun j => (s j).toNat).sum

theorem charSum_zero (s : CString) (i : Nat) : charSum s i 0 = 0 := rfl

theorem charSum_succ (s : CString) (i n : Nat) :
    charSum s i (n + 1) = (s i).toNat + charSum s (i + 1) n := by
  rw [charSum, List.range'_succ, List.map_cons, List.sum_cons, charSum]

/-- Where strings of one length are compared to their end, the count goes up by the
difference of their sums. -/
theorem strcmpLoop_sum {s1 s2 : CString} {max l : Nat} (h1 : IsLength s1 max l)
    (h2 : ∀ n < l, s2 n ≠ 0) : ∀ n i count, i + n = l →
    (strcmpLoop s1 s2 (max - i) i count).1
      = count + (BitVec.ofNat 32 (charSum s1 i n) - BitVec.ofNat 32 (charSum s2 i n)) := by
  have hle := h1.le
  intro n
  induction n with
  | zero =>
      intro i count hi
      have hsame : (strcmpLoop s1 s2 (max - i) i count).1 = count := by
        cases hfuel : max - i with
        | zero => rfl
        | succ fuel =>
            obtain rfl : i = l := hi
            have hstop : s1 i = 0 := h1.stop (by omega)
            rw [strcmpLoop, if_pos (Or.inl hstop)]
      rw [hsame, charSum_zero, charSum_zero, BitVec.sub_self, BitVec.add_zero]
  | succ n ih =>
      intro i count hi
      have hzero : ¬ (s1 i = 0 ∨ s2 i = 0) := by
        intro hzero
        rcases hzero with hzero | hzero
        · exact h1.chars i (by omega) hzero
        · exact h2 i (by omega) hzero
      rw [show max - i = (max - (i + 1)) + 1 by omega, strcmpLoop, if_neg hzero,
        ih (i + 1) _ (by omega), charSum_succ, charSum_succ, BitVec.ofNat_add, BitVec.ofNat_add]
      ring

/-- **Strings of one length compare as equal** where their sums do. -/
theorem kStrcmp_eq_zero_iff {s1 s2 : CString} {max l : Nat} (h1 : IsLength s1 max l)
    (h2 : ∀ n < l, s2 n ≠ 0) :
    kStrcmp s1 s2 max = 0 ↔ charSum s1 0 l % 2 ^ 32 = charSum s2 0 l % 2 ^ 32 := by
  have hsum := strcmpLoop_sum h1 h2 l 0 0 (Nat.zero_add l)
  rw [Nat.sub_zero, zero_add] at hsum
  rw [kStrcmp, hsum, sub_eq_zero, ← BitVec.toNat_inj, BitVec.toNat_ofNat,
    BitVec.toNat_ofNat]

/-! ## Equality -/

theorem streqLoop_iff {s1 s2 : CString} {max l : Nat} (h1 : IsLength s1 max l)
    (h2 : IsLength s2 max l) : ∀ fuel i, i ≤ l → i + fuel = max →
    (streqLoop s1 s2 fuel i = true ↔ ∀ n, i ≤ n → n < l → s1 n = s2 n) := by
  have hle := h1.le
  intro fuel
  induction fuel with
  | zero => exact fun i _ _ => iff_of_true rfl fun n hlo hn => absurd hn (by omega)
  | succ fuel ih =>
      intro i hi hmax
      rw [streqLoop]
      by_cases hzero : s1 i = 0 ∨ s2 i = 0
      · rw [if_pos hzero]
        refine iff_of_true rfl fun n hlo hn => ?_
        rcases hzero with hzero | hzero
        · exact absurd hzero (h1.chars i (by omega))
        · exact absurd hzero (h2.chars i (by omega))
      · have hlt : i < l := by
          rcases Nat.lt_or_eq_of_le hi with hlt | rfl
          · exact hlt
          · exact absurd (Or.inl (h1.stop (by omega))) hzero
        rw [if_neg hzero]
        by_cases hne : s1 i ≠ s2 i
        · rw [if_pos hne]
          exact iff_of_false Bool.false_ne_true fun h => hne (h i (Nat.le_refl i) hlt)
        · rw [if_neg hne, ih (i + 1) hlt (by omega)]
          constructor
          · intro h n hlo hn
            rcases Nat.eq_or_lt_of_le hlo with rfl | hlo
            · exact not_not.mp hne
            · exact h n hlo hn
          · exact fun h n hlo hn => h n (by omega) hn

/-- **Equal strings** have one length and the same characters up to it. -/
theorem kStreq_iff (s1 s2 : CString) (max : Nat) : kStreq s1 s2 max = true ↔
    kStrlen s1 max = kStrlen s2 max ∧ ∀ n < kStrlen s1 max, s1 n = s2 n := by
  unfold kStreq
  by_cases hlen : kStrlen s1 max = kStrlen s2 max
  · rw [if_neg (not_not.mpr hlen), streqLoop_iff (kStrlen_isLength s1 max)
      (hlen ▸ kStrlen_isLength s2 max) max 0 (Nat.zero_le _) (Nat.zero_add _)]
    exact ⟨fun h => ⟨hlen, fun n => h n (Nat.zero_le n)⟩, fun h n _ => h.2 n⟩
  · rw [if_pos hlen]
    exact iff_of_false Bool.false_ne_true fun h => hlen h.1

theorem kStreq_symm {s1 s2 : CString} {max : Nat} (h : kStreq s1 s2 max = true) :
    kStreq s2 s1 max = true := by
  rw [kStreq_iff] at h ⊢
  exact ⟨h.1.symm, fun n hn => (h.2 n (h.1 ▸ hn)).symm⟩

theorem kStreq_trans {s1 s2 s3 : CString} {max : Nat} (h : kStreq s1 s2 max = true)
    (h' : kStreq s2 s3 max = true) : kStreq s1 s3 max = true := by
  rw [kStreq_iff] at h h' ⊢
  exact ⟨h.1.trans h'.1, fun n hn => (h.2 n hn).trans (h'.2 n (h.1 ▸ hn))⟩

/-- A copy of the characters that are counted, with the terminator, equals the string. -/
theorem kStreq_copy (s : CString) (max : Nat) :
    kStreq (fun i => if i < kStrlen s max then s i else 0) s max = true := by
  have hs := kStrlen_isLength s max
  have hcopy : IsLength (fun i => if i < kStrlen s max then s i else 0) max (kStrlen s max) := by
    refine ⟨hs.le, fun n hn => ?_, fun _ => if_neg (Nat.lt_irrefl _)⟩
    show (if n < kStrlen s max then s n else 0) ≠ 0
    rw [if_pos hn]
    exact hs.chars n hn
  have hlen := (kStrlen_isLength _ max).unique hcopy
  rw [kStreq_iff, hlen]
  exact ⟨rfl, fun n hn => if_pos hn⟩

/-! ## Two tests for equal names -/

/-- A list without a NUL is as long as the string it stands for. -/
theorem isLength_ofBytes {l : List UInt8} {max : Nat} (hzero : 0 ∉ l) (hmax : l.length ≤ max) :
    IsLength (ofBytes l) max l.length where
  le := hmax
  chars := by
    intro n hn hn0
    rw [ofBytes, List.getD_eq_getElem _ _ hn] at hn0
    exact hzero (hn0 ▸ List.getElem_mem hn)
  stop := fun _ => List.getD_eq_default _ _ (Nat.le_refl _)

theorem kStrlen_ofBytes {l : List UInt8} {max : Nat} (hzero : 0 ∉ l) (hmax : l.length ≤ max) :
    kStrlen (ofBytes l) max = l.length :=
  (kStrlen_isLength _ _).unique (isLength_ofBytes hzero hmax)

theorem charSum_ofBytes (l : List UInt8) :
    charSum (ofBytes l) 0 l.length = (l.map UInt8.toNat).sum := by
  unfold charSum
  congr 1
  refine List.ext_getElem (by simp) fun i hi _ => ?_
  have hlt : i < l.length := by simpa using hi
  simp [ofBytes, List.getElem?_eq_getElem hlt]

/-- `k_streq` tells whether two strings are equal. -/
theorem kStreq_ofBytes {s1 s2 : List UInt8} {max : Nat} (h1 : 0 ∉ s1) (h2 : 0 ∉ s2)
    (hl1 : s1.length ≤ max) (hl2 : s2.length ≤ max) :
    kStreq (ofBytes s1) (ofBytes s2) max = true ↔ s1 = s2 := by
  rw [kStreq_iff, kStrlen_ofBytes h1 hl1, kStrlen_ofBytes h2 hl2]
  constructor
  · intro h
    obtain ⟨hlen, hchars⟩ := h
    refine List.ext_getElem hlen fun i hi1 hi2 => ?_
    have hchar := hchars i hi1
    rwa [ofBytes, ofBytes, List.getD_eq_getElem _ _ hi1, List.getD_eq_getElem _ _ hi2] at hchar
  · intro h
    exact ⟨congrArg List.length h, fun n _ => by rw [h]⟩

/-- The test on section names holds for strings of one length and one sum. -/
theorem sameLengthAndSum_iff {s1 s2 : List UInt8} {max : Nat} (h1 : 0 ∉ s1) (h2 : 0 ∉ s2)
    (hl1 : s1.length ≤ max) (hl2 : s2.length ≤ max) :
    (kStrcmp (ofBytes s1) (ofBytes s2) max = 0 ∧
      kStrlen (ofBytes s1) max = kStrlen (ofBytes s2) max) ↔
    s1.length = s2.length ∧
      (s1.map UInt8.toNat).sum % 2 ^ 32 = (s2.map UInt8.toNat).sum % 2 ^ 32 := by
  rw [kStrlen_ofBytes h1 hl1, kStrlen_ofBytes h2 hl2, and_comm]
  refine and_congr_right fun hlen => ?_
  have hchars := (isLength_ofBytes h2 hl2).chars
  rw [← hlen] at hchars
  rw [kStrcmp_eq_zero_iff (isLength_ofBytes h1 hl1) hchars, charSum_ofBytes, hlen, charSum_ofBytes]

/-- **The two tests agree** unless different strings of one length have the same sum. -/
theorem equalNames_agree_iff {s1 s2 : List UInt8} {max : Nat} (h1 : 0 ∉ s1) (h2 : 0 ∉ s2)
    (hl1 : s1.length < max) (hl2 : s2.length < max) :
    (((kStrcmp (ofBytes s1) (ofBytes s2) max = 0 ∧
        kStrlen (ofBytes s1) max = kStrlen (ofBytes s2) max) ↔
      kStreq (ofBytes s1) (ofBytes s2) max = true) ∧
      (kStreq (ofBytes s1) (ofBytes s2) max = true ↔ s1 = s2)) ↔
    (s1.length = s2.length →
      (s1.map UInt8.toNat).sum % 2 ^ 32 = (s2.map UInt8.toNat).sum % 2 ^ 32 → s1 = s2) := by
  rw [sameLengthAndSum_iff h1 h2 hl1.le hl2.le, kStreq_ofBytes h1 h2 hl1.le hl2.le,
    and_iff_left Iff.rfl]
  constructor
  · intro h hlen hsum
    exact h.mp ⟨hlen, hsum⟩
  · intro h
    refine ⟨fun hs => h hs.1 hs.2, fun heq => ?_⟩
    rw [heq]
    exact ⟨rfl, rfl⟩

/-- Two names that differ in every way. -/
theorem equalNames_agree_iff_gotAndText :
    (((kStrcmp (ofBytes [46, 103, 111, 116]) (ofBytes [46, 116, 101, 120, 116]) 100 = 0 ∧
        kStrlen (ofBytes [46, 103, 111, 116]) 100
          = kStrlen (ofBytes [46, 116, 101, 120, 116]) 100) ↔
      kStreq (ofBytes [46, 103, 111, 116]) (ofBytes [46, 116, 101, 120, 116]) 100 = true) ∧
      (kStreq (ofBytes [46, 103, 111, 116]) (ofBytes [46, 116, 101, 120, 116]) 100 = true ↔
        ([46, 103, 111, 116] : List UInt8) = [46, 116, 101, 120, 116])) :=
  (equalNames_agree_iff (by decide) (by decide) (by decide) (by decide)).mpr
    fun hlen => absurd hlen (by decide)

/-- `ad` and `bc` have the same length and sum. -/
theorem equalNames_differ :
    ¬ ∀ (s1 s2 : List UInt8) (max : Nat), 0 ∉ s1 → 0 ∉ s2 → s1.length < max → s2.length < max →
      ((kStrcmp (ofBytes s1) (ofBytes s2) max = 0 ∧
          kStrlen (ofBytes s1) max = kStrlen (ofBytes s2) max) ↔
        kStreq (ofBytes s1) (ofBytes s2) max = true) ∧
      (kStreq (ofBytes s1) (ofBytes s2) max = true ↔ s1 = s2) := by
  intro h
  have hagree := (h [97, 100] [98, 99] 3 (by decide) (by decide) (by decide) (by decide)).1
  exact absurd (hagree.mp (by decide)) (by decide)

end OSExt.Libk
