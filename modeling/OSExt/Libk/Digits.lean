import OSExt.Libk.SprintfText

/-!
# The digit loops

`sprint_uint32_base_safe` and `sprint_uint64_base_safe` with their scratch buffer. The first
loop puts the digits into `buff` from the last one on, and its exit depends on the quotient;
the second one counts a signed index back to zero and stores them from the start of the
string on, until the string is full. Every index of `buff` is kept, so that one outside its
36 bytes would be seen.
-/

namespace OSExt.Libk

open Lib

namespace Scratch

/-! ## The functions -/

/-- `buff` and `digit`, with the indices of `buff` that were used. -/
structure Filling where
  buff : Int → UInt8
  digit : Int
  indexed : List Int

/-- `buff[digit] = c` -/
def Filling.put (s : Filling) (c : UInt8) : Filling :=
  { s with buff := Function.update s.buff s.digit c, indexed := s.indexed ++ [s.digit] }

/-- The first loop; `none` while it has not ended after so many rounds. -/
def fillBuff (base : Nat) : Nat → Nat → Filling → Option Filling
  | 0, _, _ => none
  | rounds + 1, a, s =>
    let tmp := a % base
    -- "something has gone wrong"
    if tmp > 15 then some s
    else
      let c := if tmp < 10 then 48 + tmp else 97 + tmp - 10
      let s := s.put (UInt8.ofNat c)
      let a := a / base
      if a = 0 then some s else fillBuff base rounds a { s with digit := s.digit + 1 }

/-- What was stored where, how much (`h`), and the indices of `buff` that were used. -/
structure Stored where
  bytes : List (UInt8 × Nat)
  h : Nat
  indexed : List Int

/-- `string[h] = buff[i]; h++` -/
def Stored.put (r : Stored) (buff : Int → UInt8) (i : Int) : Stored where
  bytes := r.bytes ++ [(buff i, r.h)]
  h := r.h + 1
  indexed := r.indexed ++ [i]

/-- The second loop. -/
def storeBuff (length : BitVec 32) (buff : Int → UInt8) : Nat → Int → Stored → Option Stored
  | 0, _, _ => none
  | rounds + 1, i, r =>
    if i ≥ 0 then
      if r.h ≥ (length - 1).toNat ∨ r.h ≥ 34 then some r
      else storeBuff length buff rounds (i - 1) (r.put buff i)
    else some r

/-- `buff` after the `k_memset` of 34 of its bytes; the others are what the stack held. -/
def cleared (stack : Int → UInt8) : Filling where
  buff := fun i => if 0 ≤ i ∧ i < 34 then 0 else stack i
  digit := 0
  indexed := (List.range 34).map Int.ofNat

/-- The body of both functions. -/
def sprintBaseSafe (stack : Int → UInt8) (rounds : Nat) (length : BitVec 32) (a base : Nat) :
    Option Stored :=
  (fillBuff base rounds a (cleared stack)).bind fun s =>
    storeBuff length s.buff rounds s.digit ⟨[], 0, s.indexed⟩

def sprintUint64BaseSafe (stack : Int → UInt8) (rounds : Nat) (length : BitVec 32)
    (a : BitVec 64) (base : BitVec 32) : Option Stored :=
  sprintBaseSafe stack rounds length a.toNat base.toNat

def sprintUint32BaseSafe (stack : Int → UInt8) (rounds : Nat) (length : BitVec 32)
    (a base : BitVec 32) : Option Stored :=
  sprintBaseSafe stack rounds length a.toNat base.toNat

/-! ## The first loop -/

section Loops

variable {base : Nat}

/-- The numeral of `a` stands in `buff`, read from `digit` down. -/
structure Filled (base a : Nat) (s s' : Filling) : Prop where
  digit : s'.digit + 1 = s.digit + (numeral base a).length
  digits : ∀ j < (numeral base a).length, (numeral base a)[j]? = some (s'.buff (s'.digit - j))
  below : ∀ i < s.digit, s'.buff i = s.buff i
  indexed : ∀ i ∈ s'.indexed, i ∈ s.indexed ∨ s.digit ≤ i ∧ i ≤ s'.digit

theorem filled_last {a : Nat} (h : a < base) (s : Filling) :
    Filled base a s (s.put (digitByte a)) := by
  have hnum : numeral base a = [digitByte a] := numeral_of_lt h
  constructor
  case digit => rw [hnum, List.length_singleton]; rfl
  case digits =>
    intro j hj
    rw [hnum, List.length_singleton] at hj
    obtain rfl : j = 0 := by omega
    rw [hnum, List.getElem?_cons_zero]
    simp [Filling.put]
  case below =>
    intro i hi
    exact Function.update_of_ne (by omega) _ _
  case indexed =>
    intro i hi
    rcases List.mem_append.mp hi with hi | hi
    · exact Or.inl hi
    · have heq : i = s.digit := List.mem_singleton.mp hi
      exact Or.inr ⟨by omega, by rw [heq]; exact Int.le_refl _⟩

/-- The remainder goes to `digit`, the numeral of the quotient above it. -/
theorem filled_more {a : Nat} {s s' : Filling} (hb : 1 < base) (h : base ≤ a)
    (hs : Filled base (a / base)
      { s.put (digitByte (a % base)) with digit := s.digit + 1 } s') :
    Filled base a s s' := by
  have hnum := numeral_of_le hb h
  have hlen : (numeral base a).length = (numeral base (a / base)).length + 1 := by
    rw [hnum, List.length_append, List.length_singleton]
  have hdigit : s'.digit + 1 = s.digit + 1 + (numeral base (a / base)).length := hs.digit
  constructor
  case digit => omega
  case digits =>
    intro j hj
    rw [hnum]
    rcases Nat.lt_or_eq_of_le (Nat.le_of_lt_succ (hlen ▸ hj)) with hj | hj
    · rw [List.getElem?_append_left hj]
      exact hs.digits j hj
    · -- the last digit stands where this round has put it
      have hplace : s'.digit - (j : Int) = s.digit := by omega
      have hput : (s.put (digitByte (a % base))).buff s.digit = digitByte (a % base) :=
        Function.update_self _ _ _
      rw [hplace, hs.below s.digit (Int.lt_succ _), hj, List.getElem?_concat_length]
      exact congrArg some hput.symm
  case below =>
    intro i hi
    rw [hs.below i (by show i < s.digit + 1; omega)]
    exact Function.update_of_ne (by omega) _ _
  case indexed =>
    intro i hi
    rcases hs.indexed i hi with hi | ⟨hlow, hhigh⟩
    · rcases List.mem_append.mp hi with hi | hi
      · exact Or.inl hi
      · have heq : i = s.digit := List.mem_singleton.mp hi
        exact Or.inr ⟨by omega, by omega⟩
    · have hlow : s.digit + 1 ≤ i := hlow
      exact Or.inr ⟨by omega, hhigh⟩

/-- **The first loop** ends after one round for each digit. -/
theorem fillBuff_filled (hb : 1 < base) (h16 : base ≤ 16) :
    ∀ {rounds a : Nat} {s : Filling}, (numeral base a).length ≤ rounds →
      ∃ s', fillBuff base rounds a s = some s' ∧ Filled base a s s' := by
  intro rounds
  induction rounds with
  | zero =>
      intro a s h
      exact absurd (List.length_eq_zero_iff.mp (Nat.le_zero.mp h)) (numeral_ne_nil base a)
  | succ rounds ih =>
      intro a s h
      have hlt : a % base < base := Nat.mod_lt a (by omega)
      have hle : ¬ a % base > 15 := by omega
      rw [fillBuff]
      simp only [if_neg hle, digitByte_eq (Nat.lt_of_lt_of_le hlt h16)]
      by_cases hsmall : a < base
      · rw [if_pos (Nat.div_eq_of_lt hsmall), Nat.mod_eq_of_lt hsmall]
        exact ⟨_, rfl, filled_last hsmall s⟩
      · have hquot : a / base ≠ 0 := Nat.ne_of_gt (Nat.div_pos (by omega) (by omega))
        have hlen := congrArg List.length (numeral_of_le hb (Nat.le_of_not_lt hsmall))
        rw [List.length_append, List.length_singleton] at hlen
        have hrest : (numeral base (a / base)).length ≤ rounds := by omega
        rw [if_neg hquot]
        obtain ⟨s', hs', hfilled⟩ := ih hrest
        exact ⟨s', hs', filled_more hb (by omega) hfilled⟩

/-! ## The second loop -/

/-- **The second loop** stores the text that stands in `buff` from `i` down, as much of it as
there is room for. -/
theorem storeBuff_text (length : BitVec 32) {buff : Int → UInt8} :
    ∀ {text : List UInt8} {rounds : Nat} {i : Int} {r : Stored}, text.length < rounds →
      i + 1 = text.length → (∀ j < text.length, text[j]? = some (buff (i - j))) →
      ∃ r', storeBuff length buff rounds i r = some r' ∧
        r'.bytes = r.bytes ++ (text.take (min (length - 1).toNat 34 - r.h)).zipIdx r.h ∧
        r'.h = r.h + min text.length (min (length - 1).toNat 34 - r.h) ∧
        ∀ k ∈ r'.indexed, k ∈ r.indexed ∨ 0 ≤ k ∧ k ≤ i := by
  intro text
  induction text with
  | nil =>
      intro rounds i r hrounds hi _
      obtain ⟨rounds, rfl⟩ := Nat.exists_add_one_eq.mpr (Nat.zero_lt_of_lt hrounds)
      have hneg : ¬ i ≥ 0 := by rw [List.length_nil] at hi; omega
      refine ⟨r, by rw [storeBuff, if_neg hneg], ?_, ?_, fun k hk => Or.inl hk⟩
      · rw [List.take_nil, List.zipIdx_nil, List.append_nil]
      · rw [List.length_nil, Nat.zero_min, Nat.add_zero]
  | cons c text ih =>
      intro rounds i r hrounds hi htext
      rw [List.length_cons] at hrounds hi
      obtain ⟨rounds, rfl⟩ := Nat.exists_add_one_eq.mpr (Nat.zero_lt_of_lt hrounds)
      have hpos : i ≥ 0 := by omega
      rw [storeBuff, if_pos hpos]
      by_cases hfull : r.h ≥ (length - 1).toNat ∨ r.h ≥ 34
      · -- no room is left, and the rest of the text is cut
        have hroom : min (length - 1).toNat 34 - r.h = 0 := by omega
        rw [if_pos hfull, hroom]
        exact ⟨r, rfl, (List.append_nil _).symm, rfl, fun k hk => Or.inl hk⟩
      · have hc : c = buff i := by
          have hhead := htext 0 (Nat.zero_lt_succ _)
          rw [List.getElem?_cons_zero, Int.natCast_zero, Int.sub_zero] at hhead
          exact Option.some.inj hhead
        -- the rest stands one lower
        have hrest : ∀ j < text.length, text[j]? = some (buff (i - 1 - j)) := by
          intro j hj
          have h := htext (j + 1) (Nat.succ_lt_succ hj)
          rw [List.getElem?_cons_succ] at h
          rw [h, show i - 1 - (j : Int) = i - ((j + 1 : Nat) : Int) by omega]
        obtain ⟨r', hr', hbytes, hh, hindexed⟩ :=
          ih (r := r.put buff i) (i := i - 1) (Nat.lt_of_succ_lt_succ hrounds) (by omega) hrest
        have hroom : min (length - 1).toNat 34 - r.h = min (length - 1).toNat 34 - (r.h + 1) + 1 := by
          omega
        rw [if_neg hfull]
        refine ⟨r', hr', ?_, ?_, ?_⟩
        · rw [hbytes, hroom, List.take_succ_cons, List.zipIdx_cons, hc]
          exact List.append_assoc _ _ _
        · have hput : (r.put buff i).h = r.h + 1 := rfl
          rw [hh, hput, List.length_cons]
          omega
        · intro k hk
          rcases hindexed k hk with hk | ⟨hlow, hhigh⟩
          · rcases List.mem_append.mp hk with hk | hk
            · exact Or.inl hk
            · have heq : k = i := List.mem_singleton.mp hk
              exact Or.inr ⟨by omega, by omega⟩
          · exact Or.inr ⟨hlow, by omega⟩

end Loops

/-! ## Both loops -/

/-- The text of `a` up to the last byte but one, at the start of the string, and what one
knows of it. -/
structure Exact (length base a : Nat) (r : Stored) : Prop where
  bytes : r.bytes = ((numeral base a).take (length - 1)).zipIdx
  returned : r.h = min (numeral base a).length (length - 1)
  noLeadingZero : 0 < a → (numeral base a).head? ≠ some '0'.toUInt8
  inside : ∀ i ∈ r.indexed, 0 ≤ i ∧ i < 36
  readBack : (numeral base a).length ≤ length - 1 → valueOf base (r.bytes.map Prod.fst) = a

theorem sprintBaseSafe_exact (stack : Int → UInt8) {rounds base a : Nat} {length : BitVec 32}
    (hb : 1 < base) (h16 : base ≤ 16) (hlength : 1 ≤ length)
    (hdigits : (numeral base a).length ≤ 34) (hrounds : 34 < rounds) :
    ∃ r, sprintBaseSafe stack rounds length a base = some r ∧ Exact length.toNat base a r := by
  have hlast : (length - 1).toNat = length.toNat - 1 :=
    BitVec.toNat_sub_of_le hlength
  obtain ⟨s, hs, hfilled⟩ := fillBuff_filled hb h16 (s := cleared stack)
    (show (numeral base a).length ≤ rounds by omega)
  have hdigit : s.digit + 1 = (numeral base a).length := by
    rw [hfilled.digit]
    exact Int.zero_add _
  obtain ⟨r, hr, hbytes, hh, hindexed⟩ := storeBuff_text length
    (r := ⟨[], 0, s.indexed⟩) (show (numeral base a).length < rounds by omega) hdigit hfilled.digits
  have hcut : (numeral base a).take (min (length.toNat - 1) 34) =
      (numeral base a).take (length.toNat - 1) := by
    rw [← List.take_take, List.take_of_length_le hdigits]
  rw [hlast, Nat.sub_zero, List.nil_append, hcut] at hbytes
  rw [hlast, Nat.zero_add, Nat.sub_zero] at hh
  refine ⟨r, ?_, ?_⟩
  · rw [sprintBaseSafe, hs]
    exact hr
  · constructor
    case bytes => exact hbytes
    case returned => omega
    case noLeadingZero => exact fun hpos => head_numeral_ne_zero hb h16 hpos
    case inside =>
      intro i hi
      rcases hindexed i hi with hi | ⟨hlow, hhigh⟩
      · rcases hfilled.indexed i hi with hi | ⟨hlow, hhigh⟩
        · obtain ⟨n, hn, rfl⟩ := List.mem_map.mp hi
          have hn := List.mem_range.mp hn
          exact ⟨Int.natCast_nonneg n, by simp only [Int.ofNat_eq_natCast]; omega⟩
        · exact ⟨hlow, by omega⟩
      · exact ⟨hlow, by omega⟩
    case readBack =>
      intro hfits
      rw [hbytes, List.take_of_length_le hfits, List.zipIdx_map_fst, valueOf_numeral hb h16]

/-- A number of so many bits has no more digits than bits. -/
theorem length_numeral_le {base : Nat} (hb : 1 < base) {k : Nat} (hk : 0 < k) (a : Nat)
    (ha : a < 2 ^ k) : (numeral base a).length ≤ k :=
  (length_numeral_le_iff hb hk).mpr (Nat.lt_of_lt_of_le ha (Nat.pow_le_pow_left hb k))

theorem length_numeral_u32 {base : Nat} (hb : 1 < base) (a : BitVec 32) :
    (numeral base a.toNat).length ≤ 34 :=
  Nat.le_trans (length_numeral_le hb (by omega) a.toNat a.isLt) (by omega)

/-- In base 10 and above 64 bits have at most 20 digits. -/
theorem length_numeral_u64 {base : Nat} (hb : 10 ≤ base) (a : BitVec 64) :
    (numeral base a.toNat).length ≤ 34 := by
  have hpow : a.toNat < base ^ 20 :=
    calc a.toNat < 2 ^ 64 := a.isLt
      _ ≤ 10 ^ 20 := by norm_num
      _ ≤ base ^ 20 := Nat.pow_le_pow_left hb 20
  have hlen : (numeral base a.toNat).length ≤ 20 :=
    (length_numeral_le_iff (by omega) (by omega)).mpr hpow
  omega

/-- Within the formatted text a number is the same bytes, for any base up to 16. -/
theorem sprintUint32BaseSafe_text (stack : Int → UInt8) {length : BitVec 32}
    (hlength : 1 ≤ length) {rounds : Nat} (hrounds : 34 < rounds) (a base : BitVec 32)
    (hb : 2 ≤ base.toNat) (h16 : base.toNat ≤ 16) :
    ∃ r, sprintUint32BaseSafe stack rounds length a base = some r ∧
      r.bytes = (Libk.sprintUint32BaseSafe length.toNat a base.toNat).zipIdx := by
  obtain ⟨r, hr, hexact⟩ :=
    sprintBaseSafe_exact stack hb h16 hlength (length_numeral_u32 hb a) hrounds
  have hpow : a.toNat < base.toNat ^ 36 :=
    calc a.toNat < 2 ^ 32 := a.isLt
      _ ≤ 2 ^ 36 := by norm_num
      _ ≤ base.toNat ^ 36 := Nat.pow_le_pow_left hb 36
  refine ⟨r, hr, ?_⟩
  rw [hexact.bytes, sprintUint32BaseSafe_eq, numberText, digits_eq hb h16 (by omega) hpow,
    List.reverse_reverse, List.take_of_length_le (length_numeral_u32 hb a)]

/-- **Digit generation is exact**: both functions return, and what they leave behind is the
text of their number, cut to `length-1`. -/
theorem sprint_base_safe_exact (stack : Int → UInt8) (length : BitVec 32) (hlength : 1 ≤ length)
    (rounds : Nat) (hrounds : 34 < rounds) :
    (∀ a base : BitVec 32, 2 ≤ base.toNat → base.toNat ≤ 16 →
      ∃ r, sprintUint32BaseSafe stack rounds length a base = some r ∧
        Exact length.toNat base.toNat a.toNat r) ∧
    (∀ (a : BitVec 64) (base : BitVec 32), base = 10 ∨ base = 16 →
      ∃ r, sprintUint64BaseSafe stack rounds length a base = some r ∧
        Exact length.toNat base.toNat a.toNat r) := by
  constructor
  · intro a base hb h16
    exact sprintBaseSafe_exact stack hb h16 hlength (length_numeral_u32 hb a) hrounds
  · intro a base hbase
    have hten : 10 ≤ base.toNat ∧ base.toNat ≤ 16 := by
      cases hbase with
      | inl h => subst h; decide
      | inr h => subst h; decide
    exact sprintBaseSafe_exact stack (by omega) hten.2 hlength (length_numeral_u64 hten.1 a) hrounds

theorem sprint_base_safe_exact_two_bytes :
    1 ≤ 2#32 ∧ 34 < 35 ∧
      ∃ r, sprintUint32BaseSafe (fun _ => 0) 35 2#32 255#32 16#32 = some r ∧
        Exact 2 16 255 r :=
  ⟨by decide, by omega, (sprint_base_safe_exact (fun _ => 0) 2#32 (by decide) 35 (by omega)).1
    255#32 16#32 (by decide) (by decide)⟩

end Scratch

end OSExt.Libk
