import OSExt.Lib.Numerals
import OSExt.Libk.Sprintf

/-!
# What `sprintf_safe` prints

A round that prints a piece moves on in the format, so the loop ends unless a `%%` meets
the last byte but one: then the round changes nothing. Where the whole text fits it ends
with the text, at the start of the buffer and nothing behind it, as long as the sum that
strings are cut to does not wrap.
-/

namespace OSExt.Libk

open Lib

/-! ## Runs of the loop -/

section Loop

variable {length : Nat} {va : Nat → Arg} {p p' : Printing}

theorem sprintfLoop_next (h : sprintfStep length va p = some p') (rounds : Nat) :
    sprintfLoop length va (rounds + 1) p = sprintfLoop length va rounds p' := by
  rw [sprintfLoop, h]

theorem sprintfLoop_ended (h : sprintfStep length va p = none) (rounds : Nat) :
    sprintfLoop length va rounds p = p := by
  cases rounds with
  | zero => rfl
  | succ rounds => rw [sprintfLoop, h]

/-- A round that changes nothing is followed by nothing else. -/
theorem sprintfLoop_stuck (h : sprintfStep length va p = some p) (rounds : Nat) :
    sprintfLoop length va rounds p = p := by
  induction rounds with
  | zero => rfl
  | succ rounds ih => rw [sprintfLoop_next h, ih]

/-- More rounds than it takes change nothing. -/
theorem sprintfLoop_more : ∀ {rounds : Nat} {p : Printing},
    sprintfStep length va (sprintfLoop length va rounds p) = none → ∀ more,
    sprintfLoop length va (rounds + more) p = sprintfLoop length va rounds p := by
  intro rounds
  induction rounds with
  | zero => exact fun h more => sprintfLoop_ended h (0 + more)
  | succ rounds ih =>
      intro p h more
      rw [Nat.add_right_comm]
      cases hstep : sprintfStep length va p with
      | none => rw [sprintfLoop_ended hstep, sprintfLoop_ended hstep]
      | some q =>
          rw [sprintfLoop_next hstep] at h ⊢
          rw [sprintfLoop_next hstep]
          exact ih h more

/-- However many rounds one allows, the loop ends in one state only. -/
theorem sprintfLoop_unique : ∀ {rounds rounds' : Nat} {p : Printing},
    sprintfStep length va (sprintfLoop length va rounds p) = none →
    sprintfStep length va (sprintfLoop length va rounds' p) = none →
    sprintfLoop length va rounds p = sprintfLoop length va rounds' p := by
  intro rounds
  induction rounds with
  | zero =>
      intro rounds' p h _
      exact (sprintfLoop_ended h rounds').symm
  | succ rounds ih =>
      intro rounds' p h h'
      cases hstep : sprintfStep length va p with
      | none => rw [sprintfLoop_ended hstep, sprintfLoop_ended hstep]
      | some q =>
          cases rounds' with
          | zero => exact absurd (hstep.symm.trans h') (Option.some_ne_none _)
          | succ rounds' =>
              rw [sprintfLoop_next hstep] at h h' ⊢
              rw [sprintfLoop_next hstep]
              exact ih h h'

end Loop

/-! ## When the loop ends -/

/-- The loop of `sprintf_safe` and of `sprintf_safe_va` ends. -/
def Terminates (str : List UInt8) (va : Nat → Arg) (length : Nat) : Prop :=
  ∃ rounds, sprintfStep length va (sprintfLoop length va rounds ⟨str, 0, 0, []⟩) = none

/-- No `%%` is reached where only one byte is left for it. -/
def Ends (length : Nat) : Nat → List Piece → Prop
  | _, [] => True
  | index, q :: qs =>
    index < length - 1 → (q.directive = .percent → index + 1 < length - 1) ∧
      Ends length ((index + q.stores length index) % 2 ^ 32) qs

theorem ends_iff {length : Nat} {va : Nat → Arg} : ∀ (qs : List Piece) (p : Printing),
    pieces va p.rest p.arg = qs →
    ((∃ rounds, sprintfStep length va (sprintfLoop length va rounds p) = none) ↔
      Ends length p.index qs) := by
  intro qs
  induction qs with
  | nil => exact fun p hps => iff_of_true ⟨0, sprintfStep_none (Or.inr hps)⟩ trivial
  | cons q qs ih =>
      intro p hps
      by_cases hroom : p.index < length - 1
      · rcases sprintfStep_piece hroom hps with
          ⟨hnext, hstuck⟩ | ⟨hpercent, block, -, hsize, hnext, hqs⟩
        · -- the `%%` is tried again for ever
          refine iff_of_false ?_ fun h => ?_
          · intro h
            obtain ⟨rounds, h⟩ := h
            rw [sprintfLoop_stuck hnext, hnext] at h
            exact Option.some_ne_none _ h
          · have hlt := (h hroom).1 hstuck.directive
            have hfull := hstuck.full
            omega
        · have hrest := ih _ hqs
          have hindex : (p.put q.directive block).index =
              (p.index + q.stores length p.index) % 2 ^ 32 := by
            rw [← hsize]
            rfl
          rw [hindex] at hrest
          constructor
          · intro h
            obtain ⟨rounds, h⟩ := h
            cases rounds with
            | zero => exact absurd (hnext.symm.trans h) (Option.some_ne_none _)
            | succ rounds =>
                rw [sprintfLoop_next hnext] at h
                exact fun _ => ⟨hpercent, hrest.mp ⟨rounds, h⟩⟩
          · intro h
            obtain ⟨rounds, h⟩ := hrest.mpr (h hroom).2
            refine ⟨rounds + 1, ?_⟩
            rw [sprintfLoop_next hnext]
            exact h
      · exact iff_of_true ⟨0, sprintfStep_none (Or.inl (Nat.le_of_not_lt hroom))⟩
          fun h => absurd h hroom

/-- **The functions return exactly for the formats** that reach no `%%` with only the last
byte but one left. -/
theorem sprintf_terminates_iff (str : List UInt8) (va : Nat → Arg) (length : Nat) :
    Terminates str va length ↔ Ends length 0 (pieces va str 0) :=
  ends_iff _ ⟨str, 0, 0, []⟩ rfl

/-- Two bytes have no room for `%%`. -/
theorem percentInTwoBytes_spins :
    ¬ ∀ (str : List UInt8) (va : Nat → Arg) (length : Nat), 1 ≤ length → length < 2 ^ 32 →
      Terminates str va length := by
  intro h
  obtain ⟨rounds, hended⟩ := h ("%%".toList.map Char.toUInt8) tenDigits 2 (by omega) (by omega)
  have hstuck : sprintfStep 2 tenDigits ⟨"%%".toList.map Char.toUInt8, 0, 0, []⟩ =
      some ⟨"%%".toList.map Char.toUInt8, 0, 0, []⟩ := rfl
  rw [sprintfLoop_stuck hstuck, hstuck] at hended
  exact Option.some_ne_none _ hended

/-! ## The text of a format -/

/-- The characters in front of the terminator, at most a hundred. -/
def stringText (s : CString) : List UInt8 := ((List.range 100).map s).takeWhile (· ≠ 0)

/-- What a format means, with its arguments from the `i`th on. -/
def rendered (va : Nat → Arg) : List UInt8 → Nat → List UInt8
  -- `%%`, `%s`, `%d`, `%x`
  | 37 :: 37 :: rest, i => 37 :: rendered va rest i
  | 37 :: 115 :: rest, i => stringText (va i).string ++ rendered va rest (i + 1)
  | 37 :: 100 :: rest, i => numeral 10 (va i).u32.toNat ++ rendered va rest (i + 1)
  | 37 :: 120 :: rest, i => numeral 16 (va i).u32.toNat ++ rendered va rest (i + 1)
  -- `%llx`, `%lld`, `%Lf`
  | 37 :: 108 :: 108 :: 120 :: rest, i => numeral 16 (va i).u64.toNat ++ rendered va rest (i + 1)
  | 37 :: 108 :: 108 :: 100 :: rest, i => numeral 10 (va i).u64.toNat ++ rendered va rest (i + 1)
  | 37 :: 76 :: 102 :: rest, i =>
    (numeral 10 (va i).double.whole.toNat ++ 46 ::
      numeral 10 ((va i).double.hundredfold - (va i).double.whole * 100#64).toNat) ++
        rendered va rest (i + 1)
  | 0 :: _, _ => []
  | c :: rest, i => c :: rendered va rest i
  | [], _ => []

/-- The byte of a digit as the source computes it. -/
theorem digitByte_eq {d : Nat} (h : d < 16) :
    UInt8.ofNat (if d < 10 then 48 + d else 97 + d - 10) = digitByte d := by
  have hbytes : ∀ d < 16, UInt8.ofNat (if d < 10 then 48 + d else 97 + d - 10) = digitByte d := by
    decide
  exact hbytes d h

/-- **The digit generator** leaves the numeral, last digit first. -/
theorem digits_eq {base : Nat} (hb : 1 < base) (h16 : base ≤ 16) :
    ∀ {fuel a : Nat}, 0 < fuel → a < base ^ fuel →
      digits base fuel a = (numeral base a).reverse := by
  intro fuel
  induction fuel with
  | zero => exact fun hfuel => absurd hfuel (Nat.lt_irrefl 0)
  | succ fuel ih =>
      intro a _ ha
      have hlt : a % base < base := Nat.mod_lt a (by omega)
      have hle : ¬ a % base > 15 := by omega
      rw [digits]
      simp only [if_neg hle, digitByte_eq (Nat.lt_of_lt_of_le hlt h16)]
      by_cases hzero : a / base = 0
      · have hsmall : a < base := (Nat.div_eq_zero_iff_lt (by omega)).mp hzero
        rw [if_pos hzero, numeral_of_lt hsmall, Nat.mod_eq_of_lt hsmall, List.reverse_singleton]
      · have hbig : base ≤ a := by
          by_contra hsmall
          exact hzero (Nat.div_eq_of_lt (by omega))
        have hquot : a / base < base ^ fuel := by
          rw [Nat.pow_succ] at ha
          exact Nat.div_lt_of_lt_mul (Nat.mul_comm _ _ ▸ ha)
        have hfuel : 0 < fuel := by
          rcases Nat.eq_zero_or_pos fuel with rfl | hfuel
          · exact absurd (Nat.lt_one_iff.mp (Nat.pow_zero base ▸ hquot)) hzero
          · exact hfuel
        rw [if_neg hzero, ih hfuel hquot, numeral_of_le hb hbig, List.reverse_append,
          List.reverse_singleton, List.singleton_append]

/-- A 64-bit number is printed as its numeral. -/
theorem numberText_eq {base a : Nat} (hb : 10 ≤ base) (h16 : base ≤ 16) (ha : a < 2 ^ 64) :
    numberText base a = numeral base a := by
  have hpow : ∀ k, 20 ≤ k → a < base ^ k := by
    intro k hk
    calc a < 2 ^ 64 := ha
      _ ≤ 10 ^ 20 := by norm_num
      _ ≤ base ^ 20 := Nat.pow_le_pow_left hb 20
      _ ≤ base ^ k := Nat.pow_le_pow_right (by omega) hk
  have hlen : (numeral base a).length ≤ 34 :=
    (length_numeral_le_iff (by omega) (by omega)).mpr (hpow 34 (by omega))
  rw [numberText, digits_eq (by omega) h16 (by omega) (hpow 36 (by omega)), List.reverse_reverse,
    List.take_of_length_le hlen]

/-- A string is printed up to its terminator. -/
theorem stringText_eq (s : CString) :
    (List.range (kStrlen s 100)).map s = stringText s := by
  have hlen := kStrlen_isLength s 100
  have hsplit : List.range 100 =
      List.range (kStrlen s 100) ++ List.range' (kStrlen s 100) (100 - kStrlen s 100) := by
    have happend := List.range'_append_1 (s := 0) (m := kStrlen s 100) (n := 100 - kStrlen s 100)
    rw [Nat.zero_add, Nat.add_sub_cancel' hlen.le] at happend
    rw [List.range_eq_range', List.range_eq_range', happend]
  rw [stringText, hsplit, List.map_append, List.takeWhile_append_of_pos]
  · cases hrest : 100 - kStrlen s 100 with
    | zero => rw [List.range'_zero, List.map_nil, List.takeWhile_nil, List.append_nil]
    | succ n =>
        rw [List.range'_succ, List.map_cons, List.takeWhile_cons_of_neg, List.append_nil]
        rw [hlen.stop (by omega)]
        decide
  · intro c hc
    obtain ⟨n, hn, rfl⟩ := List.mem_map.mp hc
    exact decide_eq_true (hlen.chars n (List.mem_range.mp hn))

/-- What the pieces of a format say. -/
def textOf (qs : List Piece) : List UInt8 := qs.flatMap Piece.text

theorem textOf_cons (q : Piece) (qs : List Piece) : textOf (q :: qs) = q.text ++ textOf qs :=
  List.flatMap_cons

/-- A directive at the head of the format, and what follows it. -/
theorem textOf_pieces {va : Nat → Arg} {rest : List UInt8} {arg : Nat} {d : Directive}
    (hc : ofBytes rest 0 ≠ 0) (hd : directive (ofBytes rest) = d) :
    textOf (pieces va rest arg) = d.text (va arg) (ofBytes rest 0) ++
      textOf (pieces va (rest.drop d.chars) (arg + d.args)) := by
  rw [pieces_cons hc, hd, textOf_cons]

/-- The string that begins with a character has it as its first byte. -/
theorem exists_cons_of_ofBytes {r : List UInt8} {x : UInt8} (hx : x ≠ 0) (hr : ofBytes r 0 = x) :
    ∃ r', r = x :: r' := by
  cases r with
  | nil => exact absurd hr.symm hx
  | cons y r => exact ⟨r, congrArg (· :: r) hr⟩

/-- The same for the three characters of a 64-bit directive. -/
theorem exists_cons_of_long {r : List UInt8} {x : UInt8} (hx : x ≠ 0)
    (hr : ofBytes r 0 = 108 ∧ ofBytes r 1 = 108 ∧ ofBytes r 2 = x) :
    ∃ r', r = 108 :: 108 :: x :: r' := by
  obtain ⟨hfirst, hsecond, hthird⟩ := hr
  obtain ⟨r, rfl⟩ := exists_cons_of_ofBytes (by decide) hfirst
  obtain ⟨r, rfl⟩ := exists_cons_of_ofBytes (by decide) (show ofBytes r 0 = 108 from hsecond)
  obtain ⟨r, rfl⟩ := exists_cons_of_ofBytes hx (show ofBytes r 0 = x from hthird)
  exact ⟨r, rfl⟩

/-- What is none of the directives is a character. -/
theorem directive_plain {c : UInt8} {rest : List UInt8}
    (hpercent : ∀ r, c = 37 → rest = 37 :: r → False)
    (hs : ∀ r, c = 37 → rest = 115 :: r → False) (hd : ∀ r, c = 37 → rest = 100 :: r → False)
    (hx : ∀ r, c = 37 → rest = 120 :: r → False)
    (hllx : ∀ r, c = 37 → rest = 108 :: 108 :: 120 :: r → False)
    (hlld : ∀ r, c = 37 → rest = 108 :: 108 :: 100 :: r → False)
    (hLf : ∀ r, c = 37 → rest = 76 :: 102 :: r → False) :
    directive (ofBytes (c :: rest)) = .plain := by
  unfold directive
  by_cases hc : ofBytes (c :: rest) 0 = '%'.toUInt8 ∧ ofBytes (c :: rest) 1 ≠ 0
  · obtain ⟨hc0, hc1⟩ := hc
    have hc37 : c = 37 := hc0
    rw [if_pos ⟨hc0, hc1⟩]
    -- each test is on the characters behind the sign, as far as there are any
    rw [if_neg, if_neg, if_neg, if_neg, if_neg, if_neg, if_neg]
    · intro h
      obtain ⟨r, rfl⟩ := exists_cons_of_ofBytes (by decide) (show ofBytes rest 0 = 76 from h.1)
      obtain ⟨r', rfl⟩ := exists_cons_of_ofBytes (by decide) (show ofBytes r 0 = 102 from h.2)
      exact hLf _ hc37 rfl
    · intro h
      obtain ⟨r, hr⟩ := exists_cons_of_long (x := 100) (r := rest) (by decide) h
      exact hlld r hc37 hr
    · intro h
      obtain ⟨r, hr⟩ := exists_cons_of_long (x := 120) (r := rest) (by decide) h
      exact hllx r hc37 hr
    · intro h
      obtain ⟨r, hr⟩ := exists_cons_of_ofBytes (by decide) (show ofBytes rest 0 = 120 from h)
      exact hx r hc37 hr
    · intro h
      obtain ⟨r, hr⟩ := exists_cons_of_ofBytes (by decide) (show ofBytes rest 0 = 100 from h)
      exact hd r hc37 hr
    · intro h
      obtain ⟨r, hr⟩ := exists_cons_of_ofBytes (by decide) (show ofBytes rest 0 = 115 from h)
      exact hs r hc37 hr
    · intro h
      obtain ⟨r, hr⟩ := exists_cons_of_ofBytes (by decide) (show ofBytes rest 0 = 37 from h)
      exact hpercent r hc37 hr
  · rw [if_neg hc]

/-- **The pieces of a format say what it means.** -/
theorem textOf_pieces_eq (va : Nat → Arg) (str : List UInt8) (i : Nat) :
    textOf (pieces va str i) = rendered va str i := by
  induction str, i using rendered.induct with
  | case1 rest i ih =>
      rw [textOf_pieces (d := .percent) (by exact nofun) rfl, rendered]
      exact congrArg (37 :: ·) ih
  | case2 rest i ih =>
      rw [textOf_pieces (d := .string) (by exact nofun) rfl, rendered]
      exact congrArg₂ (· ++ ·) (stringText_eq _) ih
  | case3 rest i ih =>
      rw [textOf_pieces (d := .u32 10) (by exact nofun) rfl, rendered]
      exact congrArg₂ (· ++ ·) (numberText_eq (by omega) (by omega) (by omega)) ih
  | case4 rest i ih =>
      rw [textOf_pieces (d := .u32 16) (by exact nofun) rfl, rendered]
      exact congrArg₂ (· ++ ·) (numberText_eq (by omega) (by omega) (by omega)) ih
  | case5 rest i ih =>
      rw [textOf_pieces (d := .u64 16) (by exact nofun) rfl, rendered]
      exact congrArg₂ (· ++ ·) (numberText_eq (by omega) (by omega) (by omega)) ih
  | case6 rest i ih =>
      rw [textOf_pieces (d := .u64 10) (by exact nofun) rfl, rendered]
      exact congrArg₂ (· ++ ·) (numberText_eq (by omega) (by omega) (by omega)) ih
  | case7 rest i ih =>
      rw [textOf_pieces (d := .double) (by exact nofun) rfl, rendered]
      refine congrArg₂ (· ++ ·) ?_ ih
      exact congrArg₂ (fun a b => a ++ 46 :: b) (numberText_eq (by omega) (by omega) (by omega))
        (numberText_eq (by omega) (by omega) (by omega))
  | case8 rest i => rw [pieces_nil rfl, rendered, textOf, List.flatMap_nil]
  | case9 c rest i h1 h2 h3 h4 h5 h6 h7 h0 ih =>
      have hc : ofBytes (c :: rest) 0 ≠ 0 := h0
      rw [textOf_pieces hc (directive_plain h1 h2 h3 h4 h5 h6 h7)]
      rw [rendered]
      · exact congrArg (c :: ·) ih
      all_goals assumption
  | case10 i => rw [pieces_nil rfl, rendered, textOf, List.flatMap_nil]

/-- **No NUL is printed.** -/
theorem zero_not_mem_rendered (va : Nat → Arg) (str : List UInt8) (i : Nat) :
    0 ∉ rendered va str i := by
  have h10 : ∀ a, 0 ∉ numeral 10 a := zero_not_mem_numeral (by omega) (by omega)
  have h16 : ∀ a, 0 ∉ numeral 16 a := zero_not_mem_numeral (by omega) (by omega)
  induction str, i using rendered.induct with
  | case1 rest i ih =>
      rw [rendered, List.mem_cons]
      exact not_or.mpr ⟨by decide, ih⟩
  | case2 rest i ih =>
      rw [rendered, List.mem_append]
      refine not_or.mpr ⟨fun hmem => ?_, ih⟩
      have hne := List.all_eq_true.mp List.all_takeWhile _ hmem
      exact absurd hne (by decide)
  | case3 rest i ih | case6 rest i ih =>
      rw [rendered, List.mem_append]
      exact not_or.mpr ⟨h10 _, ih⟩
  | case4 rest i ih | case5 rest i ih =>
      rw [rendered, List.mem_append]
      exact not_or.mpr ⟨h16 _, ih⟩
  | case7 rest i ih =>
      rw [rendered, List.mem_append, List.mem_append, List.mem_cons]
      exact not_or.mpr ⟨not_or.mpr ⟨h10 _, not_or.mpr ⟨by decide, h10 _⟩⟩, ih⟩
  | case8 rest i =>
      rw [rendered]
      exact List.not_mem_nil
  | case9 c rest i h1 h2 h3 h4 h5 h6 h7 h0 ih =>
      rw [rendered, List.mem_cons]
      · exact not_or.mpr ⟨fun h => h0 h.symm, ih⟩
      all_goals assumption
  | case10 i =>
      rw [rendered]
      exact List.not_mem_nil

/-! ## What is printed where the text fits -/

/-- The text with its strings cut to `index+length-1`, as far as that wraps. -/
def cutText (length : Nat) : Nat → List Piece → List UInt8
  | _, [] => []
  | before, q :: qs =>
    q.text.take (q.placed length before) ++ cutText length (before + q.placed length before) qs

/-- No string is longer than the sum it is cut to. -/
def Unwrapped (length : Nat) : Nat → List Piece → Prop
  | _, [] => True
  | before, q :: qs =>
    (q.directive = .string → q.text.length ≤ (before + length - 1) % 2 ^ 32) ∧
      Unwrapped length (before + q.text.length) qs

theorem Piece.placed_le (length before : Nat) (q : Piece) :
    q.placed length before ≤ q.text.length := by
  unfold Piece.placed
  split
  · exact Nat.min_le_left ..
  · exact Nat.le_refl _

theorem Piece.placed_eq_iff (length before : Nat) (q : Piece) :
    q.placed length before = q.text.length ↔
      (q.directive = .string → q.text.length ≤ (before + length - 1) % 2 ^ 32) := by
  unfold Piece.placed
  split
  · next hd =>
      rw [min_eq_left_iff]
      exact ⟨fun h _ => h, fun h => h hd⟩
  · next hd => exact iff_of_true rfl fun h => absurd h hd

theorem cutText_length (length : Nat) : ∀ (qs : List Piece) (before : Nat),
    (cutText length before qs).length ≤ (textOf qs).length := by
  intro qs
  induction qs with
  | nil => exact fun _ => Nat.le_refl _
  | cons q qs ih =>
      intro before
      have hq := q.placed_le length before
      have hqs := ih (before + q.placed length before)
      rw [cutText, textOf_cons, List.length_append, List.length_append, List.length_take]
      omega

/-- A cut text is the whole text where nothing is cut. -/
theorem cutText_eq_iff (length : Nat) : ∀ (qs : List Piece) (before : Nat),
    cutText length before qs = textOf qs ↔ Unwrapped length before qs := by
  intro qs
  induction qs with
  | nil => exact fun _ => iff_of_true rfl trivial
  | cons q qs ih =>
      intro before
      have hq := q.placed_le length before
      rw [cutText, textOf_cons, Unwrapped, ← Piece.placed_eq_iff]
      constructor
      · intro h
        have hlen := congrArg List.length h
        have hqs := cutText_length length qs (before + q.placed length before)
        rw [List.length_append, List.length_append, List.length_take] at hlen
        have hwhole : q.placed length before = q.text.length := by omega
        rw [hwhole, List.take_length] at h
        exact ⟨hwhole, (ih _).mp (List.append_cancel_left h)⟩
      · intro h
        obtain ⟨hwhole, hrest⟩ := h
        rw [hwhole, List.take_length, (ih _).mpr hrest]

/-- **Where the whole text fits** the loop ends with the cut text behind what was stored. -/
theorem sprintfLoop_prints {length : Nat} {va : Nat → Arg} (hlen : length < 2 ^ 32) :
    ∀ (qs : List Piece) (p : Printing), pieces va p.rest p.arg = qs →
      p.index + (textOf qs).length + 2 ≤ length →
      ∃ rounds, sprintfStep length va (sprintfLoop length va rounds p) = none ∧
        (sprintfLoop length va rounds p).stored =
          p.stored ++ (cutText length p.index qs).zipIdx p.index := by
  intro qs
  induction qs with
  | nil =>
      intro p hps _
      exact ⟨0, sprintfStep_none (Or.inr hps), (List.append_nil _).symm⟩
  | cons q qs ih =>
      intro p hps hfit
      have hplaced := q.placed_le length p.index
      rw [textOf_cons, List.length_append] at hfit
      have hroom : p.index < length - 1 := by omega
      rcases sprintfStep_piece hroom hps with
        ⟨-, hstuck⟩ | ⟨-, block, hblock, hsize, hnext, hqs⟩
      · have hone := hstuck.text
        have hfull := hstuck.full
        omega
      · have hstores : q.stores length p.index = q.placed length p.index := by
          by_cases hd : q.directive = .string
          · exact Piece.stores_string hd
          · rw [Piece.stores_of_ne_string hd]
            omega
        rw [hstores] at hblock hsize
        have hindex : (p.put q.directive block).index = p.index + q.placed length p.index := by
          rw [← hsize]
          exact Nat.mod_eq_of_lt (by omega)
        obtain ⟨rounds, hended, hstored⟩ := ih _ hqs (by rw [hindex]; omega)
        refine ⟨rounds + 1, ?_, ?_⟩
        · rw [sprintfLoop_next hnext]
          exact hended
        · rw [sprintfLoop_next hnext, hstored, hindex, cutText, ← hblock, List.zipIdx_append, hsize]
          exact List.append_assoc ..

/-- The call returns with the text at the start of the buffer and nothing else stored. -/
def Prints (str : List UInt8) (va : Nat → Arg) (length : Nat) : Prop :=
  ∃ rounds, sprintfStep length va (sprintfLoop length va rounds ⟨str, 0, 0, []⟩) = none ∧
    sprintfSafe str length va rounds = (rendered va str 0).zipIdx

/-- **What `sprintf_safe` prints is what the format means**, where it fits, exactly if no
string is cut because its place and the length add up to 2^32 or more. -/
theorem sprintf_prints_iff {str : List UInt8} {va : Nat → Arg} {length : Nat}
    (hlen : length < 2 ^ 32) (hfit : (rendered va str 0).length + 2 ≤ length) :
    Prints str va length ↔ Unwrapped length 0 (pieces va str 0) := by
  rw [← textOf_pieces_eq] at hfit
  obtain ⟨rounds, hended, hstored⟩ :=
    sprintfLoop_prints hlen (pieces va str 0) ⟨str, 0, 0, []⟩ rfl (by rwa [Nat.zero_add])
  rw [List.nil_append] at hstored
  rw [← cutText_eq_iff]
  constructor
  · intro h
    obtain ⟨rounds', hended', hprinted⟩ := h
    have hsame : sprintfSafe str length va rounds' =
        (cutText length 0 (pieces va str 0)).zipIdx := by
      rw [← hstored, sprintfLoop_unique hended hended']
      rfl
    rw [hprinted, ← textOf_pieces_eq] at hsame
    have hfst := congrArg (List.map Prod.fst) hsame
    rw [List.zipIdx_map_fst, List.zipIdx_map_fst] at hfst
    exact hfst.symm
  · intro h
    refine ⟨rounds, hended, ?_⟩
    rw [← textOf_pieces_eq, ← h]
    exact hstored

/-- A number, a percent sign and a string of ten digits fit into sixteen bytes. -/
theorem sprintf_prints_iff_sixteen :
    Prints ("%d%% %s".toList.map Char.toUInt8) tenDigits 16 := by
  refine (sprintf_prints_iff (by omega) (by decide +kernel)).mpr ?_
  rw [pieces_cons (by decide)]
  refine ⟨nofun, ?_⟩
  rw [pieces_cons (by decide)]
  refine ⟨nofun, ?_⟩
  rw [pieces_cons (by decide)]
  refine ⟨nofun, ?_⟩
  rw [pieces_cons (by decide)]
  refine ⟨fun _ => by decide +kernel, ?_⟩
  rw [pieces_nil (by decide)]
  exact trivial

/-- Behind two characters of the longest buffer a string is cut to nothing. -/
theorem longestBuffer_dropsString :
    ¬ ∀ (str : List UInt8) (va : Nat → Arg) (length : Nat), length < 2 ^ 32 →
      (rendered va str 0).length + 2 ≤ length → Prints str va length := by
  intro h
  obtain ⟨rounds, hended, hprinted⟩ := h ("ab%s".toList.map Char.toUInt8) tenDigits (2 ^ 32 - 1)
    (by omega) (by decide +kernel)
  have hended' : sprintfStep (2 ^ 32 - 1) tenDigits (sprintfLoop (2 ^ 32 - 1) tenDigits 3
      ⟨"ab%s".toList.map Char.toUInt8, 0, 0, []⟩) = none := by
    rw [← Option.isNone_iff_eq_none]
    decide +kernel
  have hcut : sprintfSafe ("ab%s".toList.map Char.toUInt8) (2 ^ 32 - 1) tenDigits rounds =
      [(97, 0), (98, 1)] := by
    rw [sprintfSafe, sprintfSafeVa, sprintfLoop_unique hended hended']
    decide +kernel
  rw [hprinted] at hcut
  exact absurd (congrArg List.length hcut) (by decide +kernel)

end OSExt.Libk
