import OSExt.Libk.Strings

/-!
# Formatted printing

`sprintf_safe` and `sprintf_safe_va` print into a buffer of `length` bytes and mean to
keep the last one for the terminator. Everything they store is kept with the index it is
stored at, so that stores behind the buffer are visible too. Numbers and single
characters stop at the last byte but one; a string is cut to `index+length-1`
characters instead of `length-1-index`.

An argument is what `va_arg` answers when it is asked for a type. A `double` only
matters through the two numbers it is printed as. A length is at least one: `length-1`
of an empty buffer wraps in the source.
-/

namespace OSExt.Libk

/-- `(uint64_t) a` and `(uint64_t) (a*100)` of a double. -/
structure Double where
  whole : BitVec 64
  hundredfold : BitVec 64

/-- What one `va_arg` answers, for the type it is asked for. -/
structure Arg where
  string : CString
  u32 : BitVec 32
  u64 : BitVec 64
  double : Double

/-! ## Numbers -/

/-- The digits in `buff`, the last one first; a base above 16 would leave a NUL. -/
def digits (base : Nat) : Nat → Nat → List UInt8
  | 0, _ => []
  | fuel + 1, a =>
    let tmp := a % base
    if tmp > 15 then [0]
    else
      let c := if tmp < 10 then 48 + tmp else 97 + tmp - 10
      UInt8.ofNat c :: (if a / base = 0 then [] else digits base fuel (a / base))

/-- The digits are stored from the first on, while there is room. -/
def storeDigits (length : Nat) : List UInt8 → Nat → List UInt8
  | [], _ => []
  | c :: cs, h => if h ≥ length - 1 ∨ h ≥ 34 then [] else c :: storeDigits length cs (h + 1)

/-- What `sprint_uint64_base_safe` stores; it returns how much that is. -/
def sprintUint64BaseSafe (length : Nat) (a : BitVec 64) (base : Nat) : List UInt8 :=
  storeDigits length (digits base 36 a.toNat).reverse 0

/-- What `sprint_uint32_base_safe` stores. -/
def sprintUint32BaseSafe (length : Nat) (a : BitVec 32) (base : Nat) : List UInt8 :=
  storeDigits length (digits base 36 a.toNat).reverse 0

/-- What `sprint_double_safe` stores, for two places behind the point. -/
def sprintDoubleSafe (length : Nat) (a : Double) : List UInt8 :=
  let whole := sprintUint64BaseSafe length a.whole 10
  let h := whole.length
  if h ≥ length - 1 then whole
  else
    whole ++ '.'.toUInt8 ::
      sprintUint64BaseSafe (length - (h + 1)) (a.hundredfold - a.whole * 100#64) 10

/-! ## The loop -/

inductive Directive where
  /-- `%%` -/
  | percent
  /-- `%s` -/
  | string
  /-- `%d` and `%x` -/
  | u32 (base : Nat)
  /-- `%lld` and `%llx` -/
  | u64 (base : Nat)
  /-- `%Lf` -/
  | double
  /-- any other character -/
  | plain

/-- The tests on the format at `c`, in order. -/
def directive (c : CString) : Directive :=
  if c 0 = '%'.toUInt8 ∧ c 1 ≠ 0 then
    if c 1 = '%'.toUInt8 then .percent
    else if c 1 = 's'.toUInt8 then .string
    else if c 1 = 'd'.toUInt8 then .u32 10
    else if c 1 = 'x'.toUInt8 then .u32 16
    else if c 1 = 'l'.toUInt8 ∧ c 2 = 'l'.toUInt8 ∧ c 3 = 'x'.toUInt8 then .u64 16
    else if c 1 = 'l'.toUInt8 ∧ c 2 = 'l'.toUInt8 ∧ c 3 = 'd'.toUInt8 then .u64 10
    else if c 1 = 'L'.toUInt8 ∧ c 2 = 'f'.toUInt8 then .double
    else .plain
  else .plain

/-- How far `c` moves on. -/
def Directive.chars : Directive → Nat
  | .percent => 2
  | .string => 2
  | .u32 _ => 2
  | .u64 _ => 4
  | .double => 3
  | .plain => 1

/-- How many arguments are taken. -/
def Directive.args : Directive → Nat
  | .percent => 0
  | .plain => 0
  | _ => 1

/-- Where the loop is in the format and its arguments, and what it has stored where. -/
structure Printing where
  rest : List UInt8
  arg : Nat
  index : Nat
  stored : List (UInt8 × Nat)

/-- A block of bytes is stored at `index`, and `c` and `index` move on. -/
def Printing.put (p : Printing) (d : Directive) (block : List UInt8) : Printing where
  rest := p.rest.drop d.chars
  arg := p.arg + d.args
  index := (p.index + block.length) % 2 ^ 32
  stored := p.stored ++ block.zipIdx p.index

/-- One round of the loop of `sprintf_safe_va`; `none` when it ends. -/
def sprintfStep (length : Nat) (va : Nat → Arg) (p : Printing) : Option Printing :=
  if p.index ≥ length - 1 then none
  else
    let c := ofBytes p.rest
    if c 0 = 0 then none
    else
      match directive c with
      | .percent =>
        if ¬ p.index + 1 ≥ length - 1 then some (p.put .percent ['%'.toUInt8]) else some p
      | .string =>
        let string := (va p.arg).string
        let len := kStrlen string 100
        let copy := len
        let copy :=
          if copy ≥ (p.index + length - 1) % 2 ^ 32 then (p.index + length - 1) % 2 ^ 32 else copy
        some (p.put .string ((List.range copy).map string))
      | .u32 base =>
        some (p.put (.u32 base) (sprintUint32BaseSafe (length - p.index) (va p.arg).u32 base))
      | .u64 base =>
        some (p.put (.u64 base) (sprintUint64BaseSafe (length - p.index) (va p.arg).u64 base))
      | .double => some (p.put .double (sprintDoubleSafe (length - p.index) (va p.arg).double))
      | .plain => some (p.put .plain [c 0])

/-- The first `rounds` rounds. -/
def sprintfLoop (length : Nat) (va : Nat → Arg) : Nat → Printing → Printing
  | 0, p => p
  | rounds + 1, p =>
    match sprintfStep length va p with
    | none => p
    | some p => sprintfLoop length va rounds p

/-- What `sprintf_safe_va` has stored after so many rounds. -/
def sprintfSafeVa (str : List UInt8) (length : Nat) (va : Nat → Arg) (rounds : Nat) :
    List (UInt8 × Nat) :=
  (sprintfLoop length va rounds { rest := str, arg := 0, index := 0, stored := [] }).stored

/-- `sprintf_safe`, whose loop is the same. -/
def sprintfSafe (str : List UInt8) (length : Nat) (va : Nat → Arg) (rounds : Nat) :
    List (UInt8 × Nat) := sprintfSafeVa str length va rounds

/-! ## What a format prints -/

/-- A number without regard to the buffer. -/
def numberText (base a : Nat) : List UInt8 := (digits base 36 a).reverse.take 34

/-- The text of a directive with its argument, or of the character `c`. -/
def Directive.text (a : Arg) (c : UInt8) : Directive → List UInt8
  | .percent => ['%'.toUInt8]
  | .string => (List.range (kStrlen a.string 100)).map a.string
  | .u32 base => numberText base a.u32.toNat
  | .u64 base => numberText base a.u64.toNat
  | .double =>
    numberText 10 a.double.whole.toNat ++ '.'.toUInt8 ::
      numberText 10 (a.double.hundredfold - a.double.whole * 100#64).toNat
  | .plain => [c]

/-- A part of the format, with its text. -/
structure Piece where
  directive : Directive
  text : List UInt8

theorem directive_chars_pos (d : Directive) : 0 < d.chars := by
  cases d <;> simp [Directive.chars]

theorem ne_nil_of_ofBytes {l : List UInt8} (h : ofBytes l 0 ≠ 0) : l ≠ [] := by
  intro heq
  subst heq
  exact h rfl

/-- The parts of a format, with the arguments from the given one on. -/
def pieces (va : Nat → Arg) (rest : List UInt8) (arg : Nat) : List Piece :=
  if _h : ofBytes rest 0 = 0 then []
  else
    let d := directive (ofBytes rest)
    ⟨d, d.text (va arg) (ofBytes rest 0)⟩ :: pieces va (rest.drop d.chars) (arg + d.args)
termination_by rest.length
decreasing_by
  have hpos := directive_chars_pos (directive (ofBytes rest))
  have hlen := List.length_pos_iff.mpr (ne_nil_of_ofBytes _h)
  rw [List.length_drop]
  omega

namespace Piece

/-- How much of the piece is printed at `before`, if there is room: a string is cut to
`index+length-1`. -/
def placed (length before : Nat) (p : Piece) : Nat :=
  match p.directive with
  | .string => min p.text.length ((before + length - 1) % 2 ^ 32)
  | _ => p.text.length

/-- A string ends before the last byte. At the start of the text it is cut in time;
behind other text it must fit by itself, unless the sum of index and length wraps. -/
def FitsAt (length before : Nat) (p : Piece) : Prop :=
  match p.directive with
  | .string =>
    if before + length - 1 < 2 ^ 32 then before = 0 ∨ before + p.text.length ≤ length - 1
    else before + min p.text.length (before + length - 1 - 2 ^ 32) ≤ length - 1
  | _ => True

end Piece

/-- Every string that is reached fits, where the text before it ends. -/
def Fits (length : Nat) : Nat → List Piece → Prop
  | _, [] => True
  | before, p :: ps =>
    before < length - 1 → p.FitsAt length before ∧ Fits length (before + p.placed length before) ps

/-! ## Blocks -/

theorem storeDigits_eq (length : Nat) : ∀ (cs : List UInt8) (h : Nat),
    storeDigits length cs h = cs.take (min (length - 1) 34 - h) := by
  intro cs
  induction cs with
  | nil => exact fun h => by rw [storeDigits, List.take_nil]
  | cons c cs ih =>
      intro h
      rw [storeDigits]
      split
      · rw [show min (length - 1) 34 - h = 0 by omega, List.take_zero]
      · rw [ih, show min (length - 1) 34 - h = (min (length - 1) 34 - (h + 1)) + 1 by omega,
          List.take_succ_cons]

theorem sprintUint64BaseSafe_eq (length : Nat) (a : BitVec 64) (base : Nat) :
    sprintUint64BaseSafe length a base = (numberText base a.toNat).take (length - 1) := by
  rw [sprintUint64BaseSafe, storeDigits_eq, numberText, List.take_take, Nat.sub_zero]

theorem sprintUint32BaseSafe_eq (length : Nat) (a : BitVec 32) (base : Nat) :
    sprintUint32BaseSafe length a base = (numberText base a.toNat).take (length - 1) := by
  rw [sprintUint32BaseSafe, storeDigits_eq, numberText, List.take_take, Nat.sub_zero]

theorem sprintDoubleSafe_eq (length : Nat) (a : Arg) :
    sprintDoubleSafe length a.double = (Directive.double.text a 0).take (length - 1) := by
  obtain ⟨w, hw⟩ : ∃ w, w = numberText 10 a.double.whole.toNat := ⟨_, rfl⟩
  unfold sprintDoubleSafe Directive.text
  simp only [sprintUint64BaseSafe_eq, ← hw, List.length_take]
  by_cases h : w.length < length - 1
  · have hmin : min (length - 1) w.length = w.length := by omega
    rw [hmin, if_neg (by omega), List.take_of_length_le (by omega : w.length ≤ length - 1),
      List.take_append, List.take_of_length_le (by omega : w.length ≤ length - 1),
      show length - 1 - w.length = (length - (w.length + 1) - 1) + 1 by omega,
      List.take_succ_cons]
  · have hmin : min (length - 1) w.length = length - 1 := by omega
    rw [hmin, if_pos (Nat.le_refl _), List.take_append_of_le_length (by omega)]

/-- How much a piece stores at `index`. -/
def Piece.stores (length index : Nat) (p : Piece) : Nat :=
  match p.directive with
  | .string => p.placed length index
  | _ => min p.text.length (length - 1 - index)

/-- A cut to the room behind `index` is a cut to as much of the text as fits. -/
theorem take_room (text : List UInt8) (length index : Nat) :
    text.take (length - index - 1) = text.take (min text.length (length - 1 - index)) := by
  rw [Nat.min_comm, ← List.take_take, List.take_length]
  congr 1
  omega

theorem pieces_cons {va : Nat → Arg} {rest : List UInt8} {arg : Nat}
    (h : ofBytes rest 0 ≠ 0) :
    pieces va rest arg =
      ⟨directive (ofBytes rest), (directive (ofBytes rest)).text (va arg) (ofBytes rest 0)⟩ ::
        pieces va (rest.drop (directive (ofBytes rest)).chars)
          (arg + (directive (ofBytes rest)).args) := by
  rw [pieces, dif_neg h]

theorem pieces_nil {va : Nat → Arg} {rest : List UInt8} {arg : Nat} (h : ofBytes rest 0 = 0) :
    pieces va rest arg = [] := by
  rw [pieces, dif_pos h]

/-! ## One round -/

/-- The last byte but one does not take a `%%`, and the loop stays where it is. -/
structure Stuck (length : Nat) (p : Printing) (q : Piece) : Prop where
  directive : q.directive = .percent
  text : q.text.length = 1
  full : length - 1 ≤ p.index + 1

/-- **A round stores the next piece at the index**, or it stays where it is. -/
theorem sprintfStep_piece {length : Nat} {va : Nat → Arg} {p : Printing} {q : Piece}
    {qs : List Piece} (hroom : p.index < length - 1) (hq : pieces va p.rest p.arg = q :: qs) :
    (sprintfStep length va p = some p ∧ Stuck length p q) ∨
      (q.directive = .percent → p.index + 1 < length - 1) ∧
      ∃ block : List UInt8, block = q.text.take (q.stores length p.index) ∧
        block.length = q.stores length p.index ∧
        sprintfStep length va p = some (p.put q.directive block) ∧
        pieces va (p.put q.directive block).rest (p.put q.directive block).arg = qs := by
  have hc : ofBytes p.rest 0 ≠ 0 := by
    intro h
    rw [pieces_nil h] at hq
    exact List.cons_ne_nil _ _ hq.symm
  rw [pieces_cons hc] at hq
  obtain ⟨hq, hqs⟩ := List.cons_eq_cons.mp hq
  subst hq
  have hrest : ∀ block,
      pieces va (p.put (directive (ofBytes p.rest)) block).rest
        (p.put (directive (ofBytes p.rest)) block).arg = qs := fun _ => hqs
  unfold sprintfStep
  simp only [if_neg (show ¬ p.index ≥ length - 1 by omega), if_neg hc]
  generalize directive (ofBytes p.rest) = d at hrest
  -- the size of a block follows from what it is cut out of
  have hsize : ∀ {block text : List UInt8} {n : Nat}, block = text.take n → n ≤ text.length →
      block.length = n := by
    intro block text n hblock hn
    rw [hblock, List.length_take, Nat.min_eq_left hn]
  cases d with
  | percent =>
      by_cases hfull : p.index + 1 ≥ length - 1
      · exact Or.inl ⟨if_neg (not_not_intro hfull), rfl, rfl, hfull⟩
      · have hstores : min 1 (length - 1 - p.index) = 1 := by omega
        refine Or.inr ⟨fun _ => Nat.lt_of_not_le hfull, ['%'.toUInt8], ?_, ?_, if_pos hfull,
          hrest _⟩
        · simp only [Piece.stores, Directive.text, List.length_singleton, hstores]
          rfl
        · simp only [Piece.stores, Directive.text, List.length_singleton, hstores]
  | string =>
      refine Or.inr ⟨nofun, _, ?_, ?_, rfl, hrest _⟩
      · simp only [Piece.stores, Piece.placed, Directive.text, List.length_map, List.length_range,
          ← List.map_take, List.take_range]
        congr 2
        split <;> omega
      · simp only [Piece.stores, Piece.placed, Directive.text, List.length_map, List.length_range]
        split <;> omega
  | u32 base =>
      have hblock := (sprintUint32BaseSafe_eq (length - p.index) (va p.arg).u32 base).trans
        (take_room (numberText base (va p.arg).u32.toNat) length p.index)
      exact Or.inr ⟨nofun, _, hblock, hsize hblock (Nat.min_le_left ..), rfl, hrest _⟩
  | u64 base =>
      have hblock := (sprintUint64BaseSafe_eq (length - p.index) (va p.arg).u64 base).trans
        (take_room (numberText base (va p.arg).u64.toNat) length p.index)
      exact Or.inr ⟨nofun, _, hblock, hsize hblock (Nat.min_le_left ..), rfl, hrest _⟩
  | double =>
      have hblock := (sprintDoubleSafe_eq (length - p.index) (va p.arg)).trans
        (take_room (Directive.double.text (va p.arg) 0) length p.index)
      exact Or.inr ⟨nofun, _, hblock, hsize hblock (Nat.min_le_left ..), rfl, hrest _⟩
  | plain =>
      have hstores : min 1 (length - 1 - p.index) = 1 := by omega
      refine Or.inr ⟨nofun, _, ?_, ?_, rfl, hrest _⟩
      · simp only [Piece.stores, Directive.text, List.length_singleton, hstores]
        rfl
      · simp only [Piece.stores, Directive.text, List.length_singleton, hstores]

/-- Without room or without pieces left the loop ends. -/
theorem sprintfStep_none {length : Nat} {va : Nat → Arg} {p : Printing}
    (h : length - 1 ≤ p.index ∨ pieces va p.rest p.arg = []) :
    sprintfStep length va p = none := by
  unfold sprintfStep
  by_cases hroom : p.index ≥ length - 1
  · rw [if_pos hroom]
  · rw [if_neg hroom]
    rcases h with h | h
    · omega
    · have hc : ofBytes p.rest 0 = 0 := by
        by_contra hc
        rw [pieces_cons hc] at h
        exact List.cons_ne_nil _ _ h
      simp only [if_pos hc]

/-! ## Where strings fit -/

/-- A string fits where it ends before the last byte. -/
theorem Piece.fitsAt_string {length before : Nat} {q : Piece} (hd : q.directive = .string)
    (hlen : length < 2 ^ 32) (hroom : before < length - 1) :
    q.FitsAt length before ↔ before + q.placed length before ≤ length - 1 := by
  simp only [Piece.FitsAt, Piece.placed, hd]
  by_cases hwrap : before + length - 1 < 2 ^ 32
  · rw [if_pos hwrap, Nat.mod_eq_of_lt hwrap]
    omega
  · have hmod : (before + length - 1) % 2 ^ 32 = before + length - 1 - 2 ^ 32 := by omega
    rw [if_neg hwrap, hmod]

theorem Piece.fitsAt_of_ne_string {length before : Nat} {q : Piece}
    (hd : q.directive ≠ .string) : q.FitsAt length before := by
  unfold Piece.FitsAt
  split
  · next h => exact absurd h hd
  · trivial

/-- What is not a string is stored whole, or fills the buffer. -/
theorem Piece.stores_of_ne_string {length before : Nat} {q : Piece}
    (hd : q.directive ≠ .string) :
    q.stores length before = min (q.placed length before) (length - 1 - before) := by
  unfold Piece.stores Piece.placed
  split
  · next h => exact absurd h hd
  · rfl

theorem Piece.stores_string {length before : Nat} {q : Piece} (hd : q.directive = .string) :
    q.stores length before = q.placed length before := by
  simp only [Piece.stores, hd]

/-- A piece that fits is stored before the last byte. -/
theorem Piece.stores_le {length before : Nat} {q : Piece} (hlen : length < 2 ^ 32)
    (hroom : before < length - 1) (hfit : q.FitsAt length before) :
    before + q.stores length before ≤ length - 1 := by
  by_cases hd : q.directive = .string
  · rw [Piece.stores_string hd]
    exact (Piece.fitsAt_string hd hlen hroom).mp hfit
  · rw [Piece.stores_of_ne_string hd]
    omega

/-- Once the buffer is full nothing else is reached. -/
theorem fits_of_full {length before : Nat} (h : length - 1 ≤ before) :
    ∀ ps : List Piece, Fits length before ps
  | [] => trivial
  | _ :: _ => fun hroom => absurd hroom (by omega)

/-- Where the next piece fits, what follows fits where it was cut exactly if it fits
behind the whole text. -/
theorem fits_stores_iff {length before : Nat} {q : Piece} (qs : List Piece) :
    Fits length (before + q.stores length before) qs ↔
      Fits length (before + q.placed length before) qs := by
  by_cases hd : q.directive = .string
  · rw [Piece.stores_string hd]
  · by_cases hfull : q.placed length before ≤ length - 1 - before
    · rw [Piece.stores_of_ne_string hd, min_eq_left hfull]
    · rw [Piece.stores_of_ne_string hd]
      exact iff_of_true (fits_of_full (by omega) qs) (fits_of_full (by omega) qs)

/-! ## Within the buffer -/

/-- Everything stored is before the last byte, and what is left fits. -/
structure Within (length : Nat) (va : Nat → Arg) (p : Printing) : Prop where
  stored : ∀ e ∈ p.stored, e.2 < length - 1
  index : p.index ≤ length - 1
  fits : Fits length p.index (pieces va p.rest p.arg)

theorem mem_zipIdx_bounds {block : List UInt8} {index bound : Nat} {e : UInt8 × Nat}
    (h : index + block.length ≤ bound) (he : e ∈ block.zipIdx index) : e.2 < bound := by
  have := List.snd_lt_add_of_mem_zipIdx he
  omega

theorem Within.step {length : Nat} {va : Nat → Arg} {p p' : Printing} (hlen : length < 2 ^ 32)
    (h : Within length va p) (hstep : sprintfStep length va p = some p') :
    Within length va p' := by
  by_cases hroom : p.index < length - 1
  · cases hps : pieces va p.rest p.arg with
    | nil =>
        rw [sprintfStep_none (Or.inr hps)] at hstep
        exact nomatch hstep
    | cons q qs =>
        obtain ⟨hfit, hrest⟩ := (hps ▸ h.fits : Fits length p.index (q :: qs)) hroom
        rcases sprintfStep_piece hroom hps with ⟨hstuck, -⟩ | ⟨-, block, -, hsize, hnext, hqs⟩
        · rw [hstuck, Option.some.injEq] at hstep
          rwa [← hstep]
        · rw [hnext, Option.some.injEq] at hstep
          subst hstep
          have hend := Piece.stores_le hlen hroom hfit
          rw [← hsize] at hend
          have hindex : (p.put q.directive block).index = p.index + block.length :=
            Nat.mod_eq_of_lt (by omega)
          refine ⟨fun e he => ?_, hindex ▸ hend, ?_⟩
          · rcases List.mem_append.mp he with he | he
            · exact h.stored e he
            · exact mem_zipIdx_bounds hend he
          · rw [hqs, hindex, hsize]
            exact (fits_stores_iff qs).mpr hrest
  · rw [sprintfStep_none (Or.inl (by omega))] at hstep
    exact nomatch hstep

theorem Within.loop {length : Nat} {va : Nat → Arg} (hlen : length < 2 ^ 32) :
    ∀ (rounds : Nat) {p : Printing}, Within length va p →
      Within length va (sprintfLoop length va rounds p) := by
  intro rounds
  induction rounds with
  | zero => exact fun h => h
  | succ rounds ih =>
      intro p h
      rw [sprintfLoop]
      split
      · exact h
      · next p' hstep => exact ih (h.step hlen hstep)

/-- If every round of the loop stores before the last byte, the pieces fit. -/
theorem fits_of_loop {length : Nat} {va : Nat → Arg} (hlen : length < 2 ^ 32) :
    ∀ (qs : List Piece) (p : Printing), pieces va p.rest p.arg = qs →
      (∀ rounds, ∀ e ∈ (sprintfLoop length va rounds p).stored, e.2 < length - 1) →
      Fits length p.index qs := by
  intro qs
  induction qs with
  | nil => exact fun _ _ _ => trivial
  | cons q qs ih =>
      intro p hps hloop hroom
      rcases sprintfStep_piece hroom hps with ⟨-, hstuck⟩ | ⟨-, block, -, hsize, hnext, hqs⟩
      · -- a `%%` at the last byte but one: the text after it is never reached
        have hd : q.directive ≠ .string := by
          rw [hstuck.directive]
          exact nofun
        have hfull : length - 1 ≤ p.index + q.placed length p.index := by
          have hone : q.placed length p.index = 1 := by
            simp only [Piece.placed, hstuck.directive, hstuck.text]
          have := hstuck.full
          omega
        exact ⟨Piece.fitsAt_of_ne_string hd, fits_of_full hfull qs⟩
      · have hshift : ∀ rounds, sprintfLoop length va (rounds + 1) p =
            sprintfLoop length va rounds (p.put q.directive block) := by
          intro rounds
          rw [sprintfLoop, hnext]
        have hend : p.index + block.length ≤ length - 1 := by
          -- the last byte of the block is stored after one round
          by_cases hempty : block.length = 0
          · omega
          · have hlast := hloop 1 (block[block.length - 1], p.index + (block.length - 1)) (by
              rw [hshift, sprintfLoop]
              exact List.mem_append_right _
                (List.mk_add_mem_zipIdx_iff_getElem?.mpr (List.getElem?_eq_getElem _)))
            have : p.index + (block.length - 1) < length - 1 := hlast
            omega
        have hindex : (p.put q.directive block).index = p.index + block.length :=
          Nat.mod_eq_of_lt (by omega)
        refine ⟨?_, ?_⟩
        · by_cases hd : q.directive = .string
          · rw [Piece.fitsAt_string hd hlen hroom, ← Piece.stores_string hd, ← hsize]
            exact hend
          · exact Piece.fitsAt_of_ne_string hd
        · rw [← fits_stores_iff, ← hsize, ← hindex]
          exact ih _ hqs fun rounds => hshift rounds ▸ hloop (rounds + 1)

/-- Both functions only store before the last byte. -/
def StoresBelow (str : List UInt8) (va : Nat → Arg) (length : Nat) : Prop :=
  ∀ rounds, (∀ e ∈ sprintfSafe str length va rounds, e.2 < length - 1) ∧
    ∀ e ∈ sprintfSafeVa str length va rounds, e.2 < length - 1

/-- **The two functions store before the last byte exactly for the formats whose strings
fit** where the text before them ends. -/
theorem sprintf_within_iff (str : List UInt8) (va : Nat → Arg) {length : Nat}
    (_ : 1 ≤ length) (hlen : length < 2 ^ 32) :
    StoresBelow str va length ↔ Fits length 0 (pieces va str 0) := by
  constructor
  · intro h
    exact fits_of_loop hlen _ ⟨str, 0, 0, []⟩ rfl fun rounds => (h rounds).2
  · intro h rounds
    have hw : Within length va ⟨str, 0, 0, []⟩ := ⟨nofun, Nat.zero_le _, h⟩
    exact ⟨(hw.loop hlen rounds).stored, (hw.loop hlen rounds).stored⟩

/-- Every argument is the string `0123456789`. -/
def tenDigits : Nat → Arg := fun _ =>
  { string := ofBytes ("0123456789".toList.map Char.toUInt8), u32 := 0, u64 := 0,
    double := { whole := 0, hundredfold := 0 } }

/-- At the start of a buffer of eight bytes the string is cut to seven. -/
theorem sprintf_within_iff_atStart :
    StoresBelow ("%s".toList.map Char.toUInt8) tenDigits 8 := by
  rw [sprintf_within_iff _ _ (by omega) (by omega), pieces_cons (by decide)]
  refine fun _ => ⟨?_, ?_⟩
  · exact Or.inl rfl
  · rw [pieces_nil (by decide)]
    exact trivial

/-- Behind three characters it is cut to ten, and the last one goes to index 12. -/
theorem stringBehindText_overruns :
    ¬ ∀ (str : List UInt8) (va : Nat → Arg) (length : Nat), 1 ≤ length → length < 2 ^ 32 →
      StoresBelow str va length := by
  intro h
  have hlast : ('9'.toUInt8, 12) ∈
      sprintfSafe ("abc%s".toList.map Char.toUInt8) 8 tenDigits 4 := by decide
  have hbound := (h _ tenDigits 8 (by omega) (by omega) 4).1 _ hlast
  exact absurd hbound (by omega)

end OSExt.Libk
