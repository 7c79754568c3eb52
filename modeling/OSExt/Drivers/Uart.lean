import OSExt.Libk.SprintfText

/-!
# Printing to the UART

`uart.c`: two loops over a format, `uart_printf` and `uart_printf_va`, that send what they
print byte by byte. They differ in one helper: a 64-bit argument goes to
`uart_send_uint64_base` in the first and to `uart_send_uint32_base`, which only takes its
lower half, in the second. The text of the lower half is never longer, so the two loops
send the same bytes exactly if no argument has an upper half.
-/

namespace OSExt.Drivers

open Lib Libk

/-- What one `va_arg` answers, for the type it is asked for. -/
structure UartArg where
  /-- the characters of a string, with its terminator behind -/
  string : List UInt8
  u32 : BitVec 32
  u64 : BitVec 64

/-! ## What is sent -/

/-- `uart_send_uint64_base` -/
def uartSendUint64Base (a : BitVec 64) (base : Nat) : List UInt8 := (digits base 68 a.toNat).reverse

/-- `uart_send_uint32_base` -/
def uartSendUint32Base (a : BitVec 32) (base : Nat) : List UInt8 := (digits base 36 a.toNat).reverse

/-- `uart_send_uint32`, whose loop is the same for base 10. -/
def uartSendUint32 (a : BitVec 32) : List UInt8 := (digits 10 30 a.toNat).reverse

/-- `uart_send_string` -/
def uartSendString : List UInt8 → List UInt8
  | [] => []
  | c :: cs => if c = 0 then [] else c :: uartSendString cs

inductive UartDirective where
  /-- `%s` -/
  | string
  /-- `%d` -/
  | dec
  /-- `%x` -/
  | hex
  /-- `%llx` -/
  | llhex
  /-- `%lld` -/
  | lldec
  /-- any other character -/
  | plain

/-- The tests on the format at `c`, in order. -/
def uartDirective (c : CString) : UartDirective :=
  if c 0 = '%'.toUInt8 ∧ c 1 ≠ 0 then
    if c 1 = 's'.toUInt8 then .string
    else if c 1 = 'd'.toUInt8 then .dec
    else if c 1 = 'x'.toUInt8 then .hex
    else if c 1 = 'l'.toUInt8 ∧ c 2 = 'l'.toUInt8 ∧ c 3 = 'x'.toUInt8 then .llhex
    else if c 1 = 'l'.toUInt8 ∧ c 2 = 'l'.toUInt8 ∧ c 3 = 'd'.toUInt8 then .lldec
    else .plain
  else .plain

namespace UartDirective

/-- How far `c` moves on. -/
def chars : UartDirective → Nat
  | .string => 2
  | .dec => 2
  | .hex => 2
  | .llhex => 4
  | .lldec => 4
  | .plain => 1

/-- How many arguments are taken. -/
def args : UartDirective → Nat
  | .plain => 0
  | _ => 1

/-- The bytes sent for an argument, or for the character `c`. -/
def sends (send64 : BitVec 64 → Nat → List UInt8) (a : UartArg) (c : UInt8) :
    UartDirective → List UInt8
  | .string => uartSendString a.string
  | .dec => uartSendUint32 a.u32
  | .hex => uartSendUint32Base a.u32 16
  | .llhex => send64 a.u64 16
  | .lldec => send64 a.u64 10
  | .plain => [c]

/-- The 64-bit argument that is taken. -/
def wide (a : UartArg) : UartDirective → List (BitVec 64)
  | .llhex => [a.u64]
  | .lldec => [a.u64]
  | _ => []

end UartDirective

theorem uartRest_lt {rest : List UInt8} (h : ofBytes rest 0 ≠ 0) (d : UartDirective) :
    (rest.drop d.chars).length < rest.length := by
  have hpos : 0 < d.chars := by cases d <;> decide
  have hlen := List.length_pos_iff.mpr (ne_nil_of_ofBytes h)
  rw [List.length_drop]
  omega

/-- The loop of both functions, from `rest` on. -/
def uartLoop (send64 : BitVec 64 → Nat → List UInt8) (va : Nat → UartArg) (rest : List UInt8)
    (arg : Nat) : List UInt8 :=
  if _h : ofBytes rest 0 = 0 then []
  else
    let d := uartDirective (ofBytes rest)
    d.sends send64 (va arg) (ofBytes rest 0) ++
      uartLoop send64 va (rest.drop d.chars) (arg + d.args)
termination_by rest.length
decreasing_by exact uartRest_lt _h _

/-- `uart_printf` -/
def uartPrintf (str : List UInt8) (va : Nat → UartArg) : List UInt8 :=
  uartLoop uartSendUint64Base va str 0

/-- `uart_printf_va` -/
def uartPrintfVa (str : List UInt8) (va : Nat → UartArg) : List UInt8 :=
  uartLoop (fun a => uartSendUint32Base (a.setWidth 32)) va str 0

/-- `uart_println` -/
def uartPrintln (str : List UInt8) (va : Nat → UartArg) : List UInt8 :=
  uartPrintfVa str va ++ ['\n'.toUInt8]

/-- The 64-bit arguments of a format. -/
def wideArgs (va : Nat → UartArg) (rest : List UInt8) (arg : Nat) : List (BitVec 64) :=
  if _h : ofBytes rest 0 = 0 then []
  else
    let d := uartDirective (ofBytes rest)
    d.wide (va arg) ++ wideArgs va (rest.drop d.chars) (arg + d.args)
termination_by rest.length
decreasing_by exact uartRest_lt _h _

section Unfold

variable {va : Nat → UartArg} {rest : List UInt8} {arg : Nat}

theorem uartLoop_nil (send64 : BitVec 64 → Nat → List UInt8) (h : ofBytes rest 0 = 0) :
    uartLoop send64 va rest arg = [] := by
  rw [uartLoop, dif_pos h]

theorem uartLoop_cons (send64 : BitVec 64 → Nat → List UInt8) (h : ofBytes rest 0 ≠ 0) :
    uartLoop send64 va rest arg =
      (uartDirective (ofBytes rest)).sends send64 (va arg) (ofBytes rest 0) ++
        uartLoop send64 va (rest.drop (uartDirective (ofBytes rest)).chars)
          (arg + (uartDirective (ofBytes rest)).args) := by
  rw [uartLoop, dif_neg h]

end Unfold

/-! ## Numbers -/

theorem uartSendUint64Base_eq (a : BitVec 64) {base : Nat} (hb : 10 ≤ base) (h16 : base ≤ 16) :
    uartSendUint64Base a base = numeral base a.toNat := by
  have hlt : a.toNat < base ^ 68 := by
    calc a.toNat < 2 ^ 64 := a.isLt
      _ ≤ 10 ^ 68 := by norm_num
      _ ≤ base ^ 68 := Nat.pow_le_pow_left hb 68
  rw [uartSendUint64Base, digits_eq (by omega) h16 (by omega) hlt, List.reverse_reverse]

theorem uartSendUint32Base_eq (a : BitVec 32) {base : Nat} (hb : 10 ≤ base) (h16 : base ≤ 16) :
    uartSendUint32Base a base = numeral base a.toNat := by
  have hlt : a.toNat < base ^ 36 := by
    calc a.toNat < 2 ^ 32 := a.isLt
      _ ≤ 10 ^ 36 := by norm_num
      _ ≤ base ^ 36 := Nat.pow_le_pow_left hb 36
  rw [uartSendUint32Base, digits_eq (by omega) h16 (by omega) hlt, List.reverse_reverse]

/-- The text of the lower half is no longer. -/
theorem lowerHalf_le (a : BitVec 64) {base : Nat} (hb : 10 ≤ base) (h16 : base ≤ 16) :
    (uartSendUint32Base (a.setWidth 32) base).length ≤ (uartSendUint64Base a base).length := by
  rw [uartSendUint32Base_eq _ hb h16, uartSendUint64Base_eq a hb h16]
  refine length_numeral_mono (by omega) ?_
  rw [BitVec.toNat_setWidth]
  exact Nat.mod_le ..

/-- **The lower half is printed as the whole number** where the upper half is 0. -/
theorem lowerHalf_eq_iff (a : BitVec 64) {base : Nat} (hb : 10 ≤ base) (h16 : base ≤ 16) :
    uartSendUint32Base (a.setWidth 32) base = uartSendUint64Base a base ↔ a.toNat < 2 ^ 32 := by
  rw [uartSendUint32Base_eq _ hb h16, uartSendUint64Base_eq a hb h16, BitVec.toNat_setWidth]
  constructor
  · intro h
    have heq : a.toNat % 2 ^ 32 = a.toNat := numeral_injective (by omega) h16 h
    rw [← heq]
    exact Nat.mod_lt _ (by omega)
  · intro h
    rw [Nat.mod_eq_of_lt h]

/-! ## The two loops -/

/-- Two texts of which the first parts and the rests are no longer agree part by part. -/
theorem append_eq_iff {a b c d : List UInt8} (h1 : a.length ≤ c.length)
    (h2 : b.length ≤ d.length) : a ++ b = c ++ d ↔ a = c ∧ b = d := by
  constructor
  · intro h
    have hlen := congrArg List.length h
    rw [List.length_append, List.length_append] at hlen
    exact List.append_inj h (by omega)
  · intro h
    rw [h.1, h.2]

section Sends

variable (a : UartArg) (c : UInt8) (d : UartDirective)

theorem sends_length_le :
    (d.sends (fun a => uartSendUint32Base (a.setWidth 32)) a c).length ≤
      (d.sends uartSendUint64Base a c).length := by
  cases d with
  | llhex => exact lowerHalf_le a.u64 (by omega) (by omega)
  | lldec => exact lowerHalf_le a.u64 (by omega) (by omega)
  | _ => exact Nat.le_refl _

theorem sends_eq_iff :
    d.sends (fun a => uartSendUint32Base (a.setWidth 32)) a c = d.sends uartSendUint64Base a c ↔
      ∀ w ∈ d.wide a, w.toNat < 2 ^ 32 := by
  cases d with
  | llhex =>
      refine (lowerHalf_eq_iff a.u64 (by omega) (by omega)).trans ?_
      exact (List.forall_mem_singleton (p := fun w : BitVec 64 => w.toNat < 2 ^ 32)).symm
  | lldec =>
      refine (lowerHalf_eq_iff a.u64 (by omega) (by omega)).trans ?_
      exact (List.forall_mem_singleton (p := fun w : BitVec 64 => w.toNat < 2 ^ 32)).symm
  | _ => exact iff_of_true rfl nofun

end Sends

/-- The second loop never sends more, and the same only without upper halves. -/
theorem uartLoop_eq_iff (va : Nat → UartArg) (rest : List UInt8) (arg : Nat) :
    (uartLoop (fun a => uartSendUint32Base (a.setWidth 32)) va rest arg).length ≤
        (uartLoop uartSendUint64Base va rest arg).length ∧
      (uartLoop (fun a => uartSendUint32Base (a.setWidth 32)) va rest arg =
          uartLoop uartSendUint64Base va rest arg ↔
        ∀ w ∈ wideArgs va rest arg, w.toNat < 2 ^ 32) := by
  induction rest, arg using wideArgs.induct with
  | case1 rest arg h =>
      rw [uartLoop_nil _ h, uartLoop_nil _ h, wideArgs, dif_pos h]
      exact ⟨Nat.le_refl _, iff_of_true rfl nofun⟩
  | case2 rest arg h d ih =>
      obtain ⟨hlen, hrest⟩ := ih
      have hsends := sends_length_le (va arg) (ofBytes rest 0) d
      rw [uartLoop_cons _ h, uartLoop_cons _ h, wideArgs, dif_neg h]
      refine ⟨?_, ?_⟩
      · rw [List.length_append, List.length_append]
        exact Nat.add_le_add hsends hlen
      · rw [append_eq_iff hsends hlen, List.forall_mem_append, hrest, sends_eq_iff]

/-- **The formatters agree exactly on the formats** whose 64-bit arguments are below 2^32. -/
theorem uartFormatters_agree_iff (str : List UInt8) (va : Nat → UartArg) :
    (uartPrintln str va = uartPrintf str va ++ ['\n'.toUInt8] ∧
      uartPrintfVa str va = uartPrintf str va) ↔ ∀ w ∈ wideArgs va str 0, w.toNat < 2 ^ 32 := by
  rw [uartPrintln, List.append_left_inj, and_self]
  exact (uartLoop_eq_iff va str 0).2

/-- `uart_println("%llx", 2^32)` sends a zero. -/
theorem uartFormatters_differ :
    ¬ ∀ (str : List UInt8) (va : Nat → UartArg),
      uartPrintln str va = uartPrintf str va ++ ['\n'.toUInt8] ∧
        uartPrintfVa str va = uartPrintf str va := by
  intro h
  have hva := (h ("%llx".toList.map Char.toUInt8)
    fun _ => { string := [], u32 := 0, u64 := 4294967296#64 }).2
  have hlower : uartPrintfVa ("%llx".toList.map Char.toUInt8)
      (fun _ => { string := [], u32 := 0, u64 := 4294967296#64 }) = [48] := by
    rw [uartPrintfVa, uartLoop_cons _ (by decide), uartLoop_nil _ (by decide)]
    decide +kernel
  have hwhole : uartPrintf ("%llx".toList.map Char.toUInt8)
      (fun _ => { string := [], u32 := 0, u64 := 4294967296#64 }) =
        [49, 48, 48, 48, 48, 48, 48, 48, 48] := by
    rw [uartPrintf, uartLoop_cons _ (by decide), uartLoop_nil _ (by decide)]
    decide +kernel
  rw [hlower, hwhole] at hva
  exact absurd hva (by decide)

end OSExt.Drivers
