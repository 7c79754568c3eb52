import OSExt.Exceptions.WaitReturn

/-!
# Aborts and undefined instructions

The wrappers of `data_abort.c`, `undefined_instruction.c` and `prefetch_abort.c` begin alike:
they push r0-r12, r14 and the cpsr, mask both interrupts and call their handler. The one for
data aborts takes all of it off the stack again, and the interrupted program goes on as if
nothing had happened, or the abort is relayed to the OS. The other two restore the flags before
they look at the handler's answer, and the one for prefetch aborts takes a word less off the
stack than it must.

What a handler does is a parameter: it returns in the mode it was called in, with the stack
pointer and the words above it as they were.
-/

namespace OSExt.Exceptions

open Lib

/-! ## The wrappers -/

/-- `{r0-r12,r14}` -/
def abortRegs : List Nat := [0, 1, 2, 3, 4, 5, 6, 7, 8, 9, 10, 11, 12, 14]

/-- The beginning of the three wrappers, up to `bl`. -/
def abortEntry (c : Cpu) : Cpu :=
  let c := c.pushAll abortRegs
  let c := c.on (Arm.mrsCpsr 0)
  let c := c.pushAll [0, 1]
  let c := c.on (Arm.orr 0 0 192#32)
  let c := c.on (Arm.msrCpsr 0)
  let c := c.on (Arm.mov 0 14)
  let c := c.on (Arm.mrsSpsr 1)
  c.on (Arm.mov 2 13)

/-- `pop {r0,r1}; msr cpsr, r0; pop {r0-r12,r14}` -/
def abortRestore (c : Cpu) : Cpu :=
  let c := c.popAll [0, 1]
  let c := c.on (Arm.msrCpsr 0)
  c.popAll abortRegs

/-- `subs pc, lr, #imm` -/
def subsPcLr (imm : Word) (m : Arm) : Arm :=
  { m with pc := m.get 14 - imm, cpsr := m.spsr m.bank }

/-- `data_wrapper` behind `bl`, with `relay_data_abort_to_ndless` before and after. -/
def dataReturn (relay : Word) (c : Cpu) : Cpu × Word :=
  let c := c.ldr 0 relay
  let c := c.on (Arm.cmp 0 1#32)
  if c.arm.eq then
    let c := c.ldr 0 0#32
    let relay := c.arm.get 0
    ((abortRestore c).ldr 15 0x10#32, relay)
  else ((abortRestore c).on (subsPcLr 8#32), relay)

/-- `undef_wrapper` behind `bl`. -/
def undefReturn (c : Cpu) : Cpu :=
  let c := c.on (Arm.cmp 0 1#32)
  let c := abortRestore c
  if c.arm.eq then c.on (Arm.movsPc 14) else c.on (subsPcLr 4#32)

/-- `prefetch_wrapper` behind `bl`. -/
def prefetchReturn (c : Cpu) : Cpu :=
  let c := c.on (Arm.cmp 0 1#32)
  let c := c.pop 0
  let c := c.on (Arm.msrCpsr 0)
  let c := c.popAll [0, 1, 2, 3, 4, 5, 6, 7, 8, 9, 10, 11, 12]
  if c.arm.eq then c.on (Arm.movsPc 14) else c.on (subsPcLr 4#32)

/-- What the three handlers do for a thread that runs in user mode: `regs` of the thread, from the
arguments and by way of system mode. They go back to their own mode by the bit `clear`. -/
def saveUserContext (clear address spsr : Word) (frame : Nat → Word) (m : Arm) :
    (Nat → Word) × Arm :=
  let regs := fun i => if i = 16 then spsr else if i = 15 then address else frame (i + 2)
  let m := m.mrsCpsr 1
  let m := m.orr 1 1 31#32
  let m := m.msrCpsr 1
  let regs := Function.update regs 13 (m.get 13)
  let regs := Function.update regs 14 (m.get 14)
  let m := m.bic 1 1 clear
  (regs, m.msrCpsr 1)

/-! ## Taking an exception -/

/-- The cpsr on entry to an abort: abort mode, ARM state, IRQs masked and FIQs as they were. -/
def abtPsr (psr : Word) : Word := (psr &&& ~~~0b10111111#32) ||| 0b10010111#32

/-- The same for an undefined instruction. -/
def udfPsr (psr : Word) : Word := (psr &&& ~~~0b10111111#32) ||| 0b10011011#32

/-- An exception into the mode `b` at the instruction at `pc`. -/
def takeException (b : Bank) (toPsr : Word → Word) (offset vector : Word) (m : Arm) : Arm :=
  { m with
    r14 := Function.update m.r14 b (m.pc + offset)
    spsr := Function.update m.spsr b m.cpsr
    cpsr := toPsr m.cpsr
    pc := vector }

def takeDataAbort (vector : Word) : Arm → Arm := takeException .abt abtPsr 8#32 vector

def takePrefetchAbort (vector : Word) : Arm → Arm := takeException .abt abtPsr 4#32 vector

/-- In ARM state. -/
def takeUndefined (vector : Word) : Arm → Arm := takeException .udf udfPsr 4#32 vector

/-! ## What a mode does not touch -/

/-- `m'` is in the mode `b`, and nothing of the other modes differs from `m`. -/
structure OnlyIn (b : Bank) (m m' : Arm) : Prop where
  bank : m'.bank = b
  r13 : ∀ b' ≠ b, m'.r13 b' = m.r13 b'
  r14 : ∀ b' ≠ b, m'.r14 b' = m.r14 b'
  fiqHigh : m'.fiqHigh = m.fiqHigh
  spsr : m'.spsr = m.spsr

section

variable {b : Bank} {m m' m1 m2 : Arm} {c c1 c2 : Cpu}

namespace OnlyIn

theorem refl (h : m.bank = b) : OnlyIn b m m := ⟨h, fun _ _ => rfl, fun _ _ => rfl, rfl, rfl⟩

theorem trans (h : OnlyIn b m m1) (h' : OnlyIn b m1 m2) : OnlyIn b m m2 :=
  ⟨h'.bank, fun b' hb => (h'.r13 b' hb).trans (h.r13 b' hb),
    fun b' hb => (h'.r14 b' hb).trans (h.r14 b' hb), h'.fiqHigh.trans h.fiqHigh,
    h'.spsr.trans h.spsr⟩

theorem set (h : OnlyIn b m m1) (hb : b ≠ .fiq) (n : Nat) (v : Word) :
    OnlyIn b m (m1.set n v) := by
  have hbank : m1.bank ≠ .fiq := h.bank ▸ hb
  refine ⟨(Arm.bank_set m1 n v).trans h.bank, fun b' hb' => ?_, fun b' hb' => ?_, ?_,
    (Arm.spsr_set m1 n v).trans h.spsr⟩
  · rw [← h.r13 b' hb']
    unfold Arm.set
    split
    · rfl
    · split
      · rfl
      · split
        · exact Function.update_of_ne (h.bank ▸ hb') _ _
        · split <;> rfl
  · rw [← h.r14 b' hb']
    unfold Arm.set
    split
    · rfl
    · split
      · rfl
      · split
        · rfl
        · split
          · exact Function.update_of_ne (h.bank ▸ hb') _ _
          · rfl
  · rw [← h.fiqHigh]
    unfold Arm.set
    split
    · rfl
    · split
      · rfl
      · split
        · rfl
        · split <;> rfl

theorem cmp (h : OnlyIn b m m1) (n : Nat) (v : Word) : OnlyIn b m (m1.cmp n v) :=
  ⟨(Arm.bank_cmp n v m1).trans h.bank, h.r13, h.r14, h.fiqHigh, h.spsr⟩

/-- The cpsr is written, and the mode stays. -/
theorem psr (h : OnlyIn b m m1) {psr : Word} (hpsr : Bank.ofPsr psr = b) :
    OnlyIn b m { m1 with cpsr := psr } :=
  ⟨hpsr, h.r13, h.r14, h.fiqHigh, h.spsr⟩

theorem push (h : OnlyIn b m c.arm) (hb : b ≠ .fiq) (n : Nat) : OnlyIn b m (c.push n).arm :=
  h.set hb 13 _

theorem pushAll (h : OnlyIn b m c.arm) (hb : b ≠ .fiq) : ∀ ns : List Nat,
    OnlyIn b m (c.pushAll ns).arm
  | [] => h
  | n :: ns => (pushAll h hb ns).push hb n

theorem pop (h : OnlyIn b m c.arm) (hb : b ≠ .fiq) (n : Nat) : OnlyIn b m (c.pop n).arm :=
  (h.set hb 13 _).set hb n _

theorem popAll (hb : b ≠ .fiq) : ∀ (ns : List Nat) {c : Cpu}, OnlyIn b m c.arm →
    OnlyIn b m (c.popAll ns).arm
  | [], _, h => h
  | n :: ns, _, h => popAll hb ns (h.pop hb n)

end OnlyIn

/-! ## Taking words off the stack -/

theorem frame_pop {n : Nat} (hn : n ≠ 13) (hlt : n < 15) (c : Cpu) (i : Nat) :
    (c.pop n).frame i = c.frame (i + 1) := by
  have haddr : c.arm.get 13 + 4#32 + BitVec.ofNat 32 (4 * i)
      = c.arm.get 13 + BitVec.ofNat 32 (4 * (i + 1)) := by bv_omega
  unfold Cpu.frame
  rw [Cpu.arm_pop, Arm.get_set_ne _ hn.symm hlt, Arm.get_set_self _ (by omega), haddr]
  rfl

theorem cpsr_popAll : ∀ (ns : List Nat) (c : Cpu), (c.popAll ns).arm.cpsr = c.arm.cpsr
  | [], _ => rfl
  | n :: ns, c => by
      refine (cpsr_popAll ns (c.pop n)).trans ?_
      rw [Cpu.arm_pop, Arm.cpsr_set, Arm.cpsr_set]

/-- **What a `pop` of several registers loads.** -/
theorem popAll_spec : ∀ (ns : List Nat) (c : Cpu), ns.Nodup → (∀ n ∈ ns, n ≠ 13 ∧ n < 15) →
    (∀ i, ∀ h : i < ns.length, (c.popAll ns).arm.get ns[i] = c.frame i) ∧
    (∀ n, n ∉ ns → n ≠ 13 → (c.popAll ns).arm.get n = c.arm.get n) ∧
    (c.popAll ns).arm.get 13 = c.arm.get 13 + BitVec.ofNat 32 (4 * ns.length) ∧
    (∀ i, (c.popAll ns).frame i = c.frame (i + ns.length)) := by
  intro ns
  induction ns with
  | nil =>
      exact fun c _ _ => ⟨fun i h => absurd h (Nat.not_lt_zero i), fun _ _ _ => rfl,
        by simp [Cpu.popAll], fun _ => rfl⟩
  | cons n ns ih =>
      intro c hnodup hns
      obtain ⟨hnot, hnodup⟩ := List.nodup_cons.mp hnodup
      obtain ⟨h13, h15⟩ := hns n List.mem_cons_self
      obtain ⟨hloaded, hother, hsp, hframe⟩ :=
        ih (c.pop n) hnodup fun k hk => hns k (List.mem_cons_of_mem n hk)
      have hself : (c.pop n).arm.get n = c.frame 0 := by
        rw [Cpu.arm_pop, Arm.get_set_self _ h15, Cpu.frame]
        simp
      refine ⟨fun i hi => ?_, fun k hk hk13 => ?_, ?_, fun i => ?_⟩
      · cases i with
        | zero => exact (hother n hnot h13).trans hself
        | succ i =>
            rw [← frame_pop h13 h15]
            exact hloaded i (Nat.lt_of_succ_lt_succ hi)
      · obtain ⟨hkn, hk⟩ := not_or.mp (mt List.mem_cons.mpr hk)
        refine (hother k hk hk13).trans ?_
        rw [Cpu.arm_pop, Arm.get_set_ne _ hkn h15, Arm.get_set_ne _ hk13 (by omega)]
      · refine hsp.trans ?_
        rw [Cpu.arm_pop, Arm.get_set_ne _ h13.symm h15, Arm.get_set_self _ (by omega),
          List.length_cons]
        bv_omega
      · refine (hframe i).trans ?_
        rw [frame_pop h13 h15, List.length_cons]
        congr 1

/-! ## The frame -/

/-- The cpsr is written from a register, and the mode stays. -/
theorem get_msrCpsr {r : Nat} (hbank : Bank.ofPsr (c.arm.get r) = c.arm.bank) (n : Nat) :
    (c.on (Arm.msrCpsr r)).arm.get n = c.arm.get n := by
  have hsame : (c.on (Arm.msrCpsr r)).arm.bank = c.arm.bank := hbank
  unfold Arm.get
  rw [hsame]
  rfl

theorem frame_msrCpsr {r : Nat} (hbank : Bank.ofPsr (c.arm.get r) = c.arm.bank) (i : Nat) :
    (c.on (Arm.msrCpsr r)).frame i = c.frame i := by
  unfold Cpu.frame
  rw [get_msrCpsr hbank]
  rfl

theorem Pushed.msrCpsr {k r : Nat} {ws : List Word} (h : Pushed k c c1 ws)
    (hbank : Bank.ofPsr (c1.arm.get r) = c1.arm.bank) : Pushed k c (c1.on (Arm.msrCpsr r)) ws := by
  refine ⟨fun n hk h13 h15 => (get_msrCpsr hbank n).trans (h.regs n hk h13 h15),
    (get_msrCpsr hbank 13).trans h.sp, hbank.trans h.bank, h.spsr, fun i hi => ?_⟩
  rw [← h.words i hi]
  exact frame_msrCpsr hbank i

/-- Masking the interrupts does not leave the mode. -/
theorem ofPsr_mask (psr : Word) : Bank.ofPsr (psr ||| 192#32) = Bank.ofPsr psr := by
  apply Arm.ofPsr_congr
  rw [BitVec.and_comm, BitVec.and_or_distrib_left, show 31#32 &&& 192#32 = 0#32 by decide,
    BitVec.or_zero, BitVec.and_comm]

/-- What the wrappers push of the state at their entry, topmost first. -/
def abortFrame (m : Arm) : List Word := m.cpsr :: m.get 1 :: abortRegs.map m.get

theorem cpsr_pushAll (c : Cpu) : ∀ ns : List Nat, (c.pushAll ns).arm.cpsr = c.arm.cpsr
  | [] => rfl
  | _ :: ns => (Arm.cpsr_set _ 13 _).trans (cpsr_pushAll c ns)

/-- **The frame of an exception**, and the arguments of the handler. -/
theorem abortEntry_spec (hbank : c.arm.bank = b) (hb : b ≠ .fiq) :
    Pushed 3 c (abortEntry c) (abortFrame c.arm) ∧ OnlyIn b c.arm (abortEntry c).arm ∧
      (abortEntry c).arm.get 0 = c.arm.get 14 ∧ (abortEntry c).arm.get 1 = c.arm.spsr b ∧
      (abortEntry c).arm.get 2 = (abortEntry c).arm.get 13 := by
  -- the registers
  have hregs := (Pushed.nil c).pushAll abortRegs (by decide) (by decide)
  obtain ⟨c3, hc3⟩ : ∃ c3, c3 = (c.pushAll abortRegs).on (Arm.mrsCpsr 0) := ⟨_, rfl⟩
  have h3 : Pushed 1 c c3 (abortRegs.map c.arm.get ++ []) :=
    hc3 ▸ (hregs.mono (Nat.zero_le 1)).on 0 (fun m => m.cpsr) (fun _ => rfl) Nat.zero_lt_one
      (by omega)
  have hin3 : OnlyIn b c.arm c3.arm := hc3 ▸ ((OnlyIn.refl hbank).pushAll hb abortRegs).set hb 0 _
  have hpsr : c3.arm.get 0 = c.arm.cpsr := by
    rw [hc3]
    exact (Arm.get_set_self _ (by omega) _).trans (cpsr_pushAll c abortRegs)
  -- the cpsr, and r1 once more
  obtain ⟨c4, hc4⟩ : ∃ c4, c4 = c3.pushAll [0, 1] := ⟨_, rfl⟩
  have h4 : Pushed 1 c c4 (abortFrame c.arm) := by
    have h1 := h3.push 1 (by simp [abortRegs])
    have h0 := h1.push 0 (by simp [abortRegs])
    rw [h3.regs 1 (Nat.le_refl 1) (by omega) (by omega), Cpu.arm_push,
      Arm.get_set_ne _ (by omega) (by omega), hpsr, List.append_nil] at h0
    exact hc4 ▸ h0
  have hin4 : OnlyIn b c.arm c4.arm := hc4 ▸ hin3.pushAll hb [0, 1]
  have hpsr4 : c4.arm.get 0 = c.arm.cpsr := by
    rw [hc4, Cpu.get_pushAll (by omega), hpsr]
  -- the mask
  obtain ⟨c5, hc5⟩ : ∃ c5, c5 = c4.on (Arm.orr 0 0 192#32) := ⟨_, rfl⟩
  have h5 : Pushed 1 c c5 (abortFrame c.arm) :=
    hc5 ▸ h4.on 0 (fun m => m.get 0 ||| 192#32) (fun _ => rfl) Nat.zero_lt_one (by omega)
  have hmode : Bank.ofPsr (c5.arm.get 0) = b := by
    rw [hc5]
    show Bank.ofPsr ((c4.arm.set 0 (c4.arm.get 0 ||| 192#32)).get 0) = b
    rw [Arm.get_set_self _ (by omega), hpsr4, ofPsr_mask]
    exact hbank
  have hin5 : OnlyIn b c.arm c5.arm := hc5 ▸ hin4.set hb 0 _
  have h6 := h5.msrCpsr (hmode.trans hin5.bank.symm)
  obtain ⟨c6, hc6⟩ : ∃ c6, c6 = c5.on (Arm.msrCpsr 0) := ⟨_, rfl⟩
  rw [← hc6] at h6
  have hin6 : OnlyIn b c.arm c6.arm := hc6 ▸ hin5.psr hmode
  -- the arguments
  have h7 := h6.on 0 (fun m => m.get 14) (fun _ => rfl) Nat.zero_lt_one (by omega)
  have h8 := (h7.mono (Nat.le_succ 1)).on 1 (fun m => m.spsr m.bank) (fun _ => rfl) (by omega)
    (by omega)
  have h9 := (h8.mono (Nat.le_succ 2)).on 2 (fun m => m.get 13) (fun _ => rfl) (by omega) (by omega)
  have hentry : abortEntry c = ((c6.on fun m => m.set 0 (m.get 14)).on
      fun m => m.set 1 (m.spsr m.bank)).on fun m => m.set 2 (m.get 13) := by
    rw [hc6, hc5, hc4, hc3]
    rfl
  rw [hentry]
  refine ⟨h9, ((hin6.set hb 0 _).set hb 1 _).set hb 2 _, ?_, ?_, ?_⟩
  · simp only [Cpu.arm_on]
    rw [Arm.get_set_ne _ (by omega) (by omega), Arm.get_set_ne _ (by omega) (by omega),
      Arm.get_set_self _ (by omega), h6.regs 14 (by omega) (by omega) (by omega)]
  · simp only [Cpu.arm_on]
    rw [Arm.get_set_ne _ (by omega) (by omega), Arm.get_set_self _ (by omega), Arm.bank_set,
      Arm.spsr_set, hin6.bank, hin6.spsr]
  · simp only [Cpu.arm_on]
    rw [Arm.get_set_self _ (by omega), Arm.get_set_ne _ (show 13 ≠ 2 by omega) (by omega)]

/-- A handler has returned: in the mode it was called in, with the stack and the other modes as
they were. -/
structure Handled (c c' : Cpu) : Prop where
  only : OnlyIn c.arm.bank c.arm c'.arm
  sp : c'.arm.get 13 = c.arm.get 13
  frame : ∀ i < 16, c'.frame i = c.frame i

/-- The registers of the mode `b` as they were in `m`, and so the rest. -/
structure Restored (b : Bank) (m m' : Arm) : Prop extends OnlyIn b m m' where
  regs : ∀ n < 15, m'.get n = m.get n
  cpsr : m'.cpsr = m.cpsr

/-- The frame of the exception is on the stack. -/
structure Holding (b : Bank) (c c' : Cpu) : Prop where
  only : OnlyIn b c.arm c'.arm
  sp : c'.arm.get 13 = c.arm.get 13 - 64#32
  frame : ∀ i < 16, c'.frame i = (abortFrame c.arm).getD i 0

theorem Handled.holding (hbank : c.arm.bank = b) (hb : b ≠ .fiq) (h : Handled (abortEntry c) c1) :
    Holding b c c1 := by
  obtain ⟨hpushed, hin, _⟩ := abortEntry_spec hbank hb
  have hsp := hpushed.sp
  refine ⟨hin.trans (hin.bank ▸ h.only), h.sp.trans hsp, fun i hi => ?_⟩
  exact (h.frame i hi).trans (hpushed.words i hi)

theorem Holding.ldr (h : Holding b c c1) (hb : b ≠ .fiq) {n : Nat} (hn : n < 13) (v : Word) :
    Holding b c (c1.ldr n v) := by
  have h13 : (c1.ldr n v).arm.get 13 = c1.arm.get 13 := Arm.get_set_ne _ (by omega) (by omega) _
  refine ⟨h.only.set hb n v, h13.trans h.sp, fun i hi => ?_⟩
  rw [← h.frame i hi]
  unfold Cpu.frame
  rw [h13]
  rfl

theorem Holding.cmp (h : Holding b c c1) (n : Nat) (v : Word) :
    Holding b c (c1.on (Arm.cmp n v)) := by
  have hget : (c1.on (Arm.cmp n v)).arm.get 13 = c1.arm.get 13 := Arm.get_cmp n v _ 13
  refine ⟨h.only.cmp n v, hget.trans h.sp, fun i hi => ?_⟩
  rw [← h.frame i hi]
  unfold Cpu.frame
  rw [hget]
  rfl

/-- **All that was pushed comes back.** -/
theorem Holding.restored (h : Holding b c c1) (hb : b ≠ .fiq) (hbank : c.arm.bank = b) :
    Restored b c.arm (abortRestore c1).arm := by
  obtain ⟨hlow, -, hsp2, hframe2⟩ := popAll_spec [0, 1] c1 (by decide) (by decide)
  obtain ⟨c2, hc2⟩ : ∃ c2, c2 = c1.popAll [0, 1] := ⟨_, rfl⟩
  rw [← hc2] at hlow hsp2 hframe2
  have hin2 : OnlyIn b c.arm c2.arm := hc2 ▸ OnlyIn.popAll hb [0, 1] h.only
  have hpsr : c2.arm.get 0 = c.arm.cpsr := (hlow 0 (by decide)).trans (h.frame 0 (by decide))
  obtain ⟨c3, hc3⟩ : ∃ c3, c3 = c2.on (Arm.msrCpsr 0) := ⟨_, rfl⟩
  have hmode : Bank.ofPsr (c2.arm.get 0) = b := by
    rw [hpsr]
    exact hbank
  have hin3 : OnlyIn b c.arm c3.arm := hc3 ▸ hin2.psr hmode
  have hget3 : ∀ n, c3.arm.get n = c2.arm.get n :=
    hc3 ▸ get_msrCpsr (hmode.trans hin2.bank.symm)
  have hframe3 : ∀ i, c3.frame i = c2.frame i :=
    hc3 ▸ frame_msrCpsr (hmode.trans hin2.bank.symm)
  obtain ⟨hloaded, -, hsp4, -⟩ := popAll_spec abortRegs c3 (by decide) (by decide)
  have hrestore : abortRestore c1 = c3.popAll abortRegs := by
    rw [hc3, hc2]
    rfl
  rw [hrestore]
  have hvalue : ∀ i, ∀ hi : i < abortRegs.length,
      (c3.popAll abortRegs).arm.get abortRegs[i] = c.arm.get abortRegs[i] := by
    intro i hi
    have h14 : i < 14 := hi
    rw [hloaded i hi, hframe3, hframe2, h.frame _ (by show i + 2 < 16; omega)]
    show (abortRegs.map c.arm.get).getD i 0 = _
    rw [List.getD_eq_getElem?_getD, List.getElem?_map, List.getElem?_eq_getElem hi]
    rfl
  refine ⟨OnlyIn.popAll hb abortRegs hin3, fun n hn => ?_, ?_⟩
  · by_cases h13 : n = 13
    · subst h13
      have hlow2 : c2.arm.get 13 = c1.arm.get 13 + 8#32 := hsp2
      have hall : (c3.popAll abortRegs).arm.get 13 = c3.arm.get 13 + 56#32 := hsp4
      rw [hall, hget3, hlow2, h.sp]
      bv_omega
    · have hmem : n ∈ abortRegs := by
        interval_cases n <;> first | decide | exact absurd rfl h13
      obtain ⟨i, hi, rfl⟩ := List.getElem_of_mem hmem
      exact hvalue i hi
  · rw [cpsr_popAll, hc3]
    exact hpsr

/-! ## Going on -/

/-- Beside its pc and cpsr, `m'` differs from `m` only in r14 and the spsr of the mode `b`. -/
structure SameBut (b : Bank) (m m' : Arm) : Prop where
  shared : ∀ n < 13, m'.shared n = m.shared n
  fiqHigh : m'.fiqHigh = m.fiqHigh
  r13 : m'.r13 = m.r13
  r14 : ∀ b' ≠ b, m'.r14 b' = m.r14 b'
  spsr : ∀ b' ≠ b, m'.spsr b' = m.spsr b'

/-- Registers of a mode without its own r8-r12. -/
theorem get_low (hbank : m.bank = b) (hb : b ≠ .fiq) {n : Nat} (hn : n < 13) :
    m.get n = m.shared n := by
  unfold Arm.get
  by_cases h8 : n < 8
  · rw [if_pos h8]
  · rw [if_neg h8, if_pos hn, if_neg (hbank ▸ hb)]

theorem get_sp (hbank : m.bank = b) : m.get 13 = m.r13 b := by
  unfold Arm.get
  rw [hbank]
  rfl

theorem get_link (hbank : m.bank = b) : m.get 14 = m.r14 b := by
  unfold Arm.get
  rw [hbank]
  rfl

theorem Restored.sameBut {toPsr : Word → Word} {offset vector : Word} (hb : b ≠ .fiq)
    (hbank : (takeException b toPsr offset vector m).bank = b)
    (h : Restored b (takeException b toPsr offset vector m) m') : SameBut b m m' := by
  refine ⟨fun n hn => ?_, h.fiqHigh, funext fun b' => ?_, fun b' hb' => ?_, fun b' hb' => ?_⟩
  · have hreg := h.regs n (by omega)
    rw [get_low h.bank hb hn, get_low hbank hb hn] at hreg
    exact hreg
  · by_cases hb' : b' = b
    · have hreg := h.regs 13 (by omega)
      rw [get_sp h.bank, get_sp hbank] at hreg
      exact hb' ▸ hreg
    · exact h.r13 b' hb'
  · exact (h.r14 b' hb').trans (Function.update_of_ne hb' _ _)
  · rw [h.spsr]
    exact Function.update_of_ne hb' _ _

theorem bank_abtPsr (psr : Word) : Bank.ofPsr (abtPsr psr) = .abt := by
  have h : Bank.ofPsr (abtPsr psr) = Bank.ofPsr 0b10010111#32 := by
    apply Arm.ofPsr_congr
    unfold abtPsr
    rw [Arm.and_or_and, show ~~~0b10111111#32 &&& 0b11111#32 = 0#32 by decide, BitVec.and_zero,
      BitVec.zero_or]
  exact h.trans (by decide)

theorem bank_udfPsr (psr : Word) : Bank.ofPsr (udfPsr psr) = .udf := by
  have h : Bank.ofPsr (udfPsr psr) = Bank.ofPsr 0b10011011#32 := by
    apply Arm.ofPsr_congr
    unfold udfPsr
    rw [Arm.and_or_and, show ~~~0b10111111#32 &&& 0b11111#32 = 0#32 by decide, BitVec.and_zero,
      BitVec.zero_or]
  exact h.trans (by decide)

/-- The same machine, as far as programs can tell. -/
structure SameMachine (m m' : Arm) : Prop where
  shared : ∀ n < 13, m'.shared n = m.shared n
  fiqHigh : m'.fiqHigh = m.fiqHigh
  r13 : m'.r13 = m.r13
  r14 : m'.r14 = m.r14
  spsr : m'.spsr = m.spsr
  cpsr : m'.cpsr = m.cpsr
  pc : m'.pc = m.pc

/-- A program in user mode, with its Z flag clear. -/
def userProgram : Arm where
  shared := fun n => BitVec.ofNat 32 n
  fiqHigh := fun _ => 0
  r13 := fun _ => 0x1000#32
  r14 := fun _ => 0
  spsr := fun _ => 0
  cpsr := 0b10000#32
  pc := 0x8000#32

def noWords : Words := ⟨0, 0, 0, 0, 0, 0, 0⟩

/-- A handler that only returns. -/
theorem handled_refl (c : Cpu) : Handled c c := ⟨OnlyIn.refl rfl, rfl, fun _ _ => rfl⟩

/-- **A data abort leaves no trace.** Whatever the handler did with its own registers, the
interrupted instruction is executed again with all registers, modes and flags as they were; or
the OS finds the machine as if the abort had been its own from the start. -/
theorem dataWrapper_transparent (m : Arm) (stack : Word → Word) (words : Words)
    (vector relay : Word) {c1 : Cpu}
    (h : Handled (abortEntry ⟨takeDataAbort vector m, stack, words⟩) c1) :
    (relay ≠ 1#32 → SameBut .abt m (dataReturn relay c1).1.arm ∧
      (dataReturn relay c1).1.arm.cpsr = m.cpsr ∧ (dataReturn relay c1).1.arm.pc = m.pc ∧
      (dataReturn relay c1).2 = relay) ∧
    (relay = 1#32 → SameMachine (takeDataAbort 0x10#32 m) (dataReturn relay c1).1.arm ∧
      (dataReturn relay c1).2 = 0#32) := by
  have hb : Bank.abt ≠ .fiq := by decide
  have hbank : (takeDataAbort vector m).bank = .abt := bank_abtPsr m.cpsr
  have hholding : Holding .abt ⟨takeDataAbort vector m, stack, words⟩ c1 := h.holding hbank hb
  have hcmp := (hholding.ldr hb (show 0 < 13 by omega) relay).cmp 0 1#32
  have heq : ((c1.ldr 0 relay).on (Arm.cmp 0 1#32)).arm.eq = decide (relay = 1#32) := by
    show ((c1.arm.set 0 relay).cmp 0 1#32).eq = _
    rw [Arm.eq_cmp, Arm.get_set_self _ (by omega)]
  refine ⟨fun hrelay => ?_, fun hrelay => ?_⟩
  · obtain ⟨r, hr⟩ : ∃ r, r = abortRestore ((c1.ldr 0 relay).on (Arm.cmp 0 1#32)) := ⟨_, rfl⟩
    have hne := heq.trans (decide_eq_false hrelay)
    have hreturn : dataReturn relay c1 = (r.on (subsPcLr 8#32), relay) := by
      unfold dataReturn
      simp only [hne, Bool.false_eq_true, if_false, hr]
    have hrestored : Restored .abt (takeDataAbort vector m) r.arm := hr ▸ hcmp.restored hb hbank
    have hsame : SameBut .abt m r.arm := hrestored.sameBut hb hbank
    rw [hreturn]
    refine ⟨⟨hsame.shared, hsame.fiqHigh, hsame.r13, hsame.r14, hsame.spsr⟩, ?_, ?_, rfl⟩
    · show r.arm.spsr r.arm.bank = m.cpsr
      rw [hrestored.bank, hrestored.spsr]
      exact Function.update_self Bank.abt m.cpsr m.spsr
    · show r.arm.get 14 - 8#32 = m.pc
      rw [hrestored.regs 14 (by omega), get_link hbank]
      show Function.update m.r14 .abt (m.pc + 8#32) .abt - 8#32 = m.pc
      rw [Function.update_self, BitVec.add_sub_cancel]
  · obtain ⟨r, hr⟩ : ∃ r, r =
        abortRestore (((c1.ldr 0 relay).on (Arm.cmp 0 1#32)).ldr 0 0#32) := ⟨_, rfl⟩
    have hyes := heq.trans (decide_eq_true hrelay)
    have hreturn : dataReturn relay c1 = (r.ldr 15 0x10#32, 0#32) := by
      unfold dataReturn
      simp only [hyes, if_true, hr]
      rw [Cpu.arm_ldr, Arm.get_set_self _ (by omega)]
    have hrestored : Restored .abt (takeDataAbort vector m) r.arm :=
      hr ▸ (hcmp.ldr hb (show 0 < 13 by omega) 0#32).restored hb hbank
    have hsame : SameBut .abt m r.arm := hrestored.sameBut hb hbank
    rw [hreturn]
    refine ⟨⟨hsame.shared, hsame.fiqHigh, hsame.r13, funext fun b' => ?_, hrestored.spsr,
      hrestored.cpsr, rfl⟩, rfl⟩
    by_cases hb' : b' = .abt
    · have hlink := hrestored.regs 14 (by omega)
      rw [get_link hrestored.bank, get_link hbank] at hlink
      exact hb' ▸ hlink
    · exact hrestored.r14 b' hb'

theorem dataWrapper_transparent_userProgram :
    (dataReturn 0#32
      (abortEntry ⟨takeDataAbort 0x20000#32 userProgram, fun _ => 0, noWords⟩)).1.arm.pc
      = 0x8000#32 :=
  ((dataWrapper_transparent userProgram (fun _ => 0) noWords 0x20000#32 0#32
    (handled_refl _)).1 (by decide)).2.2.1

/-- The flags of an interrupted program are still in the cpsr when the handler is called. -/
theorem eq_udfPsr (psr : Word) : (udfPsr psr).getLsbD 30 = psr.getLsbD 30 := by
  simp [udfPsr]

theorem eq_abtPsr (psr : Word) : (abtPsr psr).getLsbD 30 = psr.getLsbD 30 := by
  simp [abtPsr]

/-- **An undefined instruction is skipped by chance**: all registers come back, but whether the
program goes on behind the instruction or at it again is decided by its own Z flag, whatever the
handler has answered. -/
theorem undefWrapper_returns (m : Arm) (stack : Word → Word) (words : Words) (vector : Word)
    {c1 : Cpu} (h : Handled (abortEntry ⟨takeUndefined vector m, stack, words⟩) c1) :
    SameBut .udf m (undefReturn c1).arm ∧ (undefReturn c1).arm.cpsr = m.cpsr ∧
      (undefReturn c1).arm.pc = if m.eq then m.pc + 4#32 else m.pc := by
  have hb : Bank.udf ≠ .fiq := by decide
  have hbank : (takeUndefined vector m).bank = .udf := bank_udfPsr m.cpsr
  have hholding : Holding .udf ⟨takeUndefined vector m, stack, words⟩ c1 := h.holding hbank hb
  obtain ⟨r, hr⟩ : ∃ r, r = abortRestore (c1.on (Arm.cmp 0 1#32)) := ⟨_, rfl⟩
  have hrestored : Restored .udf (takeUndefined vector m) r.arm :=
    hr ▸ (hholding.cmp 0 1#32).restored hb hbank
  have hsame : SameBut .udf m r.arm := hrestored.sameBut hb hbank
  have hflag : r.arm.eq = m.eq := by
    unfold Arm.eq
    rw [hrestored.cpsr]
    exact eq_udfPsr m.cpsr
  have hlink : r.arm.get 14 = m.pc + 4#32 := by
    rw [hrestored.regs 14 (by omega), get_link hbank]
    exact Function.update_self Bank.udf (m.pc + 4#32) m.r14
  have hpsr : r.arm.spsr r.arm.bank = m.cpsr := by
    rw [hrestored.bank, hrestored.spsr]
    exact Function.update_self Bank.udf m.cpsr m.spsr
  have hreturn : undefReturn c1 =
      if m.eq then r.on (Arm.movsPc 14) else r.on (subsPcLr 4#32) := by
    unfold undefReturn
    simp only [← hr, hflag]
  rw [hreturn]
  cases m.eq
  · simp only [Bool.false_eq_true, if_false]
    refine ⟨⟨hsame.shared, hsame.fiqHigh, hsame.r13, hsame.r14, hsame.spsr⟩, hpsr, ?_⟩
    show r.arm.get 14 - 4#32 = m.pc
    rw [hlink, BitVec.add_sub_cancel]
  · simp only [if_true]
    exact ⟨⟨hsame.shared, hsame.fiqHigh, hsame.r13, hsame.r14, hsame.spsr⟩, hpsr, hlink⟩

/-- The Z flag is clear, and the instruction is executed again. -/
theorem undefWrapper_returns_userProgram :
    (undefReturn (abortEntry ⟨takeUndefined 0x20000#32 userProgram, fun _ => 0, noWords⟩)).arm.pc
      = 0x8000#32 :=
  (undefWrapper_returns userProgram (fun _ => 0) noWords 0x20000#32 (handled_refl _)).2.2

/-- **A prefetch abort does not come back.** When the handler returns, every register of the
interrupted program has the value of the one below it, two words of the frame stay on the stack,
and the program goes on at the link register the handler has left, or a word before. -/
theorem prefetchWrapper_shifts (m : Arm) (stack : Word → Word) (words : Words) (vector : Word)
    {c1 : Cpu} (h : Handled (abortEntry ⟨takePrefetchAbort vector m, stack, words⟩) c1) :
    (prefetchReturn c1).arm.shared 0 = m.shared 1 ∧
    (∀ n, n < 12 → (prefetchReturn c1).arm.shared (n + 1) = m.shared n) ∧
    (prefetchReturn c1).arm.r13 .abt = m.r13 .abt - 8#32 ∧
    (prefetchReturn c1).arm.cpsr = m.cpsr ∧
    (prefetchReturn c1).arm.pc =
      if m.eq then c1.arm.r14 .abt else c1.arm.r14 .abt - 4#32 := by
  have hb : Bank.abt ≠ .fiq := by decide
  have hbank : (takePrefetchAbort vector m).bank = .abt := bank_abtPsr m.cpsr
  have hholding : Holding .abt ⟨takePrefetchAbort vector m, stack, words⟩ c1 := h.holding hbank hb
  have hcmp := hholding.cmp 0 1#32
  obtain ⟨c2, hc2⟩ : ∃ c2, c2 = c1.on (Arm.cmp 0 1#32) := ⟨_, rfl⟩
  rw [← hc2] at hcmp
  have hlink2 : c2.arm.get 14 = c1.arm.r14 .abt := by
    rw [get_link hcmp.only.bank, hc2]
    rfl
  -- a word is taken off, the cpsr
  obtain ⟨hlow, hother3, hsp3, hframe3⟩ := popAll_spec [0] c2 (by decide) (by decide)
  obtain ⟨c3, hc3⟩ : ∃ c3, c3 = c2.popAll [0] := ⟨_, rfl⟩
  rw [← hc3] at hlow hother3 hsp3 hframe3
  have hin3 : OnlyIn .abt (takePrefetchAbort vector m) c3.arm :=
    hc3 ▸ OnlyIn.popAll hb [0] hcmp.only
  have hpsr : c3.arm.get 0 = abtPsr m.cpsr := (hlow 0 (by decide)).trans (hcmp.frame 0 (by decide))
  have hmode : Bank.ofPsr (c3.arm.get 0) = .abt := hpsr ▸ bank_abtPsr m.cpsr
  obtain ⟨c4, hc4⟩ : ∃ c4, c4 = c3.on (Arm.msrCpsr 0) := ⟨_, rfl⟩
  have hin4 : OnlyIn .abt (takePrefetchAbort vector m) c4.arm := hc4 ▸ hin3.psr hmode
  have hget4 : ∀ n, c4.arm.get n = c3.arm.get n :=
    hc4 ▸ get_msrCpsr (hmode.trans hin3.bank.symm)
  have hframe4 : ∀ i, c4.frame i = c3.frame i :=
    hc4 ▸ frame_msrCpsr (hmode.trans hin3.bank.symm)
  -- and thirteen more, of which the first is r1 once more
  obtain ⟨hloaded, hother, hsp, -⟩ :=
    popAll_spec [0, 1, 2, 3, 4, 5, 6, 7, 8, 9, 10, 11, 12] c4 (by decide) (by decide)
  obtain ⟨r, hr⟩ : ∃ r, r = c4.popAll [0, 1, 2, 3, 4, 5, 6, 7, 8, 9, 10, 11, 12] := ⟨_, rfl⟩
  rw [← hr] at hloaded hother hsp
  have hin : OnlyIn .abt (takePrefetchAbort vector m) r.arm := hr ▸ OnlyIn.popAll hb _ hin4
  have hword : ∀ i < 13,
      r.arm.shared i = (abortFrame (takePrefetchAbort vector m)).getD (i + 1) 0 := by
    intro i hi
    have hat := hloaded i hi
    have hindex : [0, 1, 2, 3, 4, 5, 6, 7, 8, 9, 10, 11, 12][i] = i := by
      interval_cases i <;> rfl
    rw [hindex, hframe4, hframe3, hcmp.frame _ (by show i + 1 < 16; omega)] at hat
    rw [← get_low hin.bank hb hi]
    exact hat
  have hregs : ∀ n < 13, (takePrefetchAbort vector m).get n = m.shared n :=
    fun n hn => get_low hbank hb hn
  have hflag : r.arm.eq = m.eq := by
    unfold Arm.eq
    rw [hr, cpsr_popAll, hc4]
    show (c3.arm.get 0).getLsbD 30 = _
    rw [hpsr, eq_abtPsr]
  have hlink : r.arm.get 14 = c1.arm.r14 .abt := by
    rw [hother 14 (by decide) (by decide), hget4, hother3 14 (by decide) (by decide), hlink2]
  have hcpsr : r.arm.spsr r.arm.bank = m.cpsr := by
    rw [hin.bank, hin.spsr]
    exact Function.update_self Bank.abt m.cpsr m.spsr
  have hstack : r.arm.r13 .abt = m.r13 .abt - 8#32 := by
    have hword3 : c3.arm.get 13 = c2.arm.get 13 + 4#32 := hsp3
    have hwords : r.arm.get 13 = c4.arm.get 13 + 52#32 := hsp
    have hsp0 : (takePrefetchAbort vector m).get 13 = m.r13 .abt := get_sp hbank
    have hsp2 : c2.arm.get 13 = (takePrefetchAbort vector m).get 13 - 64#32 := hcmp.sp
    rw [← get_sp hin.bank, hwords, hget4, hword3, hsp2, hsp0]
    bv_omega
  have hreturn : prefetchReturn c1 =
      if m.eq then r.on (Arm.movsPc 14) else r.on (subsPcLr 4#32) := by
    rw [← hflag, hr, hc4, hc3, hc2]
    rfl
  have hshared0 : r.arm.shared 0 = m.shared 1 := (hword 0 (by omega)).trans (hregs 1 (by omega))
  have hshared : ∀ n < 12, r.arm.shared (n + 1) = m.shared n := by
    intro n hn
    rw [hword (n + 1) (by omega), ← hregs n (by omega)]
    interval_cases n <;> rfl
  rw [hreturn]
  cases m.eq
  · exact ⟨hshared0, hshared, hstack, hcpsr, congrArg (· - 4#32) hlink⟩
  · exact ⟨hshared0, hshared, hstack, hcpsr, hlink⟩

/-- r0 has the value of r1. -/
theorem prefetchWrapper_shifts_userProgram :
    (prefetchReturn (abortEntry
      ⟨takePrefetchAbort 0x20000#32 userProgram, fun _ => 0, noWords⟩)).arm.shared 0 = 1#32 :=
  (prefetchWrapper_shifts userProgram (fun _ => 0) noWords 0x20000#32 (handled_refl _)).1

/-! ## User mode -/

/-- The context of the user thread that was interrupted. -/
structure UserContext (m : Arm) (offset : Word) (regs : Nat → Word) : Prop where
  low : ∀ n < 13, regs n = m.shared n
  sp : regs 13 = m.r13 .usr
  lr : regs 14 = m.r14 .usr
  pc : regs 15 = m.pc + offset
  psr : regs 16 = m.cpsr

/-- `saveUserContext` with the arguments the wrapper gives the handler. -/
def savedContext (clear : Word) (c : Cpu) : (Nat → Word) × Arm :=
  saveUserContext clear (c.arm.get 0) (c.arm.get 1) (regsAt c.stack (c.arm.get 2)) c.arm

theorem ofPsr_system (psr : Word) : Bank.ofPsr (psr ||| 31#32) = .usr := by
  have h : Bank.ofPsr (psr ||| 31#32) = Bank.ofPsr 31#32 := by
    apply Arm.ofPsr_congr
    ext i hi
    simp only [BitVec.getElem_and, BitVec.getElem_or]
    cases (31#32)[i] <;> simp
  exact h.trans (by decide)

theorem ofPsr_back (psr clear : Word) :
    Bank.ofPsr ((psr ||| 31#32) &&& ~~~clear) = Bank.ofPsr (31#32 &&& ~~~clear) := by
  apply Arm.ofPsr_congr
  ext i hi
  simp only [BitVec.getElem_and, BitVec.getElem_or]
  cases (31#32)[i] <;> simp

theorem savedContext_spec {toPsr : Word → Word} {clear : Word} (hb : b ≠ .fiq) (hb' : b ≠ .usr)
    (hpsr : ∀ psr, Bank.ofPsr (toPsr psr) = b) (hback : Bank.ofPsr (31#32 &&& ~~~clear) = b)
    {m m0 : Arm} {offset vector : Word} (hm0 : m0 = takeException b toPsr offset vector m)
    (stack : Word → Word) (words : Words) :
    UserContext m offset (savedContext clear (abortEntry ⟨m0, stack, words⟩)).1 ∧
      OnlyIn b m0 (savedContext clear (abortEntry ⟨m0, stack, words⟩)).2 := by
  have hbank : m0.bank = b := hm0 ▸ hpsr m.cpsr
  obtain ⟨hpushed, hin, harg0, harg1, harg2⟩ := abortEntry_spec (c := ⟨m0, stack, words⟩) hbank hb
  obtain ⟨c, hc⟩ : ∃ c, c = abortEntry ⟨m0, stack, words⟩ := ⟨_, rfl⟩
  rw [← hc] at hpushed hin harg0 harg1 harg2 ⊢
  -- the frame is where r2 points
  have hframe : ∀ i < 16, regsAt c.stack (c.arm.get 2) i = (abortFrame m0).getD i 0 := by
    intro i hi
    rw [harg2]
    exact hpushed.words i hi
  -- in system mode, and back
  obtain ⟨m3, hm3⟩ : ∃ m3, m3 = ((c.arm.mrsCpsr 1).orr 1 1 31#32).msrCpsr 1 := ⟨_, rfl⟩
  have hpsr3 : m3.cpsr = c.arm.cpsr ||| 31#32 := by
    rw [hm3]
    show ((c.arm.mrsCpsr 1).orr 1 1 31#32).get 1 = _
    rw [Arm.orr, Arm.get_set_self _ (by omega), Arm.mrsCpsr, Arm.get_set_self _ (by omega)]
  have hbank3 : m3.bank = .usr := by
    unfold Arm.bank
    rw [hpsr3, ofPsr_system]
  have hr13 : m3.r13 = c.arm.r13 := hm3 ▸ rfl
  have hr14 : m3.r14 = c.arm.r14 := hm3 ▸ rfl
  have hback1 : ((m3.bic 1 1 clear).get 1) = (c.arm.cpsr ||| 31#32) &&& ~~~clear := by
    rw [Arm.bic, Arm.get_set_self _ (by omega), ← hpsr3, hm3]
    rfl
  obtain ⟨regs, hregs⟩ : ∃ regs, regs =
      Function.update (Function.update (fun i => if i = 16 then c.arm.get 1
        else if i = 15 then c.arm.get 0 else regsAt c.stack (c.arm.get 2) (i + 2)) 13 (m3.get 13))
          14 (m3.get 14) := ⟨_, rfl⟩
  have hsaved : savedContext clear c = (regs, (m3.bic 1 1 clear).msrCpsr 1) := by
    rw [hregs, hm3]
    rfl
  rw [hsaved]
  refine ⟨⟨fun n hn => ?_, ?_, ?_, ?_, ?_⟩, ?_⟩
  · show regs n = m.shared n
    rw [hregs, Function.update_of_ne (by omega), Function.update_of_ne (by omega),
      if_neg (by omega), if_neg (by omega), hframe _ (by omega)]
    have hget : m0.get n = m.shared n := (get_low hbank hb hn).trans (hm0 ▸ rfl)
    rw [← hget]
    interval_cases n <;> rfl
  · show regs 13 = _
    rw [hregs, Function.update_of_ne (by omega), Function.update_self, get_sp hbank3, hr13,
      hin.r13 .usr hb'.symm]
    exact hm0 ▸ rfl
  · show regs 14 = _
    rw [hregs, Function.update_self, get_link hbank3, hr14, hin.r14 .usr hb'.symm]
    exact hm0 ▸ Function.update_of_ne hb'.symm _ _
  · show regs 15 = _
    rw [hregs, Function.update_of_ne (by omega), Function.update_of_ne (by omega),
      if_neg (by omega), if_pos rfl, harg0, get_link hbank]
    rw [hm0]
    exact Function.update_self b (m.pc + offset) m.r14
  · show regs 16 = _
    rw [hregs, Function.update_of_ne (by omega), Function.update_of_ne (by omega), if_pos rfl,
      harg1, hm0]
    exact Function.update_self b m.cpsr m.spsr
  · have honly : OnlyIn b m0 ((m3.bic 1 1 clear).msrCpsr 1) := by
      refine ⟨?_, fun b' hne => ?_, fun b' hne => ?_, ?_, ?_⟩
      · show Bank.ofPsr ((m3.bic 1 1 clear).get 1) = b
        rw [hback1, ofPsr_back, hback]
      · rw [← hin.r13 b' hne, ← hr13]
        rfl
      · rw [← hin.r14 b' hne, ← hr14]
        rfl
      · rw [← hin.fiqHigh, hm3]
        rfl
      · rw [← hin.spsr, hm3]
        rfl
    exact honly

end

end OSExt.Exceptions
