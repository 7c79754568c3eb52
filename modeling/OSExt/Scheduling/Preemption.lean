import OSExt.Exceptions.Fiq
import OSExt.Scheduling.Ticks

/-!
# What preemption does to the interrupted thread

The context of a thread interrupted in SVC mode is spread over the FIQ frame,
the banked registers and, if the tick saves it, the thread's `regs`. Up to the
first `swi` the handler leaves all of it in place. That `swi` takes r14_svc and
spsr_svc, and the asm block that saves never leaves FIQ mode, so what it stores
as r8-r14 and spsr are the handler's own.
-/

namespace OSExt.Scheduling

open Lib Exceptions

/-! ## The asm blocks -/

/-- Clearing the mode bits (`~31` is the literal) and setting SVC. -/
theorem ofPsr_svcMode (psr : Word) : Bank.ofPsr (psr &&& 4294967264#32 ||| 19#32) = .svc := by
  have h := Arm.ofPsr_setMode psr 19#32
  rw [show ~~~0b11111#32 = 4294967264#32 by decide] at h
  rw [h]
  decide

theorem ofPsr_fiqMode (psr : Word) : Bank.ofPsr (psr &&& 4294967264#32 ||| 17#32) = .fiq := by
  have h := Arm.ofPsr_setMode psr 17#32
  rw [show ~~~0b11111#32 = 4294967264#32 by decide] at h
  rw [h]
  decide

/-- The registers, pc and psrs of the thread running in SVC mode in `m`, as indexed in `regs`. -/
def contextOf (m : Arm) (i : Nat) : Word :=
  if i < 13 then m.shared i
  else if i = 13 then m.r13 .svc
  else if i = 14 then m.r14 .svc
  else if i = 15 then m.pc
  else if i = 16 then m.cpsr
  else m.spsr .svc

/-- `resume_svc_thread` loads every register, whatever the state it runs in. -/
theorem contextOf_resume (base : Word) (regs : Nat → Word) (m : Arm) :
    ∀ i < 18, contextOf (resumeSvcThread base regs m) i = regs i := by
  intro i hi
  have hlow : ∀ n < 13, (resumeSvcThread base regs m).shared n = regs n := by
    intro n hn
    simp [resumeSvcThread, Arm.set, Arm.get, Arm.mrsCpsr, Arm.bic, Arm.orr, Arm.msrCpsr,
      Arm.msrSpsr, Arm.mov, Arm.movsPc, Arm.bank, ofPsr_svcMode, ofPsr_fiqMode,
      Function.update_apply]
    interval_cases n <;> simp
  have hbanked : (resumeSvcThread base regs m).r13 .svc = regs 13
      ∧ (resumeSvcThread base regs m).r14 .svc = regs 14
      ∧ (resumeSvcThread base regs m).pc = regs 15
      ∧ (resumeSvcThread base regs m).cpsr = regs 16
      ∧ (resumeSvcThread base regs m).spsr .svc = regs 17 := by
    simp [resumeSvcThread, Arm.set, Arm.get, Arm.mrsCpsr, Arm.bic, Arm.orr, Arm.msrCpsr,
      Arm.msrSpsr, Arm.mov, Arm.movsPc, Arm.bank, ofPsr_svcMode, ofPsr_fiqMode]
  obtain ⟨h13, h14, h15, h16, h17⟩ := hbanked
  unfold contextOf
  by_cases hi13 : i < 13
  · rw [if_pos hi13, hlow i hi13]
  · interval_cases i <;> simp [h13, h14, h15, h16, h17]

/-- The same context, register by register. -/
def SameContext (m m' : Arm) : Prop := ∀ i < 18, contextOf m' i = contextOf m i

/-! ## Inside the handler -/

/-- What of the interrupted state `m` the FIQ handler still finds in the machine. -/
structure InHandler (m x : Arm) : Prop where
  /-- r8-r12 of the thread are not those of FIQ mode. -/
  shared : ∀ n, 8 ≤ n → n < 13 → x.shared n = m.shared n
  sp : x.r13 .svc = m.r13 .svc
  /-- The FIQ's own spsr holds the thread's cpsr. -/
  spsr : x.spsr .fiq = m.cpsr
  bank : x.bank = .fiq

theorem inHandler_entry (m : Arm) (stackReset vector : Word) :
    InHandler m (fiqEntry stackReset (m.takeFiq vector)).2 := by
  have hb := Arm.bank_takeFiq m vector
  unfold Arm.bank at hb
  refine ⟨?_, ?_, ?_, ?_⟩
  · intro n h8 h13
    have h0 : n ≠ 0 := by omega
    simp [fiqEntry, Arm.takeFiq, Arm.set, Arm.mrsCpsr, h0]
  · simp [fiqEntry, Arm.set, Arm.mrsCpsr, Arm.bank, hb]
    rfl
  · simp [fiqEntry, Arm.takeFiq, Arm.set, Arm.mrsCpsr]
  · simp [fiqEntry, Arm.set, Arm.mrsCpsr, Arm.bank, hb]

/-- The banks the `swi` of the handler takes are still intact on entry. -/
theorem entry_svc (m : Arm) (stackReset vector : Word) :
    (fiqEntry stackReset (m.takeFiq vector)).2.r14 .svc = m.r14 .svc
      ∧ (fiqEntry stackReset (m.takeFiq vector)).2.spsr .svc = m.spsr .svc
      ∧ (fiqEntry stackReset (m.takeFiq vector)).2.cpsr = Arm.fiqPsr m.cpsr := by
  refine ⟨?_, ?_, ?_⟩ <;> simp [fiqEntry, Arm.takeFiq, Arm.set, Arm.mrsCpsr]

theorem inHandler_scratch {m x : Arm} (h : InHandler m x) (c : Arm.Scratch) :
    InHandler m (x.scratch c) := by
  refine ⟨?_, ?_, h.spsr, ?_⟩
  · intro n h8 h13
    show (if n < 8 then c.low n else x.shared n) = m.shared n
    rw [if_neg (by omega), h.shared n h8 h13]
  · show Function.update x.r13 .fiq c.sp .svc = m.r13 .svc
    rw [Function.update_of_ne (by decide), h.sp]
  · rw [Arm.bank_scratch, h.bank]

theorem inHandler_swi {m x : Arm} (h : InHandler m x) (return_ r0 : Word) :
    InHandler m (x.swi return_ r0) := by
  refine ⟨?_, h.sp, ?_, h.bank⟩
  · intro n h8 h13
    show Function.update x.shared 0 r0 n = m.shared n
    rw [Function.update_of_ne (by omega), h.shared n h8 h13]
  · show Function.update x.spsr .svc x.cpsr .fiq = m.cpsr
    rw [Function.update_of_ne (by decide), h.spsr]

/-! ## The frame -/

theorem tickFrame_zero (stackReset vector : Word) (m : Arm) :
    tickFrame stackReset vector m 0 = Arm.fiqPsr m.cpsr := by
  simp [tickFrame, fiqEntry, Arm.takeFiq, Arm.set, Arm.get, Arm.mrsCpsr]

theorem tickFrame_low (stackReset vector : Word) (m : Arm) {n : Nat} (hn : n < 8) :
    tickFrame stackReset vector m (n + 1) = m.shared n := by
  have h8 : n ≠ 8 := by omega
  simp [tickFrame, fiqEntry, Arm.takeFiq, Arm.set, Arm.get, hn, h8]

theorem tickFrame_pc (stackReset vector : Word) (m : Arm) :
    tickFrame stackReset vector m 9 = m.pc + 4#32 := by
  have hb := Arm.bank_takeFiq m vector
  unfold Arm.bank at hb
  simp [tickFrame, fiqEntry, Arm.set, Arm.get, Arm.bank, hb]
  simp [Arm.takeFiq]

/--
**A handler that returns restores everything but what its `swi` took.** The frame
has the thread's r0-r7 and pc, the FIQ's spsr its cpsr.
-/
theorem contextOf_fiqExit {m x : Arm} (h : InHandler m x) (stackReset vector : Word) :
    ∀ i < 18, contextOf (fiqExit (tickFrame stackReset vector m) x) i
      = if i = 14 then x.r14 .svc else if i = 17 then x.spsr .svc else contextOf m i := by
  intro i hi
  have hfiq : Bank.ofPsr (Arm.fiqPsr m.cpsr) = .fiq := Arm.ofPsr_fiqPsr m.cpsr
  have hframe : ∀ n < 8, tickFrame stackReset vector m (n + 1) = m.shared n :=
    fun n hn => tickFrame_low stackReset vector m hn
  have h0 := tickFrame_zero stackReset vector m
  have h9 := tickFrame_pc stackReset vector m
  have hlow : ∀ n < 13, (fiqExit (tickFrame stackReset vector m) x).shared n = m.shared n := by
    intro n hn
    simp [fiqExit, Arm.subsPcLr4, Arm.set, Arm.get, Arm.msrCpsr, Arm.bank, h0, hfiq,
      Function.update_apply]
    by_cases hn8 : n < 8
    · interval_cases n <;> simp [hframe]
    · have hx := h.shared n (by omega) hn
      interval_cases n <;> simpa using hx
  have hbanked : (fiqExit (tickFrame stackReset vector m) x).r13 .svc = m.r13 .svc
      ∧ (fiqExit (tickFrame stackReset vector m) x).r14 .svc = x.r14 .svc
      ∧ (fiqExit (tickFrame stackReset vector m) x).pc = m.pc
      ∧ (fiqExit (tickFrame stackReset vector m) x).cpsr = m.cpsr
      ∧ (fiqExit (tickFrame stackReset vector m) x).spsr .svc = x.spsr .svc := by
    have hsp := h.sp
    have hspsr := h.spsr
    simp [fiqExit, Arm.subsPcLr4, Arm.set, Arm.get, Arm.msrCpsr, Arm.bank, h0, h9, hfiq, hsp,
      hspsr, BitVec.add_sub_cancel]
  obtain ⟨h13, h14, h15, h16, h17⟩ := hbanked
  unfold contextOf
  by_cases hi13 : i < 13
  · rw [if_pos hi13, hlow i hi13, if_neg (by omega), if_neg (by omega), if_pos hi13]
  · interval_cases i <;> simp [h13, h14, h15, h16, h17]

/-! ## What gets saved -/

/--
**A handler that saves stores its own r8-r14.** r0-r7 and the pc come from the
frame; the cpsr and the spsr entry are both the FIQ's spsr.
-/
theorem saveContext_eq {m x : Arm} (h : InHandler m x) (base : Word) (regs : Nat → Word)
    (stackReset vector : Word) :
    ∀ i < 18, (saveContext base (tickFrame stackReset vector m) regs x).1 i
      = if i < 8 then contextOf m i
        else if i < 13 then x.fiqHigh i
        else if i = 13 then x.r13 .fiq
        else if i = 14 then x.r14 .fiq
        else if i = 15 then m.pc
        else m.cpsr := by
  intro i hi
  have hb := h.bank
  have hspsr := h.spsr
  have h9 := tickFrame_pc stackReset vector m
  have hframe : ∀ n < 8, tickFrame stackReset vector m (n + 1) = m.shared n :=
    fun n hn => tickFrame_low stackReset vector m hn
  unfold Arm.bank at hb
  simp [saveContext, Arm.set, Arm.get, Arm.msrCpsr, Arm.mrsCpsr, Arm.mrsSpsr, Arm.mov, Arm.bic,
    Arm.orr, Arm.bank, hb, hspsr, h9, Function.update_apply, contextOf]
  interval_cases i <;> simp [hframe, BitVec.add_sub_cancel]

/-! ## Transparency -/

/--
When the thread `t`, interrupted in `m`, runs again, it has the context it was
interrupted with: at once if the handler returned, and otherwise when
`resume_svc_thread` is called for it, in whatever state of the machine. After a
panic no thread runs again.
-/
def Transparent (m : Arm) (frame : Nat → Word) (t : Nat) : Outcome → Prop
  | .returned x _ => SameContext m (fiqExit frame x)
  | .resumed _ _ s => ∀ base x, SameContext m (resumeSvcThread base (s.thread t).regs x)
  | .panicked _ _ => True
  | .outOfFuel => False

/-- The cpsr the handler's `swi` is executed under. -/
def swiPsr (code : Compiled) (m : Arm) : Word :=
  (Arm.fiqPsr m.cpsr &&& 0x07ffffff#32) ||| (code.atSwi.flags &&& 0xf8000000#32)

/-- The `swi` writes what the thread had in r14_svc and spsr_svc anyway. -/
def SwiKeeps (code : Compiled) (m : Arm) : Prop :=
  m.r14 .svc = code.swiReturn ∧ m.spsr .svc = swiPsr code m

/-- The thread's r8-r14 and spsr are those the handler has in FIQ mode when it saves. -/
def SaveKeeps (code : Compiled) (m : Arm) : Prop :=
  (∀ n, 8 ≤ n → n < 13 → m.shared n = code.atSave.high n)
    ∧ m.r13 .svc = code.atSave.sp ∧ m.r14 .svc = code.atSave.lr ∧ m.spsr .svc = m.cpsr

/--
The states a scheduler FIQ does no harm in: it stops before the `swi`; or it
returns after it, or saves, and clobbers registers with the values they had; or
it panics.
-/
def KeepsContext (status : FiqStatus) (task : Nat) (code : Compiled) (l : List Nat) (m : Arm)
    (s : Scheduler) : Prop :=
  status.scheduler = false ∨ status.syscallInProgress ≠ 0 ∨
  (if task ≠ s.nucGuiTask ∨ s.next s.runningKernelThread = s.runningKernelThread then
    SwiKeeps code m
  else SaveKeeps code m ∨ NothingToRun l s)

/-- A returning handler is transparent exactly if r14_svc and spsr_svc survived. -/
theorem sameContext_fiqExit {m x : Arm} (h : InHandler m x) (stackReset vector : Word) :
    SameContext m (fiqExit (tickFrame stackReset vector m) x)
      ↔ x.r14 .svc = m.r14 .svc ∧ x.spsr .svc = m.spsr .svc := by
  have hexit := contextOf_fiqExit h stackReset vector
  constructor
  · intro hsame
    have h14 := (hexit 14 (by omega)).symm.trans (hsame 14 (by omega))
    have h17 := (hexit 17 (by omega)).symm.trans (hsame 17 (by omega))
    simpa [contextOf] using And.intro h14 h17
  · intro hgiven i hi
    obtain ⟨h14, h17⟩ := hgiven
    rw [hexit i hi]
    split
    · rename_i he
      rw [he, h14]
      rfl
    · split
      · rename_i he
        rw [he, h17]
        rfl
      · rfl

/-- What is saved is the context exactly if r8-r14 and spsr are the same in both modes. -/
theorem sameContext_saved {m x : Arm} (h : InHandler m x) (stackReset vector base : Word)
    (regs : Nat → Word) :
    (∀ base' y, SameContext m
        (resumeSvcThread base' (saveContext base (tickFrame stackReset vector m) regs x).1 y))
      ↔ (∀ n, 8 ≤ n → n < 13 → m.shared n = x.fiqHigh n)
        ∧ m.r13 .svc = x.r13 .fiq ∧ m.r14 .svc = x.r14 .fiq ∧ m.spsr .svc = m.cpsr := by
  have hsaved := saveContext_eq h base regs stackReset vector
  constructor
  · intro hsame
    have hctx : ∀ i < 18,
        (saveContext base (tickFrame stackReset vector m) regs x).1 i = contextOf m i := by
      intro i hi
      rw [← hsame 0 m i hi, contextOf_resume _ _ _ i hi]
    have hval := fun i hi => (hctx i hi).symm.trans (hsaved i hi)
    refine ⟨?_, ?_, ?_, ?_⟩
    · intro n h8 h13
      have hn := hval n (by omega)
      rw [if_neg (by omega), if_pos h13] at hn
      rw [← hn, contextOf, if_pos h13]
    · simpa [contextOf] using hval 13 (by omega)
    · simpa [contextOf] using hval 14 (by omega)
    · simpa [contextOf] using hval 17 (by omega)
  · intro hgiven base' y i hi
    obtain ⟨hhigh, h13, h14, h17⟩ := hgiven
    rw [contextOf_resume _ _ _ i hi, hsaved i hi]
    by_cases hi8 : i < 8
    · rw [if_pos hi8]
    · by_cases hi13 : i < 13
      · rw [if_neg hi8, if_pos hi13, ← hhigh i (by omega) hi13, contextOf, if_pos hi13]
      · interval_cases i <;> simp [contextOf, h13, h14, h17]

/-- The machine the handler's `swi` leaves. -/
def afterSwi (code : Compiled) (task : Nat) (stackReset vector : Word) (m : Arm) : Arm :=
  ((fiqEntry stackReset (m.takeFiq vector)).2.scratch code.atSwi).swi code.swiReturn
    (BitVec.ofNat 32 task)

theorem inHandler_afterSwi (code : Compiled) (task : Nat) (stackReset vector : Word) (m : Arm) :
    InHandler m (afterSwi code task stackReset vector m) :=
  inHandler_swi (inHandler_scratch (inHandler_entry m stackReset vector) _) _ _

theorem afterSwi_svc (code : Compiled) (task : Nat) (stackReset vector : Word) (m : Arm) :
    (afterSwi code task stackReset vector m).r14 .svc = code.swiReturn
      ∧ (afterSwi code task stackReset vector m).spsr .svc = swiPsr code m := by
  refine ⟨by simp [afterSwi, Arm.swi], ?_⟩
  have hc := (entry_svc m stackReset vector).2.2
  simp [afterSwi, Arm.swi, Arm.scratch, hc, swiPsr]

theorem nothingToRun_saveRegs (l : List Nat) (s : Scheduler) (regs : Nat → Word) :
    NothingToRun l (s.saveRegs regs) ↔ NothingToRun l s := by
  have hmain : ∀ t, ((s.saveRegs regs).thread t).main = (s.thread t).main := by
    intro t
    unfold Scheduler.saveRegs Scheduler.setThread
    by_cases ht : t = s.runningKernelThread
    · subst ht; simp
    · simp [ht]
  unfold NothingToRun
  simp only [status_saveRegs, waiting_saveRegs, hmain]
  rfl

/-- A thread interrupted in a function, with a return address in r14. -/
def interrupted : Arm where
  shared n := BitVec.ofNat 32 n + 100#32
  fiqHigh _ := 0
  r13 _ := 0x11000000#32
  r14 _ := 0x10008000#32
  spsr _ := 0x10#32
  cpsr := 0x93#32
  pc := 0x10009000#32

end OSExt.Scheduling
