import OSExt.Exceptions.SyscallDepth
import OSExt.Scheduling.Preemption

/-!
# Waiting returns like a system call

A thread that waits does not come back through the wrapper: `swi_wrapper` pushes its
registers, the handler copies them into the thread's `regs` by way of
`syscall_get_reg`, and `resume_svc_thread` loads them some other time. The three
agree on where each register is.
-/

namespace OSExt.Exceptions

open Lib Scheduling

/-! ## The stack -/

/-- The words from the stack pointer up. -/
def Cpu.frame (c : Cpu) (i : Nat) : Word := c.stack (c.arm.get 13 + BitVec.ofNat 32 (4 * i))

namespace Cpu

variable {c : Cpu} {n : Nat}

theorem frame_push_zero : (c.push n).frame 0 = c.arm.get n := by
  simp [frame, push, Arm.get_set_self]

/-- A push leaves the words above it alone. -/
theorem frame_push_succ {i : Nat} (hi : i + 1 < 2 ^ 30) : (c.push n).frame (i + 1) = c.frame i := by
  have haddr : c.arm.get 13 - 4#32 + BitVec.ofNat 32 (4 * (i + 1))
      = c.arm.get 13 + BitVec.ofNat 32 (4 * i) := by bv_omega
  have hne : c.arm.get 13 + BitVec.ofNat 32 (4 * i) ≠ c.arm.get 13 - 4#32 := by bv_omega
  simp only [frame, arm_push, Arm.get_set_self _ (show 13 < 15 by omega), haddr]
  exact Function.update_of_ne hne ..

/-- A push changes no register but the stack pointer. -/
theorem get_pushAll {r : Nat} (hr : r ≠ 13) (c : Cpu) : ∀ (ns : List Nat),
    (c.pushAll ns).arm.get r = c.arm.get r
  | [] => rfl
  | n :: ns => by
      rw [← get_pushAll hr c ns]
      exact Arm.get_set_ne _ hr (by omega) _

end Cpu

/--
What the wrapper keeps of the state `c` it began with, while `ws` is what it has pushed,
topmost first: the registers from `k` on, and the bank with its spsr.
-/
structure Pushed (k : Nat) (c c' : Cpu) (ws : List Word) : Prop where
  regs : ∀ n, k ≤ n → n ≠ 13 → n < 15 → c'.arm.get n = c.arm.get n
  sp : c'.arm.get 13 = c.arm.get 13 - BitVec.ofNat 32 (4 * ws.length)
  bank : c'.arm.bank = c.arm.bank
  spsr : c'.arm.spsr = c.arm.spsr
  words : ∀ i < ws.length, c'.frame i = ws.getD i 0

namespace Pushed

variable {k n : Nat} {c c' : Cpu} {ws : List Word}

theorem nil (c : Cpu) : Pushed 0 c c [] where
  regs _ _ _ _ := rfl
  sp := by simp
  bank := rfl
  spsr := rfl
  words i hi := absurd hi (Nat.not_lt_zero i)

theorem mono (h : Pushed k c c' ws) {j : Nat} (hj : k ≤ j) : Pushed j c c' ws where
  regs n hn := h.regs n (hj.trans hn)
  sp := h.sp
  bank := h.bank
  spsr := h.spsr
  words := h.words

/-- A register below `k` is written. -/
theorem on (h : Pushed k c c' ws) {f : Arm → Arm} (r : Nat) (v : Arm → Word)
    (hf : ∀ m : Arm, f m = m.set r (v m)) (hr : r < k) (hk : k ≤ 13) : Pushed k c (c'.on f) ws := by
  have h13 : (c'.arm.set r (v c'.arm)).get 13 = c'.arm.get 13 :=
    Arm.get_set_ne _ (by omega) (by omega) _
  refine ⟨?_, ?_, ?_, ?_, ?_⟩
  · intro n hn hn13 hn15
    rw [Cpu.arm_on, hf, Arm.get_set_ne _ (by omega) (by omega), h.regs n hn hn13 hn15]
  · rw [Cpu.arm_on, hf, h13, h.sp]
  · rw [Cpu.arm_on, hf, Arm.bank_set, h.bank]
  · rw [Cpu.arm_on, hf, Arm.spsr_set, h.spsr]
  · intro i hi
    rw [← h.words i hi]
    simp only [Cpu.frame, Cpu.on, hf, h13]

theorem ldr (h : Pushed k c c' ws) {r : Nat} (hr : r < k) (hk : k ≤ 13) (v : Word) :
    Pushed k c (c'.ldr r v) ws :=
  h.on r (fun _ => v) (fun _ => rfl) hr hk

/-- The words among the code are not on the stack. -/
theorem str (h : Pushed k c c' ws) (r : Nat) (put : Words → Word → Words) :
    Pushed k c (c'.str r put) ws where
  regs := h.regs
  sp := h.sp
  bank := h.bank
  spsr := h.spsr
  words := h.words

theorem cmp (h : Pushed k c c' ws) (r : Nat) (v : Arm → Word) :
    Pushed k c (c'.on fun m => m.cmp r (v m)) ws := by
  refine ⟨?_, ?_, ?_, h.spsr, ?_⟩
  · intro n hn hn13 hn15
    rw [Cpu.arm_on, Arm.get_cmp, h.regs n hn hn13 hn15]
  · rw [Cpu.arm_on, Arm.get_cmp, h.sp]
  · rw [Cpu.arm_on, Arm.bank_cmp, h.bank]
  · intro i hi
    rw [← h.words i hi]
    simp only [Cpu.frame, Arm.get_cmp, Cpu.on]

/-- One more word is pushed. -/
theorem push (h : Pushed k c c' ws) (n : Nat) (hlen : ws.length + 1 < 2 ^ 30) :
    Pushed k c (c'.push n) (c'.arm.get n :: ws) := by
  refine ⟨?_, ?_, ?_, ?_, ?_⟩
  · intro r hr hr13 hr15
    rw [Cpu.arm_push, Arm.get_set_ne _ hr13 (by omega), h.regs r hr hr13 hr15]
  · rw [Cpu.arm_push, Arm.get_set_self _ (by omega), h.sp, List.length_cons]
    bv_omega
  · rw [Cpu.arm_push, Arm.bank_set, h.bank]
  · rw [Cpu.arm_push, Arm.spsr_set, h.spsr]
  · intro i hi
    cases i with
    | zero => exact Cpu.frame_push_zero
    | succ i =>
        rw [List.length_cons] at hi
        rw [Cpu.frame_push_succ (by omega), List.getD_cons_succ]
        exact h.words i (by omega)

/-- A list of registers is pushed, with the first one on top. -/
theorem pushAll (h : Pushed k c c' ws) : ∀ (ns : List Nat),
    (∀ n ∈ ns, k ≤ n ∧ n ≠ 13 ∧ n < 15) → ws.length + ns.length < 2 ^ 30 →
      Pushed k c (c'.pushAll ns) (ns.map c.arm.get ++ ws)
  | [], _, _ => h
  | n :: ns, hns, hlen => by
      rw [List.length_cons] at hlen
      have hrest := pushAll h ns (fun r hr => hns r (List.mem_cons_of_mem _ hr)) (by omega)
      obtain ⟨hk, h13, h15⟩ := hns n (List.mem_cons_self ..)
      have hpush := hrest.push n (by rw [List.length_append, List.length_map]; omega)
      rw [hrest.regs n hk h13 h15] at hpush
      exact hpush

end Pushed

/-! ## Through the wrapper -/

/-- A `swi` in ARM state and SVC mode with one of OSExt's own numbers. -/
structure OwnCall (text : Text) (m : Arm) : Prop where
  svc : m.bank = .svc
  arm : m.cpsr &&& 0b100000#32 ≠ 0b100000#32
  number : syscallMask ≤ text.word m.pc &&& ~~~0xff000000#32

/-- The number without the mask, as `swi_handler` gets it. -/
def swiNumber (text : Text) (m : Arm) : Word :=
  (text.word m.pc &&& ~~~0xff000000#32) &&& ~~~syscallMask

theorem privileged_of_svc {m : Arm} (h : m.bank = .svc) : m.cpsr &&& 0b11111#32 ≠ 0b10000#32 := by
  intro hu
  unfold Arm.bank Bank.ofPsr at h
  rw [hu] at h
  exact absurd h (by decide)

theorem pushed_countCall (c : Cpu) :
    ∃ psr, Pushed 1 c (countCall c) [psr, c.arm.get 0] := by
  have hpush := ((Pushed.nil c).push 0 (by decide)).mono (Nat.zero_le 1)
  have hload := hpush.ldr Nat.zero_lt_one (by omega) c.words.syscallInProgress
  have hadd := hload.on 0 (fun m => m.get 0 + 1#32) (fun _ => rfl) Nat.zero_lt_one (by omega)
  have hcount := hadd.str 0 (fun w v => { w with syscallInProgress := v })
  have hpsr := hcount.on 0 (fun m => m.cpsr) (fun _ => rfl) Nat.zero_lt_one (by omega)
  exact ⟨_, hpsr.push 0 (by simp)⟩

theorem Pushed.testSpsr {k : Nat} {c c' : Cpu} {ws : List Word} (h : Pushed k c c' ws)
    (hk : 0 < k) (hk' : k ≤ 13) (mask v : Word) : Pushed k c (testSpsr mask v c') ws := by
  have hpsr := h.on 0 (fun m => m.spsr m.bank) (fun _ => rfl) hk hk'
  have hand := hpsr.on 0 (fun m => m.get 0 &&& mask) (fun _ => rfl) hk hk'
  exact hand.cmp 0 fun _ => v

theorem Pushed.loadNumber {c c' : Cpu} {ws : List Word} (h : Pushed 1 c c' ws) (text : Text)
    (hlen : ws.length + 1 < 2 ^ 30) :
    Pushed 2 c (loadNumber text c') (c.arm.get 1 :: ws) := by
  have hload := h.ldr Nat.zero_lt_one (by omega) (text.word (c'.arm.get 14 - 4#32))
  have hbic := hload.on 0 (fun m => m.get 0 &&& ~~~0xff000000#32) (fun _ => rfl) Nat.zero_lt_one
    (by omega)
  have hpush := (hbic.push 1 hlen).mono (Nat.le_succ 1)
  rw [hbic.regs 1 (by omega) (by omega) (by omega)] at hpush
  exact hpush.ldr Nat.one_lt_two (by omega) syscallMask

theorem get_loadNumber (text : Text) (c : Cpu) :
    (loadNumber text c).arm.get 0 = text.word (c.arm.get 14 - 4#32) &&& ~~~0xff000000#32
      ∧ (loadNumber text c).arm.get 1 = syscallMask := by
  refine ⟨?_, ?_⟩ <;> simp [loadNumber, Arm.bic, Arm.get_set_self, Arm.get_set_ne]

/-- What the wrapper pushes of the state at its entry, topmost first. -/
def callFrame (m : Arm) (psr : Word) : List Word :=
  handlerRegs.map m.get ++ [m.spsr m.bank, m.get 1, psr, m.get 0]

/-- **An own call reaches `swi_handler`** with its number and all of its registers. -/
theorem swiWrapper_ownCall {text : Text} {c : Cpu} (h : OwnCall text c.arm) (vector : Word) :
    ∃ c' psr, swiWrapper text (c.on (Arm.takeSwi vector)) = .svc c'
      ∧ c'.arm.get 0 = swiNumber text c.arm
      ∧ c'.arm.get 1 = c'.arm.get 13
      ∧ Pushed 2 (c.on (Arm.takeSwi vector)) c' (callFrame (c.arm.takeSwi vector) psr) := by
  obtain ⟨c0, hc0⟩ : ∃ c0, c0 = c.on (Arm.takeSwi vector) := ⟨_, rfl⟩
  have hbank : c0.arm.bank = .svc := hc0 ▸ Arm.bank_takeSwi vector c.arm
  have hspsr : c0.arm.spsr .svc = c.arm.cpsr := by
    rw [hc0]
    show Function.update c.arm.spsr .svc c.arm.cpsr .svc = c.arm.cpsr
    exact Function.update_self ..
  obtain ⟨psr, hcount⟩ := pushed_countCall c0
  -- the caller was in ARM state
  obtain ⟨c1, hc1⟩ : ∃ c1, c1 = testSpsr 0b100000#32 0b100000#32 (countCall c0) := ⟨_, rfl⟩
  have h1 : Pushed 1 c0 c1 _ := hc1 ▸ hcount.testSpsr Nat.zero_lt_one (by omega) _ _
  have heq1 : c1.arm.eq = false := by
    rw [hc1, eq_testSpsr, hcount.spsr, hcount.bank, hbank, hspsr]
    exact decide_eq_false h.arm
  -- and in a privileged mode
  obtain ⟨c2, hc2⟩ : ∃ c2, c2 = testSpsr 0b11111#32 0b10000#32 c1 := ⟨_, rfl⟩
  have h2 : Pushed 1 c0 c2 _ := hc2 ▸ h1.testSpsr Nat.zero_lt_one (by omega) _ _
  have heq2 : c2.arm.eq = false := by
    rw [hc2, eq_testSpsr, h1.spsr, h1.bank, hbank, hspsr]
    exact decide_eq_false (privileged_of_svc h.svc)
  -- the number is read from the instruction behind which lr points
  obtain ⟨c3, hc3⟩ : ∃ c3, c3 = loadNumber text c2 := ⟨_, rfl⟩
  have h3 : Pushed 2 c0 c3 _ := hc3 ▸ h2.loadNumber text (by simp)
  have hlr : c2.arm.get 14 - 4#32 = c.arm.pc := by
    rw [h2.regs 14 (by omega) (by omega) (by omega), get_lr hbank, hc0]
    show Function.update c.arm.r14 .svc (c.arm.pc + 4#32) .svc - 4#32 = c.arm.pc
    rw [Function.update_self, BitVec.add_sub_cancel]
  obtain ⟨hnum, hmask⟩ := get_loadNumber text c2
  rw [← hc3, hlr] at hnum
  rw [← hc3] at hmask
  -- it has the bits of the mask, so the call is not delegated
  have hlo : (c3.arm.cmp 0 (c3.arm.get 1)).lo = false := by
    rw [Arm.lo_cmp, hnum, hmask]
    exact decide_eq_false (BitVec.not_lt.mpr h.number)
  obtain ⟨c4, hc4⟩ : ∃ c4, c4 = (c3.on fun m => m.cmp 0 (m.get 1)).on
    (fun m => m.bic 0 0 (m.get 1)) := ⟨_, rfl⟩
  have h4 : Pushed 2 c0 c4 _ := hc4 ▸ (h3.cmp 0 (·.get 1)).on 0
    (fun m => m.get 0 &&& ~~~(m.get 1)) (fun _ => rfl) (by omega) (by omega)
  have hwrap : swiWrapper text c0 = .svc
      ((((c4.on (Arm.mrsSpsr 1)).push 1).pushAll handlerRegs).on (Arm.mov 1 13)) := by
    unfold swiWrapper
    simp only [← hc1, ← hc2, heq1, heq2, Bool.false_eq_true, if_false, armSvc, ← hc3]
    simp [hlo, hc4]
  have hpsr : Pushed 2 c0 (c4.on (Arm.mrsSpsr 1)) _ :=
    h4.on 1 (fun m => m.spsr m.bank) (fun _ => rfl) Nat.one_lt_two (by omega)
  have hspsr1 : (c4.on (Arm.mrsSpsr 1)).arm.get 1 = c0.arm.spsr c0.arm.bank := by
    rw [← h4.spsr, ← h4.bank]
    exact Arm.get_set_self _ (by omega) _
  -- the frame: spsr, r1 and the registers for the handler
  have hpush := hpsr.push 1 (by simp)
  rw [hspsr1] at hpush
  have hall := hpush.pushAll handlerRegs (by decide) (by simp [handlerRegs])
  have hmov := hall.on 1 (fun m => m.get 13) (fun _ => rfl) Nat.one_lt_two (by omega)
  have h0 : c4.arm.get 0 = swiNumber text c.arm := by
    rw [hc4]
    simp [Arm.bic, Arm.get_set_self, hnum, hmask, swiNumber]
  rw [hc0] at hwrap hmov
  refine ⟨_, psr, hwrap, ?_, ?_, hmov⟩
  · rw [← h0]
    show Arm.get (Arm.set _ 1 _) 0 = _
    have hne : (0 : Nat) ≠ 1 := by omega
    have hsp : (0 : Nat) ≠ 13 := by omega
    rw [Arm.get_set_ne _ hne (by omega), Cpu.get_pushAll hsp, Cpu.arm_push,
      Arm.get_set_ne _ hsp (by omega)]
    exact Arm.get_set_ne _ hne (by omega) _
  · show Arm.get (Arm.set _ 1 _) 1 = Arm.get (Arm.set _ 1 _) 13
    rw [Arm.get_set_self _ (by omega), Arm.get_set_ne _ (show 13 ≠ 1 by omega) (by omega)]

/-! ## What is stored and what is resumed -/

/-- The register array a handler finds at `base`. -/
def regsAt (stack : Word → Word) (base : Word) (i : Nat) : Word :=
  stack (base + BitVec.ofNat 32 (4 * i))

/-- `m'` goes on behind the `swi` at which `m` was, with r0-r12, sp and cpsr as there. -/
structure ContinuesAfter (m m' : Arm) : Prop where
  pc : m'.pc = m.pc + 4#32
  cpsr : m'.cpsr = m.cpsr
  regs : ∀ n ≤ 13, m'.get n = m.get n

/-- The context the copy loop stores: `regs[17]` stays as it was. -/
def copied (base : Word) (regs old : Nat → Word) (i : Nat) : Word :=
  if i ≤ 16 then syscallGetReg base regs i else old i

theorem get_eq_contextOf {m : Arm} (h : m.bank = .svc) {n : Nat} (hn : n ≤ 13) :
    m.get n = contextOf m n := by
  unfold Arm.get contextOf
  rw [h]
  by_cases h8 : n < 8
  · rw [if_pos h8, if_pos (by omega)]
  by_cases h13 : n < 13
  · rw [if_neg h8, if_pos h13, if_pos h13, if_neg (by decide)]
  · obtain rfl : n = 13 := by omega
    rfl

/-- A machine in SVC mode is what its context says. -/
theorem continuesAfter_of_context {m m' : Arm} (hsvc : m.bank = .svc)
    (hcpsr : contextOf m' 16 = m.cpsr) (hpc : contextOf m' 15 = m.pc + 4#32)
    (hregs : ∀ n ≤ 13, contextOf m' n = contextOf m n) : ContinuesAfter m m' := by
  have hsvc' : m'.bank = .svc := by
    rw [← hsvc]
    exact congrArg Bank.ofPsr hcpsr
  refine ⟨hpc, hcpsr, fun n hn => ?_⟩
  rw [get_eq_contextOf hsvc' hn, get_eq_contextOf hsvc hn, hregs n hn]

/-- **`syscall_get_reg` finds each register where the wrapper pushed it.** -/
theorem syscallGetReg_callFrame {m : Arm} {psr base : Word} {regs : Nat → Word}
    (hregs : ∀ i < 16, regs i = (callFrame m psr).getD i 0) (hbase : base + 64#32 = m.get 13) :
    (∀ n ≤ 13, syscallGetReg base regs n = m.get n)
      ∧ syscallGetReg base regs 15 = m.get 14
      ∧ syscallGetReg base regs 16 = m.spsr m.bank := by
  refine ⟨fun n hn => ?_, ?_, ?_⟩
  · interval_cases n <;> simp [syscallGetReg, hregs, callFrame, handlerRegs, hbase]
  · simp [syscallGetReg, hregs, callFrame, handlerRegs]
  · simp [syscallGetReg, hregs, callFrame, handlerRegs]

/-- The trap into the wrapper takes r14_svc, spsr_svc and the cpsr. -/
theorem get_takeSwi (m : Arm) (vector : Word) :
    (∀ n ≤ 13, (m.takeSwi vector).get n = contextOf m n)
      ∧ (m.takeSwi vector).get 14 = m.pc + 4#32
      ∧ (m.takeSwi vector).spsr (m.takeSwi vector).bank = m.cpsr := by
  have hb := Arm.bank_takeSwi vector m
  refine ⟨fun n hn => ?_, ?_, ?_⟩
  · rw [get_eq_contextOf hb hn]
    unfold contextOf
    by_cases h13 : n < 13
    · rw [if_pos h13, if_pos h13]
      rfl
    · obtain rfl : n = 13 := by omega
      rfl
  · rw [get_lr hb]
    show Function.update m.r14 .svc (m.pc + 4#32) .svc = _
    exact Function.update_self ..
  · rw [hb]
    show Function.update m.spsr .svc m.cpsr .svc = _
    exact Function.update_self ..

/-- The handler of an own call finds the registers of the `swi`. -/
structure FindsRegs (m : Arm) (base : Word) (regs : Nat → Word) : Prop where
  low : ∀ n ≤ 13, syscallGetReg base regs n = m.get n
  pc : syscallGetReg base regs 15 = m.pc + 4#32
  cpsr : syscallGetReg base regs 16 = m.cpsr

theorem findsRegs_of_pushed {c c' : Cpu} {psr vector : Word} (hsvc : c.arm.bank = .svc)
    (hargs : c'.arm.get 1 = c'.arm.get 13)
    (h : Pushed 2 (c.on (Arm.takeSwi vector)) c' (callFrame (c.arm.takeSwi vector) psr)) :
    FindsRegs c.arm (c'.arm.get 1) (regsAt c'.stack (c'.arm.get 1)) := by
  obtain ⟨hget, hlr, hspsr⟩ := get_takeSwi c.arm vector
  have hregs : ∀ i < 16, regsAt c'.stack (c'.arm.get 1) i
      = (callFrame (c.arm.takeSwi vector) psr).getD i 0 := by
    intro i hi
    rw [hargs]
    exact h.words i hi
  have hbase : c'.arm.get 1 + 64#32 = (c.arm.takeSwi vector).get 13 := by
    rw [hargs, h.sp]
    exact BitVec.sub_add_cancel ..
  obtain ⟨hlow, hpc, hcpsr⟩ := syscallGetReg_callFrame hregs hbase
  refine ⟨fun n hn => ?_, hpc.trans hlr, hcpsr.trans hspsr⟩
  rw [hlow n hn, hget n hn, get_eq_contextOf hsvc hn]

/-- **What the wrapper pushes is what `resume_svc_thread` loads.** -/
theorem resume_copied {m : Arm} {base : Word} {regs : Nat → Word} (hsvc : m.bank = .svc)
    (h : FindsRegs m base regs) (address : Word) (old : Nat → Word) (m' : Arm) :
    ContinuesAfter m (resumeSvcThread address (copied base regs old) m') := by
  have hloaded := contextOf_resume address (copied base regs old) m'
  refine continuesAfter_of_context hsvc ?_ ?_ fun n hn => ?_
  · rw [hloaded 16 (by omega)]
    exact h.cpsr
  · rw [hloaded 15 (by omega)]
    exact h.pc
  · rw [hloaded n (by omega), copied, if_pos (by omega), h.low n hn, get_eq_contextOf hsvc hn]

/-! ## The two calls -/

/-- Waking threads up changes no saved context. -/
theorem regs_wakeThread (w : Word) (s : Scheduler) (t u : Nat) :
    ((wakeThread w s t).thread u).regs = (s.thread u).regs := by
  unfold wakeThread
  split
  · split <;> exact regs_setStatus s t _ _ u
  · rfl

theorem regs_wakeLoop {fuel : Nat} {w : Word} {s s' : Scheduler} (h : wakeLoop fuel w s = some s')
    (u : Nat) : (s'.thread u).regs = (s.thread u).regs := by
  obtain ⟨r, hr, hs⟩ := Option.map_eq_some_iff.mp h
  cases r with
  | inl e => exact e.elim
  | inr s1 =>
      obtain rfl : s1 = s' := hs
      refine doWhile_keeps (P := fun x => (x.thread u).regs = (s.thread u).regs) ?_ fuel s _ s1 hr rfl
      intro x t x' hx hP
      obtain rfl : wakeThread w x t = x' := Sum.inr.inj hx
      rw [regs_wakeThread, hP]

/-- The stored contexts stay as in `s`, and a thread that is resumed was loaded from its own. -/
def LoadsContext (s : Scheduler) : Outcome → Prop
  | .returned _ s' => ∀ u, (s'.thread u).regs = (s.thread u).regs
  | .resumed m t s' => (∀ u, (s'.thread u).regs = (s.thread u).regs)
    ∧ ∃ address m', m = resumeSvcThread address (s.thread t).regs m'
  | _ => True

theorem loadsContext_resume {s s' : Scheduler} (h : ∀ u, (s'.thread u).regs = (s.thread u).regs)
    (m : Arm) (t : Nat) : LoadsContext s (resume m s' t) :=
  ⟨h, _, m, by rw [h t]⟩

theorem loadsContext_currentSaved (fuel task : Nat) (swiReturn : Word) (m : Arm) (s : Scheduler) :
    LoadsContext s (scheduleKernelThreadCurrentSaved fuel task swiReturn m s) := by
  unfold scheduleKernelThreadCurrentSaved
  by_cases hrun : s.runningKernelThread = 0
  · rw [if_pos hrun]
    exact fun _ => rfl
  rw [if_neg hrun]
  dsimp only
  split
  · exact fun _ => rfl
  split
  · trivial
  · exact loadsContext_resume (fun _ => rfl) ..
  -- no thread is RUNNABLE
  split
  · trivial
  · split
    · trivial
    · exact loadsContext_resume (fun _ => rfl) ..
    · trivial
  · split
    · trivial
    split
    · trivial
    split
    · trivial
    · rename_i s1 hwake
      exact loadsContext_resume (fun u => regs_wakeLoop (s := { s with slept := _ }) hwake u) ..

/-- The system calls that make their thread wait. -/
inductive WaitCall where
  | waitMillis
  | waitFor
deriving DecidableEq

namespace WaitCall

/-- The index in `swi_table`. -/
def number : WaitCall → Word
  | .waitMillis => 9#32
  | .waitFor => 10#32

/-- What `swi_handler` calls, with the register array at `base`. -/
def handle (fuel task : Nat) (swiReturn base : Word) (regs : Nat → Word) (m : Arm)
    (s : Scheduler) : WaitCall → Outcome
  | .waitMillis => syscallKernelThreadWaitMillis fuel task swiReturn base regs m s
  | .waitFor => syscallKernelThreadWaitFor fuel task swiReturn base regs m s

/-- With `r0` the running thread waits, and does not just return: it asks for a timeslice
or more and is not alone, or it asks for another thread. -/
def Blocks (r0 : Word) (s : Scheduler) : WaitCall → Prop
  | .waitMillis =>
    s.runningKernelThread ≠ 0 ∧ r0 / s.timesliceLength ≠ 0
      ∧ s.next s.runningKernelThread ≠ s.runningKernelThread
  | .waitFor => s.runningKernelThread ≠ 0 ∧ r0 ≠ 0 ∧ s.runningKernelThread ≠ r0.toNat

/-- **Both calls store the copied context** in the thread they found running, and schedule. -/
theorem handle_blocks {call : WaitCall} {base : Word} {regs : Nat → Word} {s : Scheduler}
    (hblocks : call.Blocks (syscallGetReg base regs 0) s) (fuel task : Nat) (swiReturn : Word)
    (m : Arm) : ∃ s1, call.handle fuel task swiReturn base regs m s
        = scheduleKernelThreadCurrentSaved fuel task swiReturn m s1
      ∧ (s1.thread s.runningKernelThread).regs
        = copied base regs (s.thread s.runningKernelThread).regs := by
  cases call with
  | waitMillis =>
      obtain ⟨hrun, hticks, hnext⟩ := hblocks
      have hr0 : syscallGetReg base regs 0 ≠ 0 := by
        intro hz
        rw [hz] at hticks
        exact hticks BitVec.zero_udiv
      simp only [handle, syscallKernelThreadWaitMillis, hr0, if_false, schedulerKernelThreadWait,
        hrun, or_self, hticks, if_true, hnext]
      refine ⟨_, rfl, ?_⟩
      rw [← regs_setStatus s s.runningKernelThread .waiting
        (syscallGetReg base regs 0 / s.timesliceLength + 1) s.runningKernelThread]
      exact regs_saveRegs_self (s.setStatus s.runningKernelThread .waiting
        (syscallGetReg base regs 0 / s.timesliceLength + 1)) _
  | waitFor =>
      obtain ⟨hrun, hr0, hne⟩ := hblocks
      have hr0' : (syscallGetReg base regs 0).toNat ≠ 0 := by
        intro hz
        exact hr0 (BitVec.eq_of_toNat_eq hz)
      simp only [handle, syscallKernelThreadWaitFor, hr0, if_false, schedulerKernelThreadWaitThread,
        hrun, hr0', hne, or_self, if_true]
      refine ⟨_, rfl, ?_⟩
      have hold : ((s.block s.runningKernelThread (syscallGetReg base regs 0).toNat).thread
          s.runningKernelThread).regs = (s.thread s.runningKernelThread).regs := by
        simp [Scheduler.block, Scheduler.setThread]
      rw [← hold]
      exact regs_saveRegs_self
        (s.block s.runningKernelThread (syscallGetReg base regs 0).toNat) _

end WaitCall

/-- The thread that was running in `s` continues after the `swi` at `m`: when its stored
context is resumed, and in the machine a scheduling call has just resumed. -/
def Continues (m : Arm) (s : Scheduler) : Outcome → Prop
  | .returned _ s' => ∀ address m',
    ContinuesAfter m (resumeSvcThread address (s'.thread s.runningKernelThread).regs m')
  | .resumed m1 t s' =>
    (∀ address m',
      ContinuesAfter m (resumeSvcThread address (s'.thread s.runningKernelThread).regs m'))
    ∧ (t = s.runningKernelThread → ContinuesAfter m m1)
  | _ => True

/-- A program that waits, with the time in r0. -/
def waitingProgram : Text where
  word address := if address = interrupted.pc then 0xeff80009#32 else 0xe1a00000#32
  half _ := 0

/-- `interrupted` at its `swi`. -/
def waitingCpu : Cpu where
  arm := interrupted
  stack _ := 0
  words := idle

theorem ownCall_waiting : OwnCall waitingProgram waitingCpu.arm where
  svc := by decide
  arm := by decide
  number := by decide

end OSExt.Exceptions
