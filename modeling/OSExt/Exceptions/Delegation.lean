import OSExt.Exceptions.SwiWrapper
import OSExt.Lib.Nesting

/-!
# Delegated system calls that nest

A call to the OS may itself execute a `swi` that is delegated. `real_delegate` has two
places for a return state and picks the second one whenever the first is in use;
`delegate_end` takes from the second one whenever that is in use. The two places are a
stack with two slots, so the calls return to where they came from as long as no three
of them are inside each other. The third one overwrites the second.
-/

namespace OSExt.Exceptions

open Lib

/-! ## The two places -/

namespace Words

/-- A return state goes into the first place, or the second if the first is in use. -/
def save (lr spsr : Word) (w : Words) : Words :=
  if w.savedLr1 = 0 then { w with savedLr1 := lr, savedSpsr1 := spsr }
  else { w with savedLr2 := lr, savedSpsr2 := spsr }

/-- The return state in the second place, or in the first if the second is not in use. -/
def lastSaved (w : Words) : Word × Word :=
  if w.savedLr2 = 0 then (w.savedLr1, w.savedSpsr1) else (w.savedLr2, w.savedSpsr2)

/-- Its place is free again. -/
def cleared (w : Words) : Words :=
  if w.savedLr2 = 0 then { w with savedLr1 := 0, savedSpsr1 := 0 }
  else { w with savedLr2 := 0, savedSpsr2 := 0 }

end Words

/-- A machine with the same mode, lr and spsr. -/
structure SameReturn (c c' : Cpu) : Prop where
  bank : c'.arm.bank = c.arm.bank
  lr : c'.arm.get 14 = c.arm.get 14
  spsr : c'.arm.spsr = c.arm.spsr

theorem SameReturn.trans {c c' c'' : Cpu} (h : SameReturn c c') (h' : SameReturn c' c'') :
    SameReturn c c'' :=
  ⟨h'.bank.trans h.bank, h'.lr.trans h.lr, h'.spsr.trans h.spsr⟩

theorem sameReturn_countCall (c : Cpu) : SameReturn c (countCall c) := by
  refine ⟨?_, ?_, ?_⟩ <;>
    simp [countCall, Arm.addImm, Arm.mrsCpsr, Arm.get_set_ne]

theorem sameReturn_testSpsr (mask v : Word) (c : Cpu) : SameReturn c (testSpsr mask v c) := by
  refine ⟨?_, ?_, ?_⟩ <;>
    simp [testSpsr, Arm.mrsSpsr, Arm.andImm, Arm.get_set_ne]

theorem eq_testSpsr (mask v : Word) (c : Cpu) :
    (testSpsr mask v c).arm.eq = decide (c.arm.spsr c.arm.bank &&& mask = v) := by
  simp [testSpsr, Arm.eq_cmp, Arm.mrsSpsr, Arm.andImm, Arm.get_set_self]

theorem sameReturn_loadNumber (text : Text) (c : Cpu) : SameReturn c (loadNumber text c) := by
  refine ⟨?_, ?_, ?_⟩ <;>
    simp [loadNumber, Arm.bic, Arm.get_set_ne]

/-- A `swi` from a privileged mode in ARM state whose number is below OSExt's. -/
structure Delegated (text : Text) (m : Arm) : Prop where
  svc : m.bank = .svc
  arm : m.spsr .svc &&& 0b100000#32 ≠ 0b100000#32
  privileged : m.spsr .svc &&& 0b11111#32 ≠ 0b10000#32
  number : text.word (m.r14 .svc - 4#32) &&& ~~~0xff000000#32 < syscallMask

theorem get_lr {m : Arm} (h : m.bank = .svc) : m.get 14 = m.r14 .svc := by
  simp [Arm.get, h]

/-- **Such a call is delegated**, with its return state where it was. -/
theorem swiWrapper_delegates {text : Text} {c : Cpu} (h : Delegated text c.arm) :
    ∃ c', swiWrapper text c = .delegate c' ∧ SameReturn c c' ∧ c'.words = c.words.entered := by
  obtain ⟨c1, hc1⟩ : ∃ c1, c1 = testSpsr 0b100000#32 0b100000#32 (countCall c) := ⟨_, rfl⟩
  have h1 : SameReturn c c1 := hc1 ▸ (sameReturn_countCall c).trans (sameReturn_testSpsr ..)
  have heq1 : c1.arm.eq = false := by
    have hsame := sameReturn_countCall c
    rw [hc1, eq_testSpsr, hsame.spsr, hsame.bank, h.svc]
    exact decide_eq_false h.arm
  obtain ⟨c2, hc2⟩ : ∃ c2, c2 = testSpsr 0b11111#32 0b10000#32 c1 := ⟨_, rfl⟩
  have h2 : SameReturn c c2 := h1.trans (hc2 ▸ sameReturn_testSpsr ..)
  have heq2 : c2.arm.eq = false := by
    rw [hc2, eq_testSpsr, h1.spsr, h1.bank, h.svc]
    exact decide_eq_false h.privileged
  obtain ⟨c3, hc3⟩ : ∃ c3, c3 = loadNumber text c2 := ⟨_, rfl⟩
  have h3 : SameReturn c c3 := h2.trans (hc3 ▸ sameReturn_loadNumber text c2)
  have hlo : (c3.arm.cmp 0 (c3.arm.get 1)).lo = true := by
    rw [Arm.lo_cmp]
    refine decide_eq_true ?_
    have hnum := h.number
    rw [← get_lr h.svc, ← h2.lr] at hnum
    simpa [hc3, loadNumber, Arm.bic, Arm.get_set_self, Arm.get_set_ne] using hnum
  have hwrap : swiWrapper text c = .delegate ((c3.on fun m => m.cmp 0 (m.get 1)).pop 1) := by
    unfold swiWrapper
    simp only [← hc1, ← hc2, heq1, heq2, Bool.false_eq_true, if_false, armSvc, ← hc3]
    simp [hlo]
  refine ⟨_, hwrap, h3.trans ⟨?_, ?_, ?_⟩, ?_⟩
  · simp
  · simp [Arm.get_set_ne]
  · simp
  · have hwords := words_swiWrapper text c
    rw [hwrap] at hwords
    exact hwords

theorem sameReturn_testFirst (c : Cpu) : SameReturn c (testFirst c) := by
  refine ⟨?_, ?_, ?_⟩ <;> simp [testFirst, Arm.get_set_ne]

theorem eq_testFirst (c : Cpu) : (testFirst c).arm.eq = decide (c.words.savedLr1 = 0) := by
  simp [testFirst, Arm.eq_cmp, Arm.get_set_self]

/-- `real_delegate` keeps the return state of its call. -/
theorem saveReturn_saves (c : Cpu) : SameReturn c (saveReturn c)
    ∧ (saveReturn c).arm.get 0 = c.arm.spsr c.arm.bank
    ∧ (saveReturn c).words = c.words.save (c.arm.get 14) (c.arm.spsr c.arm.bank) := by
  obtain ⟨c1, hc1⟩ : ∃ c1, c1 = testFirst c := ⟨_, rfl⟩
  have h1 : SameReturn c c1 := hc1 ▸ sameReturn_testFirst c
  have hw1 : c1.words = c.words := by rw [hc1]; rfl
  have heq : c1.arm.eq = decide (c.words.savedLr1 = 0) := hc1 ▸ eq_testFirst c
  unfold saveReturn Words.save
  rw [← hc1, ← h1.lr, ← h1.spsr, ← h1.bank]
  by_cases hfree : c.words.savedLr1 = 0
  · rw [decide_eq_true hfree] at heq
    rw [if_pos hfree]
    refine ⟨h1.trans ⟨?_, ?_, ?_⟩, ?_, ?_⟩
    · simp [heq, Arm.mrsSpsr]
    · simp [heq, Arm.mrsSpsr, Arm.get_set_ne]
    · simp [heq, Arm.mrsSpsr]
    · simp [heq, Arm.mrsSpsr, Arm.get_set_self]
    · simp [heq, Arm.mrsSpsr, Arm.get_set_self, hw1]
  · rw [decide_eq_false hfree] at heq
    rw [if_neg hfree]
    refine ⟨h1.trans ⟨?_, ?_, ?_⟩, ?_, ?_⟩
    · simp [heq, Arm.mrsSpsr]
    · simp [heq, Arm.mrsSpsr, Arm.get_set_ne]
    · simp [heq, Arm.mrsSpsr]
    · simp [heq, Arm.mrsSpsr, Arm.get_set_self]
    · simp [heq, Arm.mrsSpsr, Arm.get_set_self, hw1]

/-- The words after `real_delegate`, for a call in ARM state. -/
theorem realDelegate_words {text : Text} {c : Cpu} (behindArm atThumb : Word)
    (harm : c.arm.spsr c.arm.bank &&& 0b100000#32 ≠ 0b100000#32) :
    (realDelegate text behindArm atThumb c).words
      = { c.words.save (c.arm.get 14) (c.arm.spsr c.arm.bank) with
          swiInstArm := text.word (c.arm.get 14 - 4#32) } := by
  obtain ⟨c1, hc1⟩ : ∃ c1, c1 = saveReturn c := ⟨_, rfl⟩
  obtain ⟨hsame, hr0, hwords⟩ := saveReturn_saves c
  rw [← hc1] at hsame hr0 hwords
  have heq : ((c1.arm.set 0 (c1.arm.get 0 &&& 0b100000#32)).cmp 0 0b100000#32).eq = false := by
    rw [Arm.eq_cmp, Arm.get_set_self _ (by omega), hr0]
    exact decide_eq_false harm
  unfold realDelegate
  rw [← hc1, ← hwords, ← hsame.lr]
  simp [heq, Arm.mrsCpsr, Arm.andImm, Arm.get_set_self, Arm.get_set_ne]

/-- What the test of the second place leaves, whatever the mode. -/
theorem testSecond_spec (c : Cpu) : (testSecond c).words = c.words
    ∧ (testSecond c).arm.get 0 = 0
    ∧ (testSecond c).arm.get 14 = c.words.savedLr2
    ∧ (testSecond c).arm.eq = decide (c.words.savedLr2 = 0)
    ∧ (testSecond c).arm.bank = c.arm.bank
    ∧ (testSecond c).arm.cpsr &&& 0x80#32 = c.arm.cpsr &&& 0x80#32 := by
  refine ⟨rfl, ?_, ?_, ?_, ?_, ?_⟩
  · simp [testSecond, Arm.get_set_self]
  · simp [testSecond, Arm.get_set_self, Arm.get_set_ne]
  · simp [testSecond, Arm.eq_cmp, Arm.get_set_self]
  · simp [testSecond]
  · simp only [testSecond, Cpu.arm_ldr, Cpu.arm_on, Arm.cpsr_set]
    rw [Arm.cpsr_cmp_and _ _ _ (by decide) (by decide), Arm.cpsr_set]

/-- `delegate_end` clears the place it finds the return state in. -/
theorem words_restoreReturn (c : Cpu) : (restoreReturn c).words = c.words.cleared := by
  obtain ⟨c1, hc1⟩ : ∃ c1, c1 = testSecond c := ⟨_, rfl⟩
  obtain ⟨hw1, hzero, -, heq, -, -⟩ := testSecond_spec c
  unfold restoreReturn Words.cleared
  rw [← hc1] at hw1 hzero heq ⊢
  by_cases hfree : c.words.savedLr2 = 0
  · rw [decide_eq_true hfree] at heq
    rw [if_pos hfree]
    simp [heq, hw1, hzero, Arm.get_set_self, Arm.get_set_ne]
  · rw [decide_eq_false hfree] at heq
    rw [if_neg hfree]
    simp [heq, hw1, hzero, Arm.get_set_self]

/-- `delegate_end` finds the return state kept last. -/
theorem restoreReturn_restores {c : Cpu} (hb : c.arm.bank = .svc) :
    (restoreReturn c).arm.bank = .svc
      ∧ (restoreReturn c).arm.cpsr &&& 0x80#32 = c.arm.cpsr &&& 0x80#32
      ∧ (restoreReturn c).arm.get 14 = c.words.lastSaved.1
      ∧ (restoreReturn c).arm.spsr .svc = c.words.lastSaved.2 := by
  obtain ⟨c1, hc1⟩ : ∃ c1, c1 = testSecond c := ⟨_, rfl⟩
  obtain ⟨hw1, -, hlr1, heq, hb1, hcpsr1⟩ := testSecond_spec c
  unfold restoreReturn Words.lastSaved
  rw [← hc1] at hw1 hlr1 heq hb1 hcpsr1 ⊢
  rw [hb] at hb1
  by_cases hfree : c.words.savedLr2 = 0
  · rw [decide_eq_true hfree] at heq
    rw [if_pos hfree]
    refine ⟨?_, ?_, ?_, ?_⟩
    · simp [heq, hb1]
    · simp [heq, hcpsr1]
    · simp [heq, hw1, Arm.get_set_self, Arm.get_set_ne]
    · simp [heq, hw1, hb1, Arm.get_set_self]
  · rw [decide_eq_false hfree] at heq
    rw [if_neg hfree]
    refine ⟨?_, ?_, ?_, ?_⟩
    · simp [heq, hb1]
    · simp [heq, hcpsr1]
    · simp [heq, hlr1, Arm.get_set_ne]
    · simp [heq, hw1, hb1, Arm.get_set_self]

/-- The spsr a delegated call returns under: its own, with the I bit of the cpsr. -/
def withIrqBit (spsr cpsr : Word) : Word := (spsr &&& ~~~0x80#32) ||| (cpsr &&& 0x80#32)

/-- The machine a delegated call returns in: the jump, and what is left in lr and spsr. -/
structure ReturnsTo (lr psr : Word) (m : Arm) : Prop where
  pc : m.pc = lr
  cpsr : m.cpsr = psr
  lr : m.r14 .svc = lr
  spsr : m.spsr .svc = psr

theorem words_carryIrqBit (c : Cpu) : (carryIrqBit c).words = c.words := rfl

theorem carryIrqBit_carries {c : Cpu} (hb : c.arm.bank = .svc) :
    (carryIrqBit c).arm.bank = .svc
      ∧ (carryIrqBit c).arm.get 14 = c.arm.get 14
      ∧ (carryIrqBit c).arm.spsr .svc = withIrqBit (c.arm.spsr .svc) c.arm.cpsr := by
  refine ⟨?_, ?_, ?_⟩
  · simp [carryIrqBit, Arm.mrsCpsr, Arm.mrsSpsr, Arm.andImm, Arm.bic, Arm.orr, hb]
  · simp [carryIrqBit, Arm.mrsCpsr, Arm.mrsSpsr, Arm.andImm, Arm.bic, Arm.orr, Arm.get_set_ne]
  · simp [carryIrqBit, Arm.mrsCpsr, Arm.mrsSpsr, Arm.andImm, Arm.bic, Arm.orr, Arm.get_set_ne,
      Arm.get_set_self, hb, withIrqBit]

/-- The last steps of a return jump to lr under the spsr. -/
theorem countedReturn_returns {c : Cpu} (hb : c.arm.bank = .svc) :
    ReturnsTo (c.arm.get 14) (c.arm.spsr .svc) (countedReturn c).arm := by
  obtain ⟨m, hm⟩ : ∃ m, (countedReturn c).arm = Arm.movsPc 14 m ∧ m.bank = .svc
      ∧ m.get 14 = c.arm.get 14 ∧ m.spsr = c.arm.spsr := by
    refine ⟨_, rfl, ?_, ?_, ?_⟩
    · simp [Arm.subImm, hb]
    · simp [Arm.subImm, Arm.get_set_ne]
    · simp [Arm.subImm]
  obtain ⟨hret, hbm, hlr, hspsr⟩ := hm
  rw [hret, ← hlr, ← hspsr]
  refine ⟨rfl, ?_, (get_lr hbm).symm, rfl⟩
  rw [Arm.movsPc, hbm]

/-- **`delegate_end` takes its call off the count.** -/
theorem words_delegateEnd (c : Cpu) : (delegateEnd c).words = c.words.cleared.left := by
  unfold delegateEnd
  dsimp only
  rw [words_countedReturn, words_carryIrqBit, words_restoreReturn, Cpu.words_push]

/-- **`delegate_end` returns to the state kept last.** -/
theorem delegateEnd_returns {c : Cpu} (hb : c.arm.bank = .svc) :
    ReturnsTo c.words.lastSaved.1 (withIrqBit c.words.lastSaved.2 c.arm.cpsr)
      (delegateEnd c).arm := by
  obtain ⟨c1, hc1⟩ : ∃ c1, c1 = c.push 0 := ⟨_, rfl⟩
  have hb1 : c1.arm.bank = .svc := by simp [hc1, hb]
  have hw1 : c1.words = c.words := by rw [hc1, Cpu.words_push]
  have hcpsr1 : c1.arm.cpsr = c.arm.cpsr := by simp [hc1]
  obtain ⟨hb2, hcpsr2, hlr2, hspsr2⟩ := restoreReturn_restores hb1
  obtain ⟨hb3, hlr3, hspsr3⟩ := carryIrqBit_carries hb2
  have hend : delegateEnd c = countedReturn (carryIrqBit (restoreReturn c1)) := by
    rw [hc1]
    rfl
  have hret := countedReturn_returns hb3
  rw [hlr3, hlr2, hspsr3, hspsr2, withIrqBit, hcpsr2, hw1, hcpsr1] at hret
  rw [hend]
  exact hret

/-! ## Nested calls -/

/-- A delegated call: the machine that traps into `swi_wrapper`, and the one in which
the OS comes back to `delegate_end`. The words among the code are not part of either. -/
structure Syscall where
  trap : Arm
  trapStack : Word → Word
  back : Arm
  backStack : Word → Word

namespace Syscall

/-- lr and spsr of the call. -/
def returnState (x : Syscall) : Word × Word := (x.trap.r14 .svc, x.trap.spsr .svc)

/-- A call that `swi_wrapper` delegates and that the OS returns from in SVC mode. No
`swi` has its return address at 0. -/
structure Valid (text : Text) (x : Syscall) : Prop where
  delegated : Delegated text x.trap
  return_ne : x.trap.r14 .svc ≠ 0
  back : x.back.bank = .svc

/-- The way to the OS: the words behind `swi_wrapper` and, if it delegates, `real_delegate`. -/
def enter (text : Text) (behindArm atThumb : Word) (x : Syscall) (w : Words) : Words :=
  match swiWrapper text { arm := x.trap, stack := x.trapStack, words := w } with
  | .delegate c => (realDelegate text behindArm atThumb c).words
  | other => other.cpu.words

/-- The way back: the machine behind `delegate_end`. -/
def leave (x : Syscall) (w : Words) : Arm × Words :=
  let c := delegateEnd { arm := x.back, stack := x.backStack, words := w }
  (c.arm, c.words)

/-- The call returns to its own lr and, apart from the I bit, under its own spsr. -/
def Restored (x : Syscall) (m : Arm) : Prop :=
  ReturnsTo (x.trap.r14 .svc) (withIrqBit (x.trap.spsr .svc) x.back.cpsr) m

/-- What the call finds on its way back: the return state of `y`, or none. -/
def Found (x : Syscall) (m : Arm) : Option Syscall → Prop
  | some y => ReturnsTo y.returnState.1 (withIrqBit y.returnState.2 x.back.cpsr) m
  | none => m.pc = 0

end Syscall

/-- The words hold these calls' return states, the one kept last first. -/
def Holds (w : Words) : List Syscall → Prop
  | [] => w.savedLr1 = 0 ∧ w.savedLr2 = 0
  | [x] => (w.savedLr1, w.savedSpsr1) = x.returnState ∧ w.savedLr1 ≠ 0 ∧ w.savedLr2 = 0
  | [y, x] => (w.savedLr1, w.savedSpsr1) = x.returnState ∧ w.savedLr1 ≠ 0
    ∧ (w.savedLr2, w.savedSpsr2) = y.returnState ∧ w.savedLr2 ≠ 0
  | _ => False

/-- A call that is entered goes on the two slots. -/
theorem holds_enter {text : Text} {x : Syscall} (h : x.Valid text) (behindArm atThumb : Word)
    {w : Words} : ∀ {xs : List Syscall}, Holds w xs →
      Holds (x.enter text behindArm atThumb w) (Nested.push 2 x xs) := by
  obtain ⟨c, hc⟩ : ∃ c : Cpu, c = { arm := x.trap, stack := x.trapStack, words := w } := ⟨_, rfl⟩
  have hdel : Delegated text c.arm := by
    rw [hc]
    exact h.delegated
  obtain ⟨c', hwrap, hsame, hwords⟩ := swiWrapper_delegates hdel
  have hb : c'.arm.bank = .svc := hsame.bank.trans hdel.svc
  have hlr : c'.arm.get 14 = x.trap.r14 .svc := by
    rw [hsame.lr, get_lr hdel.svc, hc]
  have hspsr : c'.arm.spsr c'.arm.bank = x.trap.spsr .svc := by
    rw [hb, hsame.spsr, hc]
  have harm : c'.arm.spsr c'.arm.bank &&& 0b100000#32 ≠ 0b100000#32 := by
    rw [hspsr]
    exact h.delegated.arm
  have hw : c.words = w := by rw [hc]
  have henter : x.enter text behindArm atThumb w
      = { w.entered.save (x.trap.r14 .svc) (x.trap.spsr .svc) with
          swiInstArm := text.word (x.trap.r14 .svc - 4#32) } := by
    rw [Syscall.enter, ← hc, hwrap]
    show (realDelegate text behindArm atThumb c').words = _
    rw [realDelegate_words behindArm atThumb harm, hwords, hlr, hspsr, hw]
  intro xs hxs
  rw [henter]
  match xs with
  | [] =>
      have h1 : w.entered.savedLr1 = 0 := hxs.1
      rw [Words.save, if_pos h1]
      exact ⟨rfl, h.return_ne, hxs.2⟩
  | [y] =>
      have h1 : w.entered.savedLr1 ≠ 0 := hxs.2.1
      rw [Words.save, if_neg h1]
      exact ⟨hxs.1, hxs.2.1, rfl, h.return_ne⟩
  | [z, y] =>
      -- the second place is taken over
      have h1 : w.entered.savedLr1 ≠ 0 := hxs.2.1
      rw [Words.save, if_neg h1]
      exact ⟨hxs.1, hxs.2.1, rfl, h.return_ne⟩

/-- A call that is left finds what was kept last. -/
theorem holds_leave {text : Text} {x : Syscall} (h : x.Valid text) {w : Words} :
    ∀ {xs : List Syscall}, Holds w xs →
      x.Found (x.leave w).1 xs.head? ∧ Holds (x.leave w).2 xs.tail := by
  have hleave : (x.leave w).2 = w.cleared.left :=
    words_delegateEnd { arm := x.back, stack := x.backStack, words := w }
  have hfound : ReturnsTo w.lastSaved.1 (withIrqBit w.lastSaved.2 x.back.cpsr) (x.leave w).1 :=
    delegateEnd_returns (c := { arm := x.back, stack := x.backStack, words := w }) h.back
  intro xs hxs
  rw [hleave]
  match xs with
  | [] =>
      rw [Words.lastSaved, if_pos hxs.2] at hfound
      rw [Words.cleared, if_pos hxs.2]
      exact ⟨hfound.pc.trans hxs.1, rfl, hxs.2⟩
  | [y] =>
      rw [Words.lastSaved, if_pos hxs.2.2, hxs.1] at hfound
      rw [Words.cleared, if_pos hxs.2.2]
      exact ⟨hfound, rfl, hxs.2.2⟩
  | [z, y] =>
      rw [Words.lastSaved, if_neg hxs.2.2.2, hxs.2.2.1] at hfound
      rw [Words.cleared, if_neg hxs.2.2.2]
      exact ⟨hfound, hxs.1, hxs.2.1, rfl⟩

/--
**Delegated calls return to where they came from just when no three of them are inside
each other**, in every properly nested sequence of them.
-/
theorem delegated_restored_iff {text : Text} {calls : Nested Syscall} {w : Words}
    (hvalid : calls.All (Syscall.Valid text)) (hfirst : w.savedLr1 = 0) (hsecond : w.savedLr2 = 0)
    (behindArm atThumb : Word) :
    (∀ r ∈ (calls.run (Syscall.enter text behindArm atThumb) Syscall.leave w).2, r.1.Restored r.2)
      ↔ calls.depth ≤ 2 := by
  -- the words run through the calls like a stack with two slots
  have hsim : Holds (calls.run (Syscall.enter text behindArm atThumb) Syscall.leave w).1
        (calls.run (Nested.push 2) Nested.pop []).1
      ∧ List.Forall₂ (Nested.Matching (Syscall.Valid text) Syscall.Found)
        (calls.run (Syscall.enter text behindArm atThumb) Syscall.leave w).2
        (calls.run (Nested.push 2) Nested.pop []).2 :=
    Nested.run_simulates (fun _ _ _ hx h => holds_enter hx behindArm atThumb h)
      (fun _ _ _ hx h => holds_leave hx h) calls w [] hvalid ⟨hfirst, hsecond⟩
  obtain ⟨hright, hleft⟩ := Nested.exists_of_forall₂ hsim.2
  constructor
  · intro hall
    refine Nested.depth_le_of_run (by omega) calls fun y hy hnone => ?_
    obtain ⟨x, hx, -, hvalidx, hfound⟩ := hleft y hy
    rw [hnone] at hfound
    exact hvalidx.return_ne ((hall x hx).pc.symm.trans hfound)
  · intro hdepth x hx
    obtain ⟨y, hy, hxy, -, hfound⟩ := hright x hx
    have hown : y.2 = some y.1 := Nested.run_own_of_depth calls [] (by simpa using hdepth) y hy
    rw [hown, ← hxy] at hfound
    exact hfound

/-! ## Three calls -/

/-- `swi 1` wherever one looks. -/
def allSwi : Text where
  word _ := 0xef000001#32
  half _ := 0xdf01#16

/-- A call of the OS from SVC mode that returns to `lr`. -/
def osCall (lr : Word) : Syscall where
  trap :=
    { shared := fun _ => 0, fiqHigh := fun _ => 0, r13 := fun _ => 0x8000#32, r14 := fun _ => lr
      spsr := fun _ => 0x13#32, cpsr := 0x93#32, pc := 0x8#32 }
  trapStack _ := 0
  back :=
    { shared := fun _ => 0, fiqHigh := fun _ => 0, r13 := fun _ => 0x8000#32, r14 := fun _ => 0
      spsr := fun _ => 0x13#32, cpsr := 0x13#32, pc := 0x8000#32 }
  backStack _ := 0

theorem osCall_valid {lr : Word} (h : lr ≠ 0) : (osCall lr).Valid allSwi where
  delegated :=
    { svc := show Bank.ofPsr 0x93#32 = .svc by decide
      arm := by simp [osCall]
      privileged := by simp [osCall]
      number := by simp [allSwi, syscallMask] }
  return_ne := h
  back := show Bank.ofPsr 0x13#32 = .svc by decide

/-- No delegated call in progress. -/
def idle : Words where
  syscallInProgress := 0
  savedLr1 := 0
  savedLr2 := 0
  savedSpsr1 := 0
  savedSpsr2 := 0
  swiInstArm := 0
  swiInstThumb := 0

/-- Two calls inside each other, and then one alone. -/
def twoNested : Nested Syscall :=
  .call (osCall 0x1004#32) (.call (osCall 0x2004#32) .nil .nil) (.call (osCall 0x1008#32) .nil .nil)

theorem delegated_restored_iff_twoNested :
    (∀ r ∈ (twoNested.run (Syscall.enter allSwi 0x9000#32 0x9100#32) Syscall.leave idle).2,
      r.1.Restored r.2) ↔ twoNested.depth ≤ 2 := by
  have hvalid : twoNested.All (Syscall.Valid allSwi) :=
    ⟨osCall_valid (by decide), ⟨osCall_valid (by decide), trivial, trivial⟩,
      ⟨osCall_valid (by decide), trivial, trivial⟩⟩
  exact delegated_restored_iff hvalid rfl rfl 0x9000#32 0x9100#32

def threeNested : Nested Syscall :=
  .call (osCall 0x1004#32)
    (.call (osCall 0x2004#32) (.call (osCall 0x3004#32) .nil .nil) .nil) .nil

/-- **Of three calls inside each other only the innermost returns to its caller.** The
next one returns to where the outermost was called from, and that one to 0. -/
theorem threeNested_lost :
    threeNested.All (Syscall.Valid allSwi) ∧ idle.savedLr1 = 0 ∧ idle.savedLr2 = 0
      ∧ ((threeNested.run (Syscall.enter allSwi 0x9000#32 0x9100#32) Syscall.leave idle).2.map
          fun r => (r.1.trap.r14 .svc, r.2.pc))
        = [(0x3004#32, 0x3004#32), (0x2004#32, 0x1004#32), (0x1004#32, 0#32)]
      ∧ ¬ ∀ r ∈ (threeNested.run (Syscall.enter allSwi 0x9000#32 0x9100#32) Syscall.leave idle).2,
        r.1.Restored r.2 := by
  have hpcs : ((threeNested.run (Syscall.enter allSwi 0x9000#32 0x9100#32) Syscall.leave
      idle).2.map fun r => (r.1.trap.r14 .svc, r.2.pc))
        = [(0x3004#32, 0x3004#32), (0x2004#32, 0x1004#32), (0x1004#32, 0#32)] := by
    decide +kernel
  refine ⟨⟨osCall_valid (by decide), ⟨osCall_valid (by decide), ⟨osCall_valid (by decide),
    trivial, trivial⟩, trivial⟩, trivial⟩, rfl, rfl, hpcs, fun hall => ?_⟩
  have hmem : (0x1004#32, 0#32) ∈ (threeNested.run (Syscall.enter allSwi 0x9000#32 0x9100#32)
      Syscall.leave idle).2.map fun r => (r.1.trap.r14 .svc, r.2.pc) := by
    rw [hpcs]
    simp
  obtain ⟨r, hr, he⟩ := List.mem_map.mp hmem
  obtain ⟨hlr, hpc⟩ := Prod.mk.inj he
  have hback := (hall r hr).pc
  rw [hlr, hpc] at hback
  exact absurd hback (by decide)

end OSExt.Exceptions
