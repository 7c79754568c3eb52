import OSExt.Lib.Table
import OSExt.Libk.Modes

/-!
# The hook tables

`os-hooks.c`: modules hang functions on the draw hook and on the file hook of the OS.
Each hook has a table of 100 entries and a count, and a draw pass calls the functions of
its table in turn. `HookLists` says what the two tables are for: each is a list, at most
99 long.
-/

namespace OSExt.Modules

open Lib Libk

/-! ## The tables -/

/-- `drawhook_functions` with `drawfunctions_num`, and the same for the file hook. -/
structure HookTable where
  functions : Nat → Nat
  num : Nat

structure Hooks where
  cpsr : Word
  drawhook : HookTable
  filehook : HookTable

/-- The static variables as the kernel starts. -/
def Hooks.start (cpsr : Word) : Hooks where
  cpsr := cpsr
  drawhook := ⟨fun _ => 0, 0⟩
  filehook := ⟨fun _ => 0, 0⟩

/-- What the two register functions do to their table. -/
def registerFunction (function : Nat) (cpsr : Word) (t : HookTable) : Bool × Word × HookTable :=
  if function = 0 then (false, cpsr, t)
  else if t.num < 99 then
    let state := irqSaveState cpsr
    let cpsr := irqDisable cpsr
    let functions := Function.update t.functions t.num function
    let num := (t.num + 1) % 2 ^ 32
    (true, irqRestoreState state cpsr, ⟨functions, num⟩)
  else (false, cpsr, t)

/-- What the two unregister functions do to their table. -/
def unregisterFunction (function : Nat) (cpsr : Word) (t : HookTable) : Bool × Word × HookTable :=
  if function = 0 then (false, cpsr, t)
  else
    let state := irqSaveState cpsr
    let cpsr := irqDisable cpsr
    match findEntry t.functions t.num function with
    | some i =>
      -- the count is unsigned, and its predecessor is the last place
      let last := (t.num + 2 ^ 32 - 1) % 2 ^ 32
      let functions := Function.update (shiftDown t.functions i last) last 0
      (true, irqRestoreState state cpsr, ⟨functions, last⟩)
    | none => (false, irqRestoreState state cpsr, t)

def registerDrawFunction (function : Nat) (s : Hooks) : Bool × Hooks :=
  let (done, cpsr, drawhook) := registerFunction function s.cpsr s.drawhook
  (done, { s with cpsr, drawhook })

def unregisterDrawFunction (function : Nat) (s : Hooks) : Bool × Hooks :=
  let (done, cpsr, drawhook) := unregisterFunction function s.cpsr s.drawhook
  (done, { s with cpsr, drawhook })

def registerFileFunction (function : Nat) (s : Hooks) : Bool × Hooks :=
  let (done, cpsr, filehook) := registerFunction function s.cpsr s.filehook
  (done, { s with cpsr, filehook })

def unregisterFileFunction (function : Nat) (s : Hooks) : Bool × Hooks :=
  let (done, cpsr, filehook) := unregisterFunction function s.cpsr s.filehook
  (done, { s with cpsr, filehook })

/-! ## A draw pass -/

/-- What a draw pass finds: the flag `drawhook_enabled`, the saved register that tells
which framebuffer the OS draws to, and the addresses of the framebuffers. -/
structure DrawPass where
  drawhookEnabled : Bool
  savedR2 : Nat
  osFramebuffer1 : Nat
  osFramebuffer2 : Nat
  oldFramebufferAddress : Nat

/-- `old_framebuffer` when the functions are called -/
def DrawPass.oldFramebuffer (d : DrawPass) : Nat :=
  let old := if d.savedR2 = d.osFramebuffer1 then d.osFramebuffer1 else d.osFramebuffer2
  if old = 0 then d.oldFramebufferAddress else old

/-- The loop over the table, with what a function does as `call`. The count and the entry
are read again each time; the calls made are listed with their argument. -/
def drawLoop (call : Nat → Nat → Hooks → Hooks) (framebuffer : Nat) :
    Nat → Nat → Hooks → Option (List (Nat × Nat) × Hooks)
  | 0, _, _ => none
  | fuel + 1, i, s =>
    if i < s.drawhook.num then
      let function := s.drawhook.functions i
      (drawLoop call framebuffer fuel (i + 1) (call function framebuffer s)).map fun r =>
        ((function, framebuffer) :: r.1, r.2)
    else some ([], s)

def drawHookfunc (call : Nat → Nat → Hooks → Hooks) (d : DrawPass) (fuel : Nat) (s : Hooks) :
    Option (List (Nat × Nat) × Hooks) :=
  if d.drawhookEnabled then drawLoop call d.oldFramebuffer fuel 0 s else some ([], s)

/-! ## Runs -/

inductive HookOp where
  | registerDraw (function : Nat)
  | unregisterDraw (function : Nat)
  | registerFile (function : Nat)
  | unregisterFile (function : Nat)
deriving DecidableEq, Repr

/-- On the table of the draw hook. -/
def HookOp.OnDraw : HookOp → Prop
  | .registerDraw _ | .unregisterDraw _ => True
  | .registerFile _ | .unregisterFile _ => False

def hookStep : HookOp → Hooks → Bool × Hooks
  | .registerDraw function => registerDrawFunction function
  | .unregisterDraw function => unregisterDrawFunction function
  | .registerFile function => registerFileFunction function
  | .unregisterFile function => unregisterFileFunction function

/-- The operations one after the other, with what each returned. -/
def hookRun : List HookOp → Hooks → List Bool × Hooks
  | [], s => ([], s)
  | op :: ops, s =>
    let r := hookStep op s
    let rest := hookRun ops r.2
    (r.1 :: rest.1, rest.2)

/-! ## What the tables are for -/

/-- The functions on each hook, in the order in which they are called. -/
structure HookLists where
  draw : List Nat
  file : List Nat

/-- A function goes to the end if there is room. -/
def registerList (function : Nat) (l : List Nat) : Bool × List Nat :=
  if function ≠ 0 ∧ l.length < 99 then (true, l ++ [function]) else (false, l)

/-- The first registration of a function goes. -/
def unregisterList (function : Nat) (l : List Nat) : Bool × List Nat :=
  if function ∈ l then (true, l.erase function) else (false, l)

namespace HookLists

def step : HookOp → HookLists → Bool × HookLists
  | .registerDraw function, l =>
    let r := registerList function l.draw
    (r.1, { l with draw := r.2 })
  | .unregisterDraw function, l =>
    let r := unregisterList function l.draw
    (r.1, { l with draw := r.2 })
  | .registerFile function, l =>
    let r := registerList function l.file
    (r.1, { l with file := r.2 })
  | .unregisterFile function, l =>
    let r := unregisterList function l.file
    (r.1, { l with file := r.2 })

def run : List HookOp → HookLists → List Bool × HookLists
  | [], l => ([], l)
  | op :: ops, l =>
    let r := step op l
    let rest := run ops r.2
    (r.1 :: rest.1, rest.2)

end HookLists

/-! ## One table and its list -/

/-- **A table spells out a list**: its entries below the count, with NULL above. -/
structure HookTable.Spells (t : HookTable) (l : List Nat) : Prop where
  entries_eq : entries t.functions t.num = l
  le : t.num ≤ 99
  above : ∀ i, t.num ≤ i → t.functions i = 0
  ne_null : 0 ∉ l

namespace HookTable.Spells

variable {t : HookTable} {l : List Nat} {function : Nat} {cpsr : Word}

theorem num_eq (h : t.Spells l) : t.num = l.length := by
  rw [← h.entries_eq, length_entries]

/-- Registering a function appends it. -/
theorem register (h : t.Spells l) :
    (registerFunction function cpsr t).1 = (registerList function l).1
      ∧ (registerFunction function cpsr t).2.2.Spells (registerList function l).2 := by
  have hnum := h.num_eq
  unfold registerFunction registerList
  by_cases hnull : function = 0
  · rw [if_pos hnull, if_neg fun hc => hc.1 hnull]
    exact ⟨rfl, h⟩
  · rw [if_neg hnull]
    by_cases hroom : t.num < 99
    · rw [if_pos hroom, if_pos ⟨hnull, hnum ▸ hroom⟩]
      have hnext : (t.num + 1) % 2 ^ 32 = t.num + 1 := Nat.mod_eq_of_lt (by omega)
      refine ⟨rfl, ?_, ?_, ?_, ?_⟩
      · show entries _ ((t.num + 1) % 2 ^ 32) = l ++ [function]
        rw [hnext, entries_push, h.entries_eq]
      · show (t.num + 1) % 2 ^ 32 ≤ 99
        omega
      · intro i hi
        change (t.num + 1) % 2 ^ 32 ≤ i at hi
        show Function.update t.functions t.num function i = 0
        rw [Function.update_of_ne (by omega)]
        exact h.above i (by omega)
      · show 0 ∉ l ++ [function]
        rw [List.mem_append, List.mem_singleton]
        intro hmem
        rcases hmem with hmem | hmem
        · exact h.ne_null hmem
        · exact hnull hmem.symm
    · rw [if_neg hroom, if_neg fun hc => hroom (hnum ▸ hc.2)]
      exact ⟨rfl, h⟩

/-- Without the unsigned arithmetic: the entries above the one found move down. -/
theorem unregisterFunction_found {i : Nat} (hnull : function ≠ 0) (hle : t.num ≤ 99)
    (hfind : findEntry t.functions t.num function = some i) :
    unregisterFunction function cpsr t
      = (true, irqRestoreState (irqSaveState cpsr) (irqDisable cpsr),
        ⟨Function.update (shiftDown t.functions i (t.num - 1)) (t.num - 1) 0, t.num - 1⟩) := by
  have hi := (findEntry_eq_some hfind).1
  have hlast : (t.num + 2 ^ 32 - 1) % 2 ^ 32 = t.num - 1 := by omega
  simp only [unregisterFunction, if_neg hnull, hfind, hlast]

/-- Unregistering a function erases its first registration. -/
theorem unregister (h : t.Spells l) :
    (unregisterFunction function cpsr t).1 = (unregisterList function l).1
      ∧ (unregisterFunction function cpsr t).2.2.Spells (unregisterList function l).2 := by
  have hle := h.le
  unfold unregisterList
  by_cases hnull : function = 0
  · rw [unregisterFunction, if_pos hnull, if_neg fun hc => h.ne_null (hnull ▸ hc)]
    exact ⟨rfl, h⟩
  · cases hfind : findEntry t.functions t.num function with
    | none =>
        have hmem : function ∉ l := h.entries_eq ▸ findEntry_eq_none.mp hfind
        rw [unregisterFunction, if_neg hnull, hfind, if_neg hmem]
        exact ⟨rfl, h⟩
    | some i =>
        obtain ⟨hi, hat, _⟩ := findEntry_eq_some hfind
        have hmem : function ∈ l := h.entries_eq ▸ mem_entries.mpr ⟨i, hi, hat⟩
        have hsucc : t.num - 1 + 1 = t.num := by omega
        rw [unregisterFunction_found hnull hle hfind, if_pos hmem]
        refine ⟨rfl, ?_, ?_, ?_, ?_⟩
        · -- the entry set to NULL is above the new count
          show entries (Function.update _ _ 0) (t.num - 1) = l.erase function
          rw [entries_congr fun j hj => Function.update_of_ne (Nat.ne_of_lt hj) 0 _,
            entries_shiftDown (by omega), hsucc, eraseIdx_entries hfind, h.entries_eq]
        · show t.num - 1 ≤ 99
          omega
        · intro j hj
          change t.num - 1 ≤ j at hj
          show Function.update (shiftDown t.functions i _) _ 0 j = 0
          by_cases hj' : j = t.num - 1
          · rw [hj', Function.update_self]
          · rw [Function.update_of_ne hj', shiftDown_apply, if_neg (by omega)]
            exact h.above j (by omega)
        · intro hz
          exact h.ne_null (List.mem_of_mem_erase hz)

end HookTable.Spells

/-! ## Both tables over a run -/

/-- The two tables spell out the two lists. -/
structure Hooks.Spells (s : Hooks) (l : HookLists) : Prop where
  draw : s.drawhook.Spells l.draw
  file : s.filehook.Spells l.file

theorem Hooks.start_spells (cpsr : Word) : (Hooks.start cpsr).Spells ⟨[], []⟩ := by
  have hempty : HookTable.Spells ⟨fun _ => 0, 0⟩ [] :=
    ⟨rfl, Nat.zero_le 99, fun _ _ => rfl, List.not_mem_nil⟩
  exact ⟨hempty, hempty⟩

/-- **One call** does to the lists what its name says. -/
theorem hookStep_spells (op : HookOp) {s : Hooks} {l : HookLists} (h : s.Spells l) :
    (hookStep op s).1 = (l.step op).1 ∧ (hookStep op s).2.Spells (l.step op).2 := by
  cases op with
  | registerDraw function => exact ⟨h.draw.register.1, h.draw.register.2, h.file⟩
  | unregisterDraw function => exact ⟨h.draw.unregister.1, h.draw.unregister.2, h.file⟩
  | registerFile function => exact ⟨h.file.register.1, h.draw, h.file.register.2⟩
  | unregisterFile function => exact ⟨h.file.unregister.1, h.draw, h.file.unregister.2⟩

theorem hookRun_spells : ∀ (ops : List HookOp) {s : Hooks} {l : HookLists}, s.Spells l →
    (hookRun ops s).1 = (l.run ops).1 ∧ (hookRun ops s).2.Spells (l.run ops).2
  | [], _, _, h => ⟨rfl, h⟩
  | op :: ops, s, l, h => by
      obtain ⟨hout, hstep⟩ := hookStep_spells op h
      obtain ⟨houts, hrun⟩ := hookRun_spells ops hstep
      refine ⟨?_, hrun⟩
      show _ :: _ = _ :: _
      rw [hout, houts]

/-- A call leaves the table of the other hook alone. -/
theorem hookStep_other (op : HookOp) (s : Hooks) :
    (op.OnDraw → (hookStep op s).2.filehook = s.filehook)
      ∧ (¬ op.OnDraw → (hookStep op s).2.drawhook = s.drawhook) := by
  cases op with
  | registerDraw function => exact ⟨fun _ => rfl, fun h => absurd trivial h⟩
  | unregisterDraw function => exact ⟨fun _ => rfl, fun h => absurd trivial h⟩
  | registerFile function => exact ⟨fun h => h.elim, fun _ => rfl⟩
  | unregisterFile function => exact ⟨fun h => h.elim, fun _ => rfl⟩

/-- The loop of a draw pass, from place `i` on, while nobody changes the table. -/
theorem drawLoop_calls {call : Nat → Nat → Hooks → Hooks}
    (hcall : ∀ f b s, (call f b s).drawhook = s.drawhook) (framebuffer : Nat) (t : HookTable) :
    ∀ (fuel i : Nat) (s : Hooks), s.drawhook = t → t.num - i < fuel →
      ∃ s', drawLoop call framebuffer fuel i s
        = some (((entries t.functions t.num).drop i).map (·, framebuffer), s')
  | 0, _, _, _, hfuel => absurd hfuel (Nat.not_lt_zero _)
  | fuel + 1, i, s, ht, hfuel => by
      unfold drawLoop
      rw [ht]
      by_cases hi : i < t.num
      · obtain ⟨s', hrest⟩ := drawLoop_calls hcall framebuffer t fuel (i + 1)
          (call (t.functions i) framebuffer s) ((hcall _ _ _).trans ht) (by omega)
        have hdrop : (entries t.functions t.num).drop i
            = t.functions i :: (entries t.functions t.num).drop (i + 1) := by
          rw [List.drop_eq_getElem_cons (by simpa using hi), getElem_entries]
        refine ⟨s', ?_⟩
        rw [if_pos hi, hdrop]
        dsimp only
        rw [hrest]
        rfl
      · refine ⟨s, ?_⟩
        rw [if_neg hi, List.drop_of_length_le (by simpa using hi)]
        rfl

/-- **The hook tables refine lists.** Whatever is registered and unregistered, each call
returns what it returns on the lists, the entries below each count are the list, at most
99 of them with NULL above, a call on one table leaves the other alone, and a draw pass
during which nobody changes the table calls the functions of the draw list in order. -/
theorem hookTables_refine (cpsr : Word) (ops : List HookOp)
    (call : Nat → Nat → Hooks → Hooks) (hcall : ∀ f b s, (call f b s).drawhook = s.drawhook) :
    let r := hookRun ops (Hooks.start cpsr)
    let l := HookLists.run ops ⟨[], []⟩
    r.1 = l.1
      ∧ entries r.2.drawhook.functions r.2.drawhook.num = l.2.draw
      ∧ entries r.2.filehook.functions r.2.filehook.num = l.2.file
      ∧ r.2.drawhook.num ≤ 99 ∧ r.2.filehook.num ≤ 99
      ∧ (∀ i, r.2.drawhook.num ≤ i → r.2.drawhook.functions i = 0)
      ∧ (∀ i, r.2.filehook.num ≤ i → r.2.filehook.functions i = 0)
      ∧ (∀ op, (op.OnDraw → (hookStep op r.2).2.filehook = r.2.filehook)
        ∧ (¬ op.OnDraw → (hookStep op r.2).2.drawhook = r.2.drawhook))
      ∧ ∀ (d : DrawPass) (fuel : Nat), d.drawhookEnabled = true → 99 < fuel →
        ∃ s', drawHookfunc call d fuel r.2
          = some (l.2.draw.map (·, d.oldFramebuffer), s') := by
  intro r l
  obtain ⟨hout, hdraw, hfile⟩ := hookRun_spells ops (Hooks.start_spells cpsr)
  refine ⟨hout, hdraw.entries_eq, hfile.entries_eq, hdraw.le, hfile.le, hdraw.above, hfile.above,
    fun op => hookStep_other op r.2, ?_⟩
  intro d fuel hon hfuel
  have hle : r.2.drawhook.num ≤ 99 := hdraw.le
  obtain ⟨s', hs'⟩ := drawLoop_calls hcall d.oldFramebuffer r.2.drawhook fuel 0 r.2 rfl (by omega)
  refine ⟨s', ?_⟩
  rw [drawHookfunc, if_pos hon, hs', List.drop_zero, hdraw.entries_eq]

/-- A function registered twice is called twice, and erased where it came first. -/
theorem hookTables_refine_duplicate :
    let r := hookRun [.registerDraw 8, .registerDraw 4, .registerDraw 8, .unregisterDraw 8]
      (Hooks.start 0)
    ∃ s', drawHookfunc (fun _ _ s => s) ⟨true, 0, 0, 0, 16⟩ 100 r.2
      = some ([(4, 16), (8, 16)], s') := by
  obtain ⟨-, -, -, -, -, -, -, -, hdraw⟩ := hookTables_refine 0
    [.registerDraw 8, .registerDraw 4, .registerDraw 8, .unregisterDraw 8]
    (fun _ _ s => s) (fun _ _ _ => rfl)
  exact hdraw ⟨true, 0, 0, 0, 16⟩ 100 rfl (by omega)

end OSExt.Modules
