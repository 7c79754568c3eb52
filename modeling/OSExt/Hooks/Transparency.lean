import OSExt.Hooks.Install

/-!
# The OS with hooks

Once the hooks are installed the OS runs as before, with the four instructions in front of the draw
hook taken out, and makes a detour over each hook whenever it comes by: as long as the words under
the hooks can be moved, no jump of the OS goes between them, and the OS cannot tell what the hooks
do.
-/

namespace OSExt.Hooks

open Lib

inductive HookName where
  | filehook
  | drawhook
deriving DecidableEq, Repr

/-- Where `install_hooks` installs the hook. -/
def address (osversion : Nat) : HookName → Word
  | .filehook => osValue osversion filehookAddrs
  | .drawhook => osValue osversion osDrawAddrs

def code (k : Kernel) : HookName → HookCode
  | .filehook => k.filehook
  | .drawhook => k.drawhook

/-- The hooks there are in this version of the OS. -/
def ActiveHook (osversion : Nat) : Type := { name : HookName // address osversion name ≠ 0 }

def detour (osversion : Nat) (k : Kernel) (hook : ActiveHook osversion) : Detour where
  site := address osversion hook.val
  entry := (code k hook.val).hookname
  trampoline := (code k hook.val).endInstrs

/-- The code of the OS without the four instructions in front of the draw hook. -/
def stubbed (osversion : Nat) (mem : Mem) : Mem :=
  let draw := osValue osversion osDrawAddrs
  if draw ≠ 0 then writeInsts draw nops mem else mem

section

variable {osversion : Nat} {k : Kernel} {s : HookState}

/-- The trampoline of the file hook is none of the words the draw hook writes. -/
theorem Placed.endInstrs_apart {adr draw : Word} (h : Placed adr draw) (hk : k.Valid) :
    ∀ x ∈ [k.filehook.endInstrs, k.filehook.endInstrs + 4#32,
      k.filehook.endInstrs + 8#32, k.filehook.endInstrs + 12#32],
      (draw ≠ 0 → NotAt draw x) ∧ NotAt k.drawhook.endInstrs x := by
  obtain ⟨hlow, hhigh⟩ := hk.file
  have hdraw' := hk.draw.high
  have hapart := hk.apart
  have hend : k.drawhook.endInstrs.toNat ≤ (k.drawhook.endInstrs + 12#32).toNat := by bv_omega
  intro x hx
  have hat : 0xe0000000 ≤ x.toNat ∧ k.filehook.endInstrs.toNat ≤ x.toNat ∧
      x.toNat ≤ k.filehook.endInstrs.toNat + 12 := by
    simp only [List.mem_cons, List.not_mem_nil, or_false] at hx
    rcases hx with rfl | rfl | rfl | rfl <;> bv_omega
  exact ⟨fun hdraw => h.notAt_kernel hdraw hat.1, notAt_of_apart hend (by omega)⟩

theorem installHooks_eq (h : Hooked osversion) (k : Kernel) (s : HookState) :
    (installHooks osversion k s).mem =
      (installDrawhook (osValue osversion osDrawAddrs) k
        { s with mem := hookInstall (osValue osversion filehookAddrs) k.filehook s.mem }).mem := by
  unfold installHooks installFilehook
  rw [if_pos (osValue_hooked h).1]

theorem installDrawhook_eq {draw : Word} (hdraw : draw ≠ 0) (k : Kernel) (s : HookState) :
    (installDrawhook draw k s).mem =
      hookInstall draw k.drawhook (writeInsts draw nops s.mem) := by
  unfold installDrawhook
  rw [if_pos hdraw]

/-- **The file hook is in place.** -/
theorem filehook_patched (h : Hooked osversion) (hk : k.Valid) (s : HookState) :
    let adr := osValue osversion filehookAddrs
    let e := k.filehook.endInstrs
    let mem := (installHooks osversion k s).mem
    let text := stubbed osversion s.mem
    mem adr = ldrPc ∧ mem (adr + 4#32) = k.filehook.hookname ∧ mem e = text adr ∧
      mem (e + 4#32) = text (adr + 4#32) ∧ mem (e + 8#32) = ldrPc ∧
      mem (e + 12#32) = adr + 8#32 := by
  intro adr e mem text
  obtain ⟨-, hplaced⟩ := osValue_hooked h
  let draw := osValue osversion osDrawAddrs
  have hsite : ∀ x ∈ [adr, adr + 4#32, e, e + 4#32],
      (draw ≠ 0 → NotAt draw x) ∧ NotAt k.drawhook.endInstrs x := hplaced.file_apart hk
  have hend : ∀ x ∈ [e, e + 4#32, e + 8#32, e + 12#32],
      (draw ≠ 0 → NotAt draw x) ∧ NotAt k.drawhook.endInstrs x := hplaced.endInstrs_apart hk
  have hmem : ∀ x, ((draw ≠ 0 → NotAt draw x) ∧ NotAt k.drawhook.endInstrs x) →
      mem x = hookInstall adr k.filehook s.mem x := by
    intro x hx
    show (installHooks osversion k s).mem x = _
    rw [installHooks_eq h, installDrawhook_of_ne hplaced hk hx.1 hx.2]
  have htext : ∀ x, (draw ≠ 0 → NotAt draw x) → text x = s.mem x := by
    intro x hx
    show stubbed osversion s.mem x = s.mem x
    unfold stubbed
    split
    · rename_i hdraw
      exact writeInsts_of_ne (hx hdraw)
    · rfl
  have hself : adr + 4#32 ≠ adr := by bv_omega
  obtain ⟨h0, h4, h8, h12⟩ :=
    hookInstall_endInstrs hplaced.inFile.2 hplaced.inFile.1 hk.file s.mem
  refine ⟨?_, ?_, ?_, ?_, ?_, ?_⟩
  · rw [hmem _ (hsite _ (by simp)), hookInstall_os hplaced.inFile.2 hplaced.inFile.1 hk.file
      hplaced.inFile.1, if_pos rfl]
  · rw [hmem _ (hsite _ (by simp)), hookInstall_os hplaced.inFile.2 hplaced.inFile.1 hk.file
      hplaced.inFile.2, if_neg hself, if_pos rfl]
  · rw [hmem _ (hend _ (by simp)), h0, htext _ (hsite _ (by simp)).1]
  · rw [hmem _ (hend _ (by simp)), h4, htext _ (hsite _ (by simp)).1]
  · rw [hmem _ (hend _ (by simp)), h8]
  · rw [hmem _ (hend _ (by simp)), h12]

/-- **The draw hook is in place**, over nops. -/
theorem drawhook_patched (h : Hooked osversion) (hk : k.Valid) (s : HookState)
    (hdraw : osValue osversion osDrawAddrs ≠ 0) :
    let draw := osValue osversion osDrawAddrs
    let e := k.drawhook.endInstrs
    let mem := (installHooks osversion k s).mem
    let text := stubbed osversion s.mem
    mem draw = ldrPc ∧ mem (draw + 4#32) = k.drawhook.hookname ∧ mem e = text draw ∧
      mem (e + 4#32) = text (draw + 4#32) ∧ mem (e + 8#32) = ldrPc ∧
      mem (e + 12#32) = draw + 8#32 := by
  intro draw e mem text
  obtain ⟨-, hplaced⟩ := osValue_hooked h
  obtain ⟨hos, -, -⟩ := hplaced.inDraw hdraw
  obtain ⟨hos4, -⟩ := hplaced.drawWords hdraw
  have hself : draw + 4#32 ≠ draw := by bv_omega
  obtain ⟨mem1, hmem1⟩ : ∃ mem1, mem = hookInstall draw k.drawhook (writeInsts draw nops mem1) :=
    ⟨_, (installHooks_eq h k s).trans (installDrawhook_eq hdraw k _)⟩
  have htext : text = writeInsts draw nops s.mem := if_pos hdraw
  obtain ⟨h0, h4, h8, h12⟩ := hookInstall_endInstrs hos4 hos hk.draw (writeInsts draw nops mem1)
  rw [hmem1, htext]
  refine ⟨?_, ?_, ?_, ?_, h8, h12⟩
  · rw [hookInstall_os hos4 hos hk.draw hos, if_pos rfl]
  · rw [hookInstall_os hos4 hos hk.draw hos4, if_neg hself, if_pos rfl]
  · rw [h0, writeInsts_apply, writeInsts_apply, if_pos rfl, if_pos rfl]
  · rw [h4, writeInsts_apply, writeInsts_apply, if_neg hself, if_neg hself, if_pos rfl, if_pos rfl]

/-- Elsewhere the OS is as it was, without the four instructions. -/
theorem installHooks_elsewhere (h : Hooked osversion) (hk : k.Valid) (s : HookState) {x : Word}
    (hos : OsWord x)
    (hx : ∀ hook : ActiveHook osversion, x ≠ address osversion hook.val ∧
      x ≠ address osversion hook.val + 4#32) :
    (installHooks osversion k s).mem x = stubbed osversion s.mem x := by
  obtain ⟨hne, hplaced⟩ := osValue_hooked h
  have hfile := hx ⟨.filehook, hne⟩
  have hbase : hookInstall (osValue osversion filehookAddrs) k.filehook s.mem x = s.mem x :=
    hookInstall_of_ne hplaced.inFile.2 hplaced.inFile.1 hk.file hfile (hk.file.notAt_os hos)
  rw [installHooks_eq h]
  unfold stubbed
  by_cases hdraw : osValue osversion osDrawAddrs ≠ 0
  · have hat := hx ⟨.drawhook, hdraw⟩
    rw [installDrawhook_eq hdraw, hookInstall_of_ne (hplaced.drawWords hdraw).1
      (hplaced.inDraw hdraw).1 hk.draw hat (hk.draw.notAt_os hos), if_pos hdraw, writeInsts_apply,
      writeInsts_apply]
    simp only [hbase]
  · unfold installDrawhook
    rw [if_neg hdraw, if_neg hdraw]
    exact hbase

/-- The hooked OS is the other one with its detours. -/
theorem installHooks_patched {σ : Type} {P : Processor σ} (hP : P.jump = ldrPc)
    (h : Hooked osversion) (hk : k.Valid) (s : HookState) {os : Set Word}
    (hos : ∀ x ∈ os, OsWord x) :
    Patched P (detour osversion k) os (stubbed osversion s.mem)
      (installHooks osversion k s).mem := by
  have hhook : ∀ hook : ActiveHook osversion,
      let d := detour osversion k hook
      let mem := (installHooks osversion k s).mem
      let text := stubbed osversion s.mem
      mem d.site = ldrPc ∧ mem (d.site + 4#32) = d.entry ∧ mem d.trampoline = text d.site ∧
        mem (d.trampoline + 4#32) = text (d.site + 4#32) ∧ mem (d.trampoline + 8#32) = ldrPc ∧
        mem (d.trampoline + 12#32) = d.site + 8#32 := by
    rintro ⟨name, hname⟩
    cases name with
    | filehook => exact filehook_patched h hk s
    | drawhook => exact drawhook_patched h hk s hname
  exact {
    jumps := fun hook => (hhook hook).1.trans hP.symm
    target := fun hook => (hhook hook).2.1
    first := fun hook => (hhook hook).2.2.1
    second := fun hook => (hhook hook).2.2.2.1
    back := fun hook => (hhook hook).2.2.2.2.1.trans hP.symm
    behind := fun hook => (hhook hook).2.2.2.2.2
    same := fun x hx hne => installHooks_elsewhere h hk s (hos x hx) hne }

/-- The sites of the two hooks do not overlap. -/
theorem address_apart (h : Hooked osversion) (i j : ActiveHook osversion) :
    address osversion j.val ≠ address osversion i.val + 4#32 := by
  obtain ⟨i, hi⟩ := i
  obtain ⟨j, hj⟩ := j
  show address osversion j ≠ address osversion i + 4#32
  obtain rfl | rfl := h
  · cases i with
    | filehook => cases j with
      | filehook => decide
      | drawhook => exact absurd (by decide) hj
    | drawhook => exact absurd (by decide) hi
  · cases i <;> cases j <;> decide

/-- **The OS runs under its hooks as it does without them.** For every run of the OS with the four
instructions taken out, the hooked OS comes to the same place; its state differs by what the hooks
that were passed have done, each once and in order. -/
theorem hooks_simulate {σ : Type} {P : Processor σ} (hP : P.jump = ldrPc) (h : Hooked osversion)
    (hk : k.Valid) (s : HookState) {os : Set Word} (hos : ∀ x ∈ os, OsWord x)
    (hmovable : ∀ hook : ActiveHook osversion,
      P.Movable (stubbed osversion s.mem (address osversion hook.val)) ∧
        P.Movable (stubbed osversion s.mem (address osversion hook.val + 4#32)))
    (hliteral : ∀ pc ∈ os, stubbed osversion s.mem pc = P.jump → pc + 4#32 ∈ os ∧
      ∀ hook : ActiveHook osversion, pc + 4#32 ≠ address osversion hook.val ∧
        pc + 4#32 ≠ address osversion hook.val + 4#32)
    {hook : ActiveHook osversion → σ → σ} {R : List (ActiveHook osversion) → σ → σ → Prop}
    (hunseen : Unseen P (detour osversion k) os (stubbed osversion s.mem)
      (installHooks osversion k s).mem hook R)
    {l : List (ActiveHook osversion)} {x y : Word × σ}
    (hrun : Passes P (detour osversion k) os (stubbed osversion s.mem) x l y)
    (hx : ∀ i : ActiveHook osversion, x.1 ≠ address osversion i.val + 4#32) {t : σ}
    (hR : R [] x.2 t) :
    ∃ y', P.Reaches (installHooks osversion k s).mem (x.1, t) y' ∧
      SamePlace (detour osversion k) y.1 y'.1 ∧ R l y.2 y'.2 :=
  detours_simulate (installHooks_patched hP h hk s hos)
    { first := fun i => (hmovable i).1
      second := fun i => (hmovable i).2
      apart := address_apart h
      literal := hliteral }
    hunseen hrun hx hR

/-! ### A small OS -/

/-- A processor for which 1 is an instruction of the kernel, and any other word one of the OS; both
are counted. -/
def counting : Processor (Nat × Nat) where
  jump := ldrPc
  exec := fun w pc s => (pc + 4#32, if w = 1#32 then (s.1, s.2 + 1) else (s.1 + 1, s.2))

/-- The file hook counts, and goes to its end. -/
def countingHooks : HookState where
  mem := fun x =>
    if x = 0xe0100000#32 then 1#32 else if x = 0xe0100004#32 then ldrPc
    else if x = 0xe0100008#32 then 0xe0200000#32 else nop
  osDrawInst := ⟨0, 0, 0, 0⟩
  drawhookEnabled := false

theorem counting_nop : counting.Movable nop :=
  ⟨by decide, fun _ _ => rfl, fun _ _ _ => rfl⟩

/-- The only hook in this version. -/
def fileHook : ActiveHook 28 := ⟨.filehook, by decide⟩

theorem activeHook_eq (hook : ActiveHook 28) : hook = fileHook := by
  obtain ⟨name, hname⟩ := hook
  cases name with
  | filehook => rfl
  | drawhook => exact absurd (by decide) hname

/-- The hook of the small OS is not seen by it. -/
theorem counting_unseen (os : Set Word) (hos : ∀ x ∈ os, stubbed 28 countingHooks.mem x = nop) :
    Unseen counting (detour 28 freshKernel) os (stubbed 28 countingHooks.mem)
      (installHooks 28 freshKernel countingHooks).mem (fun _ s => (s.1, s.2 + 1))
      fun l s t => t.1 = s.1 ∧ t.2 = s.2 + l.length where
  returns := by
    intro hook s
    rw [activeHook_eq hook]
    have hcount : counting.step (installHooks 28 freshKernel countingHooks).mem
        (0xe0100000#32, s) = (0xe0100004#32, (s.1, s.2 + 1)) :=
      Processor.step_exec (show (installHooks 28 freshKernel countingHooks).mem 0xe0100000#32
        ≠ ldrPc by decide)
    have hend : counting.step (installHooks 28 freshKernel countingHooks).mem
        (0xe0100004#32, (s.1, s.2 + 1)) = (0xe0200000#32, (s.1, s.2 + 1)) :=
      Processor.step_jump (show (installHooks 28 freshKernel countingHooks).mem 0xe0100004#32
        = ldrPc by decide)
    exact (Processor.Reaches.one hcount).trans (Processor.Reaches.one hend)
  hooked := by
    rintro l i s t ⟨h1, h2⟩
    refine ⟨h1, ?_⟩
    rw [List.length_append, List.length_singleton, h2, Nat.add_assoc]
  exec := by
    rintro pc hpc l s t ⟨h1, h2⟩
    rw [hos pc hpc]
    exact ⟨rfl, congrArg (· + 1) h1, h2⟩

/-- The two instructions under the file hook: the hook is called once. -/
theorem hooks_simulate_counting :
    ∃ t, counting.Reaches (installHooks 28 freshKernel countingHooks).mem
      (0x10011178#32, (0, 0)) (0x10011180#32, t) ∧ t.1 = 2 ∧ t.2 = 1 := by
  let os : Set Word := fun x => x = 0x10011178#32 ∨ x = 0x1001117c#32
  have hnop : ∀ x ∈ os, stubbed 28 countingHooks.mem x = nop := by
    rintro x (rfl | rfl) <;> decide
  have hsite : Passes counting (detour 28 freshKernel) os (stubbed 28 countingHooks.mem)
      (0x10011178#32, (0, 0)) [fileHook] (0x1001117c#32, (1, 0)) :=
    Passes.site fileHook Passes.refl (Or.inl rfl) (by decide)
  have hrun : Passes counting (detour 28 freshKernel) os (stubbed 28 countingHooks.mem)
      (0x10011178#32, (0, 0)) [fileHook] (0x10011180#32, (2, 0)) := by
    refine Passes.step hsite (Or.inr rfl) (fun i => ?_) fun i => ?_
    · rw [activeHook_eq i]
      decide
    · rw [activeHook_eq i]
      decide
  obtain ⟨⟨pc, t⟩, hreaches, hplace, h1, h2⟩ := hooks_simulate rfl (.inl rfl) freshKernel_valid
    countingHooks (by rintro x (rfl | rfl) <;> unfold OsWord <;> decide)
    (fun i => activeHook_eq i ▸ ⟨counting_nop, counting_nop⟩)
    (fun pc hpc h => absurd ((hnop pc hpc).symm.trans h) (by decide))
    (counting_unseen os hnop) hrun (fun i => activeHook_eq i ▸ by decide) (t := (0, 0)) ⟨rfl, rfl⟩
  rcases hplace with ⟨hpc, -⟩ | ⟨i, hi, -⟩
  · obtain rfl : pc = 0x10011180#32 := hpc
    exact ⟨t, hreaches, h1, h2⟩
  · rw [activeHook_eq i] at hi
    exact absurd hi (by decide)

end

end OSExt.Hooks
