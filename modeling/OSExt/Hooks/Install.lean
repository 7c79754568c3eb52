import OSExt.Lib.Detour

/-!
# Hooks in the code of the OS

`os-hooks.c` hooks two functions of the OS: the two words at an address are overwritten by a jump
to a hook, and copied to where the hook ends. In front of the draw hook four instructions of the OS
are taken out first.

The addresses are known for two versions of the OS, and for one of them that of the draw hook.
`install_hooks` and `uninstall_hooks` do not ask whether the hooks are installed: the OS has its
code back after them exactly if they were called in turn.
-/

namespace OSExt.Hooks

open Lib

/-! ## Memory -/

/-- Memory by words at their addresses. -/
abbrev Mem : Type := Word → Word

/-- `ldr pc, [pc, #-4]` -/
def ldrPc : Word := 0xE51FF004#32

/-- `mov r0, r0` -/
def nop : Word := 0xe1a00000#32

/-- What `HOOK_DEFINE` defines: a function, and the array `__hookname_end_instrs`. -/
structure HookCode where
  hookname : Word
  endInstrs : Word

/-- `HOOK_INSTALL` -/
def hookInstall (address : Word) (hook : HookCode) (mem : Mem) : Mem :=
  let mem := Function.update mem (hook.endInstrs + 12#32) (address + 8#32)
  let mem := Function.update mem hook.endInstrs (mem address)
  let mem := Function.update mem address ldrPc
  let mem := Function.update mem (hook.endInstrs + 4#32) (mem (address + 4#32))
  let mem := Function.update mem (address + 4#32) hook.hookname
  Function.update mem (hook.endInstrs + 8#32) ldrPc

/-- `HOOK_UNINSTALL` -/
def hookUninstall (address : Word) (hook : HookCode) (mem : Mem) : Mem :=
  let mem := Function.update mem address (mem hook.endInstrs)
  Function.update mem (address + 4#32) (mem (hook.endInstrs + 4#32))

/-- The four words behind a pointer. -/
structure Insts where
  inst0 : Word
  inst1 : Word
  inst2 : Word
  inst3 : Word
deriving DecidableEq, Repr

def readInsts (draw : Word) (mem : Mem) : Insts :=
  ⟨mem draw, mem (draw + 4#32), mem (draw + 8#32), mem (draw + 12#32)⟩

def writeInsts (draw : Word) (x : Insts) (mem : Mem) : Mem :=
  let mem := Function.update mem draw x.inst0
  let mem := Function.update mem (draw + 4#32) x.inst1
  let mem := Function.update mem (draw + 8#32) x.inst2
  Function.update mem (draw + 12#32) x.inst3

def nops : Insts := ⟨nop, nop, nop, nop⟩

/-! ## The addresses -/

def filehookAddrs : List Word :=
  [0, 0, 0, 0, 0, 0,
   0, 0, 0, 0,
   0, 0, 0, 0,
   0, 0, 0, 0,
   0, 0,
   0, 0,
   0, 0,
   0, 0,
   0, 0,
   0x10011178#32, 0x10011134#32,
   0, 0]

def osDrawAddrs : List Word :=
  [0, 0, 0, 0, 0, 0,
   0, 0, 0, 0,
   0, 0, 0, 0,
   0, 0, 0, 0,
   0, 0,
   0, 0,
   0, 0,
   0, 0,
   0, 0,
   0, 0x100237c8#32,
   0, 0]

/-- `os_value`, for the result of `get_osversion`. -/
def osValue (osversion : Nat) (values : List Word) : Word :=
  if values.length ≤ osversion then 0 else values.getD osversion 0

/-! ## The hooks -/

/-- The two hooks of the kernel. -/
structure Kernel where
  filehook : HookCode
  drawhook : HookCode

structure HookState where
  mem : Mem
  osDrawInst : Insts
  drawhookEnabled : Bool

/-- `if (adr != 0)` in `install_hooks`. -/
def installFilehook (adr : Word) (k : Kernel) (s : HookState) : HookState :=
  if adr ≠ 0 then { s with mem := hookInstall adr k.filehook s.mem } else s

/-- `if (get_os_draw_address() != 0)` in `install_hooks`. -/
def installDrawhook (draw : Word) (k : Kernel) (s : HookState) : HookState :=
  if draw ≠ 0 then
    let osDrawInst := readInsts draw s.mem
    let mem := writeInsts draw nops s.mem
    { mem := hookInstall draw k.drawhook mem, osDrawInst, drawhookEnabled := true }
  else s

def installHooks (osversion : Nat) (k : Kernel) (s : HookState) : HookState :=
  let s := installFilehook (osValue osversion filehookAddrs) k s
  installDrawhook (osValue osversion osDrawAddrs) k s

def uninstallFilehook (adr : Word) (k : Kernel) (s : HookState) : HookState :=
  if adr ≠ 0 then { s with mem := hookUninstall adr k.filehook s.mem } else s

def uninstallDrawhook (draw : Word) (k : Kernel) (s : HookState) : HookState :=
  if draw ≠ 0 then
    let mem := hookUninstall draw k.drawhook s.mem
    { s with mem := writeInsts draw s.osDrawInst mem, drawhookEnabled := false }
  else s

def uninstallHooks (osversion : Nat) (k : Kernel) (s : HookState) : HookState :=
  let s := uninstallFilehook (osValue osversion filehookAddrs) k s
  uninstallDrawhook (osValue osversion osDrawAddrs) k s

/-- The two functions, as they are called. -/
inductive HookCall where
  | install
  | uninstall
deriving DecidableEq, Repr

def hookStep (osversion : Nat) (k : Kernel) (s : HookState) : HookCall → HookState
  | .install => installHooks osversion k s
  | .uninstall => uninstallHooks osversion k s

def hookRun (osversion : Nat) (k : Kernel) (s : HookState) (calls : List HookCall) : HookState :=
  calls.foldl (hookStep osversion k) s

/-! ## Where the words are -/

/-- Below the kernel: the code and data of the OS. -/
def OsWord (x : Word) : Prop := x.toNat < 0xe0000000

/-- Four words of the kernel. -/
structure KernelWords (e : Word) : Prop where
  low : 0xe0000000 ≤ e.toNat
  high : e.toNat ≤ 2 ^ 32 - 16

/-- `x` is none of the four words at `a`. -/
def NotAt (a x : Word) : Prop :=
  x ≠ a ∧ x ≠ a + 4#32 ∧ x ≠ a + 8#32 ∧ x ≠ a + 12#32

/-- The words of the two hooks are the kernel's, and different ones. -/
structure Kernel.Valid (k : Kernel) : Prop where
  file : KernelWords k.filehook.endInstrs
  draw : KernelWords k.drawhook.endInstrs
  apart : k.filehook.endInstrs.toNat + 16 ≤ k.drawhook.endInstrs.toNat ∨
    k.drawhook.endInstrs.toNat + 16 ≤ k.filehook.endInstrs.toNat

section

variable {a draw e x : Word} {h : HookCode} {mem : Mem}

theorem notAt_of_apart (hle : a.toNat ≤ (a + 12#32).toNat)
    (h : x.toNat + 4 ≤ a.toNat ∨ a.toNat + 16 ≤ x.toNat) : NotAt a x :=
  ⟨by bv_omega, by bv_omega, by bv_omega, by bv_omega⟩

/-- Words of the OS are none of the kernel. -/
theorem KernelWords.notAt_os (he : KernelWords e) (hx : OsWord x) : NotAt e x := by
  unfold OsWord at hx
  obtain ⟨hlow, hhigh⟩ := he
  exact ⟨by bv_omega, by bv_omega, by bv_omega, by bv_omega⟩

/-- **What `HOOK_INSTALL` writes.** -/
theorem hookInstall_apply (ha : OsWord (a + 4#32)) (ha' : OsWord a) (he : KernelWords h.endInstrs)
    (x : Word) :
    hookInstall a h mem x =
      if x = a then ldrPc
      else if x = a + 4#32 then h.hookname
      else if x = h.endInstrs then mem a
      else if x = h.endInstrs + 4#32 then mem (a + 4#32)
      else if x = h.endInstrs + 8#32 then ldrPc
      else if x = h.endInstrs + 12#32 then a + 8#32
      else mem x := by
  obtain ⟨e, name⟩ : ∃ e, e = h.endInstrs := ⟨_, rfl⟩
  rw [← name] at he ⊢
  unfold OsWord at ha ha'
  obtain ⟨hlow, hhigh⟩ := he
  unfold hookInstall
  rw [← name]
  simp only [Function.update_apply]
  have h0 : a ≠ e + 12#32 := by bv_omega
  have h1 : a ≠ e := by bv_omega
  have h2 : a + 4#32 ≠ e := by bv_omega
  have h3 : a + 4#32 ≠ e + 12#32 := by bv_omega
  have h4 : a + 4#32 ≠ a := by bv_omega
  split_ifs <;> first | rfl | bv_omega

theorem hookInstall_os (ha : OsWord (a + 4#32)) (ha' : OsWord a) (he : KernelWords h.endInstrs)
    (hx : OsWord x) :
    hookInstall a h mem x =
      if x = a then ldrPc else if x = a + 4#32 then h.hookname else mem x := by
  have hne := he.notAt_os hx
  rw [hookInstall_apply ha ha' he, if_neg hne.1, if_neg hne.2.1, if_neg hne.2.2.1,
    if_neg hne.2.2.2]

/-- **The trampoline of a hook.** -/
theorem hookInstall_endInstrs (ha : OsWord (a + 4#32)) (ha' : OsWord a)
    (he : KernelWords h.endInstrs) (mem : Mem) :
    hookInstall a h mem h.endInstrs = mem a ∧
      hookInstall a h mem (h.endInstrs + 4#32) = mem (a + 4#32) ∧
      hookInstall a h mem (h.endInstrs + 8#32) = ldrPc ∧
      hookInstall a h mem (h.endInstrs + 12#32) = a + 8#32 := by
  obtain ⟨e, name⟩ : ∃ e, e = h.endInstrs := ⟨_, rfl⟩
  simp only [hookInstall_apply ha ha' he, ← name]
  rw [← name] at he
  unfold OsWord at ha ha'
  obtain ⟨hlow, hhigh⟩ := he
  refine ⟨?_, ?_, ?_, ?_⟩ <;> split_ifs <;> first | rfl | bv_omega

theorem hookInstall_of_ne (ha : OsWord (a + 4#32)) (ha' : OsWord a)
    (he : KernelWords h.endInstrs) (hx : x ≠ a ∧ x ≠ a + 4#32) (hx' : NotAt h.endInstrs x) :
    hookInstall a h mem x = mem x := by
  rw [hookInstall_apply ha ha' he, if_neg hx.1, if_neg hx.2, if_neg hx'.1, if_neg hx'.2.1,
    if_neg hx'.2.2.1, if_neg hx'.2.2.2]

theorem hookUninstall_apply (ha : OsWord a) (he : KernelWords h.endInstrs) (x : Word) :
    hookUninstall a h mem x =
      if x = a then mem h.endInstrs
      else if x = a + 4#32 then mem (h.endInstrs + 4#32) else mem x := by
  obtain ⟨e, name⟩ : ∃ e, e = h.endInstrs := ⟨_, rfl⟩
  rw [← name] at he ⊢
  unfold OsWord at ha
  obtain ⟨hlow, hhigh⟩ := he
  unfold hookUninstall
  rw [← name]
  simp only [Function.update_apply]
  have h0 : e + 4#32 ≠ a := by bv_omega
  have h1 : a + 4#32 ≠ a := by bv_omega
  split_ifs <;> first | rfl | bv_omega

theorem writeInsts_apply (v : Insts) (x : Word) :
    writeInsts draw v mem x =
      if x = draw then v.inst0 else if x = draw + 4#32 then v.inst1
      else if x = draw + 8#32 then v.inst2 else if x = draw + 12#32 then v.inst3 else mem x := by
  unfold writeInsts
  simp only [Function.update_apply]
  split_ifs <;> first | rfl | bv_omega

theorem readInsts_writeInsts (draw : Word) (v : Insts) (mem : Mem) :
    readInsts draw (writeInsts draw v mem) = v := by
  unfold readInsts
  simp only [writeInsts_apply]
  have h1 : draw + 4#32 ≠ draw := by bv_omega
  have h2 : draw + 8#32 ≠ draw := by bv_omega
  have h3 : draw + 12#32 ≠ draw := by bv_omega
  have h4 : draw + 8#32 ≠ draw + 4#32 := by bv_omega
  have h5 : draw + 12#32 ≠ draw + 4#32 := by bv_omega
  have h6 : draw + 12#32 ≠ draw + 8#32 := by bv_omega
  simp only [if_true, if_neg h1, if_neg h2, if_neg h3, if_neg h4, if_neg h5, if_neg h6]

end

/-! ## A text and its copy -/

/-- What is in a place, and the copy made of it when something was put there. -/
structure Backup (α : Type) where
  current : α
  copy : α

/-- `j` is put in the place, or the copy again. -/
def Backup.step {α : Type} (j : α) (b : Backup α) : HookCall → Backup α
  | .install => ⟨j, b.current⟩
  | .uninstall => ⟨b.copy, b.copy⟩

def Backup.run {α : Type} (j : α) (b : Backup α) (calls : List HookCall) : Backup α :=
  calls.foldl (Backup.step j) b

/-- First `install`, and never `install` twice in a row. -/
def Orderly (calls : List HookCall) : Prop :=
  calls.head? = some .install ∧ calls.IsChain fun x y => ¬(x = .install ∧ y = .install)

/-- Called in turn: not at all, or orderly and `uninstall` last. -/
def InTurn (calls : List HookCall) : Prop :=
  calls = [] ∨ Orderly calls ∧ calls.getLast? = some .uninstall

section

variable {α : Type} {j w z : α}

theorem orderly_append {calls : List HookCall} (hne : calls ≠ []) (call : HookCall) :
    Orderly (calls ++ [call]) ↔
      Orderly calls ∧ ¬(calls.getLast? = some .install ∧ call = .install) := by
  have hhead : (calls ++ [call]).head? = calls.head? := by
    rw [List.head?_append]
    cases calls with
    | nil => exact absurd rfl hne
    | cons c calls => rfl
  unfold Orderly
  rw [hhead, List.isChain_append]
  constructor
  · rintro ⟨hfirst, hchain, -, hlast⟩
    exact ⟨⟨hfirst, hchain⟩, fun ⟨hl, hc⟩ => hlast _ hl _ rfl ⟨rfl, hc⟩⟩
  · rintro ⟨⟨hfirst, hchain⟩, hlast⟩
    refine ⟨hfirst, hchain, List.isChain_singleton _, ?_⟩
    rintro x hx y hy ⟨rfl, rfl⟩
    exact hlast ⟨hx, (Option.some.inj hy)⟩

/-- Whether the first text `w` is still there, after some calls. -/
inductive Kept (j w z : α) (calls : List HookCall) : Backup α → Prop where
  | fresh : calls = [] → Kept j w z calls ⟨w, z⟩
  | installed : Orderly calls → calls.getLast? = some .install → Kept j w z calls ⟨j, w⟩
  | restored : Orderly calls → calls.getLast? = some .uninstall → Kept j w z calls ⟨w, w⟩
  | lost {b} : calls ≠ [] → ¬Orderly calls →
      (j ≠ w → z ≠ w → b.current ≠ w ∧ b.copy ≠ w) → Kept j w z calls b

theorem Kept.step {calls : List HookCall} {b : Backup α} (h : Kept j w z calls b)
    (call : HookCall) : Kept j w z (calls ++ [call]) (b.step j call) := by
  have hlast : (calls ++ [call]).getLast? = some call := List.getLast?_concat
  have hne' : calls ++ [call] ≠ [] := by simp
  cases h with
  | fresh hnil =>
      subst hnil
      cases call with
      | install => exact .installed ⟨rfl, List.isChain_singleton _⟩ rfl
      | uninstall => exact .lost hne' (fun h => by simp [Orderly] at h) fun _ hz => ⟨hz, hz⟩
  | installed horderly hinstall =>
      have hne : calls ≠ [] := by
        rintro rfl
        cases hinstall
      cases call with
      | install =>
          exact .lost hne' (fun h => ((orderly_append hne _).mp h).2 ⟨hinstall, rfl⟩)
            fun hj _ => ⟨hj, hj⟩
      | uninstall =>
          exact .restored ((orderly_append hne _).mpr ⟨horderly, fun h => by cases h.2⟩) hlast
  | restored horderly huninstall =>
      have hne : calls ≠ [] := by
        rintro rfl
        cases huninstall
      have hmore : Orderly (calls ++ [call]) := by
        refine (orderly_append hne _).mpr ⟨horderly, fun h => ?_⟩
        rw [huninstall] at h
        cases h.1
      cases call with
      | install => exact .installed hmore hlast
      | uninstall => exact .restored hmore hlast
  | lost hne hnot hother =>
      have hnot' : ¬Orderly (calls ++ [call]) := fun h => hnot ((orderly_append hne _).mp h).1
      cases call with
      | install => exact .lost hne' hnot' fun hj hz => ⟨hj, (hother hj hz).1⟩
      | uninstall => exact .lost hne' hnot' fun hj hz => ⟨(hother hj hz).2, (hother hj hz).2⟩

theorem Kept.run (j w z : α) (calls : List HookCall) :
    Kept j w z calls (Backup.run j ⟨w, z⟩ calls) := by
  induction calls using List.reverseRecOn with
  | nil => exact .fresh rfl
  | append_singleton calls call ih =>
      unfold Backup.run at ih ⊢
      rw [List.foldl_append]
      exact ih.step call

theorem Backup.run_inTurn (j w z : α) {calls : List HookCall} (h : InTurn calls) :
    (Backup.run j ⟨w, z⟩ calls).current = w := by
  have hkept := Kept.run j w z calls
  generalize Backup.run j ⟨w, z⟩ calls = b at hkept ⊢
  rcases h with rfl | ⟨horderly, hlast⟩
  · cases hkept with
    | fresh => rfl
    | installed _ h => cases h
    | restored => rfl
    | lost hne => exact absurd rfl hne
  · cases hkept with
    | fresh => rfl
    | installed _ h =>
        rw [hlast] at h
        cases h
    | restored => rfl
    | lost _ hnot => exact absurd horderly hnot

/-- **The text is lost unless the calls come in turn.** -/
theorem Backup.inTurn_of_run (hj : j ≠ w) (hz : z ≠ w) {calls : List HookCall}
    (h : (Backup.run j ⟨w, z⟩ calls).current = w) : InTurn calls := by
  have hkept := Kept.run j w z calls
  generalize Backup.run j ⟨w, z⟩ calls = b at hkept h
  cases hkept with
  | fresh hnil => exact .inl hnil
  | installed => exact absurd h hj
  | restored horderly hlast => exact .inr ⟨horderly, hlast⟩
  | lost _ _ hother => exact absurd h (hother hj hz).1

end

/-! ## The two hooks as texts and copies -/

/-- The two words under the file hook. -/
def fileSite (adr : Word) (k : Kernel) (s : HookState) : Backup (Word × Word) where
  current := (s.mem adr, s.mem (adr + 4#32))
  copy := (s.mem k.filehook.endInstrs, s.mem (k.filehook.endInstrs + 4#32))

/-- The four words under the draw hook. -/
def drawSite (draw : Word) (s : HookState) : Backup Insts where
  current := readInsts draw s.mem
  copy := s.osDrawInst

/-- The file hook is in the OS, and the draw hook, if there is one, in another place of it. -/
structure Placed (adr draw : Word) : Prop where
  inFile : OsWord adr ∧ OsWord (adr + 4#32)
  inDraw : draw ≠ 0 → OsWord draw ∧ OsWord (draw + 12#32) ∧ draw.toNat ≤ (draw + 12#32).toNat
  apart : draw ≠ 0 → adr.toNat + 8 ≤ draw.toNat ∨ draw.toNat + 16 ≤ adr.toNat

section

variable {adr draw x : Word} {k : Kernel} {s : HookState}

theorem writeInsts_of_ne {v : Insts} {mem : Mem} (h : NotAt draw x) :
    writeInsts draw v mem x = mem x := by
  rw [writeInsts_apply, if_neg h.1, if_neg h.2.1, if_neg h.2.2.1, if_neg h.2.2.2]

theorem Placed.notAt (h : Placed adr draw) (hdraw : draw ≠ 0) :
    NotAt draw adr ∧ NotAt draw (adr + 4#32) := by
  have hle := (h.inDraw hdraw).2.2
  have hfile := h.inFile.1
  unfold OsWord at hfile
  have hadr : (adr + 4#32).toNat = adr.toNat + 4 := by bv_omega
  have hapart := h.apart hdraw
  exact ⟨notAt_of_apart hle (by omega), notAt_of_apart hle (by omega)⟩

theorem Placed.drawWords (h : Placed adr draw) (hdraw : draw ≠ 0) :
    OsWord (draw + 4#32) ∧ OsWord (draw + 8#32) := by
  obtain ⟨hos, hos12, hle⟩ := h.inDraw hdraw
  unfold OsWord at *
  exact ⟨by bv_omega, by bv_omega⟩

/-- No word of the OS is one of the kernel. -/
theorem Placed.notAt_kernel (h : Placed adr draw) (hdraw : draw ≠ 0) {e : Word}
    (he : 0xe0000000 ≤ e.toNat) : NotAt draw e := by
  obtain ⟨hos, hos12, hle⟩ := h.inDraw hdraw
  obtain ⟨hos4, hos8⟩ := h.drawWords hdraw
  unfold OsWord at *
  exact ⟨by bv_omega, by bv_omega, by bv_omega, by bv_omega⟩

/-- Outside of its site and its trampoline the draw hook changes nothing. -/
theorem installDrawhook_of_ne (h : Placed adr draw) (hk : k.Valid)
    (hx : draw ≠ 0 → NotAt draw x) (hx' : NotAt k.drawhook.endInstrs x) :
    (installDrawhook draw k s).mem x = s.mem x := by
  unfold installDrawhook
  split
  · rename_i hdraw
    have hne := hx hdraw
    show hookInstall draw k.drawhook (writeInsts draw nops s.mem) x = _
    rw [hookInstall_of_ne (h.drawWords hdraw).1 (h.inDraw hdraw).1 hk.draw ⟨hne.1, hne.2.1⟩ hx',
      writeInsts_of_ne hne]
  · rfl

theorem uninstallDrawhook_of_ne (h : Placed adr draw) (hk : k.Valid)
    (hx : draw ≠ 0 → NotAt draw x) : (uninstallDrawhook draw k s).mem x = s.mem x := by
  unfold uninstallDrawhook
  split
  · rename_i hdraw
    have hne := hx hdraw
    show writeInsts draw s.osDrawInst (hookUninstall draw k.drawhook s.mem) x = _
    rw [writeInsts_of_ne hne, hookUninstall_apply (h.inDraw hdraw).1 hk.draw, if_neg hne.1,
      if_neg hne.2.1]
  · rfl

/-- The words of the file hook, in the OS and in the kernel, are none of the draw hook. -/
theorem Placed.file_apart (h : Placed adr draw) (hk : k.Valid) :
    ∀ x ∈ [adr, adr + 4#32, k.filehook.endInstrs, k.filehook.endInstrs + 4#32],
      (draw ≠ 0 → NotAt draw x) ∧ NotAt k.drawhook.endInstrs x := by
  obtain ⟨hlow, hhigh⟩ := hk.file
  have hapart := hk.apart
  have hend : k.drawhook.endInstrs.toNat ≤ (k.drawhook.endInstrs + 12#32).toNat := by
    have hdraw := hk.draw.high
    bv_omega
  have hfile : (k.filehook.endInstrs + 4#32).toNat = k.filehook.endInstrs.toNat + 4 := by bv_omega
  intro x hx
  simp only [List.mem_cons, List.not_mem_nil, or_false] at hx
  rcases hx with rfl | rfl | rfl | rfl
  · exact ⟨fun hdraw => (h.notAt hdraw).1, hk.draw.notAt_os h.inFile.1⟩
  · exact ⟨fun hdraw => (h.notAt hdraw).2, hk.draw.notAt_os h.inFile.2⟩
  · exact ⟨fun hdraw => h.notAt_kernel hdraw hlow, notAt_of_apart hend (by omega)⟩
  · exact ⟨fun hdraw => h.notAt_kernel hdraw (by omega), notAt_of_apart hend (by omega)⟩

/-! ### The file hook -/

theorem fileSite_congr {s s' : HookState}
    (h : ∀ x ∈ [adr, adr + 4#32, k.filehook.endInstrs, k.filehook.endInstrs + 4#32],
      s'.mem x = s.mem x) : fileSite adr k s' = fileSite adr k s := by
  unfold fileSite
  rw [h adr (by simp), h (adr + 4#32) (by simp), h k.filehook.endInstrs (by simp),
    h (k.filehook.endInstrs + 4#32) (by simp)]

theorem fileSite_step {osversion : Nat} (hadr : adr = osValue osversion filehookAddrs)
    (hdraw : draw = osValue osversion osDrawAddrs) (hne : adr ≠ 0) (h : Placed adr draw)
    (hk : k.Valid) (call : HookCall) :
    fileSite adr k (hookStep osversion k s call) =
      (fileSite adr k s).step (ldrPc, k.filehook.hookname) call := by
  have hother := h.file_apart hk
  cases call with
  | install =>
      have hstep : hookStep osversion k s .install =
          installDrawhook draw k { s with mem := hookInstall adr k.filehook s.mem } := by
        unfold hookStep installHooks installFilehook
        simp only [← hadr, ← hdraw, if_pos hne]
      rw [hstep, fileSite_congr fun x hx =>
        installDrawhook_of_ne h hk (hother x hx).1 (hother x hx).2]
      obtain ⟨h0, h1, -, -⟩ :=
        hookInstall_endInstrs h.inFile.2 h.inFile.1 hk.file s.mem
      have hself : adr + 4#32 ≠ adr := by bv_omega
      unfold fileSite Backup.step
      simp only [h0, h1, hookInstall_os h.inFile.2 h.inFile.1 hk.file h.inFile.1,
        hookInstall_os h.inFile.2 h.inFile.1 hk.file h.inFile.2, if_true, if_neg hself]
  | uninstall =>
      have hstep : hookStep osversion k s .uninstall =
          uninstallDrawhook draw k { s with mem := hookUninstall adr k.filehook s.mem } := by
        unfold hookStep uninstallHooks uninstallFilehook
        simp only [← hadr, ← hdraw, if_pos hne]
      rw [hstep, fileSite_congr fun x hx => uninstallDrawhook_of_ne h hk (hother x hx).1]
      have hself : adr + 4#32 ≠ adr := by bv_omega
      obtain ⟨hlow, hhigh⟩ := hk.file
      have hos := h.inFile
      unfold OsWord at hos
      have h0 : k.filehook.endInstrs ≠ adr := by bv_omega
      have h1 : k.filehook.endInstrs ≠ adr + 4#32 := by bv_omega
      have h2 : k.filehook.endInstrs + 4#32 ≠ adr := by bv_omega
      have h3 : k.filehook.endInstrs + 4#32 ≠ adr + 4#32 := by bv_omega
      unfold fileSite Backup.step
      simp only [hookUninstall_apply h.inFile.1 hk.file, if_true, if_neg hself, if_neg h0,
        if_neg h1, if_neg h2, if_neg h3]

/-! ### The draw hook -/

/-- The words of the OS outside of the site of the file hook. -/
theorem installFilehook_of_ne (h : Placed adr draw) (hk : k.Valid) (hos : OsWord x)
    (hx : x ≠ adr ∧ x ≠ adr + 4#32) : (installFilehook adr k s).mem x = s.mem x := by
  unfold installFilehook
  split
  · exact hookInstall_of_ne h.inFile.2 h.inFile.1 hk.file hx (hk.file.notAt_os hos)
  · rfl

theorem uninstallFilehook_of_ne (h : Placed adr draw) (hk : k.Valid)
    (hx : x ≠ adr ∧ x ≠ adr + 4#32) : (uninstallFilehook adr k s).mem x = s.mem x := by
  unfold uninstallFilehook
  split
  · show hookUninstall adr k.filehook s.mem x = _
    rw [hookUninstall_apply h.inFile.1 hk.file, if_neg hx.1, if_neg hx.2]
  · rfl

/-- The four words of the draw hook, none of them the file hook's. -/
theorem Placed.draw_apart (h : Placed adr draw) (hdraw : draw ≠ 0) :
    ∀ x ∈ [draw, draw + 4#32, draw + 8#32, draw + 12#32],
      OsWord x ∧ x ≠ adr ∧ x ≠ adr + 4#32 := by
  obtain ⟨hos, hos12, -⟩ := h.inDraw hdraw
  obtain ⟨hos4, hos8⟩ := h.drawWords hdraw
  obtain ⟨⟨h0, h1, h2, h3⟩, ⟨h4, h5, h6, h7⟩⟩ := h.notAt hdraw
  intro x hx
  simp only [List.mem_cons, List.not_mem_nil, or_false] at hx
  rcases hx with rfl | rfl | rfl | rfl
  · exact ⟨hos, h0.symm, h4.symm⟩
  · exact ⟨hos4, h1.symm, h5.symm⟩
  · exact ⟨hos8, h2.symm, h6.symm⟩
  · exact ⟨hos12, h3.symm, h7.symm⟩

theorem readInsts_congr {mem mem' : Mem}
    (h : ∀ x ∈ [draw, draw + 4#32, draw + 8#32, draw + 12#32], mem' x = mem x) :
    readInsts draw mem' = readInsts draw mem := by
  unfold readInsts
  rw [h draw (by simp), h (draw + 4#32) (by simp), h (draw + 8#32) (by simp),
    h (draw + 12#32) (by simp)]

/-- What is in the place of the four instructions. -/
def drawInsts (k : Kernel) : Insts := ⟨ldrPc, k.drawhook.hookname, nop, nop⟩

theorem drawSite_step {osversion : Nat} (hadr : adr = osValue osversion filehookAddrs)
    (hdraw : draw = osValue osversion osDrawAddrs) (hne : draw ≠ 0) (h : Placed adr draw)
    (hk : k.Valid) (call : HookCall) :
    drawSite draw (hookStep osversion k s call) = (drawSite draw s).step (drawInsts k) call := by
  have hother := h.draw_apart hne
  obtain ⟨hos, hos12, -⟩ := h.inDraw hne
  obtain ⟨hos4, hos8⟩ := h.drawWords hne
  cases call with
  | install =>
      obtain ⟨s1, hs1⟩ : ∃ s1, s1 = installFilehook adr k s := ⟨_, rfl⟩
      have hread : readInsts draw s1.mem = readInsts draw s.mem :=
        readInsts_congr fun x hx =>
          hs1 ▸ installFilehook_of_ne h hk (hother x hx).1 (hother x hx).2
      have hstep : hookStep osversion k s .install =
          { mem := hookInstall draw k.drawhook (writeInsts draw nops s1.mem),
            osDrawInst := readInsts draw s1.mem, drawhookEnabled := true } := by
        unfold hookStep installHooks installDrawhook
        simp only [← hadr, ← hdraw, if_pos hne, hs1]
      have hnops := readInsts_writeInsts draw nops s1.mem
      have h8 : draw + 8#32 ≠ draw := by bv_omega
      have h84 : draw + 8#32 ≠ draw + 4#32 := by bv_omega
      have h12 : draw + 12#32 ≠ draw := by bv_omega
      have h124 : draw + 12#32 ≠ draw + 4#32 := by bv_omega
      have h4 : draw + 4#32 ≠ draw := by bv_omega
      obtain ⟨-, -, hnop8, hnop12⟩ := Insts.mk.inj hnops
      rw [hstep]
      unfold drawSite Backup.step
      simp only [hread]
      congr 1
      unfold readInsts drawInsts
      simp only [hookInstall_os hos4 hos hk.draw hos, hookInstall_os hos4 hos hk.draw hos4,
        hookInstall_os hos4 hos hk.draw hos8, hookInstall_os hos4 hos hk.draw hos12, if_true,
        if_neg h4, if_neg h8, if_neg h84, if_neg h12, if_neg h124, hnop8, hnop12]
  | uninstall =>
      obtain ⟨s1, hs1⟩ : ∃ s1, s1 = uninstallFilehook adr k s := ⟨_, rfl⟩
      have hcopy : s1.osDrawInst = s.osDrawInst := by
        rw [hs1, uninstallFilehook]
        split <;> rfl
      have hstep : hookStep osversion k s .uninstall =
          { s1 with
            mem := writeInsts draw s1.osDrawInst (hookUninstall draw k.drawhook s1.mem),
            drawhookEnabled := false } := by
        unfold hookStep uninstallHooks uninstallDrawhook
        simp only [← hadr, ← hdraw, if_pos hne, hs1]
      rw [hstep]
      unfold drawSite Backup.step
      simp only [readInsts_writeInsts, hcopy]

/-! ### The rest of the OS -/

theorem hookStep_of_ne {osversion : Nat} (hadr : adr = osValue osversion filehookAddrs)
    (hdraw : draw = osValue osversion osDrawAddrs) (h : Placed adr draw) (hk : k.Valid)
    (hos : OsWord x) (hx : x ≠ adr ∧ x ≠ adr + 4#32) (hx' : draw ≠ 0 → NotAt draw x)
    (call : HookCall) : (hookStep osversion k s call).mem x = s.mem x := by
  cases call with
  | install =>
      show (installDrawhook _ k (installFilehook _ k s)).mem x = _
      rw [← hadr, ← hdraw, installDrawhook_of_ne h hk hx' (hk.draw.notAt_os hos),
        installFilehook_of_ne h hk hos hx]
  | uninstall =>
      show (uninstallDrawhook _ k (uninstallFilehook _ k s)).mem x = _
      rw [← hadr, ← hdraw, uninstallDrawhook_of_ne h hk hx', uninstallFilehook_of_ne h hk hx]

end

/-! ## Runs -/

/-- The versions of the OS that are hooked. -/
def Hooked (osversion : Nat) : Prop := osversion = 28 ∨ osversion = 29

theorem osValue_hooked {osversion : Nat} (h : Hooked osversion) :
    osValue osversion filehookAddrs ≠ 0 ∧
      Placed (osValue osversion filehookAddrs) (osValue osversion osDrawAddrs) := by
  unfold Hooked at h
  rcases h with rfl | rfl
  · refine ⟨by decide, ⟨by unfold OsWord; decide, by unfold OsWord; decide⟩, ?_, ?_⟩ <;>
      exact fun h => absurd rfl h
  · refine ⟨by decide, ⟨by unfold OsWord; decide, by unfold OsWord; decide⟩, fun _ => ?_,
      fun _ => .inl (by decide)⟩
    exact ⟨by unfold OsWord; decide, by unfold OsWord; decide, by decide⟩

theorem osValue_other {osversion : Nat} (h : ¬Hooked osversion) :
    osValue osversion filehookAddrs = 0 ∧ osValue osversion osDrawAddrs = 0 := by
  unfold Hooked at h
  by_cases hlt : osversion < 32
  · interval_cases osversion <;> first | exact ⟨rfl, rfl⟩ | omega
  · unfold osValue
    have hle : 32 ≤ osversion := by omega
    exact ⟨if_pos hle, if_pos hle⟩

section

variable {osversion : Nat} {k : Kernel}

theorem hookRun_nil (s : HookState) : hookRun osversion k s [] = s := rfl

theorem hookRun_append (s : HookState) (calls : List HookCall) (call : HookCall) :
    hookRun osversion k s (calls ++ [call]) =
      hookStep osversion k (hookRun osversion k s calls) call :=
  List.foldl_concat _ _ _ _

theorem Backup.run_append {α : Type} {j : α} (b : Backup α) (calls : List HookCall)
    (call : HookCall) : b.run j (calls ++ [call]) = (b.run j calls).step j call :=
  List.foldl_concat _ _ _ _

theorem hookRun_other (h : ¬Hooked osversion) (s : HookState) (calls : List HookCall) :
    hookRun osversion k s calls = s := by
  obtain ⟨hadr, hdraw⟩ := osValue_other h
  induction calls using List.reverseRecOn with
  | nil => rfl
  | append_singleton calls call ih =>
      rw [hookRun_append, ih]
      cases call <;>
        simp [hookStep, installHooks, uninstallHooks, installFilehook, installDrawhook,
          uninstallFilehook, uninstallDrawhook, hadr, hdraw]

/-- **Both sites go through the calls as texts with their copies**, and the rest of the OS stays. -/
theorem hookRun_sites (h : Hooked osversion) (hk : k.Valid) (s : HookState)
    (calls : List HookCall) :
    fileSite (osValue osversion filehookAddrs) k (hookRun osversion k s calls) =
        (fileSite (osValue osversion filehookAddrs) k s).run (ldrPc, k.filehook.hookname) calls ∧
      (osValue osversion osDrawAddrs ≠ 0 →
        drawSite (osValue osversion osDrawAddrs) (hookRun osversion k s calls) =
          (drawSite (osValue osversion osDrawAddrs) s).run (drawInsts k) calls) ∧
      ∀ x, OsWord x →
        x ≠ osValue osversion filehookAddrs ∧ x ≠ osValue osversion filehookAddrs + 4#32 →
        (osValue osversion osDrawAddrs ≠ 0 → NotAt (osValue osversion osDrawAddrs) x) →
        (hookRun osversion k s calls).mem x = s.mem x := by
  obtain ⟨hne, hplaced⟩ := osValue_hooked h
  induction calls using List.reverseRecOn with
  | nil => exact ⟨rfl, fun _ => rfl, fun _ _ _ _ => rfl⟩
  | append_singleton calls call ih =>
      obtain ⟨hfile, hdraw, hrest⟩ := ih
      rw [hookRun_append, Backup.run_append, Backup.run_append]
      refine ⟨?_, fun hne' => ?_, fun x hos hx hx' => ?_⟩
      · rw [fileSite_step rfl rfl hne hplaced hk, hfile]
      · rw [drawSite_step rfl rfl hne' hplaced hk, hdraw hne']
      · rw [hookStep_of_ne rfl rfl hplaced hk hos hx hx', hrest x hos hx hx']

/-- The kernel's words before the first call. -/
structure Unused (k : Kernel) (s : HookState) : Prop where
  file : s.mem k.filehook.endInstrs = 0
  draw : s.osDrawInst = ⟨0, 0, 0, 0⟩

/-- A kernel that has just been loaded, and an OS of nops. -/
def freshKernel : Kernel := ⟨⟨0xe0100000#32, 0xe0200000#32⟩, ⟨0xe0100100#32, 0xe0200010#32⟩⟩

def freshHooks : HookState where
  mem := fun x => if x.toNat < 0xe0000000 then nop else 0
  osDrawInst := ⟨0, 0, 0, 0⟩
  drawhookEnabled := false

theorem freshKernel_valid : freshKernel.Valid :=
  ⟨⟨by decide, by decide⟩, ⟨by decide, by decide⟩, by decide⟩

end

end OSExt.Hooks
