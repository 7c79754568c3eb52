import OSExt.Memory.SlabPaths

/-!
# The flags around the slab allocator

Only `growCache` touches the status register, in a critical section. Allocating from a
cache may grow it, and growing it allocates from others, each of which may grow in turn;
so the sections nest to any depth, and each leaves the register as it found it.
-/

namespace OSExt.Memory

open Lib Libk

/-- The call returns with the status register as it was. -/
abbrev KeepsCpsr {α : Type} (x : KernelM α) : Prop := Leaves Kernel.cpsr x

/-- **A critical section** whose work leaves the register alone. -/
theorem irqSection_keepsCpsr {α : Type} {work : IrqState → KernelM α}
    (h : ∀ irqS, KeepsCpsr (work irqS)) : KeepsCpsr (irqSection work) := by
  refine ⟨fun k a k' hk => ?_⟩
  obtain ⟨irqS, k1, hsave, hk1⟩ := bind_ok.mp hk
  obtain ⟨_, k2, hdisable, hk2⟩ := bind_ok.mp hk1
  obtain ⟨result, k3, hwork, hk3⟩ := bind_ok.mp hk2
  obtain ⟨_, k4, hrestore, hk4⟩ := bind_ok.mp hk3
  obtain ⟨hirqS, rfl⟩ := gets_ok.mp hsave
  have h2 : k2.cpsr = irqDisable k.cpsr := by rw [← update_ok.mp hdisable]; rfl
  have h3 : k3.cpsr = irqDisable k.cpsr := ((h _).same _ _ _ hwork).trans h2
  obtain ⟨_, rfl⟩ := pure_ok.mp hk4
  have h4 : k4.cpsr = irqRestoreState irqS k3.cpsr := by rw [← update_ok.mp hrestore]; rfl
  rw [h4, h3, ← hirqS, irqRestoreState_irqDisable]

/-- Nothing else is in the register. -/
instance : GrowthWrites (Unchanged Kernel.cpsr) where
  setMem _ _ := rfl
  setSlab _ _ _ := rfl
  setCache _ _ _ := rfl
  logs _ _ _ _ _ := rfl
  setSpace _ _ := rfl
  setPages _ _ := rfl
  stray _ _ := rfl
  heap _ _ := rfl

theorem kfreeHint_keepsCpsr (obj fuel size : Nat) : KeepsCpsr (kfreeHint fuel obj size) :=
  (kfreeHint_leads obj fuel size).leaves

theorem growWith_keepsCpsr {calls : SlabCalls} (hcalls : calls.Lead (Unchanged Kernel.cpsr))
    (env : Env) (fuel c : Nat) : KeepsCpsr (growWith env calls fuel c) :=
  irqSection_keepsCpsr fun irqS => (growWork_leads env hcalls fuel c irqS).leaves

/-- **Growing a cache** leaves the status register as it was, however deep growing and
allocating are nested. -/
theorem growCache_keepsCpsr (env : Env) (fuel c : Nat) : KeepsCpsr (growCache env fuel c) :=
  (growCache_leads env (fun hcalls fuel c => (growWith_keepsCpsr hcalls env fuel c).leads)
    fuel c).leaves

end OSExt.Memory
