import OSExt.Boot.RelocatedKernel

/-!
# The copy for recovery

`recovery_init` moves the kernel once more, to a place behind it. The variable `recovery` is
set while the kernel is copied, so that **the copy is the one that knows it is there for
recovery**.
-/

namespace OSExt.Boot

open Lib Memory Elf Bytes

/-- `recovery_start` -/
def recoveryStart (kernelSize : Nat) : Nat :=
  u32 (makeSmallPageAligned (u32 (virtualBaseAddress + kernelSize + smallPageSize * 2)) +
    sectionSize)

/-- `recovery_init` of a kernel at the virtual base address that has its variable `recovery` at
the offset; `phys` is what there is of pages for the copy. -/
def recoveryInit (k : Linked) (fuel recovery : Nat) (phys : Option Nat) :
    Call Bytes MoveStop Bool := do
  let address ← gets (k.address virtualBaseAddress)
  let kernelSize := difference (address .execSize) (address .execStart)
  match phys with
  | none => pure false
  | some _ => do
    update fun ram => Function.update ram (virtualBaseAddress + recovery) 1
    moveKernel k fuel virtualBaseAddress virtualBaseAddress (recoveryStart kernelSize)
    update fun ram => Function.update ram (virtualBaseAddress + recovery) 0
    pure true

namespace Linked

variable {k : Linked} {fuel : Nat} {ram : Bytes}

theorem recoveryStart_eq (h : virtualBaseAddress + k.size + 0x104000 < 0xFFFFFFFF) :
    virtualBaseAddress + k.size ≤ recoveryStart k.size ∧
      recoveryStart k.size ≤ virtualBaseAddress + k.size + 0x103000 := by
  unfold recoveryStart makeSmallPageAligned u32 virtualBaseAddress smallPageSize sectionSize at *
  split <;> omega

end Linked

end OSExt.Boot
