import OSExt.Boot.ZehnLoading
import OSExt.Memory.BootMapping

/-!
# The kernel moves itself

The kernel is linked for address 0, and its code reaches everything through its global
offset table. `relocate_self` copies it to the virtual base address and goes through the
table of the copy.

The distances come from variables of the linker that are read through the same table, and so
are off by the address the kernel runs at: **only their differences are what was linked**,
and these are all that is used. A kernel that runs at one place runs at the other after a
move.

The page tables of the copy are left aside here: the memory is the one that is seen
through them.
-/

namespace OSExt.Boot

open Lib Memory Elf Bytes

/-! ## The kernel as it is linked -/

/-- What the kernel reads of the linker. -/
inductive LinkerVar where
  | main
  | execStart
  | execSize
  | gotStart
deriving DecidableEq

/-- A kernel linked for address 0, with its global offset table. -/
structure Linked where
  /-- the words of the table -/
  entries : List Nat
  /-- `_GOT_START` -/
  got : Nat
  /-- `_EXEC_SIZE` -/
  size : Nat
  main : Nat
  /-- where the table has the variables -/
  slot : LinkerVar → Nat
  slot_main : entries[slot .main]? = some main
  slot_execStart : entries[slot .execStart]? = some 0
  slot_execSize : entries[slot .execSize]? = some size
  slot_gotStart : entries[slot .gotStart]? = some got
  entries_le : ∀ e ∈ entries, e ≤ size
  got_le : got + 4 * (entries.length + 1) ≤ size

namespace Linked

variable (k : Linked)

/-- The address of a variable, for a kernel that runs at `base`. -/
def address (base : Nat) (ram : Bytes) (v : LinkerVar) : Nat :=
  word ram (u32 (base + k.got + 4 * k.slot v))

end Linked

/-- A difference of pointers. -/
def difference (a b : Nat) : Nat := u32 (a + (4294967296 - u32 b))

inductive MoveStop where
  | notEnoughMemory
  | outOfFuel
deriving DecidableEq

/-- A kernel that runs at `base` is copied from `src` to `dst`, and the table of the copy is
gone through. -/
def moveKernel (k : Linked) (fuel base src dst : Nat) : Call Bytes MoveStop Unit := do
  let address ← gets (k.address base)
  let kernelSize := difference (address .execSize) (address .execStart)
  let gotOffset := difference (address .gotStart) (address .execStart)
  update fun ram => Bytes.copy 4294967296 ram dst src kernelSize
  let fixed ← gets (addUntil 4294967296 4 (difference dst (address .execStart)) 0xFFFFFFFF fuel
    (u32 (dst + gotOffset)))
  match fixed with
  | none => stop .outOfFuel
  | some ram => update fun _ => ram

/-- `relocate_self`, for what `ti_malloc` and `ti_calloc` return: the entry point of the copy -/
def relocateSelf (k : Linked) (fuel base mallocedChunk initPdsUnaligned : Nat) :
    Call Bytes MoveStop Nat := do
  let address ← gets (k.address base)
  let offset := difference (address .main) (address .execStart)
  if mallocedChunk = 0 then stop .notEnoughMemory
  else if initPdsUnaligned = 0 then stop .notEnoughMemory
  else do
    moveKernel k fuel base (address .execStart) virtualBaseAddress
    pure (u32 (virtualBaseAddress + offset))

/-! ## Running at an address -/

namespace Linked

/-- The kernel can run at `base`: its table is the one for this address. -/
structure RunsAt (k : Linked) (base : Nat) (ram : Bytes) : Prop where
  entry : ∀ i (h : i < k.entries.length),
    word ram (base + (k.got + 4 * i)) = base + k.entries[i]
  ends : word ram (base + (k.got + 4 * k.entries.length)) = 0xFFFFFFFF
  fits : base + k.size < 0xFFFFFFFF

/-- At `dst` is what was at `base`, with the table for `dst`; nothing else has changed. -/
structure Moved (k : Linked) (base dst : Nat) (ram ram' : Bytes) : Prop where
  runs : k.RunsAt dst ram'
  copy : ∀ x < k.size, x < k.got ∨ k.got + 4 * k.entries.length ≤ x →
    ram' (dst + x) = ram (base + x)
  frame : ∀ x, x < dst ∨ dst + k.size ≤ x → ram' x = ram x

variable {k : Linked} {base dst fuel : Nat} {ram ram' : Bytes}

/-- **The variables of the linker** are off by where the kernel runs. -/
theorem RunsAt.address (h : k.RunsAt base ram) {v : LinkerVar} {e : Nat}
    (hv : k.entries[k.slot v]? = some e) : k.address base ram v = base + e := by
  obtain ⟨hi, he⟩ := List.getElem?_eq_some_iff.mp hv
  have hgot := k.got_le
  have hfits := h.fits
  unfold Linked.address
  rw [u32_of_lt (by omega), Nat.add_assoc, h.entry _ hi, he]

theorem RunsAt.table (h : k.RunsAt base ram) :
    Table 4294967296 4 0xFFFFFFFF ram (base + k.got) k.entries.length where
  entry i hi := by
    have hle := k.entries_le _ (List.getElem_mem hi)
    have hfits := h.fits
    rw [Nat.add_assoc]
    refine fun heq => absurd ((h.entry i hi).symm.trans heq) ?_
    omega
  ends := by
    rw [Nat.add_assoc]
    exact h.ends
  fits := by
    have hgot := k.got_le
    have hfits := h.fits
    omega

/-- A kernel runs as long as its table stays. -/
theorem RunsAt.congr (h : k.RunsAt base ram)
    (hsame : ∀ x, base + k.got ≤ x → x < base + k.got + 4 * (k.entries.length + 1) →
      ram' x = ram x) : k.RunsAt base ram' := by
  have hgot := k.got_le
  have hfits := h.fits
  have hword : ∀ i ≤ k.entries.length,
      word ram' (base + (k.got + 4 * i)) = word ram (base + (k.got + 4 * i)) := by
    intro i hi
    exact number_same (by omega) fun x hx hxw => hsame x (by omega) (by omega)
  exact ⟨fun i hi => (hword i hi.le).trans (h.entry i hi), (hword _ le_rfl).trans h.ends, hfits⟩

theorem RunsAt.update (h : k.RunsAt base ram) {x : Nat} (b : UInt8)
    (hx : x < base + k.got ∨ base + k.got + 4 * (k.entries.length + 1) ≤ x) :
    k.RunsAt base (Function.update ram x b) := by
  refine h.congr fun y hy hyx => Function.update_of_ne ?_ ..
  omega

/-- `_EXEC_START` is 0 where the kernel is linked. -/
theorem RunsAt.execStart (h : k.RunsAt base ram) : k.address base ram .execStart = base :=
  h.address k.slot_execStart

/-- Differences of the variables are what was linked. -/
theorem RunsAt.offset (h : k.RunsAt base ram) {v : LinkerVar} {e : Nat}
    (hv : k.entries[k.slot v]? = some e) :
    difference (k.address base ram v) (k.address base ram .execStart) = e := by
  have hle := k.entries_le e (List.mem_of_getElem? hv)
  have hfits := h.fits
  rw [h.address hv, h.execStart]
  unfold difference u32
  omega

/-- The kernel copied. -/
theorem copy_word (hbase : base + k.size ≤ dst) (hfits : dst + k.size < 0xFFFFFFFF) {a : Nat}
    (ha : a + 4 ≤ k.size) :
    word (Bytes.copy 4294967296 ram dst base k.size) (dst + a) = word ram (base + a) := by
  refine number_congr fun i hi => ?_
  rw [Nat.mod_eq_of_lt (by omega), Nat.mod_eq_of_lt (by omega),
    copy_apply (by omega) (by omega) (Or.inl hbase), if_pos ⟨by omega, by omega⟩]
  exact congrArg ram (by omega)

/-- The distance added to the table of the copy. -/
def tableEdits (k : Linked) (base dst : Nat) : List Edit :=
  (wordsFrom 4 (dst + k.got) k.entries.length).map fun a => (a, (· + (dst - base)))

theorem mem_tableEdits {e : Edit} : e ∈ k.tableEdits base dst ↔
    ∃ i < k.entries.length, e = (dst + (k.got + 4 * i), (· + (dst - base))) := by
  unfold tableEdits
  rw [List.mem_map]
  constructor
  · rintro ⟨a, ha, rfl⟩
    obtain ⟨i, hi, rfl⟩ := mem_wordsFrom.mp ha
    exact ⟨i, hi, by rw [Nat.add_assoc]⟩
  · rintro ⟨i, hi, rfl⟩
    exact ⟨_, mem_wordsFrom.mpr ⟨i, hi, rfl⟩, by rw [Nat.add_assoc]⟩

/-- What the move leaves. -/
theorem RunsAt.moved (h : k.RunsAt base ram) (hapart : base + k.size ≤ dst)
    (hfits : dst + k.size < 0xFFFFFFFF) :
    k.Moved base dst ram (editAll 4294967296 4 (k.tableEdits base dst)
      (Bytes.copy 4294967296 ram dst base k.size)) := by
  have hgot := k.got_le
  have hbase := h.fits
  have hedited : ∀ size, Edited 4294967296 4 size (k.tableEdits base dst)
      (Bytes.copy 4294967296 ram dst base k.size) _ := fun size => by
    refine edited_editAll _ _ ?_ fun e he => ?_
    · exact List.pairwise_map.mpr (apart_wordsFrom _)
    · obtain ⟨i, hi, rfl⟩ := mem_tableEdits.mp he
      show dst + (k.got + 4 * i) + 4 ≤ 4294967296
      omega
  -- what is not in a word of the table is as it was copied
  have hrest : ∀ x, x < dst + k.got ∨ dst + k.got + 4 * k.entries.length ≤ x →
      editAll 4294967296 4 (k.tableEdits base dst)
        (Bytes.copy 4294967296 ram dst base k.size) x =
      Bytes.copy 4294967296 ram dst base k.size x := by
    intro x hx
    refine (hedited (x + 1)).rest x (Nat.lt_succ_self x) fun e he => ?_
    obtain ⟨i, hi, rfl⟩ := mem_tableEdits.mp he
    show x < dst + (k.got + 4 * i) ∨ dst + (k.got + 4 * i) + 4 ≤ x
    omega
  refine ⟨⟨fun i hi => ?_, ?_, hfits⟩, fun x hx hout => ?_, fun x hx => ?_⟩
  · have hword := (hedited 0).word _ (mem_tableEdits.mpr ⟨i, hi, rfl⟩)
    have hle := k.entries_le _ (List.getElem_mem hi)
    refine hword.trans ?_
    show (word (Bytes.copy 4294967296 ram dst base k.size) (dst + (k.got + 4 * i)) + (dst - base)) %
      256 ^ 4 = _
    rw [copy_word hapart hfits (by omega), h.entry i hi]
    omega
  · refine (number_same (by omega) fun x hx _ => hrest x (by omega)).trans ?_
    exact (copy_word hapart hfits (by omega)).trans h.ends
  · rw [hrest _ (by omega), copy_apply (by omega) (by omega) (Or.inl hapart),
      if_pos ⟨by omega, by omega⟩, Nat.add_sub_cancel_left]
  · rw [hrest _ (by omega), copy_apply (by omega) (by omega) (Or.inl hapart),
      if_neg (by omega)]

theorem RunsAt.copied_table (h : k.RunsAt base ram) (hapart : base + k.size ≤ dst)
    (hfits : dst + k.size < 0xFFFFFFFF) :
    Table 4294967296 4 0xFFFFFFFF (Bytes.copy 4294967296 ram dst base k.size) (dst + k.got)
      k.entries.length := by
  have hgot := k.got_le
  have hold := h.table
  refine ⟨fun i hi => ?_, ?_, by omega⟩
  · refine fun heq => hold.entry i hi ?_
    rw [Nat.add_assoc] at heq ⊢
    exact (copy_word hapart hfits (by omega)).symm.trans heq
  · rw [Nat.add_assoc]
    exact (copy_word hapart hfits (by omega)).trans h.ends

/-- **Moving the kernel**: where it runs, its copy runs at the other place. -/
theorem moveKernel_spec (h : k.RunsAt base ram) (hapart : base + k.size ≤ dst)
    (hfits : dst + k.size < 0xFFFFFFFF) (hfuel : k.size ≤ fuel) :
    ∃ ram', moveKernel k fuel base base dst ram = (.ok (), ram') ∧ k.Moved base dst ram ram' := by
  have hgot := k.got_le
  have hdist : difference dst base = dst - base := by
    unfold difference u32
    omega
  have hscan := addUntil_table (dst - base) (by omega) (h.copied_table hapart hfits)
    (by omega : _ < fuel)
  refine ⟨_, ?_, h.moved hapart hfits⟩
  refine bind_ok.mpr ⟨_, ram, rfl, ?_⟩
  rw [h.offset k.slot_execSize, h.offset k.slot_gotStart, h.execStart, hdist,
    u32_of_lt (show dst + k.got < 4294967296 by omega)]
  refine bind_ok.mpr ⟨(), _, rfl, bind_ok.mpr ⟨_, _, rfl, ?_⟩⟩
  rw [hscan]
  rfl

/-- **`relocate_self`** makes the kernel run at the virtual base address. -/
theorem relocateSelf_moves {mallocedChunk initPdsUnaligned : Nat} (h : k.RunsAt base ram)
    (hapart : base + k.size ≤ virtualBaseAddress)
    (hfits : virtualBaseAddress + k.size < 0xFFFFFFFF) (hfuel : k.size ≤ fuel)
    (hchunk : mallocedChunk ≠ 0) (hpds : initPdsUnaligned ≠ 0) :
    ∃ ram', relocateSelf k fuel base mallocedChunk initPdsUnaligned ram =
        (.ok (virtualBaseAddress + k.main), ram') ∧
      k.Moved base virtualBaseAddress ram ram' := by
  have hmain := k.entries_le _ (List.mem_of_getElem? k.slot_main)
  obtain ⟨ram', hmove, hmoved⟩ := moveKernel_spec h hapart hfits hfuel
  refine ⟨ram', bind_ok.mpr ⟨_, ram, rfl, ?_⟩, hmoved⟩
  rw [h.offset k.slot_main, if_neg hchunk, if_neg hpds, h.execStart, u32_of_lt (by omega)]
  exact bind_ok.mpr ⟨(), ram', hmove, pure_ok.mpr ⟨rfl, rfl⟩⟩

end Linked

end OSExt.Boot
