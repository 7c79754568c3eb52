import OSExt.Lib.Nesting
import OSExt.Memory.PageTableLists

/-!
# Into the kernel's address space and back

`intoKernelSpaceSaveAddressSpace` and `restoreAddressSpace` bracket what must run under the
kernel's translation table. There is one slot for the table to go back to, and a test that
makes an inner pair do nothing.

The test compares the translation table base register, which is physical, with
`kernel_space.tt`. As long as the kernel boots that pointer is physical too and any nesting
works; `initializeKernelSpace` then makes it a heap address, the test never succeeds again,
and the second level of a nesting finds the slot in use.
-/

namespace OSExt.Memory

open Lib

/-- What the switches read and write. -/
structure Active where
  /-- the translation table base register -/
  ttbr : Word
  /-- `saved_tt` -/
  savedTt : Word
  /-- `kernel_space.tt` -/
  kernelTt : Word
  /-- `physical_kernel_tt` -/
  physicalKernelTt : Word
  spaces : Spaces

namespace Active

/-- `intoKernelSpaceSaveAddressSpace()` -/
def intoKernelSpaceSaveAddressSpace (s : Active) : Except Stop Active :=
  let ttBase := s.ttbr &&& ~~~0x3ff#32
  if ttBase = s.kernelTt then .ok s
  else if s.savedTt ≠ 0 then .error (.panicked "saved_tt already used!")
  else .ok { s with savedTt := ttBase, ttbr := s.spaces.physical s.kernelTt.toNat }

/-- `restoreAddressSpace()` -/
def restoreAddressSpace (s : Active) : Active :=
  if s.savedTt = 0 then s else { s with ttbr := s.savedTt, savedTt := 0 }

/-- `changeAddressSpace(space)`, by the heap address of the space's translation table. -/
def changeAddressSpace (tt : Nat) (s : Active) : Active := { s with ttbr := s.spaces.physical tt }

/-- The end of `initializeKernelSpace` that maps the translation table in the kernel heap. -/
def mapKernelTt (ttPage : Word) (new : NewTable) : Nat → Active → Except Stop Spaces
  | 0, s => .ok s.spaces
  | n + 1, s => do
      let spaces ← mapKernelTt ttPage new n s
      spaces.addVirtualKernelPageNoncached
        (s.physicalKernelTt + BitVec.ofNat 32 (smallPageSize * n))
        (ttPage + BitVec.ofNat 32 (smallPageSize * n)) new

/-- From here on `kernel_space.tt` is the heap address. -/
def relocateKernelTt (ttPage : Word) (new : NewTable) (s : Active) : Except Stop Active := do
  let spaces ← mapKernelTt ttPage new 4 s
  pure { s with spaces := spaces, kernelTt := ttPage }

/-- The translation table the processor walks: bits 31 to 14 of the register. -/
def table (w : Word) : Word := w &&& ~~~0x3fff#32

/-! ## Brackets -/

/--
A nested sequence of pairs, started with `open` pairs around it: the states after each
call, with the number of pairs that are open then.
-/
def run : Nested Unit → Nat → Active → Except Stop (List (Nat × Active) × Active)
  | .nil, _, s => .ok ([], s)
  | .call _ inner rest, around, s => do
      let entered ← s.intoKernelSpaceSaveAddressSpace
      let within ← run inner (around + 1) entered
      let left := restoreAddressSpace within.2
      let after ← run rest around left
      pure ((around + 1, entered) :: within.1 ++ (around, left) :: after.1, after.2)

/-- **Brackets**: the kernel's table inside, the one from before outside, and no panic. -/
def Bracketed (s : Active) (f : Nested Unit) : Prop :=
  ∃ visited s', run f 0 s = .ok (visited, s') ∧
    (∀ v ∈ visited, 0 < v.1 → table v.2.ttbr = table s.physicalKernelTt) ∧
    (∀ v ∈ visited, v.1 = 0 → table v.2.ttbr = table s.ttbr)

/-- The RAM begins here and has 64 sections. -/
def InRAM (w : Word) : Prop := 0x10000000 ≤ w.toNat ∧ w.toNat < 0x14000000

/-- What `initializeKernelSpace` leaves, with any table active that is in RAM. -/
structure Ready (s : Active) : Prop where
  saved : s.savedTt = 0
  active : InRAM s.ttbr
  kernel : InRAM s.physicalKernelTt
  mapped : s.spaces.physical s.kernelTt.toNat = s.physicalKernelTt
  heap : 0xe4000000 ≤ s.kernelTt.toNat

theorem toNat_base (w : Word) : (w &&& ~~~0x3ff#32).toNat = w.toNat / 1024 * 1024 := by
  rw [show (0x3ff#32 : Word) = BitVec.ofNat 32 (2 ^ 10 - 1) from rfl]
  exact toNat_and_not_mask w 10

/-- The ten bits that are dropped do not tell tables apart. -/
theorem table_base (w : Word) : table (w &&& ~~~0x3ff#32) = table w := by
  rw [table, table, BitVec.and_assoc]
  rfl

theorem InRAM.base {w : Word} (h : InRAM w) : InRAM (w &&& ~~~0x3ff#32) := by
  obtain ⟨hlow, hhigh⟩ := h
  rw [InRAM, toNat_base]
  omega

theorem InRAM.ne_zero {w : Word} (h : InRAM w) : w ≠ 0 := by
  intro heq
  subst heq
  exact absurd h.1 (by decide)

section

variable {s : Active}

/-- A table in RAM is not at a heap address: the test fails. -/
theorem Ready.test (h : s.Ready) {w : Word} (hw : InRAM w) : w &&& ~~~0x3ff#32 ≠ s.kernelTt := by
  intro heq
  have hhigh := hw.base.2
  have hheap := h.heap
  rw [heq] at hhigh
  omega

/-- The state inside an outermost pair. -/
def entered (s : Active) : Active :=
  { s with savedTt := s.ttbr &&& ~~~0x3ff#32, ttbr := s.physicalKernelTt }

/-- The state behind it. -/
def left (s : Active) : Active := { s with ttbr := s.ttbr &&& ~~~0x3ff#32 }

theorem Ready.into (h : s.Ready) : s.intoKernelSpaceSaveAddressSpace = .ok s.entered := by
  rw [intoKernelSpaceSaveAddressSpace, if_neg (h.test h.active), if_neg (not_not.mpr h.saved),
    h.mapped]
  rfl

theorem Ready.restore (h : s.Ready) : s.entered.restoreAddressSpace = s.left := by
  have hslot : s.entered.savedTt ≠ 0 := h.active.base.ne_zero
  rw [restoreAddressSpace, if_neg hslot, left, ← h.saved]
  rfl

theorem Ready.left (h : s.Ready) : s.left.Ready :=
  ⟨h.saved, h.active.base, h.kernel, h.mapped, h.heap⟩

/-- A second level finds the slot in use. -/
theorem Ready.into_again (h : s.Ready) :
    s.entered.intoKernelSpaceSaveAddressSpace = .error (.panicked "saved_tt already used!") := by
  rw [intoKernelSpaceSaveAddressSpace, if_neg]
  · exact if_pos h.active.base.ne_zero
  · exact h.test h.kernel

end

/-- One level of pairs, one after the other. -/
theorem run_flat (f : Nested Unit) (s : Active) (h : s.Ready) (hdepth : f.depth ≤ 1) :
    s.Bracketed f := by
  induction f generalizing s with
  | nil => exact ⟨[], s, rfl, (fun v hv => nomatch hv), (fun v hv => nomatch hv)⟩
  | call a inner rest _ ih =>
      rw [Nested.depth] at hdepth
      cases inner with
      | call b inner' rest' =>
          rw [Nested.depth] at hdepth
          omega
      | nil =>
          obtain ⟨visited, s', hrun, hin, hout⟩ := ih s.left h.left (by omega)
          refine ⟨(1, s.entered) :: (0, s.left) :: visited, s', ?_, ?_, ?_⟩
          · rw [run, h.into]
            show (do let after ← run rest 0 s.entered.restoreAddressSpace; _) = _
            rw [h.restore, hrun]
            rfl
          · intro v hv hopen
            rcases List.mem_cons.mp hv with rfl | hv
            · rfl
            rcases List.mem_cons.mp hv with rfl | hv
            · exact absurd hopen (Nat.lt_irrefl 0)
            · exact hin v hv hopen
          · intro v hv hclosed
            rcases List.mem_cons.mp hv with rfl | hv
            · exact absurd hclosed Nat.one_ne_zero
            rcases List.mem_cons.mp hv with rfl | hv
            · exact table_base s.ttbr
            · exact (hout v hv hclosed).trans (table_base s.ttbr)

/-- **Two levels stop the kernel**, wherever they are in the sequence. -/
theorem run_nested (f : Nested Unit) (s : Active) (h : s.Ready) (hdepth : 1 < f.depth) :
    run f 0 s = .error (.panicked "saved_tt already used!") := by
  induction f generalizing s with
  | nil => exact absurd hdepth (Nat.not_lt_zero 1)
  | call a inner rest _ ih =>
      rw [run, h.into]
      cases inner with
      | call b inner' rest' =>
          show (do let within ← run (.call b inner' rest') 1 s.entered; _) = _
          rw [run, h.into_again]
          rfl
      | nil =>
          rw [Nested.depth, Nested.depth] at hdepth
          show (do let after ← run rest 0 s.entered.restoreAddressSpace; _) = _
          rw [h.restore, ih s.left h.left (by omega)]
          rfl

/-- While the kernel boots, pairs at any depth do nothing. -/
theorem run_boot (f : Nested Unit) (around : Nat) (s : Active)
    (hsaved : s.savedTt = 0) (htt : s.ttbr &&& ~~~0x3ff#32 = s.kernelTt) :
    ∃ visited, run f around s = .ok (visited, s) ∧ ∀ v ∈ visited, v.2 = s := by
  induction f generalizing around with
  | nil => exact ⟨[], rfl, fun v hv => nomatch hv⟩
  | call a inner rest ihInner ihRest =>
      obtain ⟨within, hwithin, hin⟩ := ihInner (around + 1)
      obtain ⟨after, hafter, hout⟩ := ihRest around
      have hinto : s.intoKernelSpaceSaveAddressSpace = .ok s := if_pos htt
      have hrestore : s.restoreAddressSpace = s := if_pos hsaved
      refine ⟨(around + 1, s) :: within ++ (around, s) :: after, ?_, ?_⟩
      · rw [run, hinto]
        show (do let within ← run inner (around + 1) s; _) = _
        rw [hwithin]
        show (do let after ← run rest around s.restoreAddressSpace; _) = _
        rw [hrestore, hafter]
        rfl
      · intro v hv
        rcases List.mem_append.mp hv with hv | hv
        · rcases List.mem_cons.mp hv with rfl | hv
          · rfl
          · exact hin v hv
        · rcases List.mem_cons.mp hv with rfl | hv
          · rfl
          · exact hout v hv

/-! ## After `initializeKernelSpace` -/

/-- Four pages of the kernel heap for the translation table, in a section that has a page table. -/
structure TtPages (s : Spaces) (ttPage : Word) : Prop where
  heap : 0xe4000000 ≤ ttPage.toNat
  room : ttPage.toNat + smallPageSize * 4 ≤ 4294967296
  aligned : ttPage.toNat % smallPageSize = 0
  listed : ∀ i < 4, sectionOf (ttPage.toNat + smallPageSize * i) ∈ s.kernel.cptds.map Prod.snd
  apart : ∀ i < 4, ∀ t ∈ s.tables,
    (BitVec.ofNat 32 t).toNat / smallPageSize ≠ ttPage.toNat / smallPageSize + i

/-- The lists and translation tables are as before, and so is what they say. -/
structure Remapped (s s' : Spaces) : Prop where
  consistent : s'.Consistent
  kernel : s'.kernel = s.kernel
  space : s'.space = s.space
  live : s'.addressSpaces = s.addressSpaces

theorem Remapped.tables {s s' : Spaces} (h : Remapped s s') : s'.tables = s.tables := by
  unfold Spaces.tables
  rw [h.kernel, h.space, h.live]

/-- A kernel page mapped in a listed section, at no table in use. -/
theorem addKernelPage_listed {s : Spaces} (c b : Byte) {page va : Word} (new : NewTable)
    (h : s.Consistent) (hpage : page.toNat % smallPageSize = 0)
    (hlisted : sectionOf va.toNat ∈ s.kernel.cptds.map Prod.snd)
    (hapart : ∀ t ∈ s.tables,
      (BitVec.ofNat 32 t).toNat / smallPageSize ≠ va.toNat / smallPageSize) :
    ∃ s', s.addKernelPage c b page va new = .ok s' ∧ Remapped s s' ∧
      ∀ x, s'.lookup s'.kernel x = Spaces.mapped (s.lookup s.kernel) page va x := by
  obtain ⟨s', hop, hlookup⟩ := Spaces.addKernelPage_lookup c b new hpage h.kernel (.inl hlisted)
  have hapart : s.KernelPageApart va (newSPD c b 0b01010101#8 page) new :=
    ⟨fun _ t ht hsame => absurd hsame (hapart t ht), fun hnot => absurd hlisted hnot,
      fun hnot => absurd hlisted hnot, fun hnot => absurd hlisted hnot⟩
  have hconsistent := Spaces.consistent_addKernelPage h (fun hnot => absurd hlisted hnot) hapart hop
  refine ⟨s', hop, ?_, fun x => ?_⟩
  · rcases Spaces.addKernelPage_cases hop with ⟨i, cptd, cpt, -, -, rfl⟩ | ⟨hnot, -⟩
    · exact ⟨hconsistent, rfl, rfl, rfl⟩
    · exact absurd hlisted hnot
  · rw [hlookup, Spaces.requestedKernel, if_pos hlisted]

section

variable {s : Active} {ttPage : Word} (hpages : TtPages s.spaces ttPage)
include hpages

/-- The heap page that the `i`-th page of the table is mapped at. -/
theorem TtPages.page {i : Nat} (hi : i < 4) :
    (ttPage + BitVec.ofNat 32 (smallPageSize * i)).toNat = ttPage.toNat + smallPageSize * i := by
  have hroom := hpages.room
  rw [BitVec.toNat_add, BitVec.toNat_ofNat]
  simp only [smallPageSize] at *
  omega

/-- One page of the table after the other is mapped; the first one stays where it is. -/
theorem mapKernelTt_spec (new : NewTable) (h : s.spaces.Consistent)
    (haligned : s.physicalKernelTt.toNat % smallPageSize = 0) {n : Nat} (hn : n ≤ 4) :
    ∃ s', mapKernelTt ttPage new n s = .ok s' ∧ Remapped s.spaces s' ∧
      (0 < n → s'.lookup s'.kernel ttPage = s.physicalKernelTt) := by
  induction n with
  | zero => exact ⟨s.spaces, rfl, ⟨h, rfl, rfl, rfl⟩, fun hlt => absurd hlt (Nat.lt_irrefl 0)⟩
  | succ n ih =>
      obtain ⟨s1, hmap, hre, hfirst⟩ := ih (by omega)
      have hva := hpages.page (i := n) (by omega)
      have hlisted := hpages.listed n (by omega)
      have hpagen : (s.physicalKernelTt + BitVec.ofNat 32 (smallPageSize * n)).toNat
          % smallPageSize = 0 := by
        rw [BitVec.toNat_add, BitVec.toNat_ofNat]
        simp only [smallPageSize] at *
        omega
      have hlistedn : sectionOf (ttPage + BitVec.ofNat 32 (smallPageSize * n)).toNat ∈
          s1.kernel.cptds.map Prod.snd := by rwa [hva, hre.kernel]
      have hapart : ∀ t ∈ s1.tables, (BitVec.ofNat 32 t).toNat / smallPageSize ≠
          (ttPage + BitVec.ofNat 32 (smallPageSize * n)).toNat / smallPageSize := by
        intro t ht
        rw [hre.tables] at ht
        rw [hva, Nat.add_mul_div_left _ _ (by decide)]
        exact hpages.apart n (by omega) t ht
      obtain ⟨s2, hop, hre', hlookup⟩ :=
        addKernelPage_listed 0 0 new hre.consistent hpagen hlistedn hapart
      refine ⟨s2, ?_, ⟨hre'.consistent, hre'.kernel.trans hre.kernel, hre'.space.trans hre.space,
        hre'.live.trans hre.live⟩, fun _ => ?_⟩
      · rw [mapKernelTt, hmap]
        exact hop
      · rw [hlookup, Spaces.mapped, hva, Nat.add_mul_div_left _ _ (by decide)]
        rcases Nat.eq_zero_or_pos n with rfl | hpos
        · rw [if_pos (Nat.add_zero _).symm, hpages.aligned, Nat.mul_zero]
          exact (BitVec.add_zero _).trans (BitVec.add_zero _)
        · rw [if_neg (by omega)]
          exact hfirst hpos

/-- **`initializeKernelSpace` leaves a state that is ready**, with the kernel's table active. -/
theorem relocateKernelTt_ready (new : NewTable) (h : s.spaces.Consistent)
    (haligned : s.physicalKernelTt.toNat % smallPageSize = 0) (hsaved : s.savedTt = 0)
    (hram : InRAM s.physicalKernelTt) (hactive : InRAM s.ttbr) :
    ∃ s', relocateKernelTt ttPage new s = .ok s' ∧ s'.Ready := by
  obtain ⟨spaces, hmap, -, hfirst⟩ := mapKernelTt_spec hpages new h haligned (Nat.le_refl 4)
  refine ⟨{ s with spaces := spaces, kernelTt := ttPage }, ?_, hsaved, hactive, hram, ?_,
    hpages.heap⟩
  · rw [relocateKernelTt, hmap]
    rfl
  · show spaces.physical ttPage.toNat = _
    rw [Spaces.physical_eq, BitVec.ofNat_toNat, BitVec.setWidth_eq]
    exact hfirst (by omega)

end

/-- It stays ready when a table in RAM is made active. -/
theorem Ready.changeAddressSpace {s : Active} (h : s.Ready) {tt : Nat}
    (htt : InRAM (s.spaces.physical tt)) : (s.changeAddressSpace tt).Ready :=
  ⟨h.saved, htt, h.kernel, h.mapped, h.heap⟩

/-- **Address-space brackets work exactly where none is inside another.** -/
theorem bracketed_iff {s : Active} (h : s.Ready) (f : Nested Unit) :
    s.Bracketed f ↔ f.depth ≤ 1 := by
  refine ⟨fun ⟨visited, s', hrun, _⟩ => ?_, run_flat f s h⟩
  by_contra hdepth
  rw [run_nested f s h (by omega)] at hrun
  exact nomatch hrun

/-- The kernel after its start: its table in the heap page behind the first caches. -/
def kernelStarted : Active where
  ttbr := 0x12340000#32
  savedTt := 0
  kernelTt := 0xe4004000#32
  physicalKernelTt := 0x12340000#32
  spaces := Spaces.heapMigrated.writeTable 0xe4003000 4 (newSPD 0 0 0b01010101#8 0x12340000#32)

theorem kernelStarted_ready : kernelStarted.Ready where
  saved := rfl
  active := ⟨by decide, by decide⟩
  kernel := ⟨by decide, by decide⟩
  mapped := by decide +kernel
  heap := by decide

theorem bracketed_kernelStarted :
    kernelStarted.Bracketed (.call () .nil (.call () .nil .nil)) ↔
      (Nested.call () .nil (.call () .nil .nil)).depth ≤ 1 :=
  bracketed_iff kernelStarted_ready _

theorem nested_panics : ¬ ∀ s : Active, s.Ready → ∀ f : Nested Unit, s.Bracketed f := by
  intro h
  obtain ⟨visited, s', hrun, -⟩ :=
    h kernelStarted kernelStarted_ready (.call () (.call () .nil .nil) .nil)
  rw [run_nested _ _ kernelStarted_ready (by decide)] at hrun
  exact nomatch hrun

end Active

end OSExt.Memory
