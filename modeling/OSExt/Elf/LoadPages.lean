import OSExt.Memory.PageMarks
import OSExt.Elf.LoadBounds

/-!
# The pages of a file and its image

Loading takes one run of pages for the file and one for the image. Either call that gives
no run leaves the bitmaps as they were; the passes over the file do not touch them.
-/

namespace OSExt.Elf

open Lib Memory Libk

/-! ## Passes that take no pages -/

theorem findGot_pages (elf : ElfDesc) (strtab : SectHeader) (sectSize : Nat) :
    ∀ (count q : Nat) (m : Machine), (findGot elf strtab sectSize count q m).2.pages = m.pages := by
  intro count
  induction count with
  | zero => exact fun _ _ => rfl
  | succ count ih =>
      intro q m
      rw [findGot]
      split
      · rfl
      · simp only []
        split
        · rfl
        · split
          · rfl
          · rw [ih]
            rfl

theorem fixWords_pages (image : Nat) : ∀ (count a : Nat) (m : Machine),
    (fixWords image count a m).pages = m.pages := by
  intro count
  induction count with
  | zero => exact fun _ _ => rfl
  | succ count ih =>
      intro a m
      rw [fixWords, ih, fixWord]
      split <;> rfl

theorem fixTable_pages (elf : ElfDesc) (got : SectHeader) (m : Machine) :
    (fixTable elf got m).pages = m.pages := by
  unfold fixTable
  repeat' split
  all_goals first | rfl | exact fixWords_pages _ _ _ _

/-- `elf_fix_got` leaves the bitmaps alone. -/
theorem elfFixGot_pages (elf : ElfDesc) (m : Machine) : (elfFixGot elf m).pages = m.pages := by
  unfold elfFixGot
  split
  · rfl
  · simp only []
    split
    · rfl
    · split
      · rfl
      · split
        · rfl
        · split
          · rfl
          · split
            · exact findGot_pages _ _ _ _ _ _
            · rw [fixTable_pages, findGot_pages]
              rfl

/-- So does `elf_assemble_image`. -/
theorem elfAssembleImage_pages (elf : ElfDesc) (m : Machine) :
    (elfAssembleImage elf m).pages = m.pages := by
  unfold elfAssembleImage
  split
  · rfl
  · split
    · rfl
    · simp only [findLoad_eq]
      split
      · rfl
      · split
        · rfl
        · split <;> rfl

/-! ## The two runs -/

section Runs

variable {base : PageWorld} {runs : List (Nat × Nat)} {m : Machine}

/-- **A file** that is loaded has a run of pages; one that is not has none. -/
theorem elfLoadFile_accounts (h : Accounts base runs m.pages) (desc size : Nat)
    (file : List UInt8) :
    ((elfLoadFile desc size file m).1 = none ∧ (elfLoadFile desc size file m).2 = m) ∨
      ∃ elf, (elfLoadFile desc size file m).1 = some elf ∧ desc ≠ 0 ∧ elf.start ≠ 0 ∧
        elf.image = 0 ∧
        Accounts base ((elf.start, elf.pages) :: runs) (elfLoadFile desc size file m).2.pages := by
  unfold elfLoadFile
  by_cases hdesc : desc = 0
  · exact Or.inl (by rw [if_pos hdesc]; exact ⟨rfl, rfl⟩)
  · rw [if_neg hdesc]
    cases hrun : (useConsecutivePages (size / smallPageSize + 1) 0 m.pages).1 with
    | none =>
        have hsame := useConsecutivePages_none hrun
        simp only [hrun, Option.getD_none, if_true, hsame]
        exact Or.inl ⟨trivial, trivial⟩
    | some p =>
        obtain ⟨haccounts, hne⟩ := h.take (Nat.succ_pos _) hrun
        simp only [hrun, Option.getD_some, if_neg hne]
        exact Or.inr ⟨_, rfl, hdesc, hne, rfl, haccounts⟩

/-- **The image** has a run of pages, or nothing was taken for it. -/
theorem elfAllocImage_accounts (h : Accounts base runs m.pages) {elf : ElfDesc}
    (himage : elf.image = 0) :
    (elfAllocImage elf m).1.start = elf.start ∧ (elfAllocImage elf m).1.pages = elf.pages ∧
      (((elfAllocImage elf m).1.image = 0 ∧ (elfAllocImage elf m).2.pages = m.pages) ∨
        ((elfAllocImage elf m).1.image ≠ 0 ∧
          Accounts base
            (((elfAllocImage elf m).1.image, (elfAllocImage elf m).1.imagePages) :: runs)
            (elfAllocImage elf m).2.pages)) := by
  by_cases hl : Loadable m.ram elf
  · cases hseg : fileSegment m.ram elf with
    | none =>
        rw [elfAllocImage_of_no_segment hl himage hseg]
        exact ⟨rfl, rfl, Or.inl ⟨himage, rfl⟩⟩
    | some progH =>
        rw [elfAllocImage_of_segment hl himage hseg]
        unfold imageRun
        cases hrun : (useConsecutivePages progH.imagePages 0 m.pages).1 with
        | none =>
            have hsame := useConsecutivePages_none hrun
            simp only [Option.getD_none, if_true, hsame]
            exact ⟨trivial, trivial, Or.inl ⟨himage, trivial⟩⟩
        | some p =>
            obtain ⟨haccounts, hne⟩ := h.take (Nat.succ_pos _) hrun
            simp only [Option.getD_some, if_neg hne]
            exact ⟨trivial, trivial, Or.inr ⟨hne, haccounts⟩⟩
  · obtain ⟨reads, -, halloc⟩ := elfAllocImage_of_not_loadable (m := m) hl himage
    rw [halloc]
    exact ⟨rfl, rfl, Or.inl ⟨himage, rfl⟩⟩

end Runs

end OSExt.Elf
