import OSExt.Memory.PageRanges
import OSExt.Elf.Loading

/-!
# Where loading an image reads and writes

`elf_alloc_image` and `elf_assemble_image` look at the same program headers and use the
first one of type 1. Their bounds tests add without regard to wrapping, and the image is
sized by `memsz` but filled with `filesz` bytes. Loading stays in bounds exactly for the
files on which neither matters.
-/

namespace OSExt.Elf

open Lib Memory Libk

/-! ## The file in memory -/

theorem fileSize_eq {elf : ElfDesc} (h : PageRange elf.start elf.pages) :
    elf.fileSize = elf.pages * smallPageSize := by
  have hbelow := h.below
  exact u32_of_lt (by omega)

theorem fileEnd_eq {elf : ElfDesc} (h : PageRange elf.start elf.pages) :
    elf.fileEnd = elf.start + elf.pages * smallPageSize := by
  have hbelow := h.below
  rw [ElfDesc.fileEnd, fileSize_eq h, u32_of_lt (by omega)]

/-- At least a page of the file is there, and more than a page behind it. -/
theorem fileEnd_bounds {elf : ElfDesc} (h : PageRange elf.start elf.pages) :
    elf.start + 4096 ≤ elf.fileEnd ∧ elf.fileEnd + 4096 < 4294967296 := by
  have hpos := h.pos
  have hbelow := h.below
  rw [fileEnd_eq h]
  simp only [smallPageSize] at *
  omega

/-- The file looks the same in two memories. -/
def SameFile (elf : ElfDesc) (ram ram' : Bytes) : Prop :=
  ∀ x, elf.start ≤ x → x < elf.fileEnd → ram x = ram' x

/-- The same `n` bytes at two addresses. -/
def SameBytes (ram ram' : Bytes) (a b n : Nat) : Prop :=
  ∀ i < n, ram (u32 (a + i)) = ram' (u32 (b + i))

theorem SameBytes.number {ram ram' : Bytes} {a b n o k : Nat} (h : SameBytes ram ram' a b n)
    (ho : o + k ≤ n) :
    Bytes.number 4294967296 ram (a + o) k = Bytes.number 4294967296 ram' (b + o) k := by
  refine Bytes.number_congr fun i hi => ?_
  rw [Nat.add_assoc, Nat.add_assoc]
  exact h (o + i) (by omega)

theorem SameBytes.header {ram ram' : Bytes} {a b : Nat} (h : SameBytes ram ram' a b 52) :
    elfReadHeaderMem ram a = elfReadHeaderMem ram' b := by
  have hmagic : (List.range 4).map (fun i => ram (u32 (a + i))) =
      (List.range 4).map fun i => ram' (u32 (b + i)) :=
    List.map_congr_left fun i hi => h i (by have := List.mem_range.mp hi; omega)
  have hhalf : ∀ o, o + 2 ≤ 52 → half ram (a + o) = half ram' (b + o) := fun o ho => h.number ho
  have hword : ∀ o, o + 4 ≤ 52 → word ram (a + o) = word ram' (b + o) := fun o ho => h.number ho
  unfold elfReadHeaderMem
  rw [hmagic, h 4 (by omega), h 5 (by omega), h 6 (by omega), h 7 (by omega),
    hhalf 0x10 (by omega), hhalf 0x12 (by omega), hword 0x14 (by omega), hword 0x18 (by omega),
    hword 0x1c (by omega), hword 0x20 (by omega), hhalf 0x28 (by omega), hhalf 0x2a (by omega),
    hhalf 0x2c (by omega), hhalf 0x2e (by omega), hhalf 0x30 (by omega), hhalf 0x32 (by omega)]

theorem SameBytes.progHeader {ram ram' : Bytes} {a b : Nat}
    (h : SameBytes ram ram' a b sizeofProgHeader) : readProgHeader ram a = readProgHeader ram' b := by
  have hword : ∀ o, o + 4 ≤ 32 → word ram (a + o) = word ram' (b + o) := fun o ho => h.number ho
  unfold readProgHeader
  rw [show word ram a = word ram' b from hword 0 (by omega), hword 4 (by omega),
    hword 8 (by omega), hword 12 (by omega), hword 16 (by omega), hword 20 (by omega),
    hword 24 (by omega), hword 28 (by omega)]

theorem SameBytes.sectHeader {ram ram' : Bytes} {a b : Nat}
    (h : SameBytes ram ram' a b sizeofSectHeader) : readSectHeader ram a = readSectHeader ram' b := by
  have hword : ∀ o, o + 4 ≤ 40 → word ram (a + o) = word ram' (b + o) := fun o ho => h.number ho
  unfold readSectHeader
  rw [show word ram a = word ram' b from hword 0 (by omega), hword 4 (by omega),
    hword 8 (by omega), hword 12 (by omega), hword 16 (by omega), hword 20 (by omega),
    hword 24 (by omega), hword 28 (by omega), hword 32 (by omega), hword 36 (by omega)]

theorem SameFile.bytes {elf : ElfDesc} {ram ram' : Bytes} (h : SameFile elf ram ram')
    (hr : PageRange elf.start elf.pages) {a n : Nat} (hlo : elf.start ≤ a)
    (hhi : a + n ≤ elf.fileEnd) : SameBytes ram ram' a a n := by
  have hend := fileEnd_bounds hr
  intro i hi
  rw [u32_of_lt (by omega)]
  exact h _ (by omega) (by omega)

theorem SameFile.header {elf : ElfDesc} {ram ram' : Bytes} (h : SameFile elf ram ram')
    (hr : PageRange elf.start elf.pages) :
    elfReadHeaderMem ram elf.start = elfReadHeaderMem ram' elf.start := by
  have hend := fileEnd_bounds hr
  exact (h.bytes hr (Nat.le_refl _) (by omega)).header

/-- The reads of the file header stay in the file. -/
theorem headerReads_inside {elf : ElfDesc} (h : PageRange elf.start elf.pages) :
    ∀ a ∈ headerFields.map (fun f => (elf.start + f.1, f.2)),
      Access.Inside 4294967296 elf.start elf.fileEnd a := by
  intro a ha
  obtain ⟨f, hf, rfl⟩ := List.mem_map.mp ha
  have hend := fileEnd_bounds h
  have hfield : ∀ f ∈ headerFields, f.1 + f.2 ≤ 52 := by decide
  have := hfield f hf
  exact Access.inside_of_le (by omega) (by omega) (by omega)

/-! ## The search for the segment -/

/-- The program headers the search looks at. -/
def lookedAt (ram : Bytes) (elf : ElfDesc) (progSize : Nat) : Nat → Nat → List Nat
  | 0, _ => []
  | count + 1, progPointer =>
    if progPointer < elf.start ∨ u32 (progPointer + sizeofProgHeader) ≥ elf.fileEnd then []
    else
      progPointer ::
        if (readProgHeader ram progPointer).type = 1 then []
        else lookedAt ram elf progSize count (u32 (progPointer + progSize))

/-- The program header the search finds. -/
def loadHeader (ram : Bytes) (elf : ElfDesc) (progSize : Nat) : Nat → Nat → Option ProgHeader
  | 0, _ => none
  | count + 1, progPointer =>
    if progPointer < elf.start ∨ u32 (progPointer + sizeofProgHeader) ≥ elf.fileEnd then none
    else if (readProgHeader ram progPointer).type = 1 then some (readProgHeader ram progPointer)
    else loadHeader ram elf progSize count (u32 (progPointer + progSize))

/-- The search only reads the headers it looks at. -/
theorem findLoad_eq (elf : ElfDesc) (progSize : Nat) : ∀ (count q : Nat) (m : Machine),
    findLoad elf progSize count q m =
      (loadHeader m.ram elf progSize count q,
        m.readAll ((lookedAt m.ram elf progSize count q).map (·, sizeofProgHeader)).reverse) := by
  intro count
  induction count with
  | zero => exact fun q m => rfl
  | succ count ih =>
      intro q m
      rw [findLoad, loadHeader, lookedAt]
      by_cases hout : q < elf.start ∨ u32 (q + sizeofProgHeader) ≥ elf.fileEnd
      · rw [if_pos hout, if_pos hout, if_pos hout]
        rfl
      · rw [if_neg hout, if_neg hout, if_neg hout]
        by_cases htype : (readProgHeader m.ram q).type = 1
        · simp only [if_pos htype]
          rfl
        · simp only [if_neg htype]
          rw [ih]
          simp only [Machine.read, Machine.readAll, List.map_cons, List.reverse_cons,
            List.append_assoc, List.singleton_append]

theorem mem_lookedAt {ram : Bytes} {elf : ElfDesc} {progSize : Nat} :
    ∀ {count q p : Nat}, q < 4294967296 → p ∈ lookedAt ram elf progSize count q →
      p < 4294967296 ∧ elf.start ≤ p ∧ u32 (p + sizeofProgHeader) < elf.fileEnd := by
  intro count
  induction count with
  | zero => exact fun _ hp => nomatch hp
  | succ count ih =>
      intro q p hq hp
      rw [lookedAt] at hp
      split at hp
      · exact nomatch hp
      · next hin =>
          rcases List.mem_cons.mp hp with rfl | hp
          · omega
          · split at hp
            · exact nomatch hp
            · exact ih (u32_lt _) hp

/-- A header that is looked at lies in the file unless it wraps around the end of memory. -/
theorem lookedAt_inside_iff {ram : Bytes} {elf : ElfDesc} (h : PageRange elf.start elf.pages)
    {progSize count q p : Nat} (hq : q < 4294967296)
    (hp : p ∈ lookedAt ram elf progSize count q) :
    Access.Inside 4294967296 elf.start elf.fileEnd (p, sizeofProgHeader) ↔
      p + sizeofProgHeader < 4294967296 := by
  obtain ⟨hlt, hlo, hhi⟩ := mem_lookedAt hq hp
  have hend := fileEnd_bounds h
  unfold sizeofProgHeader at *
  constructor
  · intro hin
    by_contra hwrap
    exact Access.not_inside (by omega) hlt (Or.inr (by omega)) hin
  · intro hfit
    rw [u32_of_lt hfit] at hhi
    exact Access.inside_of_le hlo hhi.le (by omega)

/-- In two memories with the same file the search does the same, if it stays in the file. -/
theorem search_congr {ram ram' : Bytes} {elf : ElfDesc} (h : PageRange elf.start elf.pages)
    (hsame : SameFile elf ram ram') {progSize : Nat} : ∀ {count q : Nat}, q < 4294967296 →
      (∀ p ∈ lookedAt ram elf progSize count q, p + sizeofProgHeader < 4294967296) →
      lookedAt ram' elf progSize count q = lookedAt ram elf progSize count q ∧
        loadHeader ram' elf progSize count q = loadHeader ram elf progSize count q := by
  intro count
  induction count with
  | zero => exact fun _ _ => ⟨rfl, rfl⟩
  | succ count ih =>
      intro q hq hfit
      rw [lookedAt] at hfit
      rw [lookedAt, lookedAt, loadHeader, loadHeader]
      by_cases hout : q < elf.start ∨ u32 (q + sizeofProgHeader) ≥ elf.fileEnd
      · rw [if_pos hout, if_pos hout, if_pos hout, if_pos hout]
        exact ⟨rfl, rfl⟩
      · rw [if_neg hout] at hfit
        have hq32 := hfit q (List.mem_cons_self ..)
        rw [u32_of_lt hq32] at hout
        have hread := (hsame.bytes h (a := q) (n := sizeofProgHeader) (by omega) (by omega)).progHeader
        rw [u32_of_lt hq32, if_neg hout, if_neg hout, if_neg hout, if_neg hout, ← hread]
        by_cases htype : (readProgHeader ram q).type = 1
        · simp only [if_pos htype]
          exact ⟨trivial, trivial⟩
        · simp only [if_neg htype] at hfit ⊢
          obtain ⟨hlooked, hheader⟩ := ih (u32_lt (q + progSize))
            fun p hp => hfit p (List.mem_cons_of_mem _ hp)
          exact ⟨congrArg (q :: ·) hlooked, hheader⟩

/-! ## The two functions -/

/-- The headers `elf_alloc_image` and `elf_assemble_image` look at. -/
def fileHeaders (ram : Bytes) (elf : ElfDesc) : List Nat :=
  let h := elfReadHeaderMem ram elf.start
  lookedAt ram elf h.progSize h.progCount (u32 (elf.start + h.progTable))

/-- The segment they load. -/
def fileSegment (ram : Bytes) (elf : ElfDesc) : Option ProgHeader :=
  let h := elfReadHeaderMem ram elf.start
  loadHeader ram elf h.progSize h.progCount (u32 (elf.start + h.progTable))

/-- How many pages the image of a segment has. -/
def ProgHeader.imagePages (progH : ProgHeader) : Nat := progH.memsz / smallPageSize + 1

/-- The page run for the image of a segment, 0 if there is none. -/
def imageRun (pages : Pageblocks) (progH : ProgHeader) : Nat :=
  (useConsecutivePages progH.imagePages 0 pages).1.getD 0

/-- What both functions read before they act. -/
def headerReads (ram : Bytes) (elf : ElfDesc) : List Access :=
  ((fileHeaders ram elf).map (·, sizeofProgHeader)).reverse ++
    headerFields.map fun f => (elf.start + f.1, f.2)

/-- The file is one that the functions do not give back at once. -/
structure Loadable (ram : Bytes) (elf : ElfDesc) : Prop where
  start : elf.start ≠ 0
  check : elfCheckHeader (elfReadHeaderMem ram elf.start) = true

theorem elfAllocImage_of_not_loadable {elf : ElfDesc} {m : Machine} (h : ¬ Loadable m.ram elf)
    (himage : elf.image = 0) :
    ∃ reads ⊆ headerFields.map (fun f => (elf.start + f.1, f.2)),
      elfAllocImage elf m = (elf, m.readAll reads) := by
  unfold elfAllocImage
  by_cases hstart : elf.start = 0
  · exact ⟨[], List.nil_subset _, if_pos hstart⟩
  · have hcheck : elfCheckHeader (elfReadHeaderMem m.ram elf.start) = false :=
      Bool.eq_false_iff.mpr fun hc => h ⟨hstart, hc⟩
    refine ⟨_, List.Subset.refl _, ?_⟩
    simp only [if_neg hstart, himage, ne_eq, not_true_eq_false, if_false, hcheck, Bool.not_false,
      if_true]
    rfl

/-- Without an image nothing is assembled. -/
theorem elfAssembleImage_of_no_image {elf : ElfDesc} {m : Machine} (h : elf.image = 0) :
    elfAssembleImage elf m = m := by
  unfold elfAssembleImage
  by_cases hstart : elf.start = 0
  · exact if_pos hstart
  · rw [if_neg hstart, if_pos h]

/-- Without a segment no image is allocated. -/
theorem elfAllocImage_of_no_segment {elf : ElfDesc} {m : Machine} (h : Loadable m.ram elf)
    (himage : elf.image = 0) (hseg : fileSegment m.ram elf = none) :
    elfAllocImage elf m = (elf, m.readAll (headerReads m.ram elf)) := by
  unfold elfAllocImage
  unfold fileSegment at hseg
  simp only [if_neg h.start, himage, ne_eq, not_true_eq_false, if_false, h.check, Bool.not_true,
    Bool.false_eq_true, findLoad_eq, Machine.readHeader, Machine.readAll, hseg, headerReads,
    fileHeaders, List.append_assoc]

/-- With a segment the image is allocated and cleared, if there is a run for it. -/
theorem elfAllocImage_of_segment {elf : ElfDesc} {m : Machine} {progH : ProgHeader}
    (h : Loadable m.ram elf) (himage : elf.image = 0) (hseg : fileSegment m.ram elf = some progH) :
    elfAllocImage elf m =
      let m' := { m.readAll (headerReads m.ram elf) with
        pages := (useConsecutivePages progH.imagePages 0 m.pages).2 }
      if imageRun m.pages progH = 0 then (elf, m')
      else
        ({ elf with image := imageRun m.pages progH, imagePages := progH.imagePages },
          m'.memset (imageRun m.pages progH) 0 (u32 (progH.imagePages * smallPageSize))) := by
  unfold elfAllocImage
  unfold fileSegment at hseg
  simp only [if_neg h.start, himage, ne_eq, not_true_eq_false, if_false, h.check, Bool.not_true,
    Bool.false_eq_true, findLoad_eq, Machine.readHeader, Machine.readAll, hseg, headerReads,
    fileHeaders, List.append_assoc]
  rfl

/-- With an image the segment is copied if the bounds tests let it pass. -/
theorem elfAssembleImage_of_segment {elf : ElfDesc} {m : Machine} {progH : ProgHeader}
    (h : Loadable m.ram elf) (himage : elf.image ≠ 0) (hseg : fileSegment m.ram elf = some progH) :
    elfAssembleImage elf m =
      if progH.offset > elf.fileSize ∨ u32 (progH.offset + progH.filesz) > elf.fileSize then
        m.readAll (headerReads m.ram elf)
      else
        (m.readAll (headerReads m.ram elf)).memcpy elf.image (u32 (elf.start + progH.offset))
          progH.filesz := by
  unfold elfAssembleImage
  unfold fileSegment at hseg
  simp only [if_neg h.start, if_neg himage, h.check, Bool.not_true, Bool.false_eq_true, if_false,
    findLoad_eq, Machine.readHeader, Machine.readAll, hseg, headerReads, fileHeaders,
    List.append_assoc]

/-! ## In bounds -/

/-- `elf_alloc_image` followed by `elf_assemble_image`. -/
def load (elf : ElfDesc) (m : Machine) : ElfDesc × Machine :=
  ((elfAllocImage elf m).1, elfAssembleImage (elfAllocImage elf m).1 (elfAllocImage elf m).2)

/-- Reads are inside the file and writes inside the image. -/
structure InBounds (elf : ElfDesc) (m : Machine) : Prop where
  reads : ∀ a ∈ m.reads,
    Access.Inside 4294967296 elf.start (elf.start + elf.pages * smallPageSize) a
  writes : ∀ a ∈ m.writes,
    Access.Inside 4294967296 elf.image (elf.image + elf.imagePages * smallPageSize) a

/-- What is copied is in the file and fits the image, or the bounds tests refuse it. -/
def SegmentFits (elf : ElfDesc) (progH : ProgHeader) : Prop :=
  progH.filesz = 0 ∨ elf.fileSize < progH.offset ∨
    elf.fileSize < u32 (progH.offset + progH.filesz) ∨
      progH.offset + progH.filesz < 4294967296 ∧ progH.filesz ≤ progH.imagePages * smallPageSize

/-- No header that is looked at wraps around the end of memory, and the segment fits if
there is room for its image. -/
structure LoadFits (ram : Bytes) (pages : Pageblocks) (elf : ElfDesc) : Prop where
  headers : ∀ p ∈ fileHeaders ram elf, p + sizeofProgHeader < 4294967296
  segment : ∀ progH, fileSegment ram elf = some progH → imageRun pages progH ≠ 0 →
    SegmentFits elf progH

/-- The search does not depend on the image. -/
theorem search_image (ram : Bytes) (elf : ElfDesc) (image n progSize : Nat) : ∀ count q : Nat,
    lookedAt ram { elf with image := image, imagePages := n } progSize count q =
        lookedAt ram elf progSize count q ∧
      loadHeader ram { elf with image := image, imagePages := n } progSize count q =
        loadHeader ram elf progSize count q := by
  intro count
  induction count with
  | zero => exact fun _ => ⟨rfl, rfl⟩
  | succ count ih =>
      intro q
      obtain ⟨hlooked, hheader⟩ := ih (u32 (q + progSize))
      rw [lookedAt, loadHeader, hlooked, hheader]
      exact ⟨rfl, rfl⟩

theorem headerReads_inside_iff (ram : Bytes) {elf : ElfDesc}
    (h : PageRange elf.start elf.pages) :
    (∀ a ∈ headerReads ram elf, Access.Inside 4294967296 elf.start elf.fileEnd a) ↔
      ∀ p ∈ fileHeaders ram elf, p + sizeofProgHeader < 4294967296 := by
  constructor
  · intro hin p hp
    refine (lookedAt_inside_iff h (u32_lt _) hp).mp (hin _ (List.mem_append_left _ ?_))
    exact List.mem_reverse.mpr (List.mem_map_of_mem hp)
  · intro hfit a ha
    rcases List.mem_append.mp ha with ha | ha
    · obtain ⟨p, hp, rfl⟩ := List.mem_map.mp (List.mem_reverse.mp ha)
      exact (lookedAt_inside_iff h (u32_lt _) hp).mpr (hfit p hp)
    · exact headerReads_inside h a ha

/-- What was read before assembling stays on record. -/
theorem elfAssembleImage_reads {elf : ElfDesc} {m : Machine} {a : Access} (ha : a ∈ m.reads) :
    a ∈ (elfAssembleImage elf m).reads := by
  unfold elfAssembleImage
  by_cases hstart : elf.start = 0
  · rwa [if_pos hstart]
  · by_cases himage : elf.image = 0
    · rwa [if_neg hstart, if_pos himage]
    · simp only [if_neg hstart, if_neg himage, findLoad_eq, Machine.readHeader, Machine.readAll]
      have hkeep : ∀ l1 l2 : List Access, a ∈ l1 ++ (l2 ++ m.reads) := fun l1 l2 =>
        List.mem_append_right _ (List.mem_append_right _ ha)
      split
      · exact List.mem_append_right _ ha
      · split
        · exact hkeep _ _
        · split
          · exact hkeep _ _
          · exact List.mem_cons_of_mem _ (hkeep _ _)

/-- A page run that is not NULL was given by the allocator. -/
theorem imageRun_eq {pages : Pageblocks} {progH : ProgHeader} (h : imageRun pages progH ≠ 0) :
    (useConsecutivePages progH.imagePages 0 pages).1 = some (imageRun pages progH) := by
  unfold imageRun at h ⊢
  cases hrun : (useConsecutivePages progH.imagePages 0 pages).1 with
  | none =>
      rw [hrun] at h
      exact absurd rfl h
  | some p => rfl

/-- Clearing the image does not change the file. -/
theorem sameFile_memset (ram : Bytes) {elf : ElfDesc} {image n : Nat}
    (hr : PageRange elf.start elf.pages) (hi : PageRange image n)
    (hapart : image + n * smallPageSize ≤ elf.start ∨
      elf.start + elf.pages * smallPageSize ≤ image) :
    SameFile elf ram (Bytes.fill 4294967296 ram image 0 (u32 (n * smallPageSize))) := by
  have hbelow := hi.below
  intro x hlo hhi
  rw [fileEnd_eq hr] at hhi
  rw [u32_of_lt (by omega), Bytes.fill_apply 0 (by omega), if_neg (by omega)]

/-- With the same file in memory and an image the same headers and segment are found. -/
theorem SameFile.search {elf : ElfDesc} {ram ram' : Bytes} (h : SameFile elf ram ram')
    (hr : PageRange elf.start elf.pages) (image n : Nat)
    (hfit : ∀ p ∈ fileHeaders ram elf, p + sizeofProgHeader < 4294967296) :
    fileHeaders ram' { elf with image := image, imagePages := n } = fileHeaders ram elf ∧
      fileSegment ram' { elf with image := image, imagePages := n } = fileSegment ram elf := by
  unfold fileHeaders fileSegment at *
  rw [← h.header hr]
  simp only [(search_image ram' elf image n _ _ _).1, (search_image ram' elf image n _ _ _).2]
  exact search_congr hr h (u32_lt _) hfit

/-- A copy out of the file into the image is in bounds exactly if the segment fits. -/
theorem copy_inside_iff {elf : ElfDesc} {progH : ProgHeader} {image : Nat}
    (h : PageRange elf.start elf.pages) (hi : PageRange image progH.imagePages)
    (hoff : progH.offset ≤ elf.fileSize)
    (hend : u32 (progH.offset + progH.filesz) ≤ elf.fileSize) :
    Access.Inside 4294967296 elf.start (elf.start + elf.pages * smallPageSize)
          (u32 (elf.start + progH.offset), progH.filesz) ∧
        Access.Inside 4294967296 image (image + progH.imagePages * smallPageSize)
          (image, progH.filesz) ↔
      SegmentFits elf progH := by
  have hbelow := h.below
  have hibelow := hi.below
  rw [fileSize_eq h] at hoff hend
  rw [SegmentFits, fileSize_eq h, u32_of_lt (show elf.start + progH.offset < 4294967296 by omega),
    Access.inside_iff (by omega) (by omega) (by omega),
    Access.inside_iff (by omega) (by omega) (by omega)]
  unfold u32 at *
  omega

/-- With an image, the copy of the segment decides. -/
theorem assemble_inBounds_iff {elf : ElfDesc} {m : Machine} {progH : ProgHeader} {image : Nat}
    (hr : PageRange elf.start elf.pages) (hi : PageRange image progH.imagePages)
    (hne : image ≠ 0) (hl : Loadable m.ram elf)
    (hseg : fileSegment m.ram { elf with image := image, imagePages := progH.imagePages } =
      some progH)
    (hfit : ∀ p ∈ fileHeaders m.ram { elf with image := image, imagePages := progH.imagePages },
      p + sizeofProgHeader < 4294967296)
    (hm : InBounds { elf with image := image, imagePages := progH.imagePages } m) :
    InBounds { elf with image := image, imagePages := progH.imagePages }
        (elfAssembleImage { elf with image := image, imagePages := progH.imagePages } m) ↔
      SegmentFits elf progH := by
  obtain ⟨elf', helf'⟩ : ∃ e : ElfDesc, e =
    { elf with image := image, imagePages := progH.imagePages } := ⟨_, rfl⟩
  have hr' : PageRange elf'.start elf'.pages := by
    rw [helf']
    exact hr
  rw [← helf'] at hseg hfit hm ⊢
  -- the headers that the search reads are inside the file
  have hreads : ∀ a ∈ headerReads m.ram elf', Access.Inside 4294967296 elf'.start
      (elf'.start + elf'.pages * smallPageSize) a := by
    rw [← fileEnd_eq hr']
    exact (headerReads_inside_iff _ hr').mpr hfit
  have hbefore : InBounds elf' (m.readAll (headerReads m.ram elf')) := by
    refine ⟨fun a ha => ?_, hm.writes⟩
    rcases List.mem_append.mp ha with ha | ha
    · exact hreads a ha
    · exact hm.reads a ha
  rw [elfAssembleImage_of_segment (by rw [helf']; exact ⟨hl.start, hl.check⟩)
    (by rw [helf']; exact hne) hseg]
  have hsize : elf'.fileSize = elf.fileSize := by
    rw [helf']
    rfl
  rw [hsize]
  by_cases htest : progH.offset > elf.fileSize ∨
      u32 (progH.offset + progH.filesz) > elf.fileSize
  · simp only [if_pos htest]
    refine iff_of_true hbefore ?_
    rcases htest with h | h
    · exact Or.inr (Or.inl h)
    · exact Or.inr (Or.inr (Or.inl h))
  · simp only [if_neg htest]
    rw [← copy_inside_iff hr hi (by omega) (by omega)]
    constructor
    · intro h
      have hread := h.reads _ (List.mem_cons_self ..)
      have hwrite := h.writes _ (List.mem_cons_self ..)
      rw [helf'] at hread hwrite
      exact ⟨hread, hwrite⟩
    · intro hgiven
      obtain ⟨hread, hwrite⟩ := hgiven
      refine ⟨fun a ha => ?_, fun a ha => ?_⟩
      · rcases List.mem_cons.mp ha with rfl | ha
        · rw [helf']
          exact hread
        · exact hbefore.reads a ha
      · rcases List.mem_cons.mp ha with rfl | ha
        · rw [helf']
          exact hwrite
        · exact hbefore.writes a ha

section Held

variable {w : PageWorld} {ram : Bytes} {elf : ElfDesc}

/-- Memory before the image is allocated. -/
abbrev before (w : PageWorld) (ram : Bytes) : Machine := ⟨ram, w.pages, [], []⟩

/-- Without an image only the headers matter. -/
theorem headers_inBounds_iff (hr : PageRange elf.start elf.pages) (pages : Pageblocks) :
    InBounds elf ⟨ram, pages, headerReads ram elf ++ [], []⟩ ↔
      ∀ p ∈ fileHeaders ram elf, p + sizeofProgHeader < 4294967296 := by
  rw [← headerReads_inside_iff ram hr, List.append_nil, fileEnd_eq hr]
  exact ⟨fun h => h.reads, fun h => ⟨h, nofun⟩⟩

/-- Memory with a cleared image. -/
def cleared (w : PageWorld) (ram : Bytes) (elf : ElfDesc) (progH : ProgHeader) : Machine :=
  Machine.memset ⟨ram, (useConsecutivePages progH.imagePages 0 w.pages).2,
    headerReads ram elf ++ [], []⟩ (imageRun w.pages progH) 0 (u32 (progH.imagePages * smallPageSize))

/-- The descriptor with the image. -/
def withImage (w : PageWorld) (elf : ElfDesc) (progH : ProgHeader) : ElfDesc :=
  { elf with image := imageRun w.pages progH, imagePages := progH.imagePages }

theorem elfAllocImage_withImage {progH : ProgHeader} (hl : Loadable ram elf)
    (himage : elf.image = 0) (hseg : fileSegment ram elf = some progH)
    (hrun : imageRun w.pages progH ≠ 0) :
    elfAllocImage elf (before w ram) = (withImage w elf progH, cleared w ram elf progH) := by
  rw [elfAllocImage_of_segment hl himage hseg]
  exact if_neg hrun

/-- With an image, the headers and the segment matter. -/
theorem load_inBounds_of_image {progH : ProgHeader} (hw : PageInv w)
    (hheld : (elf.start, elf.pages) ∈ w.held) (himage : elf.image = 0) (hl : Loadable ram elf)
    (hseg : fileSegment ram elf = some progH) (hrun : imageRun w.pages progH ≠ 0) :
    InBounds (load elf (before w ram)).1 (load elf (before w ram)).2 ↔
      (∀ p ∈ fileHeaders ram elf, p + sizeofProgHeader < 4294967296) ∧
        SegmentFits elf progH := by
  have hr : PageRange elf.start elf.pages := hw.range hheld
  obtain ⟨hi, hapart⟩ := useConsecutivePages_apart (n := progH.imagePages) hw
    (Nat.succ_pos _) (imageRun_eq hrun)
  -- clearing the image does not touch the file, so both searches find the same
  have hsame := sameFile_memset ram hr hi (hapart _ hheld)
  have hl' : Loadable (cleared w ram elf progH).ram elf := ⟨hl.start, hsame.header hr ▸ hl.check⟩
  have hin := headerReads_inside_iff ram hr
  rw [fileEnd_eq hr] at hin
  -- the clearing itself stays inside the new pages
  have hwritten : Access.Inside 4294967296 (imageRun w.pages progH)
      (imageRun w.pages progH + progH.imagePages * smallPageSize)
      (imageRun w.pages progH, u32 (progH.imagePages * smallPageSize)) := by
    have hbelow := hi.below
    rw [u32_of_lt (by omega)]
    exact Access.inside_of_le (Nat.le_refl _) (Nat.le_refl _) (by omega)
  unfold load
  rw [elfAllocImage_withImage hl himage hseg hrun]
  have hiff : (∀ p ∈ fileHeaders ram elf, p + sizeofProgHeader < 4294967296) →
      (InBounds (withImage w elf progH)
          (elfAssembleImage (withImage w elf progH) (cleared w ram elf progH)) ↔
        SegmentFits elf progH) := fun hfit => by
    obtain ⟨hheaders, hsegment⟩ := hsame.search hr (imageRun w.pages progH) progH.imagePages hfit
    refine assemble_inBounds_iff hr hi hrun hl' (hsegment.trans hseg) (hheaders ▸ hfit)
      ⟨fun a ha => ?_, fun a ha => ?_⟩
    · exact hin.mpr hfit a ((List.mem_append.mp ha).resolve_right nofun)
    · rw [List.mem_singleton.mp ha]
      exact hwritten
  constructor
  · intro h
    have hfit := hin.mp fun a ha =>
      h.reads a (elfAssembleImage_reads (List.mem_append_left _ ha))
    exact ⟨hfit, (hiff hfit).mp h⟩
  · intro hgiven
    obtain ⟨hfit, hsegment⟩ := hgiven
    exact (hiff hfit).mpr hsegment

end Held

/-- **Loading stays in bounds exactly for the files that fit.** -/
theorem load_inBounds_iff {w : PageWorld} (hw : PageInv w) (ram : Bytes) {elf : ElfDesc}
    (hheld : (elf.start, elf.pages) ∈ w.held) (himage : elf.image = 0) :
    InBounds (load elf (before w ram)).1 (load elf (before w ram)).2 ↔
      (Loadable ram elf → LoadFits ram w.pages elf) := by
  have hr : PageRange elf.start elf.pages := hw.range hheld
  by_cases hl : Loadable ram elf
  · cases hseg : fileSegment ram elf with
    | none =>
        unfold load
        rw [elfAllocImage_of_no_segment hl himage hseg]
        simp only [elfAssembleImage_of_no_image himage]
        refine (headers_inBounds_iff hr _).trans ⟨fun h _ => ⟨h, fun progH hp => ?_⟩,
          fun h => (h hl).headers⟩
        rw [hseg] at hp
        exact nomatch hp
    | some progH =>
        by_cases hrun : imageRun w.pages progH = 0
        · unfold load
          rw [elfAllocImage_of_segment hl himage hseg]
          simp only [if_pos hrun, elfAssembleImage_of_no_image himage]
          refine (headers_inBounds_iff hr _).trans ⟨fun h _ => ⟨h, fun progH' hp hne => ?_⟩,
            fun h => (h hl).headers⟩
          rw [hseg, Option.some.injEq] at hp
          exact absurd (hp ▸ hrun) hne
        · rw [load_inBounds_of_image hw hheld himage hl hseg hrun]
          refine ⟨fun h _ => ⟨h.1, fun progH' hp _ => ?_⟩, fun h => ⟨(h hl).headers, ?_⟩⟩
          · rw [hseg, Option.some.injEq] at hp
            exact hp ▸ h.2
          · exact (h hl).segment progH hseg hrun
  · unfold load
    obtain ⟨reads, hsub, halloc⟩ := elfAllocImage_of_not_loadable (m := before w ram) hl himage
    rw [halloc, elfAssembleImage_of_no_image himage]
    refine iff_of_true ⟨fun a ha => ?_, nofun⟩ fun h => absurd h hl
    rw [← fileEnd_eq hr]
    exact headerReads_inside hr a (hsub ((List.mem_append.mp ha).resolve_right nofun))

/-! ## A file of two pages -/

/-- A file with one program header behind the file header. -/
def oneSegment (filesz memsz : Nat) : List UInt8 :=
  let word := fun v => (List.range 4).map fun i => UInt8.ofNat (v / 256 ^ i)
  [0x7f, 0x45, 0x4c, 0x46, 1, 1, 1, 0, 0, 0, 0, 0, 0, 0, 0, 0, 3, 0, 0x28, 0, 1, 0, 0, 0,
    0, 0, 0, 0, 52, 0, 0, 0, 0, 0, 0, 0, 0, 0, 0, 0, 52, 0, 32, 0, 1, 0, 40, 0, 0, 0, 0, 0] ++
    word 1 ++ word 0 ++ word 0 ++ word 0 ++ word filesz ++ word memsz ++ word 5 ++ word 4096

/-- The file in memory. -/
def fileRam (file : List UInt8) : Bytes := fun x =>
  if x < 0x10001000 then 0 else file.getD (x - 0x10001000) 0

/-- Eight free pages. -/
def eightPages : PageWorld := ⟨(allocPageblock 0x10000800 8 []).2, []⟩

/-- The file is in the first two of them. -/
def twoOfEight : PageWorld := ⟨(useConsecutivePages 2 0 eightPages.pages).2, [(0x10001000, 2)]⟩

def twoPages : ElfDesc := { pages := 2, start := 0x10001000, image := 0, imagePages := 0 }

theorem pageInv_eightPages : PageInv eightPages :=
  pageInv_allocPageblock pageInv_init (by omega) fun _ => ⟨by decide, nofun⟩

theorem pageInv_twoOfEight : PageInv twoOfEight :=
  pageInv_useConsecutivePages pageInv_eightPages 0 (n := 2) (by omega)

theorem loadable_oneSegment (filesz memsz : Nat) :
    Loadable (fileRam (oneSegment filesz memsz)) twoPages :=
  ⟨by decide, rfl⟩

/-- A segment that is as long in the file as in memory. -/
theorem load_inBounds_iff_short :
    InBounds (load twoPages (before twoOfEight (fileRam (oneSegment 100 100)))).1
      (load twoPages (before twoOfEight (fileRam (oneSegment 100 100)))).2 := by
  rw [load_inBounds_iff pageInv_twoOfEight _ (List.mem_singleton.mpr rfl) rfl]
  intro _
  have hseg : fileSegment (fileRam (oneSegment 100 100)) twoPages =
      some ⟨1, 0, 0, 0, 100, 100, 5, 4096⟩ := by decide +kernel
  refine ⟨by decide +kernel, fun progH hp _ => ?_⟩
  rw [hseg, Option.some.injEq] at hp
  subst hp
  exact Or.inr (Or.inr (Or.inr ⟨by decide, by decide⟩))

/-- With 5000 bytes in the file and 100 in memory a page is filled with 5000 bytes. -/
theorem longSegment_overruns :
    ¬ ∀ (w : PageWorld) (ram : Bytes) (elf : ElfDesc), PageInv w →
      (elf.start, elf.pages) ∈ w.held → elf.image = 0 →
      InBounds (load elf (before w ram)).1 (load elf (before w ram)).2 := by
  intro h
  have hin := h twoOfEight (fileRam (oneSegment 5000 100)) twoPages pageInv_twoOfEight
    (List.mem_singleton.mpr rfl) rfl
  have hseg : fileSegment (fileRam (oneSegment 5000 100)) twoPages =
      some ⟨1, 0, 0, 0, 5000, 100, 5, 4096⟩ := by decide +kernel
  rw [load_inBounds_of_image pageInv_twoOfEight (List.mem_singleton.mpr rfl) rfl
    (loadable_oneSegment 5000 100) hseg (by decide +kernel)] at hin
  rcases hin.2 with h | h | h | ⟨-, h⟩ <;> exact absurd h (by decide)

end OSExt.Elf
