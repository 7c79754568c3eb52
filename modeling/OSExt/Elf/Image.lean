import OSExt.Lib.Table
import OSExt.Elf.FixGot

/-!
# The image of a well-formed file

For a file whose headers and names lie inside it, with a global offset table in its
first loadable segment and clear of the headers, the four passes over the file do what
they are for: the image is the segment with each word of the table fixed once, and zero
behind it. All passes read the file from memory; two of them after the table has been
fixed there.
-/

namespace OSExt.Elf

open Lib Memory Libk

/-! ## Well-formed files -/

/-- The bytes of a file, by offset. -/
def fileBytes (file : List UInt8) : Bytes := fun x => file.getD x 0

def fileHeader (file : List UInt8) : ElfHeader := elfReadHeaderMem (fileBytes file) 0

def progOffset (file : List UInt8) (i : Nat) : Nat :=
  (fileHeader file).progTable + i * (fileHeader file).progSize

def sectOffset (file : List UInt8) (k : Nat) : Nat :=
  (fileHeader file).sectTable + k * (fileHeader file).sectSize

def progAt (file : List UInt8) (i : Nat) : ProgHeader :=
  readProgHeader (fileBytes file) (progOffset file i)

def sectAt (file : List UInt8) (k : Nat) : SectHeader :=
  readSectHeader (fileBytes file) (sectOffset file k)

/-- The section with the names of sections. -/
def strtabAt (file : List UInt8) : SectHeader := sectAt file (fileHeader file).sectStrtab

/-- The offset of the name of a section. -/
def nameOffset (file : List UInt8) (k : Nat) : Nat := (strtabAt file).offset + (sectAt file k).name

/-- The bytes of a section. -/
def SectHeader.Contains (sect : SectHeader) (x : Nat) : Prop :=
  sect.offset ≤ x ∧ x < sect.offset + sect.size

/-- Program header `i` is the first loadable segment and section `k` its offset table. -/
structure WellFormed (file : List UInt8) (i k : Nat) : Prop where
  size : file.length < 4294967296
  header : 52 ≤ file.length
  check : elfCheckHeader (fileHeader file) = true
  progs : ∀ j < (fileHeader file).progCount, progOffset file j + sizeofProgHeader ≤ file.length
  sects : ∀ j < (fileHeader file).sectCount, sectOffset file j + sizeofSectHeader ≤ file.length
  strtab : (fileHeader file).sectStrtab < (fileHeader file).sectCount
  strings : (strtabAt file).offset + (strtabAt file).size ≤ file.length
  names : ∀ j < (fileHeader file).sectCount, (sectAt file j).name < (strtabAt file).size
  segment : i < (fileHeader file).progCount
  load : (progAt file i).type = 1
  first : ∀ j < i, (progAt file j).type ≠ 1
  inFile : (progAt file i).offset + (progAt file i).filesz ≤ file.length
  inMemory : (progAt file i).filesz ≤ (progAt file i).memsz
  got : k < (fileHeader file).sectCount
  named : ∀ n < 5, (fileBytes file) (nameOffset file k + n) = gotName n
  nameEnd : (sectAt file k).name + 5 ≤ (strtabAt file).size
  aligned : (sectAt file k).offset % 4 = 0
  whole : (sectAt file k).size % 4 = 0
  inSegment : (progAt file i).offset ≤ (sectAt file k).offset ∧
    (sectAt file k).offset + (sectAt file k).size ≤
      (progAt file i).offset + (progAt file i).filesz
  /-- The table overlaps no header. -/
  apart : ∀ x, (sectAt file k).Contains x → 52 ≤ x ∧
    (∀ j < (fileHeader file).progCount,
      x < progOffset file j ∨ progOffset file j + sizeofProgHeader ≤ x) ∧
    ∀ j < (fileHeader file).sectCount,
      x < sectOffset file j ∨ sectOffset file j + sizeofSectHeader ≤ x

/-- The section headers and the string table with their names are in the file. -/
structure Sections (file : List UInt8) : Prop where
  header : 52 ≤ file.length
  check : elfCheckHeader (fileHeader file) = true
  sects : ∀ j < (fileHeader file).sectCount, sectOffset file j + sizeofSectHeader ≤ file.length
  strtab : (fileHeader file).sectCount ≠ 0 →
    (fileHeader file).sectStrtab < (fileHeader file).sectCount
  strings : (fileHeader file).sectCount ≠ 0 →
    (strtabAt file).offset + (strtabAt file).size ≤ file.length
  names : ∀ j < (fileHeader file).sectCount, (sectAt file j).name < (strtabAt file).size

theorem WellFormed.sections {file : List UInt8} {i k : Nat} (hf : WellFormed file i k) :
    Sections file :=
  ⟨hf.header, hf.check, hf.sects, fun _ => hf.strtab, fun _ => hf.strings, hf.names⟩

/-- No other section passes the name test. -/
abbrev OnlyGot (file : List UInt8) (k : Nat) (elf : ElfDesc) (ram : Bytes) : Prop :=
  ∀ j < (fileHeader file).sectCount,
    namedGot (stringAt ram (elf.start + nameOffset file j))
      (elf.fileEnd - (elf.start + nameOffset file j)) = true → j = k

/-! ## The file in memory -/

/-- Apart from some of its bytes the file is in memory, in pages larger than it. -/
structure HoldsExcept (P : Nat → Prop) (file : List UInt8) (elf : ElfDesc) (ram : Bytes) : Prop where
  range : PageRange elf.start elf.pages
  room : file.length < elf.pages * smallPageSize
  bytes : ∀ x < file.length, ¬ P x → ram (elf.start + x) = fileBytes file x

namespace HoldsExcept

variable {P : Nat → Prop} {file : List UInt8} {elf : ElfDesc} {ram : Bytes}

theorem same (h : HoldsExcept P file elf ram) {o n : Nat} (hin : o + n ≤ file.length)
    (hout : ∀ x, o ≤ x → x < o + n → ¬ P x) :
    SameBytes ram (fileBytes file) (elf.start + o) o n := by
  have hbelow := h.range.below
  have hroom := h.room
  intro i hi
  rw [u32_of_lt (by omega), u32_of_lt (by omega), Nat.add_assoc]
  exact h.bytes _ (by omega) (hout _ (by omega) (by omega))

theorem fileHeader_eq (h : HoldsExcept P file elf ram) (hsize : 52 ≤ file.length)
    (hout : ∀ x < 52, ¬ P x) : elfReadHeaderMem ram elf.start = fileHeader file :=
  (h.same (o := 0) (by omega) fun x _ hx => hout x (by omega)).header

end HoldsExcept

/-! ## Searches that succeed -/

/-- The search for the segment finds header `i` if the ones before it are not loadable. -/
theorem loadHeader_eq {ram : Bytes} {elf : ElfDesc} (hr : PageRange elf.start elf.pages)
    {progSize : Nat} (H : Nat → ProgHeader) (i count q : Nat) (hi : i < count)
    (hin : ∀ j ≤ i, elf.start ≤ q + j * progSize ∧
      q + j * progSize + sizeofProgHeader < elf.fileEnd ∧
      readProgHeader ram (q + j * progSize) = H j)
    (hfirst : ∀ j < i, (H j).type ≠ 1) (htype : (H i).type = 1) :
    loadHeader ram elf progSize count (u32 q) = some (H i) := by
  have hend := fileEnd_bounds hr
  have hround : ∀ j ≤ i, ∀ n, loadHeader ram elf progSize (n + 1) (u32 (q + j * progSize)) =
      if (H j).type = 1 then some (H j)
      else loadHeader ram elf progSize n (u32 (q + (j + 1) * progSize)) := by
    intro j hj n
    obtain ⟨hlo, hhi, hread⟩ := hin j hj
    rw [u32_of_lt (show q + j * progSize < 4294967296 by omega), loadHeader, u32_of_lt (by omega),
      if_neg (by omega), hread, Nat.succ_mul, Nat.add_assoc]
  have hfound := search_found (loadHeader ram elf progSize) (fun j => u32 (q + j * progSize)) hi
    (fun j hj n => by rw [hround j hj.le, if_neg (hfirst j hj)])
    (fun n => by rw [hround i (Nat.le_refl i), if_pos htype])
  rw [Nat.zero_mul, Nat.add_zero] at hfound
  exact hfound

/-- The search for the table finds section `k` if none before it passes the name test. -/
theorem gotSection_eq {ram : Bytes} {elf : ElfDesc} (hr : PageRange elf.start elf.pages)
    {strtab : SectHeader} {sectSize : Nat} (S : Nat → SectHeader) (k count q : Nat) (hk : k < count)
    (hin : ∀ j ≤ k, elf.start ≤ q + j * sectSize ∧
      q + j * sectSize + sizeofSectHeader < elf.fileEnd ∧
      readSectHeader ram (q + j * sectSize) = S j ∧
      elf.start ≤ nameAt elf strtab (S j) ∧ nameAt elf strtab (S j) < elf.fileEnd ∧
      (namedGot (stringAt ram (nameAt elf strtab (S j)))
        (elf.fileEnd - nameAt elf strtab (S j)) = true ↔ j = k)) :
    gotSection ram elf strtab sectSize count (u32 q) = some (S k) := by
  have hend := fileEnd_bounds hr
  have hround : ∀ j ≤ k, ∀ n, gotSection ram elf strtab sectSize (n + 1) (u32 (q + j * sectSize)) =
      if j = k then some (S j)
      else gotSection ram elf strtab sectSize n (u32 (q + (j + 1) * sectSize)) := by
    intro j hj n
    obtain ⟨hlo, hhi, hread, hnlo, hnhi, htest⟩ := hin j hj
    rw [u32_of_lt (show q + j * sectSize < 4294967296 by omega), gotSection, u32_of_lt (by omega),
      if_neg (by omega)]
    simp only [hread, htest]
    rw [if_neg (by omega), Nat.succ_mul, Nat.add_assoc]
  have hfound := search_found (gotSection ram elf strtab sectSize)
    (fun j => u32 (q + j * sectSize)) hk
    (fun j hj n => by rw [hround j hj.le, if_neg (Nat.ne_of_lt hj)])
    (fun n => by rw [hround k (Nat.le_refl k), if_pos rfl])
  rw [Nat.zero_mul, Nat.add_zero] at hfound
  exact hfound

/-! ## The name test -/

/-- A string with the characters of `.got` passes, if the file goes on behind it. -/
theorem namedGot_of_chars {name : CString} {maxlen : Nat} (h : ∀ n < 5, name n = gotName n)
    (hlen : 6 ≤ maxlen) : namedGot name maxlen = true := by
  have hstop : name 4 = 0 := h 4 (by omega)
  have hcmp : kStrcmp name gotName (maxlen - 1) = 0 :=
    strcmpLoop_agree (fun n hn => h n (by omega)) hstop _ 0 0 (by omega)
  have hchars : ∀ n < 4, gotName n ≠ 0 := by decide
  have hstrlen : kStrlen name (maxlen - 1) = 4 :=
    (kStrlen_isLength name (maxlen - 1)).unique
      ⟨by omega, fun n hn => (h n (by omega)).symm ▸ hchars n hn, fun _ => hstop⟩
  rw [namedGot, hcmp, hstrlen]
  rfl

namespace HoldsExcept

variable {P : Nat → Prop} {file : List UInt8} {elf : ElfDesc} {ram : Bytes} {i k : Nat}

theorem loadable (h : HoldsExcept P file elf ram) (hf : Sections file)
    (hstart : elf.start ≠ 0) (hout : ∀ x < 52, ¬ P x) : Loadable ram elf :=
  ⟨hstart, (h.fileHeader_eq hf.header hout).symm ▸ hf.check⟩

/-- While the headers are intact the segment is found. -/
theorem segment (h : HoldsExcept P file elf ram) (hf : WellFormed file i k)
    (hheader : ∀ x < 52, ¬ P x)
    (hprogs : ∀ j < (fileHeader file).progCount, ∀ x, progOffset file j ≤ x →
      x < progOffset file j + sizeofProgHeader → ¬ P x) :
    fileSegment ram elf = some (progAt file i) := by
  have hbelow := h.range.below
  have hroom := h.room
  have hend := fileEnd_eq h.range
  unfold fileSegment
  simp only [h.fileHeader_eq hf.header hheader]
  refine loadHeader_eq h.range (progAt file) i _ _ hf.segment (fun j hj => ?_) hf.first hf.load
  have hprog := hf.progs j (by have := hf.segment; omega)
  have hsame := h.same hprog (hprogs j (by have := hf.segment; omega))
  rw [show elf.start + (fileHeader file).progTable + j * (fileHeader file).progSize =
    elf.start + progOffset file j from Nat.add_assoc _ _ _]
  exact ⟨by omega, by omega, hsame.progHeader⟩

end HoldsExcept

section Table

variable {file : List UInt8} {elf : ElfDesc} {ram : Bytes} {i k : Nat}

/-- The whole file is in memory. -/
abbrev Holds (file : List UInt8) (elf : ElfDesc) (ram : Bytes) : Prop :=
  HoldsExcept (fun _ => False) file elf ram

theorem Holds.sect (h : Holds file elf ram) (hf : Sections file) {j : Nat}
    (hj : j < (fileHeader file).sectCount) :
    readSectHeader ram (elf.start + sectOffset file j) = sectAt file j :=
  (h.same (hf.sects j hj) fun _ _ _ hx => hx).sectHeader

theorem Holds.strtabHeader_eq (h : Holds file elf ram) (hf : Sections file)
    (hcount : (fileHeader file).sectCount ≠ 0) :
    strtabHeader ram elf = sectOffset file (fileHeader file).sectStrtab := by
  have hsect := hf.sects _ (hf.strtab hcount)
  have hbelow := h.range.below
  have hroom := h.room
  unfold strtabHeader
  rw [h.fileHeader_eq hf.header fun _ _ hx => hx]
  unfold sectOffset at *
  exact u32_of_lt (by omega)

theorem Holds.strtabOf_eq (h : Holds file elf ram) (hf : Sections file)
    (hcount : (fileHeader file).sectCount ≠ 0) : strtabOf ram elf = strtabAt file := by
  have hsect := hf.sects _ (hf.strtab hcount)
  have hbelow := h.range.below
  have hroom := h.room
  unfold strtabOf strtabAt
  rw [h.strtabHeader_eq hf hcount, u32_of_lt (by omega)]
  exact h.sect hf (hf.strtab hcount)

theorem Holds.hasStrtab (h : Holds file elf ram) (hf : Sections file)
    (hcount : (fileHeader file).sectCount ≠ 0) (hstart : elf.start ≠ 0) : HasStrtab ram elf := by
  have hsect := hf.sects _ (hf.strtab hcount)
  have hbelow := h.range.below
  have hroom := h.room
  refine ⟨h.loadable hf hstart fun _ _ hx => hx, ?_, ?_⟩
  · rw [h.fileHeader_eq hf.header fun _ _ hx => hx]
    exact hcount
  · rw [h.strtabHeader_eq hf hcount, u32_of_lt (by omega), fileSize_eq h.range]
    omega

/-- Where the name of a section is in memory. -/
theorem Holds.nameAt_eq (h : Holds file elf ram) (hf : Sections file) {j : Nat}
    (hj : j < (fileHeader file).sectCount) :
    nameAt elf (strtabAt file) (sectAt file j) = elf.start + nameOffset file j := by
  have hbelow := h.range.below
  have hroom := h.room
  have hname := hf.names j hj
  have hstrings := hf.strings (Nat.ne_zero_of_lt hj)
  unfold nameAt nameOffset
  rw [Nat.add_assoc, u32_of_lt (by omega)]

/-- **The table is found.** -/
theorem Holds.fileGot_eq (h : Holds file elf ram) (hf : WellFormed file i k)
    (honly : OnlyGot file k elf ram) : fileGot ram elf = some (sectAt file k) := by
  have hbelow := h.range.below
  have hroom := h.room
  have hend := fileEnd_eq h.range
  have hstrings := hf.strings
  unfold fileGot
  simp only [h.fileHeader_eq hf.header fun _ _ hx => hx,
    h.strtabOf_eq hf.sections (Nat.ne_zero_of_lt hf.got)]
  refine gotSection_eq h.range (sectAt file) k _ _ hf.got fun j hj => ?_
  have hlt : j < (fileHeader file).sectCount := Nat.lt_of_le_of_lt hj hf.got
  have hsect := hf.sects j hlt
  have hname := hf.names j hlt
  have hnameOffset : nameOffset file j = (strtabAt file).offset + (sectAt file j).name := rfl
  rw [show elf.start + (fileHeader file).sectTable + j * (fileHeader file).sectSize =
    elf.start + sectOffset file j from Nat.add_assoc _ _ _, h.nameAt_eq hf.sections hlt]
  refine ⟨by omega, by omega, h.sect hf.sections hlt, by omega, by omega, honly j hlt, ?_⟩
  intro heq
  subst heq
  -- the section that is named `.got` passes
  have hnameEnd := hf.nameEnd
  refine namedGot_of_chars (fun n hn => ?_) (by omega)
  unfold stringAt
  rw [u32_of_lt (by omega), Nat.add_assoc, h.bytes _ (by omega) fun hx => hx]
  exact hf.named n hn

theorem Holds.gotAccepted (h : Holds file elf ram) (hf : WellFormed file i k) :
    GotAccepted elf (sectAt file k) := by
  have hroom := h.room
  have hin := hf.inSegment
  have hfile := hf.inFile
  have hsize := hf.size
  unfold GotAccepted
  rw [fileSize_eq h.range, u32_of_lt (by omega)]
  exact ⟨by omega, hf.aligned, by omega⟩

end Table

/-! ## The passes -/

/-- `elf_load_file` takes a run of pages and reads the file into it. -/
theorem elfLoadFile_holds {w : PageWorld} (hw : PageInv w) {desc : Nat} {file : List UInt8}
    {m m1 : Machine} {elf : ElfDesc} (hpages : m.pages = w.pages)
    (h : elfLoadFile desc file.length file m = (some elf, m1)) :
    PageInv ⟨m1.pages, (elf.start, elf.pages) :: w.held⟩ ∧ elf.image = 0 ∧ elf.start ≠ 0 ∧
      Holds file elf m1.ram := by
  unfold elfLoadFile at h
  rw [List.take_length] at h
  by_cases hdesc : desc = 0
  · rw [if_pos hdesc] at h
    exact nomatch h
  · rw [if_neg hdesc, hpages] at h
    have hinv := pageInv_useConsecutivePages hw (n := file.length / smallPageSize + 1) 0
      (Nat.succ_pos _)
    cases hrun : (useConsecutivePages (file.length / smallPageSize + 1) 0 w.pages).1 with
    | none =>
        simp only [hrun, Option.getD_none, if_true] at h
        exact nomatch h
    | some start =>
        rw [hrun] at hinv
        simp only [hrun, Option.getD_some] at h
        by_cases hstart : start = 0
        · simp only [if_pos hstart] at h
          exact nomatch h
        · simp only [if_neg hstart, Prod.mk.injEq, Option.some.injEq] at h
          obtain ⟨rfl, rfl⟩ := h
          refine ⟨hinv, rfl, hstart, hinv.range (List.mem_cons_self ..), ?_, fun x hx _ => ?_⟩
          · show file.length < (file.length / smallPageSize + 1) * smallPageSize
            simp only [smallPageSize]
            omega
          · refine (if_pos ⟨Nat.le_add_right _ _, Nat.add_lt_add_left hx start⟩).trans ?_
            rw [Nat.add_sub_cancel_left]
            rfl

/-- An image of whole pages beside the file. -/
structure HasImage (file : List UInt8) (i : Nat) (elf : ElfDesc) : Prop where
  pages : elf.imagePages = (progAt file i).imagePages
  range : PageRange elf.image elf.imagePages
  apart : elf.image + elf.imagePages * smallPageSize ≤ elf.start ∨
    elf.start + elf.pages * smallPageSize ≤ elf.image
  start : elf.start ≠ 0
  image : elf.image ≠ 0

/-- `elf_alloc_image` gives the file a cleared image. -/
theorem elfAllocImage_holds {w : PageWorld} {file : List UInt8} {i k : Nat}
    (hf : WellFormed file i k) {elf elf' : ElfDesc} {m m' : Machine} (hw : PageInv w)
    (hpages : m.pages = w.pages) (hheld : (elf.start, elf.pages) ∈ w.held)
    (himage : elf.image = 0) (hstart : elf.start ≠ 0) (hm : Holds file elf m.ram)
    (h : elfAllocImage elf m = (elf', m')) (hne : elf'.image ≠ 0) :
    HasImage file i elf' ∧ elf'.start = elf.start ∧ elf'.pages = elf.pages ∧
      Holds file elf' m'.ram ∧
      ∀ x, elf'.image ≤ x → x < elf'.image + elf'.imagePages * smallPageSize → m'.ram x = 0 := by
  have hseg := hm.segment hf (fun _ _ hx => hx) fun _ _ _ _ _ hx => hx
  rw [elfAllocImage_of_segment (hm.loadable hf.sections hstart fun _ _ hx => hx) himage hseg, hpages] at h
  by_cases hrun : imageRun w.pages (progAt file i) = 0
  · simp only [if_pos hrun, Prod.mk.injEq] at h
    exact absurd (h.1 ▸ himage) hne
  · simp only [if_neg hrun, Prod.mk.injEq] at h
    obtain ⟨rfl, rfl⟩ := h
    obtain ⟨hi, hapart⟩ := useConsecutivePages_apart (n := (progAt file i).imagePages) hw
      (Nat.succ_pos _) (imageRun_eq hrun)
    have hsame := sameFile_memset m.ram hm.range hi (hapart _ hheld)
    have hbelow := hi.below
    have hend := fileEnd_eq hm.range
    have hroom := hm.room
    refine ⟨⟨rfl, hi, hapart _ hheld, hstart, hrun⟩, rfl, rfl, ⟨hm.range, hroom, fun x hx _ => ?_⟩,
      fun x hlo hhi => ?_⟩
    · rw [← hm.bytes x hx fun hx => hx]
      exact (hsame (elf.start + x) (by omega) (by omega)).symm
    · have hcleared := Bytes.fill_apply (m := m.ram) (x := x) 0
        (show imageRun w.pages (progAt file i) + u32 ((progAt file i).imagePages * smallPageSize) ≤
          4294967296 by rw [u32_of_lt (by omega)]; omega)
      rw [u32_of_lt (by omega), if_pos ⟨hlo, hhi⟩] at hcleared
      have hsize : u32 ((progAt file i).imagePages * smallPageSize) =
        (progAt file i).imagePages * smallPageSize := u32_of_lt (by omega)
      simp only [Machine.memset, hsize]
      exact hcleared

/-- `elf_fix_got` fixes the words of the table in the file. -/
theorem elfFixGot_holds {file : List UInt8} {i k : Nat} (hf : WellFormed file i k)
    {elf : ElfDesc} {m : Machine} (hstart : elf.start ≠ 0) (hm : Holds file elf m.ram)
    (honly : OnlyGot file k elf m.ram) :
    (∀ j < (sectAt file k).size / 4,
        word (elfFixGot elf m).ram (elf.start + (sectAt file k).offset + 4 * j) =
          fixed elf.image (word (fileBytes file) ((sectAt file k).offset + 4 * j))) ∧
      (∀ x, x < elf.start + (sectAt file k).offset ∨
        elf.start + (sectAt file k).offset + (sectAt file k).size ≤ x →
        (elfFixGot elf m).ram x = m.ram x) := by
  have hcount := Nat.ne_zero_of_lt hf.got
  obtain ⟨reads, hsearch⟩ := elfFixGot_of_strtab hm.range (hm.hasStrtab hf.sections hcount hstart)
  have hoffset : (strtabOf m.ram elf).offset < elf.fileSize := by
    have hroom := hm.room
    have hstrings := hf.strings
    have hname := hf.names k hf.got
    rw [hm.strtabOf_eq hf.sections hcount, fileSize_eq hm.range]
    omega
  rw [hsearch.found hoffset _ (hm.fileGot_eq hf honly)]
  have hsize := hf.size
  have hin := hf.inSegment
  have hfile := hf.inFile
  have hwhole := hf.whole
  obtain ⟨hroom, hfixed⟩ := fixTable_spec (m := m.readAll (reads ++ strtabReads m.ram elf))
    hm.range (hm.gotAccepted hf) (by omega)
  refine ⟨fun j hj => ?_, fun x hx => hfixed.ram x (by omega)⟩
  have hsame := hm.same (o := (sectAt file k).offset + 4 * j) (n := 4) (by omega)
    fun _ _ _ hx => hx
  rw [hfixed.words j hj, Nat.add_assoc]
  exact congrArg (fixed elf.image) (hsame.number (o := 0) (Nat.le_refl _))

/-- The image of segment `i` with the table `k`, in a memory. -/
structure ModuleImage (file : List UInt8) (i k : Nat) (elf : ElfDesc) (m : Machine) : Prop where
  /-- Bytes that are not in the table are those of the file. -/
  bytes : ∀ x < (progAt file i).filesz, ¬ (sectAt file k).Contains ((progAt file i).offset + x) →
    m.ram (elf.image + x) = fileBytes file ((progAt file i).offset + x)
  /-- The words of the table are fixed once. -/
  words : ∀ j < (sectAt file k).size / 4,
    word m.ram (elf.image + ((sectAt file k).offset - (progAt file i).offset) + 4 * j) =
      fixed elf.image (word (fileBytes file) ((sectAt file k).offset + 4 * j))
  /-- Everything behind the segment is zero. -/
  zeros : ∀ x, (progAt file i).filesz ≤ x → x < elf.imagePages * smallPageSize →
    m.ram (elf.image + x) = 0
  /-- The entry point is given exactly if it is in the image. -/
  entry : elfEntry elf m =
    if (fileHeader file).entry < elf.imagePages * smallPageSize then
      elf.image + (fileHeader file).entry
    else 0

/-- A segment with at most as many bytes in the file as in memory fits its image. -/
theorem filesz_lt {file : List UInt8} {i k : Nat} (hf : WellFormed file i k) {elf : ElfDesc}
    (hi : HasImage file i elf) : (progAt file i).filesz < elf.imagePages * smallPageSize := by
  have hle := hf.inMemory
  rw [hi.pages, ProgHeader.imagePages]
  simp only [smallPageSize]
  omega

/-- `elf_assemble_image` copies the segment. -/
theorem elfAssembleImage_ram {file : List UInt8} {i k : Nat} (hf : WellFormed file i k)
    {elf : ElfDesc} {m : Machine} (hi : HasImage file i elf)
    (hm : HoldsExcept (sectAt file k).Contains file elf m.ram) (x : Nat) :
    (elfAssembleImage elf m).ram x =
      if elf.image ≤ x ∧ x < elf.image + (progAt file i).filesz then
        m.ram (elf.start + (progAt file i).offset + (x - elf.image))
      else m.ram x := by
  have hroom := hm.room
  have hbelow := hm.range.below
  have hibelow := hi.range.below
  have hfile := hf.inFile
  have hsize := hf.size
  have hfilesz := filesz_lt hf hi
  have hapart := hi.apart
  have hheader : ∀ x < 52, ¬ (sectAt file k).Contains x := by
    intro x hx hin
    exact absurd (hf.apart x hin).1 (by omega)
  have hseg := hm.segment hf hheader fun j hj x hlo hhi hin => by
    have hprog := (hf.apart x hin).2.1 j hj
    omega
  rw [elfAssembleImage_of_segment (hm.loadable hf.sections hi.start hheader) hi.image hseg, if_neg ?_]
  · rw [u32_of_lt (show elf.start + (progAt file i).offset < 4294967296 by omega)]
    exact Bytes.copy_apply (by omega) (by omega) (by omega)
  · rw [fileSize_eq hm.range, u32_of_lt (by omega)]
    omega

/-- The copy does not change the file. -/
theorem elfAssembleImage_holds {file : List UInt8} {i k : Nat} (hf : WellFormed file i k)
    {elf : ElfDesc} {m : Machine} (hi : HasImage file i elf)
    (hm : HoldsExcept (sectAt file k).Contains file elf m.ram) :
    HoldsExcept (sectAt file k).Contains file elf (elfAssembleImage elf m).ram := by
  have hroom := hm.room
  have hfilesz := filesz_lt hf hi
  have hapart := hi.apart
  refine ⟨hm.range, hroom, fun x hx hout => ?_⟩
  rw [elfAssembleImage_ram hf hi hm, if_neg (by omega)]
  exact hm.bytes x hx hout

/-- The entry point of a file whose header is intact. -/
theorem elfEntry_eq {file : List UInt8} {i k : Nat} (hf : WellFormed file i k)
    {elf : ElfDesc} {m : Machine} (hi : HasImage file i elf)
    (hm : HoldsExcept (sectAt file k).Contains file elf m.ram) :
    elfEntry elf m =
      if (fileHeader file).entry < elf.imagePages * smallPageSize then
        elf.image + (fileHeader file).entry
      else 0 := by
  have hbelow := hi.range.below
  have hheader : elfReadHeaderMem m.ram elf.start = fileHeader file := by
    refine hm.fileHeader_eq hf.header fun x hx hin => ?_
    exact absurd (hf.apart x hin).1 (by omega)
  unfold elfEntry
  simp only [if_neg hi.image, if_neg hi.start, hheader, hf.check, Bool.not_true,
    Bool.false_eq_true, if_false]
  rw [u32_of_lt (show elf.imagePages * smallPageSize < 4294967296 by omega)]
  by_cases hentry : (fileHeader file).entry < elf.imagePages * smallPageSize
  · rw [if_neg (by omega), if_pos hentry, u32_of_lt (by omega)]
  · rw [if_pos (by omega), if_neg hentry]

/-- **The module image.** After the four passes the image is the segment with its table fixed. -/
theorem moduleImage {w : PageWorld} (hw : PageInv w) {file : List UInt8} {i k : Nat}
    (hf : WellFormed file i k) {desc : Nat} {m m1 m2 : Machine} {elf elf' : ElfDesc}
    (hpages : m.pages = w.pages) (hload : elfLoadFile desc file.length file m = (some elf, m1))
    (halloc : elfAllocImage elf m1 = (elf', m2)) (hne : elf'.image ≠ 0)
    (honly : OnlyGot file k elf' m2.ram) :
    ModuleImage file i k elf' (elfAssembleImage elf' (elfFixGot elf' m2)) := by
  obtain ⟨hw1, himage, hstart, hholds⟩ := elfLoadFile_holds hw hpages hload
  obtain ⟨hi, hstart', hpages', hholds2, hzero⟩ := elfAllocImage_holds hf hw1 rfl
    (List.mem_cons_self ..) himage hstart hholds halloc hne
  obtain ⟨hwords, hother⟩ := elfFixGot_holds hf hi.start hholds2 honly
  have hin := hf.inSegment
  have hfile := hf.inFile
  have hsize := hf.size
  have hwhole := hf.whole
  have hroom := hholds2.room
  have hbelow := hholds2.range.below
  have hibelow := hi.range.below
  have hapart := hi.apart
  have hfilesz := filesz_lt hf hi
  -- the file apart from the table, and the image, are as before
  have hholds3 : HoldsExcept (sectAt file k).Contains file elf' (elfFixGot elf' m2).ram := by
    refine ⟨hholds2.range, hroom, fun x hx hout => ?_⟩
    rw [hother (elf'.start + x) (by unfold SectHeader.Contains at hout; omega)]
    exact hholds2.bytes x hx fun hx => hx
  have hcopy := elfAssembleImage_ram hf hi hholds3
  refine ⟨fun x hx hout => ?_, fun j hj => ?_, fun x hlo hhi => ?_, ?_⟩
  · rw [hcopy, if_pos (by omega), Nat.add_sub_cancel_left, Nat.add_assoc]
    exact hholds3.bytes _ (by omega) hout
  · rw [← hwords j hj]
    refine Bytes.number_congr fun n hn => ?_
    rw [Nat.mod_eq_of_lt (by omega), Nat.mod_eq_of_lt (by omega), hcopy, if_pos (by omega)]
    exact congrArg _ (by omega)
  · rw [hcopy, if_neg (by omega), hother _ (by omega)]
    exact hzero _ (by omega) (by omega)
  · exact elfEntry_eq hf hi (elfAssembleImage_holds hf hi hholds3)

/-! ## A small module -/

/-- A segment at 164 with the section names and a table of one word. -/
def smallModule : List UInt8 :=
  let word := fun v => (List.range 4).map fun i => UInt8.ofNat (v / 256 ^ i)
  [0x7f, 0x45, 0x4c, 0x46, 1, 1, 1, 0, 0, 0, 0, 0, 0, 0, 0, 0, 3, 0, 0x28, 0, 1, 0, 0, 0,
    8, 0, 0, 0, 52, 0, 0, 0, 84, 0, 0, 0, 0, 0, 0, 0, 52, 0, 32, 0, 1, 0, 40, 0, 2, 0, 0, 0] ++
    ([1, 164, 0, 0, 12, 100, 5, 4096] ++ [0, 3, 0, 0, 164, 6, 0, 0, 1, 0] ++
      [1, 1, 3, 0, 172, 4, 0, 0, 4, 4]).flatMap word ++
    [0] ++ ".got".toList.map Char.toUInt8 ++ [0, 0, 0] ++ word 0x10

theorem wellFormed_smallModule : WellFormed smallModule 0 1 where
  size := by decide +kernel
  header := by decide +kernel
  check := by decide +kernel
  progs := by decide +kernel
  sects := by decide +kernel
  strtab := by decide +kernel
  strings := by decide +kernel
  names := by decide +kernel
  segment := by decide +kernel
  load := by decide +kernel
  first := nofun
  inFile := by decide +kernel
  inMemory := by decide +kernel
  got := by decide +kernel
  named := by decide +kernel
  nameEnd := by decide +kernel
  aligned := by decide +kernel
  whole := by decide +kernel
  inSegment := by decide +kernel
  apart := by
    have hgot : sectAt smallModule 1 = ⟨1, 1, 3, 0, 172, 4, 0, 0, 4, 4⟩ := by decide +kernel
    have hprogs : ∀ j < (fileHeader smallModule).progCount, progOffset smallModule j ≤ 52 := by
      decide +kernel
    have hsects : ∀ j < (fileHeader smallModule).sectCount, sectOffset smallModule j ≤ 124 := by
      decide +kernel
    intro x hx
    rw [hgot] at hx
    have hlo : 172 ≤ x := hx.1
    refine ⟨by omega, fun j hj => Or.inr ?_, fun j hj => Or.inr ?_⟩
    · have := hprogs j hj
      unfold sizeofProgHeader
      omega
    · have := hsects j hj
      unfold sizeofSectHeader
      omega

/-- The module in the first of eight pages, and with an image in the second. -/
def smallLoaded : Option ElfDesc × Machine :=
  elfLoadFile 1 smallModule.length smallModule (before eightPages fun _ => 0)

def smallWithImage : ElfDesc × Machine :=
  elfAllocImage { pages := 1, start := 0x10001000, image := 0, imagePages := 0 } smallLoaded.2

theorem moduleImage_small : ModuleImage smallModule 0 1 smallWithImage.1
    (elfAssembleImage smallWithImage.1 (elfFixGot smallWithImage.1 smallWithImage.2)) := by
  have hload : smallLoaded.1 =
      some { pages := 1, start := 0x10001000, image := 0, imagePages := 0 } := by decide +kernel
  have himage : smallWithImage.1 =
      { pages := 1, start := 0x10001000, image := 0x10002000, imagePages := 1 } := by
    decide +kernel
  have hloaded : elfLoadFile 1 smallModule.length smallModule (before eightPages fun _ => 0) =
      (some { pages := 1, start := 0x10001000, image := 0, imagePages := 0 }, smallLoaded.2) :=
    Prod.ext hload (by rw [smallLoaded])
  refine moduleImage pageInv_eightPages wellFormed_smallModule rfl hloaded
    (by rw [smallWithImage]) ?_ ?_
  · rw [himage]
    decide
  · rw [himage]
    decide +kernel

end OSExt.Elf
