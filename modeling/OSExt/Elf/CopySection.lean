import OSExt.Elf.Image

/-!
# Copying a section

`elf_copy_section` looks a section up by its name and takes pages for it. The name test
is that of the other functions, sums of characters and lengths, and the bounds test adds
without regard to wrapping. The section's data is never copied: the caller gets the pages
as they are. So a copy is right only where the pages happen to hold it already.
-/

namespace OSExt.Elf

open Lib Memory Libk

/-! ## The function -/

/-- The test on the name of a section, with `maxlen` bytes left. -/
def namedLike (name searched : CString) (maxlen : Nat) : Bool :=
  kStrcmp name searched (maxlen - 1) == 0 && kStrlen name (maxlen - 1) == kStrlen searched 100

/-- The loop over `count` section headers: the first one whose name passes. -/
def findSection (ram : Bytes) (elf : ElfDesc) (strtab : SectHeader) (searched : CString)
    (sectSize : Nat) : Nat → Nat → Option SectHeader
  | 0, _ => none
  | count + 1, sectHeader =>
    if sectHeader < elf.start ∨ u32 (sectHeader + sizeofSectHeader) ≥ elf.fileEnd then none
    else
      let sect := readSectHeader ram sectHeader
      let name := nameAt elf strtab sect
      if name < elf.start ∨ name ≥ elf.fileEnd then none
      else if namedLike (stringAt ram name) searched (elf.fileEnd - name) then some sect
      else findSection ram elf strtab searched sectSize count (u32 (sectHeader + sectSize))

/-- What a call returns and leaves: the copy, 0 for NULL, and what it stored to
`*sect_pages`; it writes to no other memory. -/
structure SectionCopy where
  copy : Nat
  sectPages : Option Nat
  ram : Bytes
  pages : Pageblocks

/-- The pages for a section that was found. -/
def copyPages (sect : SectHeader) (ram : Bytes) (pages : Pageblocks) : SectionCopy :=
  let n := sect.size / smallPageSize + 1
  let r := useConsecutivePages n 0 pages
  let copy := r.1.getD 0
  if copy = 0 then ⟨0, some 0, ram, r.2⟩ else ⟨copy, some n, ram, r.2⟩

/-- `elf_copy_section` -/
def elfCopySection (elf : ElfDesc) (searched : CString) (sectPages : Nat) (ram : Bytes)
    (pages : Pageblocks) : SectionCopy :=
  if elf.start = 0 then ⟨0, none, ram, pages⟩
  else if sectPages = 0 then ⟨0, none, ram, pages⟩
  else
    let h := elfReadHeaderMem ram elf.start
    if !elfCheckHeader h then ⟨0, none, ram, pages⟩
    else if h.sectCount = 0 then ⟨0, none, ram, pages⟩
    else
      let strtabHeader := u32 (h.sectTable + h.sectStrtab * h.sectSize)
      if u32 (strtabHeader + sizeofSectHeader) > elf.fileSize then ⟨0, none, ram, pages⟩
      else
        let strtab := readSectHeader ram (u32 (elf.start + strtabHeader))
        if strtab.offset ≥ elf.fileSize then ⟨0, none, ram, pages⟩
        else
          match findSection ram elf strtab searched h.sectSize h.sectCount
            (u32 (elf.start + h.sectTable)) with
          | none => ⟨0, none, ram, pages⟩
          | some sect =>
            if u32 (sect.offset + sect.size) > elf.fileSize then ⟨0, none, ram, pages⟩
            else copyPages sect ram pages

/-! ## Names -/

/-- The name of a section in the file. -/
def fileName (file : List UInt8) (j : Nat) : CString := fun n => fileBytes file (nameOffset file j + n)

/-- The string has `l` characters. -/
structure HasLength (s : CString) (l : Nat) : Prop where
  chars : ∀ n < l, s n ≠ 0
  stop : s l = 0

theorem HasLength.isLength {s : CString} {l max : Nat} (h : HasLength s l) (hmax : l ≤ max) :
    IsLength s max l :=
  ⟨hmax, h.chars, fun _ => h.stop⟩

theorem HasLength.unique {s : CString} {l l' : Nat} (h : HasLength s l) (h' : HasLength s l') :
    l = l' :=
  (h.isLength (Nat.le_max_left l l')).unique (h'.isLength (Nat.le_max_right l l'))

theorem HasLength.congr {s t : CString} {l : Nat} (h : HasLength s l) (hst : ∀ n ≤ l, t n = s n) :
    HasLength t l where
  chars := by
    intro n hn
    rw [hst n hn.le]
    exact h.chars n hn
  stop := by
    rw [hst l (Nat.le_refl l)]
    exact h.stop

/-- Equal strings. -/
def SameName (s t : CString) : Prop :=
  ∃ l, HasLength s l ∧ HasLength t l ∧ ∀ n < l, s n = t n

/-- Strings of one length and one sum. -/
def SimilarName (s t : CString) : Prop :=
  ∃ l, HasLength s l ∧ HasLength t l ∧ charSum s 0 l % 2 ^ 32 = charSum t 0 l % 2 ^ 32

theorem charSum_congr {s t : CString} : ∀ {l i : Nat}, (∀ n, i ≤ n → n < i + l → s n = t n) →
    charSum s i l = charSum t i l
  | 0, _, _ => rfl
  | l + 1, i, h => by
      rw [charSum_succ, charSum_succ, h i (Nat.le_refl i) (by omega),
        charSum_congr fun n hlo hn => h n (by omega) (by omega)]

theorem SameName.similar {s t : CString} (h : SameName s t) : SimilarName s t := by
  obtain ⟨l, hs, ht, hst⟩ := h
  refine ⟨l, hs, ht, ?_⟩
  rw [charSum_congr fun n _ hn => hst n (by omega)]

/-- **The name test** passes similar names. -/
theorem namedLike_iff {s t : CString} {l k maxlen : Nat} (hs : HasLength s l) (ht : HasLength t k)
    (hl : l + 1 ≤ maxlen) (hk : k < 100) : namedLike s t maxlen = true ↔ SimilarName s t := by
  have hmax : l ≤ maxlen - 1 := by omega
  have hslen : kStrlen s (maxlen - 1) = l := (kStrlen_isLength _ _).unique (hs.isLength hmax)
  have htlen : kStrlen t 100 = k := (kStrlen_isLength _ _).unique (ht.isLength hk.le)
  rw [namedLike, hslen, htlen, Bool.and_eq_true, beq_iff_eq, beq_iff_eq]
  constructor
  · intro h
    obtain ⟨hcmp, hlen⟩ := h
    subst hlen
    exact ⟨l, hs, ht, (kStrcmp_eq_zero_iff (hs.isLength hmax) ht.chars).mp hcmp⟩
  · intro h
    obtain ⟨l', hs', ht', hsum⟩ := h
    have hll := hs.unique hs'
    have hkk := ht.unique ht'
    subst hll hkk
    exact ⟨(kStrcmp_eq_zero_iff (hs.isLength hmax) ht.chars).mpr hsum, rfl⟩

/-! ## What is asked for -/

/-- The section that is asked for: the first one of the name, with its data in the file. -/
structure Wanted (file : List UInt8) (searched : CString) (j : Nat) : Prop where
  first : FirstOf (fun j => SameName (fileName file j) searched) (fileHeader file).sectCount j
  inFile : (sectAt file j).offset + (sectAt file j).size ≤ file.length

/-- The section that the name test picks. -/
abbrev Picked (file : List UInt8) (searched : CString) (j : Nat) : Prop :=
  FirstOf (fun j => SimilarName (fileName file j) searched) (fileHeader file).sectCount j

/-- **A well-formed file**, as far as sections go: the string table ends with a terminator. -/
structure SectionFile (file : List UInt8) : Prop extends Sections file where
  ended : (fileHeader file).sectCount ≠ 0 →
    fileBytes file ((strtabAt file).offset + (strtabAt file).size - 1) = 0

/-- Page blocks as the allocator keeps them; `allocPageblock` refuses a region at NULL. -/
structure PagesReady (w : PageWorld) : Prop where
  inv : PageInv w
  nonNull : ∀ b ∈ w.pages, b.start ≠ 0

/-- A run that nobody held, and that is held now. -/
structure FreshRun (w : PageWorld) (p n : Nat) (pages : Pageblocks) : Prop where
  nonNull : p ≠ 0
  held : PageInv ⟨pages, (p, n) :: w.held⟩
  apart : ∀ g ∈ w.held, p + n * smallPageSize ≤ g.1 ∨ g.1 + g.2 * smallPageSize ≤ p

/-- **A call is right**: it returns a fresh run that begins with the section's bytes if there
is such a section, NULL if there is none, and NULL only with no page claimed. -/
structure CopiesSection (w : PageWorld) (file : List UInt8) (searched : CString)
    (r : SectionCopy) : Prop where
  copied : ∀ j, Wanted file searched j → ∃ n, r.sectPages = some n ∧ FreshRun w r.copy n r.pages ∧
    (sectAt file j).size ≤ n * smallPageSize ∧
    ∀ x < (sectAt file j).size, r.ram (r.copy + x) = fileBytes file ((sectAt file j).offset + x)
  missing : (∀ j, ¬ Wanted file searched j) → r.copy = 0
  unclaimed : r.copy = 0 → r.pages = w.pages

/-- The free run for a section. -/
def copyRun (w : PageWorld) (sect : SectHeader) : Option Nat :=
  (useConsecutivePages (sect.size / smallPageSize + 1) 0 w.pages).1

/-- The bounds test. -/
abbrev SectHeader.Accepted (elf : ElfDesc) (sect : SectHeader) : Prop :=
  u32 (sect.offset + sect.size) ≤ elf.fileSize

/-- What has to be so before: if a section is asked for, the one that is picked passes the
bounds test and there is a free run for it, large enough for the section asked for, which
holds that section's bytes already; if none is, there is no free run for one that is
picked and passes. -/
structure CopyHolds (w : PageWorld) (ram : Bytes) (elf : ElfDesc) (file : List UInt8)
    (searched : CString) : Prop where
  already : ∀ j, Wanted file searched j → ∃ i p, Picked file searched i ∧
    (sectAt file i).Accepted elf ∧ copyRun w (sectAt file i) = some p ∧
    (sectAt file j).size ≤ ((sectAt file i).size / smallPageSize + 1) * smallPageSize ∧
    ∀ x < (sectAt file j).size, ram (p + x) = fileBytes file ((sectAt file j).offset + x)
  nothing : (∀ j, ¬ Wanted file searched j) → ∀ i, Picked file searched i →
    (sectAt file i).Accepted elf → copyRun w (sectAt file i) = none

/-! ## Page blocks are ready -/

/-- Calls that keep the places of the blocks keep them from NULL. -/
theorem nonNull_of_starts {ps ps' : Pageblocks} (h : ∀ b ∈ ps, b.start ≠ 0)
    (hstarts : ps'.map Pageblock.start = ps.map Pageblock.start) : ∀ b ∈ ps', b.start ≠ 0 := by
  intro b hb
  have hmem := List.mem_map_of_mem (f := Pageblock.start) hb
  rw [hstarts] at hmem
  obtain ⟨c, hc, hcb⟩ := List.mem_map.mp hmem
  exact hcb ▸ h c hc

theorem setRun_starts (page n : Nat) (v : Bool) (ps : Pageblocks) :
    (setRun page n v ps).map Pageblock.start = ps.map Pageblock.start := by
  rw [setRun_eq_map, List.map_map]
  exact List.map_congr_left fun b _ => (setRun_shape b page n v).1

/-- **Every call keeps the blocks ready.** -/
theorem pagesReady_step {w w' : PageWorld} (h : PagesReady w) (hs : PageStep w w') :
    PagesReady w' := by
  refine ⟨pageInv_step h.inv hs, ?_⟩
  have hwf := (pageInv_step h.inv hs).wf
  cases hs with
  | allocPageblock r n hn hf =>
      intro b hb
      unfold allocPageblock addPageBlock at hb hwf
      split at hb
      · exact h.nonNull b hb
      · split at hb
        · exact h.nonNull b hb
        · split at hb
          · exact h.nonNull b hb
          · rename_i hsize hr hfull
            rcases List.mem_append.mp hb with hb | hb
            · exact h.nonNull b hb
            · -- the first page of the new block is not before its region
              have hnew := hwf b (by
                rw [if_neg hsize, if_neg hr, if_neg hfull]
                exact List.mem_append_right _ hb)
              have hstart := hnew.start.1
              rw [List.mem_singleton.mp hb] at hstart ⊢
              exact Nat.ne_of_gt (Nat.lt_of_lt_of_le (Nat.pos_of_ne_zero hr) hstart)
  | usePage => exact nonNull_of_starts h.nonNull (usePage_starts w.pages)
  | useConsecutivePages n alignment hn ha =>
      exact nonNull_of_starts h.nonNull (useConsecutivePages_starts n alignment w.pages)
  | setPageUsedBit p hp =>
      rw [setPageUsedBit_eq h.inv hp]
      exact nonNull_of_starts h.nonNull (setRun_starts p 1 false w.pages)
  | freeConsecutivePages p n hp =>
      exact nonNull_of_starts h.nonNull (setRun_starts p n false w.pages)

theorem pagesReady_reachable {w : PageWorld} (h : PageReachable w) : PagesReady w := by
  induction h with
  | init => exact ⟨pageInv_init, nofun⟩
  | tail _ hs ih => exact pagesReady_step ih hs

/-- So does a run taken with no alignment. -/
theorem PagesReady.taken {w : PageWorld} (h : PagesReady w) {n : Nat} (hn : 1 ≤ n) :
    PagesReady ⟨(useConsecutivePages n 0 w.pages).2,
      ((useConsecutivePages n 0 w.pages).1.map (·, n)).toList ++ w.held⟩ :=
  ⟨pageInv_useConsecutivePages h.inv 0 hn,
    nonNull_of_starts h.nonNull (useConsecutivePages_starts n 0 w.pages)⟩

/-! ## The search -/

/-- The search finds the first section that passes, if headers and names are in bounds. -/
theorem findSection_eq (ram : Bytes) {elf : ElfDesc} (hr : PageRange elf.start elf.pages)
    (strtab : SectHeader) (searched : CString) (sectSize count q : Nat) (S : Nat → SectHeader)
    (P : Nat → Prop)
    (hin : ∀ j < count, elf.start ≤ q + j * sectSize ∧
      q + j * sectSize + sizeofSectHeader < elf.fileEnd ∧
      readSectHeader ram (q + j * sectSize) = S j ∧
      elf.start ≤ nameAt elf strtab (S j) ∧ nameAt elf strtab (S j) < elf.fileEnd ∧
      (namedLike (stringAt ram (nameAt elf strtab (S j))) searched
        (elf.fileEnd - nameAt elf strtab (S j)) = true ↔ P j)) :
    (∀ i, FirstOf P count i →
      findSection ram elf strtab searched sectSize count (u32 q) = some (S i)) ∧
      ((∀ i, ¬ FirstOf P count i) →
        findSection ram elf strtab searched sectSize count (u32 q) = none) := by
  have hend := fileEnd_bounds hr
  -- where the loop stands in each round, as far as it goes on
  let place : Nat → Nat := fun j => u32 (q + j * sectSize)
  have hround : ∀ j < count, ∀ n,
      (P j → findSection ram elf strtab searched sectSize (n + 1) (place j) = some (S j)) ∧
      (¬ P j → findSection ram elf strtab searched sectSize (n + 1) (place j) =
        findSection ram elf strtab searched sectSize n (place (j + 1))) := by
    intro j hj n
    obtain ⟨hlo, hhi, hread, hnlo, hnhi, htest⟩ := hin j hj
    have hstep : findSection ram elf strtab searched sectSize (n + 1) (place j) =
        if namedLike (stringAt ram (nameAt elf strtab (S j))) searched
          (elf.fileEnd - nameAt elf strtab (S j)) = true then some (S j)
        else findSection ram elf strtab searched sectSize n (place (j + 1)) := by
      show findSection ram elf strtab searched sectSize (n + 1) (u32 (q + j * sectSize)) = _
      rw [u32_of_lt (show q + j * sectSize < 4294967296 by omega), findSection,
        u32_of_lt (by omega), if_neg (by omega)]
      simp only [hread, place]
      rw [if_neg (by omega), Nat.succ_mul, Nat.add_assoc]
    rw [hstep]
    exact ⟨fun hP => if_pos (htest.mpr hP), fun hP => if_neg fun ht => hP (htest.mp ht)⟩
  have hstart : place 0 = u32 q := by
    show u32 (q + 0 * sectSize) = u32 q
    rw [Nat.zero_mul, Nat.add_zero]
  rw [← hstart]
  constructor
  · intro i hi
    exact search_found _ place hi.lt
      (fun j hj n => (hround j (Nat.lt_trans hj hi.lt) n).2 (hi.first j hj))
      fun n => (hround i hi.lt n).1 hi.holds
  · intro hno
    have hnone : ∀ j < count, ¬ P j := by
      intro j hj hP
      obtain ⟨i, hi⟩ := exists_firstOf hj hP
      exact hno i hi
    have hskip := search_skip (findSection ram elf strtab searched sectSize) place count 0
      fun j hj n => (hround j hj n).2 (hnone j hj)
    rw [Nat.zero_add] at hskip
    exact hskip

/-- Names are terminated inside the file. -/
theorem SectionFile.name {file : List UInt8} (hf : SectionFile file) {j : Nat}
    (hj : j < (fileHeader file).sectCount) :
    ∃ l, HasLength (fileName file j) l ∧ nameOffset file j + l < file.length := by
  classical
  have hcount := Nat.ne_zero_of_lt hj
  have hname := hf.names j hj
  have hstrings := hf.strings hcount
  -- the terminator of the table ends the name at the latest
  have hlast : fileName file j ((strtabAt file).size - 1 - (sectAt file j).name) = 0 := by
    unfold fileName nameOffset
    rw [show (strtabAt file).offset + (sectAt file j).name
        + ((strtabAt file).size - 1 - (sectAt file j).name)
      = (strtabAt file).offset + (strtabAt file).size - 1 by omega]
    exact hf.ended hcount
  have hex : ∃ n, fileName file j n = 0 := ⟨_, hlast⟩
  have hle := Nat.find_min' hex hlast
  refine ⟨Nat.find hex, ⟨fun n hn => Nat.find_min hex hn, Nat.find_spec hex⟩, ?_⟩
  unfold nameOffset
  omega

section Call

variable {w : PageWorld} {file : List UInt8} {elf : ElfDesc} {ram : Bytes} {searched : CString}
  {sectPages k : Nat}

/-- In memory a name is the one in the file. -/
theorem Holds.stringAt_name (h : Holds file elf ram) {j n : Nat}
    (hn : nameOffset file j + n < file.length) :
    stringAt ram (elf.start + nameOffset file j) n = fileName file j n := by
  have hbelow := h.range.below
  have hroom := h.room
  unfold stringAt fileName
  rw [u32_of_lt (by omega), Nat.add_assoc]
  exact h.bytes _ hn fun hx => hx

/-- The test on a section of the file passes names like the one that is searched. -/
theorem Holds.namedLike_iff (h : Holds file elf ram) (hf : SectionFile file)
    (hs : HasLength searched k) (hk : k < 100) {j : Nat} (hj : j < (fileHeader file).sectCount) :
    namedLike (stringAt ram (elf.start + nameOffset file j)) searched
      (elf.fileEnd - (elf.start + nameOffset file j)) = true ↔
        SimilarName (fileName file j) searched := by
  have hroom := h.room
  have hend := fileEnd_eq h.range
  obtain ⟨l, hname, hin⟩ := hf.name hj
  have hsame : ∀ n ≤ l, stringAt ram (elf.start + nameOffset file j) n = fileName file j n :=
    fun n hn => h.stringAt_name (by omega)
  have hmem : HasLength (stringAt ram (elf.start + nameOffset file j)) l := hname.congr hsame
  rw [Elf.namedLike_iff hmem hs (by omega) hk]
  have hsum : charSum (stringAt ram (elf.start + nameOffset file j)) 0 l =
      charSum (fileName file j) 0 l := charSum_congr fun n _ hn => hsame n (by omega)
  constructor
  · intro hsim
    obtain ⟨l', hl', ht, heq⟩ := hsim
    have hll := hmem.unique hl'
    subst hll
    exact ⟨l, hname, ht, hsum ▸ heq⟩
  · intro hsim
    obtain ⟨l', hl', ht, heq⟩ := hsim
    have hll := hname.unique hl'
    subst hll
    exact ⟨l, hmem, ht, hsum.symm ▸ heq⟩

/-- A file without sections, or without one that passes the name test, yields nothing; the
pages for a section that passes depend on the bounds test. -/
theorem elfCopySection_eq (h : Holds file elf ram) (hf : SectionFile file) (hstart : elf.start ≠ 0)
    (hpages : sectPages ≠ 0) (hs : HasLength searched k) (hk : k < 100) (pages : Pageblocks) :
    (∀ i, Picked file searched i → elfCopySection elf searched sectPages ram pages =
      if u32 ((sectAt file i).offset + (sectAt file i).size) > elf.fileSize then
        ⟨0, none, ram, pages⟩
      else copyPages (sectAt file i) ram pages) ∧
    ((∀ i, ¬ Picked file searched i) →
      elfCopySection elf searched sectPages ram pages = ⟨0, none, ram, pages⟩) := by
  have hbelow := h.range.below
  have hroom := h.room
  have hend := fileEnd_eq h.range
  have hheader := h.fileHeader_eq hf.header fun _ _ hx => hx
  by_cases hcount : (fileHeader file).sectCount = 0
  · refine ⟨fun i hi => absurd hi.lt (by omega), fun _ => ?_⟩
    rw [elfCopySection, if_neg hstart, if_neg hpages]
    simp only [hheader]
    rw [if_neg (by rw [hf.check]; decide), if_pos hcount]
  · have hsection : elfCopySection elf searched sectPages ram pages =
        match findSection ram elf (strtabAt file) searched (fileHeader file).sectSize
          (fileHeader file).sectCount (u32 (elf.start + (fileHeader file).sectTable)) with
        | none => ⟨0, none, ram, pages⟩
        | some sect =>
          if u32 (sect.offset + sect.size) > elf.fileSize then ⟨0, none, ram, pages⟩
          else copyPages sect ram pages := by
      -- the tests on the string table pass in a well-formed file
      have hstrtab := h.hasStrtab hf.toSections hcount hstart
      have htable := h.strtabOf_eq hf.toSections hcount
      have hfits := hstrtab.strtab
      have hstrings := hf.strings hcount
      have hname := hf.names 0 (Nat.pos_of_ne_zero hcount)
      have hsize := fileSize_eq h.range
      unfold strtabOf strtabHeader at htable
      unfold strtabHeader at hfits
      simp only [hheader] at htable hfits
      rw [elfCopySection, if_neg hstart, if_neg hpages]
      simp only [hheader]
      rw [if_neg (by rw [hf.check]; decide), if_neg hcount, if_neg (by omega), htable,
        if_neg (by omega)]
    rw [hsection]
    have hfind := findSection_eq ram h.range (strtabAt file) searched
      (fileHeader file).sectSize (fileHeader file).sectCount
      (elf.start + (fileHeader file).sectTable) (sectAt file)
      (fun j => SimilarName (fileName file j) searched) ?_
    · exact ⟨fun i hi => by rw [hfind.1 i hi], fun hno => by rw [hfind.2 hno]⟩
    · intro j hj
      have hsect := hf.sects j hj
      have hname := hf.names j hj
      have hstrings := hf.strings hcount
      have hnameOffset : nameOffset file j = (strtabAt file).offset + (sectAt file j).name := rfl
      rw [show elf.start + (fileHeader file).sectTable + j * (fileHeader file).sectSize =
        elf.start + sectOffset file j from Nat.add_assoc _ _ _, h.nameAt_eq hf.toSections hj]
      exact ⟨by omega, by omega, h.sect hf.toSections hj, by omega, by omega,
        h.namedLike_iff hf hs hk hj⟩

/-! ## What a call returns -/

/-- The allocator gives a fresh run. -/
theorem PagesReady.fresh (hw : PagesReady w) {n p : Nat} (hn : 1 ≤ n)
    (h : (useConsecutivePages n 0 w.pages).1 = some p) :
    FreshRun w p n (useConsecutivePages n 0 w.pages).2 where
  nonNull := by
    obtain ⟨-, b, hb, i, -, hp, -⟩ := useConsecutivePages_some hw.inv h
    have hblock := hw.nonNull b hb
    omega
  held := by
    have htaken := (hw.taken hn).inv
    rw [h] at htaken
    exact htaken
  apart := (useConsecutivePages_apart hw.inv hn h).2

theorem copyPages_none {sect : SectHeader} (hrun : copyRun w sect = none) :
    copyPages sect ram w.pages = ⟨0, some 0, ram, w.pages⟩ := by
  unfold copyRun at hrun
  simp only [copyPages, hrun, useConsecutivePages_none hrun, Option.getD_none, if_true]

theorem copyPages_some (ram : Bytes) (hw : PagesReady w) {sect : SectHeader} {p : Nat}
    (hrun : copyRun w sect = some p) : ∃ pages,
      copyPages sect ram w.pages = ⟨p, some (sect.size / smallPageSize + 1), ram, pages⟩ ∧
        FreshRun w p (sect.size / smallPageSize + 1) pages := by
  have hfresh := hw.fresh (Nat.succ_pos _) hrun
  unfold copyRun at hrun
  refine ⟨_, ?_, hfresh⟩
  simp only [copyPages, hrun, Option.getD_some, if_neg hfresh.nonNull]

/-- Where a section is asked for, one is picked. -/
theorem Wanted.picked {j : Nat} (hj : Wanted file searched j) : ∃ i, Picked file searched i :=
  exists_firstOf hj.first.lt hj.first.holds.similar

/-- A call that returns NULL and claims nothing is right where no section is asked for. -/
theorem copiesSection_null {r : SectionCopy} (hnull : r.copy = 0) (hkept : r.pages = w.pages) :
    CopiesSection w file searched r ↔ ∀ j, ¬ Wanted file searched j := by
  constructor
  · intro h j hj
    obtain ⟨n, -, hfresh, -⟩ := h.copied j hj
    exact hfresh.nonNull hnull
  · exact fun hno => ⟨fun j hj => absurd hj (hno j), fun _ => hnull, fun _ => hkept⟩

/-- **The copy is right** exactly where the section picked for the name has a free run with
the data of the section asked for. -/
theorem elfCopySection_copies_iff (hw : PagesReady w) (h : Holds file elf ram)
    (hf : SectionFile file) (hstart : elf.start ≠ 0) (hpages : sectPages ≠ 0)
    (hs : HasLength searched k) (hk : k < 100) :
    CopiesSection w file searched (elfCopySection elf searched sectPages ram w.pages) ↔
      CopyHolds w ram elf file searched := by
  obtain ⟨hpicked, hnone⟩ := elfCopySection_eq h hf hstart hpages hs hk w.pages
  by_cases hrun : ∃ i p, Picked file searched i ∧ (sectAt file i).Accepted elf ∧
      copyRun w (sectAt file i) = some p
  · obtain ⟨i, p, hi, hacc, hp⟩ := hrun
    obtain ⟨pages, hcopy, hfresh⟩ := copyPages_some ram hw hp
    rw [hpicked i hi, if_neg (Nat.not_lt.mpr hacc), hcopy]
    constructor
    · intro hright
      refine ⟨fun j hj => ?_, fun hno => absurd (hright.missing hno) hfresh.nonNull⟩
      obtain ⟨n, hn, -, hroom, hdata⟩ := hright.copied j hj
      cases hn
      exact ⟨i, p, hi, hacc, hp, hroom, hdata⟩
    · intro hold
      refine ⟨fun j hj => ?_, fun hno => ?_, fun hnull => absurd hnull hfresh.nonNull⟩
      · obtain ⟨i', p', hi', -, hp', hroom, hdata⟩ := hold.already j hj
        have hii := hi.unique hi'
        subst hii
        rw [hp, Option.some.injEq] at hp'
        subst hp'
        exact ⟨_, rfl, hfresh, hroom, hdata⟩
      · have hfull := hold.nothing hno i hi hacc
        rw [hp] at hfull
        cases hfull
  · -- NULL: no section is picked, it is refused, or there is no free run for it
    have hnull : (elfCopySection elf searched sectPages ram w.pages).copy = 0 ∧
        (elfCopySection elf searched sectPages ram w.pages).pages = w.pages := by
      by_cases hany : ∃ i, Picked file searched i
      · obtain ⟨i, hi⟩ := hany
        rw [hpicked i hi]
        split
        · exact ⟨rfl, rfl⟩
        · rename_i hacc
          cases hp : copyRun w (sectAt file i) with
          | none =>
              rw [copyPages_none hp]
              exact ⟨rfl, rfl⟩
          | some p => exact absurd ⟨i, p, hi, Nat.not_lt.mp hacc, hp⟩ hrun
      · rw [hnone fun i hi => hany ⟨i, hi⟩]
        exact ⟨rfl, rfl⟩
    rw [copiesSection_null hnull.1 hnull.2]
    constructor
    · intro hno
      refine ⟨fun j hj => absurd hj (hno j), fun _ i hi hacc => ?_⟩
      exact Option.eq_none_iff_forall_ne_some.mpr fun p hp => hrun ⟨i, p, hi, hacc, hp⟩
    · intro hold j hj
      obtain ⟨i, p, hi, hacc, hp, -⟩ := hold.already j hj
      exact hrun ⟨i, p, hi, hacc, hp⟩

end Call

/-! ## A section of one word -/

theorem pagesReady_twoOfEight : PagesReady twoOfEight := by
  have height : PagesReady eightPages :=
    pagesReady_step ⟨pageInv_init, nofun⟩
      (PageStep.allocPageblock 0x10000800 8 (by omega) fun _ => ⟨by decide, nofun⟩)
  exact height.taken (n := 2) (by omega)

theorem sectionFile_oneTable : SectionFile (oneTable ".got") where
  header := by decide +kernel
  check := by decide +kernel
  sects := by decide +kernel
  strtab := by decide +kernel
  strings := by decide +kernel
  names := by decide +kernel
  ended := by decide +kernel

theorem hasLength_gotName : HasLength gotName 4 := ⟨by decide, rfl⟩

/-- Section 1 has the name, section 0 has none. -/
theorem firstOf_oneTable {P : CString → CString → Prop} (hsim : ∀ s t, P s t → SimilarName s t)
    (hsame : ∀ s t, SameName s t → P s t) :
    FirstOf (fun j => P (fileName (oneTable ".got") j) gotName)
      (fileHeader (oneTable ".got")).sectCount 1 where
  lt := by decide +kernel
  holds := hsame _ _ ⟨4, ⟨by decide +kernel, by decide +kernel⟩, hasLength_gotName,
    by decide +kernel⟩
  first := by
    intro i hi hP
    obtain rfl : i = 0 := by omega
    obtain ⟨l, hs, ht, -⟩ := hsim _ _ hP
    rw [ht.unique hasLength_gotName] at hs
    exact absurd (hs.chars 0 (by omega)) (by decide +kernel)

theorem wanted_oneTable : Wanted (oneTable ".got") gotName 1 where
  first := firstOf_oneTable (fun _ _ => SameName.similar) fun _ _ h => h
  inFile := by decide +kernel

/-- The file in memory, and its word in the page behind it. -/
def wordBehind : Bytes := fun x =>
  if x = 0x10003000 then 0x10 else fileRam (oneTable ".got") x

theorem holds_oneTable {ram : Bytes}
    (h : ∀ x < 0x2000, ram (0x10001000 + x) = fileRam (oneTable ".got") (0x10001000 + x)) :
    Holds (oneTable ".got") twoPages ram where
  range := ⟨by decide, by decide, by decide⟩
  room := by decide +kernel
  bytes := by
    intro x hx _
    have hlen : (oneTable ".got").length = 144 := by decide +kernel
    refine (h x (by omega)).trans ?_
    rw [fileRam, if_neg (by omega), Nat.add_sub_cancel_left]
    rfl

/-- The page behind the file holds the word by chance. -/
theorem elfCopySection_copies_iff_wordBehind : CopiesSection twoOfEight (oneTable ".got") gotName
    (elfCopySection twoPages gotName 1 wordBehind twoOfEight.pages) := by
  have hholds : Holds (oneTable ".got") twoPages wordBehind :=
    holds_oneTable fun x hx => if_neg (by omega)
  rw [elfCopySection_copies_iff pagesReady_twoOfEight hholds sectionFile_oneTable (by decide)
    (by omega) hasLength_gotName (by omega)]
  refine ⟨fun j hj => ?_, fun hno => absurd wanted_oneTable (hno 1)⟩
  have hone := hj.first.unique wanted_oneTable.first
  subst hone
  exact ⟨1, 0x10003000, firstOf_oneTable (fun _ _ h => h) fun _ _ => SameName.similar,
    by decide +kernel, by decide +kernel, by decide +kernel, by decide +kernel⟩

/-- A call returns a page that does not hold the section's word. -/
theorem got_notCopied :
    ¬ ∀ (w : PageWorld) (file : List UInt8) (elf : ElfDesc) (ram : Bytes) (searched : CString)
      (sectPages k : Nat), PagesReady w → (elf.start, elf.pages) ∈ w.held → Holds file elf ram →
      SectionFile file → elf.start ≠ 0 → sectPages ≠ 0 → HasLength searched k → k < 100 →
      CopiesSection w file searched (elfCopySection elf searched sectPages ram w.pages) := by
  intro h
  have hright := h twoOfEight (oneTable ".got") twoPages (fileRam (oneTable ".got")) gotName 1 4
    pagesReady_twoOfEight (List.mem_singleton.mpr rfl) (holds_oneTable fun _ _ => rfl)
    sectionFile_oneTable (by decide) (by decide) hasLength_gotName (by decide)
  obtain ⟨n, -, -, -, hdata⟩ := hright.copied 1 wanted_oneTable
  have hfirst := hdata 0 (by decide +kernel)
  have hread : (elfCopySection twoPages gotName 1 (fileRam (oneTable ".got"))
      twoOfEight.pages).ram ((elfCopySection twoPages gotName 1 (fileRam (oneTable ".got"))
        twoOfEight.pages).copy + 0) = 0 := by decide +kernel
  rw [hread] at hfirst
  exact absurd hfirst (by decide +kernel)

end OSExt.Elf
