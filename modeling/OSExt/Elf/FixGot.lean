import OSExt.Elf.LoadBounds

/-!
# Fixing the global offset table

`elf_fix_got` looks for a section named `.got` and adds the address of the image to its
words in the file. The name test compares sums of characters and a length, and the bounds
tests add without regard to wrapping. What it reads and writes is right exactly for the
files on which none of this matters.
-/

namespace OSExt.Elf

open Lib Memory Libk

/-! ## The words -/

/-- What a word of the table becomes. -/
def fixed (image entry : Nat) : Nat := if entry ≠ 0xffffffff then u32 (entry + image) else entry

theorem fixWord_reads (image a : Nat) (m : Machine) :
    (fixWord image a m).reads = (a, 4) :: m.reads := by
  unfold fixWord
  split <;> rfl

theorem fixWord_writes {image a : Nat} {m : Machine} {b : Access} :
    b ∈ (fixWord image a m).writes ↔
      (word m.ram a ≠ 0xffffffff ∧ b = (a, 4)) ∨ b ∈ m.writes := by
  unfold fixWord
  by_cases h : word m.ram a ≠ 0xffffffff
  · rw [if_pos h]
    exact List.mem_cons.trans (or_congr_left (iff_and_self.mpr fun _ => h))
  · rw [if_neg h]
    exact ⟨Or.inr, fun hb => hb.resolve_left fun hb => h hb.1⟩

/-- A word is fixed and nothing else changes. -/
theorem fixWord_ram (image : Nat) {a : Nat} {m : Machine} (h : a + 4 ≤ 4294967296) :
    word (fixWord image a m).ram a = fixed image (word m.ram a) ∧
      ∀ x, x < a ∨ a + 4 ≤ x → (fixWord image a m).ram x = m.ram x := by
  unfold fixWord fixed
  by_cases hentry : word m.ram a ≠ 0xffffffff
  · rw [if_pos hentry, if_pos hentry]
    refine ⟨?_, fun x hx => ?_⟩
    · have hstored := Bytes.number_store (m := m.ram) (u32 (word m.ram a + image)) h
      rwa [Nat.mod_eq_of_lt (show _ < 256 ^ 4 from u32_lt _)] at hstored
    · exact (Bytes.store_apply _ h).trans (if_neg (by omega))
  · rw [if_neg hentry, if_neg hentry]
    exact ⟨rfl, fun _ _ => rfl⟩

theorem word_congr {ram ram' : Bytes} {a : Nat} (h : a + 4 ≤ 4294967296)
    (hbytes : ∀ x, a ≤ x → x < a + 4 → ram x = ram' x) : word ram a = word ram' a := by
  refine Bytes.number_congr fun i hi => ?_
  rw [Nat.mod_eq_of_lt (by omega)]
  exact hbytes _ (by omega) (by omega)

theorem fixWords_reads_mem (image : Nat) : ∀ (n a : Nat) (m : Machine), a < 4294967296 →
    (∀ i < n, (u32 (a + 4 * i), 4) ∈ (fixWords image n a m).reads) ∧
      m.reads ⊆ (fixWords image n a m).reads := by
  intro n
  induction n with
  | zero => exact fun a m _ => ⟨nofun, List.Subset.refl _⟩
  | succ n ih =>
      intro a m ha
      obtain ⟨hreads, hkeep⟩ := ih (u32 (a + 4)) (fixWord image a m) (u32_lt _)
      rw [fixWord_reads] at hkeep
      rw [fixWords]
      refine ⟨fun i hi => ?_, fun b hb => hkeep (List.mem_cons_of_mem _ hb)⟩
      cases i with
      | zero =>
          rw [Nat.mul_zero, show u32 (a + 0) = a from u32_of_lt ha]
          exact hkeep (List.mem_cons_self ..)
      | succ i =>
          have hi' := hreads i (by omega)
          rwa [show u32 (u32 (a + 4) + 4 * i) = u32 (a + 4 * (i + 1)) by unfold u32; omega] at hi'

/-- What the loop does to a range of words that does not wrap. -/
structure WordsFixed (image n a : Nat) (m m' : Machine) : Prop where
  words : ∀ i < n, word m'.ram (a + 4 * i) = fixed image (word m.ram (a + 4 * i))
  ram : ∀ x, x < a ∨ a + 4 * n ≤ x → m'.ram x = m.ram x
  reads : ∀ b, b ∈ m'.reads ↔ (∃ i < n, b = (a + 4 * i, 4)) ∨ b ∈ m.reads
  writes : ∀ b, b ∈ m'.writes ↔
    (∃ i < n, word m.ram (a + 4 * i) ≠ 0xffffffff ∧ b = (a + 4 * i, 4)) ∨ b ∈ m.writes

theorem wordsFixed_zero (image a : Nat) (m : Machine) : WordsFixed image 0 a m m where
  words := nofun
  ram := fun _ _ => rfl
  reads := fun _ => ⟨Or.inr, fun h => h.resolve_left fun ⟨_, hi, _⟩ => nomatch hi⟩
  writes := fun _ => ⟨Or.inr, fun h => h.resolve_left fun ⟨_, hi, _⟩ => nomatch hi⟩

/-- A range that begins with a word: the word itself or one of the rest. -/
theorem exists_word {P : Nat → Prop} {n a : Nat} :
    (∃ i < n + 1, P (a + 4 * i)) ↔ P a ∨ ∃ i < n, P (a + 4 + 4 * i) := by
  constructor
  · intro hgiven
    obtain ⟨i, hi, hp⟩ := hgiven
    cases i with
    | zero => exact Or.inl hp
    | succ i =>
        refine Or.inr ⟨i, by omega, ?_⟩
        rwa [show a + 4 + 4 * i = a + 4 * (i + 1) by omega]
  · intro hor
    rcases hor with hp | ⟨i, hi, hp⟩
    · exact ⟨0, by omega, hp⟩
    · refine ⟨i + 1, by omega, ?_⟩
      rwa [show a + 4 * (i + 1) = a + 4 + 4 * i by omega]

/-- One round, and the rest of the words. -/
theorem WordsFixed.cons {image n a : Nat} {m m' : Machine} (h : a + 4 * (n + 1) ≤ 4294967296)
    (hrest : WordsFixed image n (a + 4) (fixWord image a m) m') :
    WordsFixed image (n + 1) a m m' := by
  obtain ⟨hword, hother⟩ := fixWord_ram image (m := m) (show a + 4 ≤ 4294967296 by omega)
  -- the other words are untouched by this round
  have hsame : ∀ i < n, word (fixWord image a m).ram (a + 4 + 4 * i) =
      word m.ram (a + 4 + 4 * i) :=
    fun i hi => word_congr (by omega) fun x hx _ => hother x (Or.inr (by omega))
  refine ⟨fun i hi => ?_, fun x hx => ?_, fun b => ?_, fun b => ?_⟩
  · cases i with
    | zero =>
        rw [Nat.mul_zero, Nat.add_zero, ← hword]
        exact word_congr (by omega) fun x _ hx => hrest.ram x (Or.inl hx)
    | succ i =>
        rw [show a + 4 * (i + 1) = a + 4 + 4 * i by omega, hrest.words i (by omega),
          hsame i (by omega)]
  · rw [hrest.ram x (by omega), hother x (by omega)]
  · rw [hrest.reads, fixWord_reads, List.mem_cons,
      exists_word (P := fun c => b = (c, 4)), or_left_comm, or_assoc]
  · rw [hrest.writes, fixWord_writes,
      exists_word (P := fun c => word m.ram c ≠ 0xffffffff ∧ b = (c, 4)), or_left_comm, or_assoc]
    refine or_congr_right (or_congr_left (exists_congr fun i => and_congr_right fun hi => ?_))
    rw [hsame i hi]

/-- **Every word is fixed once**, and only the words are touched. -/
theorem fixWords_spec (image : Nat) : ∀ (n a : Nat) (m : Machine), a + 4 * n ≤ 4294967296 →
    WordsFixed image n a m (fixWords image n a m) := by
  intro n
  induction n with
  | zero => exact fun a m _ => wordsFixed_zero image a m
  | succ n ih =>
      intro a m h
      rw [fixWords]
      refine WordsFixed.cons h ?_
      by_cases hn : n = 0
      · subst hn
        exact wordsFixed_zero image (a + 4) (fixWord image a m)
      · rw [u32_of_lt (show a + 4 < 4294967296 by omega)]
        exact ih (a + 4) (fixWord image a m) (by omega)

/-! ## The search for the section -/

/-- The section headers the search looks at. -/
def sectionsLookedAt (ram : Bytes) (elf : ElfDesc) (strtab : SectHeader) (sectSize : Nat) :
    Nat → Nat → List Nat
  | 0, _ => []
  | count + 1, sectHeader =>
    if sectHeader < elf.start ∨ u32 (sectHeader + sizeofSectHeader) ≥ elf.fileEnd then []
    else
      let name := nameAt elf strtab (readSectHeader ram sectHeader)
      sectHeader ::
        if name < elf.start ∨ name ≥ elf.fileEnd then []
        else if namedGot (stringAt ram name) (elf.fileEnd - name) then []
        else sectionsLookedAt ram elf strtab sectSize count (u32 (sectHeader + sectSize))

/-- The section header the search finds. -/
def gotSection (ram : Bytes) (elf : ElfDesc) (strtab : SectHeader) (sectSize : Nat) :
    Nat → Nat → Option SectHeader
  | 0, _ => none
  | count + 1, sectHeader =>
    if sectHeader < elf.start ∨ u32 (sectHeader + sizeofSectHeader) ≥ elf.fileEnd then none
    else
      let name := nameAt elf strtab (readSectHeader ram sectHeader)
      if name < elf.start ∨ name ≥ elf.fileEnd then none
      else if namedGot (stringAt ram name) (elf.fileEnd - name) then
        some (readSectHeader ram sectHeader)
      else gotSection ram elf strtab sectSize count (u32 (sectHeader + sectSize))

/-- The name test reads no further than the file. -/
theorem namedGotReads_inside {elf : ElfDesc} (h : PageRange elf.start elf.pages) (name : CString)
    {a : Nat} (hlo : elf.start ≤ a) (hhi : a < elf.fileEnd) :
    ∀ b ∈ namedGotReads name a (elf.fileEnd - a),
      Access.Inside 4294967296 elf.start elf.fileEnd b := by
  have hend := fileEnd_bounds h
  have hcmp := kStrcmpReads_le name gotName (elf.fileEnd - a - 1)
  have hlen := kStrlen_le name (elf.fileEnd - a - 1)
  have hinside : ∀ n, n ≤ elf.fileEnd - a →
      Access.Inside 4294967296 elf.start elf.fileEnd (a, n) :=
    fun n hn => Access.inside_of_le hlo (by omega) (by omega)
  intro b hb
  unfold namedGotReads at hb
  split at hb
  · rcases List.mem_cons.mp hb with rfl | hb
    · exact hinside _ (by omega)
    · rw [List.mem_singleton.mp hb]
      exact hinside _ (by omega)
  · rw [List.mem_singleton.mp hb]
    exact hinside _ (by omega)

/-- A section header that is looked at is in the file unless it wraps around. -/
theorem sectHeader_inside_iff {elf : ElfDesc} (h : PageRange elf.start elf.pages) {q : Nat}
    (hq : q < 4294967296) (hin : ¬ (q < elf.start ∨ u32 (q + sizeofSectHeader) ≥ elf.fileEnd)) :
    Access.Inside 4294967296 elf.start elf.fileEnd (q, sizeofSectHeader) ↔
      q + sizeofSectHeader < 4294967296 := by
  have hend := fileEnd_bounds h
  unfold sizeofSectHeader at *
  constructor
  · intro hinside
    by_contra hwrap
    exact Access.not_inside (by omega) hq (Or.inr (by omega)) hinside
  · intro hfit
    rw [u32_of_lt hfit] at hin
    exact Access.inside_of_le (by omega) (by omega) (by omega)

/-- **The search** only reads, inside the file if no header wraps. -/
theorem findGot_eq {elf : ElfDesc} (h : PageRange elf.start elf.pages) (strtab : SectHeader)
    (sectSize : Nat) : ∀ (count q : Nat) (m : Machine), q < 4294967296 → ∃ reads : List Access,
      findGot elf strtab sectSize count q m =
          (gotSection m.ram elf strtab sectSize count q, m.readAll reads) ∧
        ((∀ a ∈ reads, Access.Inside 4294967296 elf.start elf.fileEnd a) ↔
          ∀ p ∈ sectionsLookedAt m.ram elf strtab sectSize count q,
            p + sizeofSectHeader < 4294967296) := by
  intro count
  induction count with
  | zero => exact fun q m _ => ⟨[], rfl, iff_of_true nofun nofun⟩
  | succ count ih =>
      intro q m hq
      rw [findGot, gotSection, sectionsLookedAt]
      -- each test reads on from what the ones before it read
      by_cases hout : q < elf.start ∨ u32 (q + sizeofSectHeader) ≥ elf.fileEnd
      · rw [if_pos hout, if_pos hout, if_pos hout]
        exact ⟨[], rfl, iff_of_true nofun nofun⟩
      · have hheader := sectHeader_inside_iff h hq hout
        simp only [if_neg hout, Machine.read]
        obtain ⟨name, hname⟩ : ∃ a, a = nameAt elf strtab (readSectHeader m.ram q) := ⟨_, rfl⟩
        rw [← hname]
        by_cases hbad : name < elf.start ∨ name ≥ elf.fileEnd
        · simp only [if_pos hbad]
          refine ⟨[(q, sizeofSectHeader)], rfl, ?_⟩
          rw [List.forall_mem_singleton, List.forall_mem_singleton]
          exact hheader
        · simp only [if_neg hbad, Machine.readAll]
          have hnames := namedGotReads_inside h (stringAt m.ram name)
            (show elf.start ≤ name by omega) (by omega)
          rcases Bool.eq_false_or_eq_true (namedGot (stringAt m.ram name) (elf.fileEnd - name)) with
            hgot | hgot
          · simp only [hgot, if_true]
            refine ⟨namedGotReads (stringAt m.ram name) name (elf.fileEnd - name) ++
              [(q, sizeofSectHeader)], by rw [List.append_assoc]; rfl, ?_⟩
            rw [List.forall_mem_append, List.forall_mem_singleton, List.forall_mem_singleton]
            exact (and_iff_right hnames).trans hheader
          · simp only [hgot, Bool.false_eq_true, if_false]
            -- another name: the rest of the headers
            obtain ⟨reads, heq, hreads⟩ := ih (u32 (q + sectSize)) ⟨m.ram, m.pages,
              namedGotReads (stringAt m.ram name) name (elf.fileEnd - name) ++
                (q, sizeofSectHeader) :: m.reads, m.writes⟩ (u32_lt _)
            refine ⟨reads ++ (namedGotReads (stringAt m.ram name) name (elf.fileEnd - name) ++
              [(q, sizeofSectHeader)]), ?_, ?_⟩
            · rw [heq]
              simp only [Machine.readAll, List.append_assoc, List.singleton_append]
            · rw [List.forall_mem_append, List.forall_mem_append, List.forall_mem_singleton,
                List.forall_mem_cons, hreads, hheader]
              constructor
              · intro hgiven
                obtain ⟨hrest, -, hfit⟩ := hgiven
                exact ⟨hfit, hrest⟩
              · intro hgiven
                obtain ⟨hfit, hrest⟩ := hgiven
                exact ⟨hrest, hnames, hfit⟩

/-! ## The function -/

/-- Offset and contents of the header of the string table for section names. -/
def strtabHeader (ram : Bytes) (elf : ElfDesc) : Nat :=
  let h := elfReadHeaderMem ram elf.start
  u32 (h.sectTable + h.sectStrtab * h.sectSize)

def strtabOf (ram : Bytes) (elf : ElfDesc) : SectHeader :=
  readSectHeader ram (u32 (elf.start + strtabHeader ram elf))

/-- The section headers `elf_fix_got` looks at. -/
def gotHeaders (ram : Bytes) (elf : ElfDesc) : List Nat :=
  let h := elfReadHeaderMem ram elf.start
  sectionsLookedAt ram elf (strtabOf ram elf) h.sectSize h.sectCount (u32 (elf.start + h.sectTable))

/-- The section it takes for the table. -/
def fileGot (ram : Bytes) (elf : ElfDesc) : Option SectHeader :=
  let h := elfReadHeaderMem ram elf.start
  gotSection ram elf (strtabOf ram elf) h.sectSize h.sectCount (u32 (elf.start + h.sectTable))

/-- The file is one whose string table header is read. -/
structure HasStrtab (ram : Bytes) (elf : ElfDesc) : Prop where
  loadable : Loadable ram elf
  count : (elfReadHeaderMem ram elf.start).sectCount ≠ 0
  strtab : u32 (strtabHeader ram elf + sizeofSectHeader) ≤ elf.fileSize

/-- The tests on the section that was found. -/
def GotAccepted (elf : ElfDesc) (got : SectHeader) : Prop :=
  got.offset < elf.fileSize ∧ got.offset % 4 = 0 ∧ u32 (got.offset + got.size) < elf.fileSize

theorem elfFixGot_of_no_strtab {elf : ElfDesc} {m : Machine} (h : ¬ HasStrtab m.ram elf) :
    ∃ reads ⊆ headerFields.map (fun f => (elf.start + f.1, f.2)),
      elfFixGot elf m = m.readAll reads := by
  unfold elfFixGot
  by_cases hstart : elf.start = 0
  · exact ⟨[], List.nil_subset _, if_pos hstart⟩
  · refine ⟨_, List.Subset.refl _, ?_⟩
    rw [if_neg hstart]
    by_cases hcheck : elfCheckHeader (elfReadHeaderMem m.ram elf.start) = true
    · by_cases hcount : (elfReadHeaderMem m.ram elf.start).sectCount = 0
      · simp only [hcheck, hcount, Bool.not_true, Bool.false_eq_true, if_false, if_true]
        rfl
      · have hstrtab : u32 (strtabHeader m.ram elf + sizeofSectHeader) > elf.fileSize := by
          by_contra hle
          exact h ⟨⟨hstart, hcheck⟩, hcount, Nat.le_of_not_lt hle⟩
        unfold strtabHeader at hstrtab
        simp only [hcheck, Bool.not_true, Bool.false_eq_true, if_false, if_neg hcount,
          if_pos hstrtab]
        rfl
    · simp only [Bool.eq_false_iff.mpr hcheck, Bool.not_false, if_true]
      rfl

/-- Reads before the sections are searched. -/
def strtabReads (ram : Bytes) (elf : ElfDesc) : List Access :=
  (u32 (elf.start + strtabHeader ram elf), sizeofSectHeader) ::
    headerFields.map fun f => (elf.start + f.1, f.2)

/-- With a string table header the function searches the sections and fixes what it finds. -/
structure Searches (elf : ElfDesc) (m : Machine) (reads : List Access) : Prop where
  inside : (∀ a ∈ reads, Access.Inside 4294967296 elf.start elf.fileEnd a) ↔
    ∀ p ∈ gotHeaders m.ram elf, p + sizeofSectHeader < 4294967296
  refused : (strtabOf m.ram elf).offset ≥ elf.fileSize →
    elfFixGot elf m = m.readAll (strtabReads m.ram elf)
  unfound : (strtabOf m.ram elf).offset < elf.fileSize → fileGot m.ram elf = none →
    elfFixGot elf m = m.readAll (reads ++ strtabReads m.ram elf)
  found : (strtabOf m.ram elf).offset < elf.fileSize → ∀ got, fileGot m.ram elf = some got →
    elfFixGot elf m = fixTable elf got (m.readAll (reads ++ strtabReads m.ram elf))

theorem elfFixGot_of_strtab {elf : ElfDesc} {m : Machine} (hr : PageRange elf.start elf.pages)
    (h : HasStrtab m.ram elf) : ∃ reads : List Access, Searches elf m reads := by
  have hstrtab : ¬ u32 (strtabHeader m.ram elf + sizeofSectHeader) > elf.fileSize :=
    Nat.not_lt.mpr h.strtab
  obtain ⟨reads, hfind, hreads⟩ := findGot_eq hr (strtabOf m.ram elf)
    (elfReadHeaderMem m.ram elf.start).sectSize (elfReadHeaderMem m.ram elf.start).sectCount
    (u32 (elf.start + (elfReadHeaderMem m.ram elf.start).sectTable))
    (m.readAll (strtabReads m.ram elf)) (u32_lt _)
  refine ⟨reads, hreads, fun hoffset => ?_, fun hoffset hgot => ?_, fun hoffset got hgot => ?_⟩
  all_goals
    unfold elfFixGot
    simp only [if_neg h.loadable.start, h.loadable.check, Bool.not_true, Bool.false_eq_true,
      if_false, if_neg h.count]
    refine (if_neg hstrtab).trans ?_
  · exact if_pos hoffset
  all_goals
    refine (if_neg (Nat.not_le.mpr hoffset)).trans ?_
    simp only [fileGot, strtabReads, strtabOf, strtabHeader, Machine.readHeader, Machine.read,
      Machine.readAll, List.cons_append, List.append_assoc] at hfind hgot ⊢
    rw [hfind, hgot]

theorem fixTable_of_accepted {elf : ElfDesc} {got : SectHeader} {m : Machine}
    (h : GotAccepted elf got) :
    fixTable elf got m = fixWords elf.image (got.size / 4) (u32 (elf.start + got.offset)) m := by
  obtain ⟨hoffset, haligned, hend⟩ := h
  rw [fixTable, if_neg (by omega), if_neg (by omega), if_neg (by omega)]

theorem fixTable_of_not_accepted {elf : ElfDesc} {got : SectHeader} {m : Machine}
    (h : ¬ GotAccepted elf got) : fixTable elf got m = m := by
  unfold fixTable GotAccepted at *
  split
  · rfl
  · split
    · rfl
    · split
      · rfl
      · exact absurd ⟨by omega, by omega, by omega⟩ h

/-! ## Right and wrong -/

/-- Where the header of a section is. -/
def sectAddress (ram : Bytes) (elf : ElfDesc) (k : Nat) : Nat :=
  let h := elfReadHeaderMem ram elf.start
  u32 (elf.start + h.sectTable + k * h.sectSize)

/-- The name of a section in the string table is `.got`, with its terminator. -/
structure NamedGot (ram : Bytes) (elf : ElfDesc) (sect : SectHeader) : Prop where
  lo : elf.start ≤ nameAt elf (strtabOf ram elf) sect
  hi : nameAt elf (strtabOf ram elf) sect + 5 ≤ elf.fileEnd
  chars : ∀ i < 5, ram (nameAt elf (strtabOf ram elf) sect + i) = gotName i

/-- A byte of a word of a section named `.got`. -/
def GotByte (ram : Bytes) (elf : ElfDesc) (x : Nat) : Prop :=
  ∃ k < (elfReadHeaderMem ram elf.start).sectCount,
    (elf.start ≤ sectAddress ram elf k ∧ sectAddress ram elf k + sizeofSectHeader ≤ elf.fileEnd) ∧
      NamedGot ram elf (readSectHeader ram (sectAddress ram elf k)) ∧
      elf.start + (readSectHeader ram (sectAddress ram elf k)).offset ≤ x ∧
      x < elf.start + (readSectHeader ram (sectAddress ram elf k)).offset +
        (readSectHeader ram (sectAddress ram elf k)).size / 4 * 4

/-- Reads and writes are inside the file, and writes in the words of sections named `.got`. -/
structure GotFixed (ram : Bytes) (elf : ElfDesc) (m : Machine) : Prop where
  reads : ∀ a ∈ m.reads,
    Access.Inside 4294967296 elf.start (elf.start + elf.pages * smallPageSize) a
  writes : ∀ a ∈ m.writes,
    Access.Inside 4294967296 elf.start (elf.start + elf.pages * smallPageSize) a
  got : ∀ a ∈ m.writes, ∀ i < a.2, GotByte ram elf (u32 (a.1 + i))

/-- No header and no table wraps around the end of memory, and each word that is fixed
belongs to a section named `.got`. -/
structure FixFits (ram : Bytes) (elf : ElfDesc) : Prop where
  strtab : strtabHeader ram elf + sizeofSectHeader < 4294967296
  headers : (strtabOf ram elf).offset < elf.fileSize →
    ∀ p ∈ gotHeaders ram elf, p + sizeofSectHeader < 4294967296
  table : (strtabOf ram elf).offset < elf.fileSize → ∀ got, fileGot ram elf = some got →
    GotAccepted elf got → got.offset + got.size < 4294967296
  words : (strtabOf ram elf).offset < elf.fileSize → ∀ got, fileGot ram elf = some got →
    GotAccepted elf got → ∀ i < got.size / 4,
      word ram (elf.start + got.offset + 4 * i) ≠ 0xffffffff →
        ∀ j < 4, GotByte ram elf (elf.start + got.offset + 4 * i + j)

/-- The reads before the search are inside unless the string table header wraps around. -/
theorem strtabReads_inside_iff {ram : Bytes} {elf : ElfDesc} (h : PageRange elf.start elf.pages)
    (hstrtab : HasStrtab ram elf) :
    (∀ a ∈ strtabReads ram elf, Access.Inside 4294967296 elf.start elf.fileEnd a) ↔
      strtabHeader ram elf + sizeofSectHeader < 4294967296 := by
  have hend := fileEnd_bounds h
  have hsize := fileSize_eq h
  have hfile := fileEnd_eq h
  have hle := hstrtab.strtab
  have hlt : strtabHeader ram elf < 4294967296 := u32_lt _
  have hstart : 4096 ≤ elf.start := by
    have hne := hstrtab.loadable.start
    have haligned := h.aligned
    unfold smallPageSize at haligned
    omega
  unfold strtabReads
  rw [List.forall_mem_cons, and_iff_left (headerReads_inside h)]
  unfold sizeofSectHeader at *
  constructor
  · intro hin
    by_contra hwrap
    -- the header starts less than 40 bytes in front of the file
    refine Access.not_inside (by omega) (u32_lt _) (Or.inl ?_) hin
    unfold u32
    omega
  · intro hfit
    rw [u32_of_lt hfit] at hle
    rw [u32_of_lt (show elf.start + strtabHeader ram elf < 4294967296 by omega)]
    exact Access.inside_of_le (by omega) (by omega) (by omega)

section Table

variable {ram : Bytes} {elf : ElfDesc} {got : SectHeader} {m : Machine}

/-- A table that wraps is read behind the end of the file. -/
theorem fixTable_overruns (hr : PageRange elf.start elf.pages) (hgot : GotAccepted elf got)
    (hwrap : 4294967296 ≤ got.offset + got.size) :
    ∃ a ∈ (fixTable elf got m).reads,
      ¬ Access.Inside 4294967296 elf.start (elf.start + elf.pages * smallPageSize) a := by
  rw [fixTable_of_accepted hgot]
  obtain ⟨hoffset, haligned, hend⟩ := hgot
  have hbelow := hr.below
  have hpagewise := hr.aligned
  rw [fileSize_eq hr] at hoffset hend
  simp only [smallPageSize] at *
  have hreads := (fixWords_reads_mem elf.image (got.size / 4) (u32 (elf.start + got.offset)) m
    (u32_lt _)).1 ((elf.pages * 4096 - got.offset) / 4) (by omega)
  have hword : u32 (u32 (elf.start + got.offset) + 4 * ((elf.pages * 4096 - got.offset) / 4)) =
      elf.start + elf.pages * 4096 := by
    unfold u32
    omega
  rw [hword] at hreads
  exact ⟨_, hreads, Access.not_inside (by omega) (by omega) (Or.inr (Nat.le_refl _))⟩

theorem fixTable_keeps {a : Access} (ha : a ∈ m.reads) : a ∈ (fixTable elf got m).reads := by
  by_cases h : GotAccepted elf got
  · rw [fixTable_of_accepted h]
    exact (fixWords_reads_mem _ _ _ m (u32_lt _)).2 ha
  · rwa [fixTable_of_not_accepted h]

/-- A table that does not wrap is fixed word by word. -/
theorem fixTable_spec (hr : PageRange elf.start elf.pages) (hgot : GotAccepted elf got)
    (hfit : got.offset + got.size < 4294967296) :
    elf.start + got.offset + 4 * (got.size / 4) ≤ elf.start + elf.pages * smallPageSize ∧
      WordsFixed elf.image (got.size / 4) (elf.start + got.offset) m (fixTable elf got m) := by
  rw [fixTable_of_accepted hgot]
  obtain ⟨hoffset, haligned, hend⟩ := hgot
  have hbelow := hr.below
  rw [fileSize_eq hr] at hoffset hend
  rw [u32_of_lt hfit] at hend
  rw [u32_of_lt (show elf.start + got.offset < 4294967296 by omega)]
  exact ⟨by omega, fixWords_spec elf.image (got.size / 4) (elf.start + got.offset) m (by omega)⟩

/-- What fixing a table that does not wrap reads and writes is right exactly if its words are. -/
theorem fixTable_fixed_iff (ram : Bytes) (hr : PageRange elf.start elf.pages) (hgot : GotAccepted elf got)
    (hfit : got.offset + got.size < 4294967296) (hram : m.ram = ram)
    (hreads : ∀ a ∈ m.reads,
      Access.Inside 4294967296 elf.start (elf.start + elf.pages * smallPageSize) a)
    (hwrites : m.writes = []) :
    GotFixed ram elf (fixTable elf got m) ↔
      ∀ i < got.size / 4, word ram (elf.start + got.offset + 4 * i) ≠ 0xffffffff →
        ∀ j < 4, GotByte ram elf (elf.start + got.offset + 4 * i + j) := by
  have hbelow := hr.below
  obtain ⟨hroom, hfixed⟩ := fixTable_spec (m := m) hr hgot hfit
  have hinside : ∀ i < got.size / 4, Access.Inside 4294967296 elf.start
      (elf.start + elf.pages * smallPageSize) (elf.start + got.offset + 4 * i, 4) :=
    fun i hi => Access.inside_of_le (by omega) (by omega) (by omega)
  constructor
  · intro h i hi hword j hj
    have hgotByte := h.got _ ((hfixed.writes _).mpr (Or.inl ⟨i, hi, hram ▸ hword, rfl⟩)) j hj
    rwa [u32_of_lt (show elf.start + got.offset + 4 * i + j < 4294967296 by omega)] at hgotByte
  · intro h
    refine ⟨fun a ha => ?_, fun a ha => ?_, fun a ha j hj => ?_⟩
    · rcases (hfixed.reads a).mp ha with ⟨i, hi, rfl⟩ | ha
      · exact hinside i hi
      · exact hreads a ha
    · rcases (hfixed.writes a).mp ha with ⟨i, hi, -, rfl⟩ | ha
      · exact hinside i hi
      · rw [hwrites] at ha
        exact nomatch ha
    · rcases (hfixed.writes a).mp ha with ⟨i, hi, hword, rfl⟩ | ha
      · rw [u32_of_lt (show elf.start + got.offset + 4 * i + j < 4294967296 by omega)]
        exact h i hi (hram ▸ hword) j hj
      · rw [hwrites] at ha
        exact nomatch ha

end Table

/-- **Fixing the table is right exactly for the files that fit.** -/
theorem elfFixGot_fixed_iff {w : PageWorld} (hw : PageInv w) (ram : Bytes) {elf : ElfDesc}
    (hheld : (elf.start, elf.pages) ∈ w.held) :
    GotFixed ram elf (elfFixGot elf (before w ram)) ↔ (HasStrtab ram elf → FixFits ram elf) := by
  have hr : PageRange elf.start elf.pages := hw.range hheld
  by_cases hs : HasStrtab ram elf
  · obtain ⟨reads, hsearch⟩ := elfFixGot_of_strtab (m := before w ram) hr hs
    have hstrtab := strtabReads_inside_iff hr hs
    have hheaders := hsearch.inside
    rw [fileEnd_eq hr] at hstrtab hheaders
    -- memory after the reads, as far as they go
    have honly : ∀ l : List Access, GotFixed ram elf (Machine.readAll (before w ram) l) ↔
        ∀ a ∈ l, Access.Inside 4294967296 elf.start (elf.start + elf.pages * smallPageSize) a := by
      intro l
      refine ⟨fun h a ha => h.reads a (List.mem_append_left _ ha), fun h => ⟨fun a ha => ?_, nofun,
        nofun⟩⟩
      exact h a ((List.mem_append.mp ha).resolve_right nofun)
    by_cases hoffset : (strtabOf ram elf).offset ≥ elf.fileSize
    · rw [hsearch.refused hoffset, honly, hstrtab]
      refine ⟨fun h _ => ⟨h, ?_, ?_, ?_⟩, fun h => (h hs).strtab⟩ <;>
        exact fun hlt => absurd hlt (Nat.not_lt.mpr hoffset)
    · have hlt : (strtabOf ram elf).offset < elf.fileSize := Nat.lt_of_not_le hoffset
      cases hgot : fileGot ram elf with
      | none =>
          rw [hsearch.unfound hlt hgot, honly, List.forall_mem_append, hheaders, hstrtab]
          refine ⟨fun h _ => ⟨h.2, fun _ => h.1, fun _ got hg => ?_, fun _ got hg => ?_⟩,
            fun h => ⟨(h hs).headers hlt, (h hs).strtab⟩⟩
          · rw [hgot] at hg
            exact nomatch hg
          · rw [hgot] at hg
            exact nomatch hg
      | some got =>
          rw [hsearch.found hlt got hgot]
          have hmem : ∀ {got'}, fileGot ram elf = some got' → got' = got := by
            intro got' hg
            rw [hgot, Option.some.injEq] at hg
            exact hg.symm
          by_cases haccepted : GotAccepted elf got
          · have hbefore : (∀ a ∈ reads ++ strtabReads ram elf, Access.Inside 4294967296 elf.start
                (elf.start + elf.pages * smallPageSize) a) ↔ _ :=
              List.forall_mem_append.trans (and_congr hheaders hstrtab)
            have hiff := fun hfit hin => fixTable_fixed_iff ram hr haccepted hfit
              (m := Machine.readAll (before w ram) (reads ++ strtabReads ram elf)) rfl hin rfl
            constructor
            · intro h _
              have hfits := hbefore.mp fun a ha =>
                h.reads a (fixTable_keeps (List.mem_append_left _ ha))
              have htable : got.offset + got.size < 4294967296 := by
                by_contra hwrap
                obtain ⟨a, ha, hout⟩ := fixTable_overruns hr haccepted (Nat.le_of_not_lt hwrap)
                exact hout (h.reads a ha)
              have hwords := (hiff htable fun a ha =>
                h.reads a (fixTable_keeps ha)).mp h
              refine ⟨hfits.2, fun _ => hfits.1, fun _ got' hg _ => ?_, fun _ got' hg _ => ?_⟩
              · exact hmem hg ▸ htable
              · exact hmem hg ▸ hwords
            · intro h
              obtain ⟨hfit1, hfit2, htable, hwords⟩ := h hs
              refine (hiff (htable hlt got hgot haccepted) fun a ha => ?_).mpr
                (hwords hlt got hgot haccepted)
              exact hbefore.mpr ⟨hfit2 hlt, hfit1⟩ a ((List.mem_append.mp ha).resolve_right nofun)
          · rw [fixTable_of_not_accepted haccepted, honly, List.forall_mem_append, hheaders,
              hstrtab]
            refine ⟨fun h _ => ⟨h.2, fun _ => h.1, fun _ got' hg ha => ?_, fun _ got' hg ha => ?_⟩,
              fun h => ⟨(h hs).headers hlt, (h hs).strtab⟩⟩
            · exact absurd (hmem hg ▸ ha) haccepted
            · exact absurd (hmem hg ▸ ha) haccepted
  · obtain ⟨reads, hsub, hfix⟩ := elfFixGot_of_no_strtab (m := before w ram) hs
    rw [hfix]
    refine iff_of_true ⟨fun a ha => ?_, nofun, nofun⟩ fun h => absurd h hs
    rw [← fileEnd_eq hr]
    exact headerReads_inside hr a (hsub ((List.mem_append.mp ha).resolve_right nofun))

/-! ## A file with one table -/

/-- A string table at 132 and, under a name of four characters, a table of one word at 140. -/
def oneTable (name : String) : List UInt8 :=
  let word := fun v => (List.range 4).map fun i => UInt8.ofNat (v / 256 ^ i)
  [0x7f, 0x45, 0x4c, 0x46, 1, 1, 1, 0, 0, 0, 0, 0, 0, 0, 0, 0, 3, 0, 0x28, 0, 1, 0, 0, 0,
    0, 0, 0, 0, 0, 0, 0, 0, 52, 0, 0, 0, 0, 0, 0, 0, 52, 0, 32, 0, 0, 0, 40, 0, 2, 0, 0, 0] ++
    ([0, 3, 0, 0, 132, 6, 0, 0, 1, 0] ++ [1, 1, 3, 0, 140, 4, 0, 0, 4, 4]).flatMap word ++
    [0] ++ name.toList.map Char.toUInt8 ++ [0, 0, 0] ++ word 0x10

/-- The descriptor of a file that has an image. -/
def twoPagesImage : ElfDesc :=
  { pages := 2, start := 0x10001000, image := 0x10003000, imagePages := 1 }

/-- The table of a file where it is named `.got`. -/
theorem elfFixGot_fixed_iff_named :
    GotFixed (fileRam (oneTable ".got")) twoPagesImage
      (elfFixGot twoPagesImage (before twoOfEight (fileRam (oneTable ".got")))) := by
  rw [elfFixGot_fixed_iff pageInv_twoOfEight _ (List.mem_singleton.mpr rfl)]
  intro _
  have hgot : fileGot (fileRam (oneTable ".got")) twoPagesImage =
      some ⟨1, 1, 3, 0, 140, 4, 0, 0, 4, 4⟩ := by decide +kernel
  refine ⟨by decide +kernel, fun _ => by decide +kernel, fun _ got hg _ => ?_,
    fun _ got hg _ i hi _ j hj => ?_⟩
  · rw [hgot, Option.some.injEq] at hg
    subst hg
    decide
  · rw [hgot, Option.some.injEq] at hg
    subst hg
    have hone : readSectHeader (fileRam (oneTable ".got"))
        (sectAddress (fileRam (oneTable ".got")) twoPagesImage 1) =
          ⟨1, 1, 3, 0, 140, 4, 0, 0, 4, 4⟩ := by decide +kernel
    refine ⟨1, by decide +kernel, by decide +kernel, ⟨?_, ?_, ?_⟩, ?_, ?_⟩
    · rw [hone]
      decide +kernel
    · rw [hone]
      decide +kernel
    · rw [hone]
      decide +kernel
    · rw [hone]
      show 0x10001000 + 140 ≤ 0x10001000 + 140 + 4 * i + j
      omega
    · have hi : i < 1 := hi
      rw [hone]
      show 0x10001000 + 140 + 4 * i + j < 0x10001000 + 140 + 4
      omega

/-- A table named `.fpt` has the same sum of characters, and its word is changed. -/
theorem otherTable_changed :
    ¬ ∀ (w : PageWorld) (ram : Bytes) (elf : ElfDesc), PageInv w →
      (elf.start, elf.pages) ∈ w.held → GotFixed ram elf (elfFixGot elf (before w ram)) := by
  intro h
  have hfixed := h twoOfEight (fileRam (oneTable ".fpt")) twoPagesImage pageInv_twoOfEight
    (List.mem_singleton.mpr rfl)
  have hwrite : (0x1000108c, 4) ∈
      (elfFixGot twoPagesImage (before twoOfEight (fileRam (oneTable ".fpt")))).writes := by
    decide +kernel
  obtain ⟨k, hk, -, hnamed, -⟩ := hfixed.got _ hwrite 0 (by omega)
  have hcount : (elfReadHeaderMem (fileRam (oneTable ".fpt")) twoPagesImage.start).sectCount = 2 := by
    decide +kernel
  rw [hcount] at hk
  have hg := hnamed.chars 1 (by omega)
  rcases (show k = 0 ∨ k = 1 by omega) with rfl | rfl
  · exact absurd hg (by decide +kernel)
  · exact absurd hg (by decide +kernel)

end OSExt.Elf
