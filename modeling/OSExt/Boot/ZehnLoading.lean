import OSExt.Boot.ZehnRelocs
import Mathlib.Data.Prod.Lex

/-!
# Loading a Zehn file

What `zehn_load` demands of a file, read off the file: the header, complete tables, flags
that allow the calculator and the version of Ndless, relocations that it knows. **A readable
file with a tidy table is loaded if and only if it meets these demands.** Then the image is
in its block, with each word that a relocation names as the relocation has it; nothing
outside the block is touched.
-/

namespace OSExt.Boot

open Lib Memory Elf Bytes

/-! ## Flags -/

/-- A flag that does not keep the application from running. -/
def ZehnFlag.Suits (c : Calculator) (extraData : Bytes) (f : ZehnFlag) : Prop :=
  match f.type with
  | .executableName => ∃ n ≤ 255, extraData (f.data + n) = 0
  | .runsOnColor => f.data = 0 → c.hasColors = false
  | .runsOnClickpad => f.data = 0 → c.isTouchpad = true
  | .runsOnTouchpad => f.data = 0 → c.isTouchpad = false
  | .runsOn32mb => f.data = 0 → c.hasColors = true ∧ c.isCm = false
  | _ => True

/-- What the last flag of a type says. -/
def lastFlag {α : Type} (type : ZehnFlagType) (read : Nat → α) (dflt : α)
    (flags : List ZehnFlag) : α :=
  flags.foldl (fun a f => if f.type = type then read f.data else a) dflt

/-- The variables after the loop over some flags. -/
def ZehnInfo.after (info : ZehnInfo) (flags : List ZehnFlag) : ZehnInfo where
  ndlessVersionMin := lastFlag .ndlessVersionMin id info.ndlessVersionMin flags
  ndlessVersionMax := lastFlag .ndlessVersionMax id info.ndlessVersionMax flags
  ndlessRevisionMin := lastFlag .ndlessRevisionMin id info.ndlessRevisionMin flags
  ndlessRevisionMax := lastFlag .ndlessRevisionMax id info.ndlessRevisionMax flags
  supportsHww := lastFlag .runsOnHww (fun n => decide (n ≠ 0)) info.supportsHww flags

theorem zehnCheckString_iff (extraData : Bytes) : ∀ maxLength ptr : Nat,
    zehnCheckString extraData maxLength ptr = true ↔
      ∃ n ≤ maxLength, extraData (ptr + n) = 0 := by
  intro maxLength
  induction maxLength with
  | zero =>
      intro ptr
      refine beq_iff_eq.trans ⟨fun h => ⟨0, le_rfl, h⟩, ?_⟩
      rintro ⟨n, hn, h⟩
      rwa [Nat.le_zero.mp hn] at h
  | succ maxLength ih =>
      intro ptr
      rw [zehnCheckString, Bool.or_eq_true, beq_iff_eq, ih]
      constructor
      · rintro (h | ⟨n, hn, h⟩)
        · exact ⟨0, by omega, h⟩
        · exact ⟨n + 1, by omega, by rwa [show ptr + (n + 1) = ptr + 1 + n by omega]⟩
      · rintro ⟨n, hn, h⟩
        cases n with
        | zero => exact Or.inl h
        | succ n => exact Or.inr ⟨n, by omega, by rwa [show ptr + 1 + n = ptr + (n + 1) by omega]⟩

theorem zehnFlag_ok {c : Calculator} {extraData : Bytes} {info info' : ZehnInfo} {f : ZehnFlag} :
    zehnFlag c extraData info f = .ok info' ↔
      f.Suits c extraData ∧ info' = info.after [f] := by
  rcases f with ⟨type, data⟩
  rcases info with ⟨vmin, vmax, rmin, rmax, hww⟩
  have hname := zehnCheckString_iff extraData 255 data
  cases type with
  | executableName =>
      by_cases h : zehnCheckString extraData 255 data = true
      · simp [zehnFlag, ZehnFlag.Suits, h, hname.mp h, ZehnInfo.after, lastFlag, eq_comm]
      · have hno := mt hname.mpr h
        simp only [zehnFlag, ZehnFlag.Suits, hno, false_and, iff_false]
        simp [h]
  | runsOnColor | runsOnClickpad | runsOnTouchpad | runsOn32mb =>
      rcases c with ⟨hasColors, isCm, isTouchpad⟩
      cases hasColors <;> cases isCm <;> cases isTouchpad <;> by_cases h : data = 0 <;>
        simp [zehnFlag, ZehnFlag.Suits, h, ZehnInfo.after, lastFlag, eq_comm]
  | executableNotice | executableAuthor | executableVersion | ndlessVersionMin
  | ndlessRevisionMin | ndlessVersionMax | ndlessRevisionMax | runsOnHww | other n =>
      simp [zehnFlag, ZehnFlag.Suits, ZehnInfo.after, lastFlag, eq_comm]

theorem ZehnInfo.after_cons (info : ZehnInfo) (f : ZehnFlag) (fs : List ZehnFlag) :
    info.after (f :: fs) = (info.after [f]).after fs := rfl

/-- **The loop over the flags** ends where all flags suit, and of each kind the last one counts. -/
theorem zehnFlags_ok {c : Calculator} {extraData : Bytes} : ∀ {flags : List ZehnFlag}
    {info info' : ZehnInfo}, zehnFlags c extraData info flags = .ok info' ↔
      (∀ f ∈ flags, f.Suits c extraData) ∧ info' = info.after flags := by
  intro flags
  induction flags with
  | nil =>
      intro info info'
      rw [zehnFlags, Except.ok.injEq]
      exact ⟨fun h => ⟨nofun, h.symm⟩, fun h => h.2.symm⟩
  | cons f fs ih =>
      intro info info'
      rw [zehnFlags, List.forall_mem_cons, ZehnInfo.after_cons]
      cases hf : zehnFlag c extraData info f with
      | error e =>
          refine ⟨nofun, fun h => ?_⟩
          rw [zehnFlag_ok.mpr ⟨h.1.1, rfl⟩] at hf
          exact nomatch hf
      | ok info1 =>
          obtain ⟨hsuits, rfl⟩ := zehnFlag_ok.mp hf
          refine ih.trans ⟨fun h => ?_, fun h => ?_⟩
          · exact ⟨⟨hsuits, h.1⟩, h.2⟩
          · exact ⟨h.1.2, h.2⟩

/-- Version and revision of Ndless, compared one after the other. -/
theorem checkNdless_none {info : ZehnInfo} : checkNdless info = none ↔
    toLex (info.ndlessVersionMin, info.ndlessRevisionMin) ≤ toLex (ndlessVersion, ndlessRevision) ∧
    toLex (ndlessVersion, ndlessRevision) ≤
      toLex (info.ndlessVersionMax, info.ndlessRevisionMax) := by
  rw [Prod.Lex.toLex_le_toLex, Prod.Lex.toLex_le_toLex]
  unfold checkNdless
  split_ifs <;> simp only [false_iff, true_iff] <;> omega

/-! ## Files -/

/-- The file can be read, and there is memory for it. -/
structure Readable (fmt : ZehnFormat) (file : ZehnFile) (h : ZehnHeader) (ans : LoadAnswers)
    (contents : List UInt8) : Prop where
  header : file.header = some h
  storage : nullStorage file ans = false
  mem : ans.mem ≠ 0
  block : ans.mem + fmt.remainingMem h ≤ 4294967296
  contents : zehnContents fmt h file ans = .ok contents

/-- What `zehn_load` demands of a file. -/
structure Accepted (fmt : ZehnFormat) (c : Calculator) (file : ZehnFile) (h : ZehnHeader)
    (ans : LoadAnswers) : Prop where
  signature : h.signature = fmt.signature
  version : h.version = fmt.version
  size : h.fileSize ≤ h.allocSize
  relocCount : file.relocs.length = h.relocCount
  flagCount : file.flags.length = h.flagCount
  extraSize : file.extra.length = h.extraSize
  flags : ∀ f ∈ file.flags, f.Suits c (extraData file ans)
  /-- the version that the last flags ask for -/
  atLeast : toLex (lastFlag .ndlessVersionMin id 0 file.flags,
    lastFlag .ndlessRevisionMin id 0 file.flags) ≤ toLex (ndlessVersion, ndlessRevision)
  atMost : toLex (ndlessVersion, ndlessRevision) ≤
    toLex (lastFlag .ndlessVersionMax id uintMax file.flags,
      lastFlag .ndlessRevisionMax id uintMax file.flags)
  relocs : ∀ r ∈ file.relocs, r.Taken (fmt.remainingMem h)

/-- The image of a file before it is relocated. -/
def imageOf (contents : List UInt8) : Bytes := fun x => contents.getD x 0

/-- The image is in its block, relocated for where it is. -/
structure LoadedImage (fmt : ZehnFormat) (file : ZehnFile) (h : ZehnHeader) (ans : LoadAnswers)
    (contents : List UInt8) (supportsHww : Bool) (ram : Bytes) (l : ZehnLoaded) (ram' : Bytes) :
    Prop where
  mem : l.mem = ans.mem
  entry : l.entry = u32 (ans.mem + h.entryOffset)
  hww : l.supportsHww = lastFlag .runsOnHww (fun n => decide (n ≠ 0)) supportsHww file.flags
  image : Edited 4294967296 4 (fmt.remainingMem h)
    (relocEdits (imageOf contents) (fmt.remainingMem h) ans.mem file.relocs) (imageOf contents)
    (view ans.mem ram')
  frame : ∀ x, x < ans.mem ∨ ans.mem + fmt.remainingMem h ≤ x → ram' x = ram x

section

variable {fmt : ZehnFormat} {c : Calculator} {fuel : Nat} {file : ZehnFile} {h : ZehnHeader}
  {ans : LoadAnswers} {contents : List UInt8} {supportsHww : Bool} {ram ram' : Bytes}

theorem fillBlock_view {base size x : Nat} (hx : x < size) :
    view base (fillBlock base size contents ram) x = imageOf contents x := by
  unfold view fillBlock imageOf
  rw [if_pos ⟨by omega, by omega⟩, Nat.add_sub_cancel_left]

theorem fillBlock_outside {base size x : Nat} (hx : x < base ∨ base + size ≤ x) :
    fillBlock base size contents ram x = ram x := by
  unfold fillBlock
  exact if_neg (by omega)

theorem fillBlock_fresh (ram : Bytes) {base size : Nat} {relocs : List ZehnReloc}
    (htidy : Tidy (imageOf contents) size relocs) (hbase : base + size ≤ 4294967296) :
    ∀ r ∈ relocs, Fresh (imageOf contents) size base (fillBlock base size contents ram) r := by
  intro r hr a ha
  have hin := htidy.inside r hr a ha
  show number 4294967296 _ (base + a) 4 = _
  rw [← number_view (by omega)]
  exact number_same (by omega) fun x _ hx => fillBlock_view (by omega)

/-- What relocating leaves of a filled block. -/
theorem edited_fillBlock (ram : Bytes) {base size : Nat} {relocs : List ZehnReloc}
    (htidy : Tidy (imageOf contents) size relocs) (hbase : base + size ≤ 4294967296) :
    let es := relocEdits (imageOf contents) size base relocs
    let ram' := editAll 4294967296 4 (shift base es) (fillBlock base size contents ram)
    Edited 4294967296 4 size es (imageOf contents) (view base ram') ∧
      ∀ x, x < base ∨ base + size ≤ x → ram' x = ram x := by
  intro es ram'
  have hin : ∀ e ∈ es, e.1 + 4 ≤ size := htidy.edits_inside base
  have hshifted : ∀ e ∈ shift base es, e.1 + 4 ≤ 4294967296 := by
    intro e he
    obtain ⟨f, hf, rfl⟩ := List.mem_map.mp he
    have hinf := hin f hf
    show base + f.1 + 4 ≤ 4294967296
    omega
  have hpairs : (shift base es).Pairwise fun e f => WordsApart 4 e.1 f.1 :=
    List.pairwise_map.mpr ((htidy.edits_apart base).imp fun hef => hef.imp (by omega) (by omega))
  constructor
  · have hall := edited_editAll (fillBlock base size contents ram) 4294967296 hpairs hshifted
    exact (edited_view hbase hin hall).congr hin (by omega) fun x hx => fillBlock_view hx
  · intro x hx
    have hout : ∀ e ∈ shift base es, x < e.1 ∨ e.1 + 4 ≤ x := by
      intro e he
      obtain ⟨f, hf, rfl⟩ := List.mem_map.mp he
      have hinf := hin f hf
      show x < base + f.1 ∨ base + f.1 + 4 ≤ x
      omega
    have hall := edited_editAll (fillBlock base size contents ram) (x + 1) hpairs hshifted
    exact (hall.rest x (by omega) hout).trans (fillBlock_outside hx)

/-- `zehn_load` of a readable file with a tidy table. -/
theorem zehnLoad_ok (hread : Readable fmt file h ans contents)
    (htidy : Tidy (imageOf contents) (fmt.remainingMem h) file.relocs)
    (hfuel : fmt.remainingMem h ≤ fuel) {l : ZehnLoaded} :
    zehnLoad fmt c fuel file ans supportsHww ram = (.ok l, ram') ↔
      Accepted fmt c file h ans ∧
      l = {
        mem := ans.mem
        entry := u32 (ans.mem + h.entryOffset)
        supportsHww := lastFlag .runsOnHww (fun n => decide (n ≠ 0)) supportsHww file.flags } ∧
      ram' = editAll 4294967296 4
        (shift ans.mem
          (relocEdits (imageOf contents) (fmt.remainingMem h) ans.mem file.relocs))
        (fillBlock ans.mem (fmt.remainingMem h) contents ram) := by
  have hloop := @zehnRelocs_spec _ _ _ _ hread.block hfuel _ _ htidy
    (fillBlock_fresh ram htidy hread.block) () ram'
  unfold zehnLoad
  rw [hread.header]
  dsimp only
  constructor
  · intro hok
    by_cases hhead :
        h.signature ≠ fmt.signature ∨ h.version ≠ fmt.version ∨ h.fileSize > h.allocSize
    · rw [if_pos hhead] at hok
      exact (stop_ok.mp hok).elim
    rw [if_neg hhead, hread.storage, if_neg Bool.false_ne_true] at hok
    by_cases hcounts : file.relocs.length ≠ h.relocCount ∨ file.flags.length ≠ h.flagCount ∨
        file.extra.length ≠ h.extraSize
    · rw [if_pos hcounts] at hok
      exact (stop_ok.mp hok).elim
    rw [if_neg hcounts, if_neg hread.mem, hread.contents] at hok
    obtain ⟨u, ram1, hfill, hok⟩ := bind_ok.mp hok
    obtain rfl := update_ok.mp hfill
    cases hflags : zehnFlags c (extraData file ans) (.start supportsHww) file.flags with
    | error e =>
        rw [hflags] at hok
        exact (stop_ok.mp hok).elim
    | ok info =>
        obtain ⟨hsuits, rfl⟩ := zehnFlags_ok.mp hflags
        rw [hflags] at hok
        dsimp only at hok
        cases hndless : checkNdless ((ZehnInfo.start supportsHww).after file.flags) with
        | some e =>
            rw [hndless] at hok
            exact (stop_ok.mp hok).elim
        | none =>
            obtain ⟨hatLeast, hatMost⟩ := checkNdless_none.mp hndless
            rw [hndless] at hok
            obtain ⟨v, ram2, hrelocs, hok⟩ := bind_ok.mp hok
            obtain ⟨hl, rfl⟩ := pure_ok.mp hok
            obtain ⟨htaken, hram⟩ := hloop.mp hrelocs
            push Not at hhead hcounts
            exact ⟨⟨hhead.1, hhead.2.1, hhead.2.2, hcounts.1, hcounts.2.1, hcounts.2.2, hsuits,
              hatLeast, hatMost, htaken⟩, hl.symm, hram⟩
  · rintro ⟨hacc, rfl, hram⟩
    have hflags : zehnFlags c (extraData file ans) (.start supportsHww) file.flags =
        .ok ((ZehnInfo.start supportsHww).after file.flags) := zehnFlags_ok.mpr ⟨hacc.flags, rfl⟩
    have hndless : checkNdless ((ZehnInfo.start supportsHww).after file.flags) = none :=
      checkNdless_none.mpr ⟨hacc.atLeast, hacc.atMost⟩
    have hhead : ¬ (h.signature ≠ fmt.signature ∨ h.version ≠ fmt.version ∨
        h.fileSize > h.allocSize) := by
      rintro (hne | hne | hgt)
      · exact hne hacc.signature
      · exact hne hacc.version
      · exact absurd hacc.size (by omega)
    have hcounts : ¬ (file.relocs.length ≠ h.relocCount ∨ file.flags.length ≠ h.flagCount ∨
        file.extra.length ≠ h.extraSize) := by
      rintro (hne | hne | hne)
      · exact hne hacc.relocCount
      · exact hne hacc.flagCount
      · exact hne hacc.extraSize
    rw [if_neg hhead, hread.storage, if_neg Bool.false_ne_true, if_neg hcounts, if_neg hread.mem,
      hread.contents]
    refine bind_ok.mpr ⟨(), _, update_ok.mpr rfl, ?_⟩
    rw [hflags]
    dsimp only
    rw [hndless]
    exact bind_ok.mpr ⟨(), _, hloop.mpr ⟨hacc.relocs, hram⟩, pure_ok.mpr ⟨rfl, rfl⟩⟩

/-- **A file is loaded if and only if it meets the demands, and then the image is in place.** -/
theorem zehnLoad_loads (c : Calculator) (supportsHww : Bool) (ram : Bytes)
    (hread : Readable fmt file h ans contents)
    (htidy : Tidy (imageOf contents) (fmt.remainingMem h) file.relocs)
    (hfuel : fmt.remainingMem h ≤ fuel) :
    ((∃ l ram', zehnLoad fmt c fuel file ans supportsHww ram = (.ok l, ram')) ↔
      Accepted fmt c file h ans) ∧
    ∀ l ram', zehnLoad fmt c fuel file ans supportsHww ram = (.ok l, ram') →
      LoadedImage fmt file h ans contents supportsHww ram l ram' := by
  constructor
  · constructor
    · rintro ⟨l, ram', hok⟩
      exact ((zehnLoad_ok hread htidy hfuel).mp hok).1
    · intro hacc
      exact ⟨_, _, (zehnLoad_ok hread htidy hfuel).mpr ⟨hacc, rfl, rfl⟩⟩
  · intro l ram' hok
    obtain ⟨-, rfl, rfl⟩ := (zehnLoad_ok hread htidy hfuel).mp hok
    obtain ⟨himage, hframe⟩ := edited_fillBlock ram htidy hread.block
    exact ⟨rfl, rfl, rfl, himage, hframe⟩

end

/-! ## A small file -/

/-- One instruction, a table of four words, and its end. -/
def smallImage : List UInt8 :=
  [0xfe, 0xff, 0xff, 0xea, 2, 0, 0, 0, 0, 0, 0, 0, 24, 0, 0, 0, 4, 0, 0, 0, 0xff, 0xff, 0xff, 0xff]

def smallFormat : ZehnFormat where
  signature := 0x6e68655a
  version := 1
  sizeofHeader := 32
  sizeofReloc := 4
  sizeofFlag := 4
  zlib := 0

def smallHeader : ZehnHeader where
  signature := 0x6e68655a
  version := 1
  fileSize := 64
  allocSize := 64
  entryOffset := 0
  relocCount := 1
  flagCount := 1
  extraSize := 0

def smallFile : ZehnFile where
  header := some smallHeader
  relocs := [⟨.addBaseGot, 4⟩]
  flags := [⟨.ndlessVersionMin, 40⟩]
  extra := []
  body := smallImage

def blockAt (mem : Nat) : LoadAnswers where
  relocs := 0x11000000
  flags := 0x11000100
  extra := 0x11000200
  mem := mem
  compressed := 0
  noReloc := ⟨.fileCompressed, 0⟩
  behind := fun _ => 0
  uncompress := fun _ _ => none

def cxCalculator : Calculator := ⟨true, false, true⟩

theorem readable_small : Readable smallFormat smallFile smallHeader (blockAt 0x10000000)
    smallImage where
  header := rfl
  storage := rfl
  mem := by decide
  block := by decide
  contents := rfl

theorem tidy_small : Tidy (imageOf smallImage) 24 smallFile.relocs where
  inside := by decide +kernel
  ends := by decide +kernel
  apart := by decide +kernel

theorem accepted_small :
    Accepted smallFormat cxCalculator smallFile smallHeader (blockAt 0x10000000) where
  signature := rfl
  version := rfl
  size := le_rfl
  relocCount := rfl
  flagCount := rfl
  extraSize := rfl
  flags := List.forall_mem_singleton.mpr trivial
  atLeast := Prod.Lex.toLex_le_toLex.mpr (Or.inl (by decide))
  atMost := Prod.Lex.toLex_le_toLex.mpr (Or.inl (by decide))
  relocs := List.forall_mem_singleton.mpr ⟨by decide, trivial⟩

/-- The first word of the table is what the image has, and the address. -/
theorem zehnLoad_loads_small : ∃ l ram', zehnLoad smallFormat cxCalculator 24 smallFile
    (blockAt 0x10000000) false (fun _ => 0) = (.ok l, ram') ∧ l.entry = 0x10000000 ∧
      word (view 0x10000000 ram') 4 = 0x10000002 := by
  obtain ⟨hiff, hloads⟩ := zehnLoad_loads cxCalculator false (fun _ => 0) readable_small
    tidy_small (le_refl 24)
  obtain ⟨l, ram', hok⟩ := hiff.mpr accepted_small
  have hloaded := hloads l ram' hok
  refine ⟨l, ram', hok, hloaded.entry, ?_⟩
  refine (hloaded.image.word (4, (· + 0x10000000)) ?_).trans (by decide +kernel)
  refine mem_relocEdits.mpr ⟨⟨.addBaseGot, 4⟩, List.mem_singleton_self _, 4, ?_, rfl⟩
  decide +kernel

end OSExt.Boot
