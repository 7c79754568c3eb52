import OSExt.Memory.PageMarks
import OSExt.Memory.PageTableLists

/-!
# Destroying an address space

`destroyAddressSpace` walks the two lists of an address space, gives back the pages that its
coarse page tables map, and returns the tables and the list entries to the slab allocator.

A coarse page table has 256 entries, and four of them fit in a page. The loop that gives back
the pages reads 1024 words, so it takes the 768 words behind a table for entries as well:
other tables, the next page of the heap, or nothing at all. What is there decides whether the
call stops the kernel, and whose pages it gives back.
-/

namespace OSExt.Memory

open Lib

/-- What the request functions and `kmalloc` hand out. -/
inductive ObjectKind where
  | process
  | addressSpace
  | translationTable
  | coarsePageTable
  | listEntry
  | thread
  | kmalloc
deriving DecidableEq, Repr

/-- An object, by its kind and its address. -/
abbrev Object := ObjectKind × Nat

/-- The address spaces, the page blocks, and the objects given back so far, the latest first. -/
structure Teardown where
  spaces : Spaces
  pages : Pageblocks
  freed : List Object

namespace Teardown

/-! ## The calls -/

/-- `descriptor & (~ 0b111111111111)` -/
def smallPage (descriptor : Word) : Nat := (descriptor &&& ~~~0xfff#32).toNat

/-- One turn of the loop below; a word that is not mapped is a data abort. -/
def freePage (pages : Pageblocks) (word : Option Word) : Except Stop Pageblocks :=
  match word with
  | none => .error .dataAbort
  | some w =>
    if w &&& 0b11#32 = 0b1#32 ∨ w &&& 0b11#32 = 0b11#32 then
      .error (.panicked
        "tiny or large page found in coarse page table while freeing coarse page table!\n")
    else if w &&& 0b11#32 = 0b0#32 then .ok pages
    else .ok (setPageUsedBit (smallPage w) false pages)

/-- `freePagesFromCoarsePageTable(cpt)`, with the words that are read from `cpt` on. -/
def freePagesFromCoarsePageTable (cpt : Nat → Option Word) (pages : Pageblocks) :
    Except Stop Pageblocks :=
  ((List.range 1024).map cpt).foldlM freePage pages

/--
The words from a page table on: its own 256 entries, then the memory behind it, where
nothing may be mapped.
-/
def cptWord (s : Spaces) (behind : Nat → Nat → Option Word) (cpt i : Nat) : Option Word :=
  if i < 256 then some (s.pageTable ((s.physical cpt).toNat + 4 * i)) else behind cpt i

/-- The loop over the two lists: a section without a table is a read through NULL. -/
def freeTables (s : Spaces) (behind : Nat → Nat → Option Word) :
    Entries → Entries → Teardown → Except Stop Teardown
  | [], _, t => .ok t
  | _ :: _, [], _ => .error .dataAbort
  | _ :: cptds, cpt :: cpts, t => do
      let pages ← freePagesFromCoarsePageTable (cptWord s behind cpt.2) t.pages
      freeTables s behind cptds cpts
        { t with pages := pages, freed := (.coarsePageTable, cpt.2) :: t.freed }

/-- `destroyLinkedList(&list)` -/
def destroyLinkedList (list : Entries) (t : Teardown) : Teardown :=
  { t with freed := list.foldl (fun freed e => (.listEntry, e.1) :: freed) t.freed }

/-- The address space is taken off `address_spaces`, and the entry given back. -/
def unlist (a : Nat) (t : Teardown) : Teardown :=
  let entry := (searchLinkedListEntry t.spaces.addressSpaces a).map fun e => (.listEntry, e.1)
  { t with spaces := t.spaces.destroyAddressSpace a, freed := entry.toList ++ t.freed }

/-- `destroyAddressSpace(space)`, with the address of the space's translation table. -/
def destroyAddressSpace (behind : Nat → Nat → Option Word) (tt a : Nat) (t : Teardown) :
    Except Stop Teardown := do
  let space := t.spaces.space a
  let t ← freeTables t.spaces behind space.cptds space.cpts (t.unlist a)
  let t := destroyLinkedList space.cptds (destroyLinkedList space.cpts t)
  pure { t with freed := (.translationTable, tt) :: t.freed }

/-! ## What it is to do -/

/-- The page a word maps if it is a small page descriptor. -/
def mappedPage (w : Word) : List Nat := if w &&& 0b11#32 = 0b10#32 then [smallPage w] else []

/-- The page tables of the sections on the list. -/
def tables (s : Spaces) (a : Nat) : Entries :=
  (s.space a).cpts.take (s.space a).cptds.length

/-- The pages that the entries of the address space's own tables map. -/
def ownPages (s : Spaces) (a : Nat) : List Nat :=
  (tables s a).flatMap fun cpt =>
    (List.range 256).flatMap fun i => mappedPage (s.pageTable ((s.physical cpt.2).toNat + 4 * i))

/-- The pages are marked as unused, and nothing else is. -/
def clearPages (unused : List Nat) (pages : Pageblocks) : Pageblocks :=
  unused.foldl (fun pages page => setPageUsedBit page false pages) pages

/-- **What `destroyAddressSpace` is to do with the pages.** -/
def DestroysRight (behind : Nat → Nat → Option Word) (tt a : Nat) (t : Teardown) : Prop :=
  ∃ t', destroyAddressSpace behind tt a t = .ok t' ∧
    t'.pages = clearPages (ownPages t.spaces a) t.pages

/-! ## Pages marked as unused -/

/-- One block's share of `clearPages`. -/
def clearBlock (unused : List Nat) (b : Pageblock) : Pageblock :=
  unused.foldl (fun b page => if b.covers page then b.setUsed (b.offset page) false else b) b

theorem clearPages_eq_map (unused : List Nat) (pages : Pageblocks) :
    clearPages unused pages = pages.map (clearBlock unused) := by
  induction unused generalizing pages with
  | nil => exact (List.map_id pages).symm
  | cons page unused ih =>
      rw [clearPages, List.foldl_cons]
      refine (ih _).trans ?_
      rw [setPageUsedBit, writePageBit, List.map_map]
      rfl

theorem clearPages_append (l l' : List Nat) (pages : Pageblocks) :
    clearPages (l ++ l') pages = clearPages l' (clearPages l pages) :=
  List.foldl_append

/-- One of the pages has the bit `j` of the block. -/
def Clears (unused : List Nat) (b : Pageblock) (j : Nat) : Prop :=
  ∃ page ∈ unused, b.covers page = true ∧ b.offset page = j

theorem clearBlock_spec (unused : List Nat) (b : Pageblock) :
    b.SameBlock (clearBlock unused b) ∧ ∀ j < 128,
      ((clearBlock unused b).usedBit j = true ↔ b.usedBit j = true ∧ ¬ Clears unused b j) := by
  induction unused generalizing b with
  | nil =>
      refine ⟨.refl b, fun j _ => (and_iff_left ?_).symm⟩
      intro hgiven
      obtain ⟨page, hpage, -⟩ := hgiven
      exact nomatch hpage
  | cons page unused ih =>
      rw [clearBlock, List.foldl_cons]
      by_cases hcov : b.covers page = true
      · rw [if_pos hcov]
        obtain ⟨hsame, hbits⟩ := ih (b.setUsed (b.offset page) false)
        refine ⟨(Pageblock.sameBlock_setUsed b _ _).trans hsame, fun j hj => (hbits j hj).trans ?_⟩
        rw [usedBit_setUsed]
        constructor
        · intro hgiven
          obtain ⟨hbit, hnot⟩ := hgiven
          -- clearing the bit of this page, or that of a later one
          by_cases hoff : j = b.offset page ∧ b.offset page < 128
          · rw [if_pos hoff] at hbit
            exact absurd hbit Bool.false_ne_true
          · rw [if_neg hoff] at hbit
            refine ⟨hbit, ?_⟩
            intro hgiven
            obtain ⟨q, hq, hqcov, hqoff⟩ := hgiven
            rcases List.mem_cons.mp hq with rfl | hq
            · exact hoff ⟨hqoff.symm, by omega⟩
            · exact hnot ⟨q, hq, hqcov, hqoff⟩
        · intro hgiven
          obtain ⟨hbit, hnot⟩ := hgiven
          have hoff : ¬ (j = b.offset page ∧ b.offset page < 128) := fun h =>
            hnot ⟨page, List.mem_cons_self .., hcov, h.1.symm⟩
          rw [if_neg hoff]
          refine ⟨hbit, ?_⟩
          intro hgiven
          obtain ⟨q, hq, hqcov, hqoff⟩ := hgiven
          exact hnot ⟨q, List.mem_cons_of_mem _ hq, hqcov, hqoff⟩
      · rw [if_neg hcov]
        obtain ⟨hsame, hbits⟩ := ih b
        refine ⟨hsame, fun j hj => (hbits j hj).trans (and_congr_right fun _ => not_congr ?_)⟩
        constructor
        · intro hgiven
          obtain ⟨q, hq, hqcov, hqoff⟩ := hgiven
          exact ⟨q, List.mem_cons_of_mem _ hq, hqcov, hqoff⟩
        · intro hgiven
          obtain ⟨q, hq, hqcov, hqoff⟩ := hgiven
          rcases List.mem_cons.mp hq with rfl | hq
          · exact absurd hqcov hcov
          · exact ⟨q, hq, hqcov, hqoff⟩

/-- **Two lists of pages** leave the same bitmaps iff they clear the same set bits. -/
theorem clearPages_eq_iff (l l' : List Nat) (pages : Pageblocks) :
    clearPages l pages = clearPages l' pages ↔
      ∀ b ∈ pages, ∀ j < 128, b.usedBit j = true → (Clears l b j ↔ Clears l' b j) := by
  rw [clearPages_eq_map, clearPages_eq_map, List.map_inj_left]
  refine forall₂_congr fun b _ => ?_
  obtain ⟨hsame, hbits⟩ := clearBlock_spec l b
  obtain ⟨hsame', hbits'⟩ := clearBlock_spec l' b
  constructor
  · intro heq j hj hbit
    have h := (hbits j hj).symm.trans ((by rw [heq]) : _ ↔ _) |>.trans (hbits' j hj)
    rw [and_iff_right hbit, and_iff_right hbit] at h
    exact not_iff_not.mp h
  · intro h
    refine (hsame'.symm.trans hsame).eq_of_bits fun j hj => Bool.eq_iff_iff.mpr ?_
    rw [hbits j hj, hbits' j hj]
    exact and_congr_right fun hbit => not_congr (h j hj hbit)

/-! ## The loop over the words -/

/-- A word that the loop gets past. -/
def Small (w : Word) : Prop := w &&& 0b11#32 = 0b0#32 ∨ w &&& 0b11#32 = 0b10#32

/-- A word is mapped and the loop gets past it. -/
def Readable (word : Option Word) : Prop := ∃ w, word = some w ∧ Small w

/-- The pages that the loop gives back for a word. -/
def pagesOf (word : Option Word) : List Nat := word.toList.flatMap mappedPage

theorem freePage_ok (pages pages' : Pageblocks) (word : Option Word) :
    freePage pages word = .ok pages' ↔ Readable word ∧ pages' = clearPages (pagesOf word) pages := by
  cases word with
  | none =>
      refine iff_of_false (fun h => nomatch h) ?_
      intro hgiven
      obtain ⟨⟨w, hw, -⟩, -⟩ := hgiven
      exact nomatch hw
  | some w =>
      have hpages : pagesOf (some w) = mappedPage w := List.append_nil _
      have hread : Readable (some w) ↔ Small w :=
        ⟨fun ⟨v, hv, hsmall⟩ => Option.some.inj hv ▸ hsmall, fun h => ⟨w, rfl, h⟩⟩
      rw [hread, hpages, freePage, mappedPage]
      by_cases hbad : w &&& 0b11#32 = 0b1#32 ∨ w &&& 0b11#32 = 0b11#32
      · rw [if_pos hbad]
        refine iff_of_false (fun h => nomatch h) ?_
        intro hgiven
        obtain ⟨hsmall, -⟩ := hgiven
        rcases hbad with hbad | hbad <;> rcases hsmall with h | h <;>
          exact absurd (hbad.symm.trans h) (by decide)
      · rw [if_neg hbad]
        by_cases hzero : w &&& 0b11#32 = 0b0#32
        · have hno : w &&& 0b11#32 ≠ 0b10#32 := fun h => absurd (hzero.symm.trans h) (by decide)
          rw [if_pos hzero, if_neg hno, and_iff_right (show Small w from .inl hzero)]
          exact ⟨fun h => (Except.ok.inj h).symm, fun h => congrArg Except.ok h.symm⟩
        · have htwo : w &&& 0b11#32 = 0b10#32 := by
            have h0 := mt (and_three w 0 (by omega)).mpr hzero
            have h1 := mt (and_three w 1 (by omega)).mpr fun h => hbad (.inl h)
            have h3 := mt (and_three w 3 (by omega)).mpr fun h => hbad (.inr h)
            exact (and_three w 2 (by omega)).mpr (by omega)
          rw [if_neg hzero, if_pos htwo, and_iff_right (show Small w from .inr htwo)]
          exact ⟨fun h => (Except.ok.inj h).symm, fun h => congrArg Except.ok h.symm⟩

/-- **The loop** gets past words that are all readable, and gives back all their pages. -/
theorem freePages_ok (words : List (Option Word)) (pages pages' : Pageblocks) :
    words.foldlM freePage pages = .ok pages' ↔
      (∀ word ∈ words, Readable word) ∧ pages' = clearPages (words.flatMap pagesOf) pages := by
  induction words generalizing pages with
  | nil =>
      refine ⟨fun h => ⟨(fun word hword => nomatch hword), (Except.ok.inj h).symm⟩, ?_⟩
      intro hgiven
      obtain ⟨-, rfl⟩ := hgiven
      rfl
  | cons word words ih =>
      rw [List.foldlM_cons, List.flatMap_cons, clearPages_append, List.forall_mem_cons]
      cases hpage : freePage pages word with
      | error e =>
          refine iff_of_false (fun h => nomatch h) ?_
          intro hgiven
          obtain ⟨⟨hread, -⟩, -⟩ := hgiven
          rw [(freePage_ok pages _ word).mpr ⟨hread, rfl⟩] at hpage
          exact nomatch hpage
      | ok pages1 =>
          obtain ⟨hread, rfl⟩ := (freePage_ok pages pages1 word).mp hpage
          rw [and_iff_right hread]
          exact ih _

/-- All words that are read from a table on. -/
def cptWords (s : Spaces) (behind : Nat → Nat → Option Word) (cpt : Nat) : List (Option Word) :=
  (List.range 1024).map (cptWord s behind cpt)

/-- **`freePagesFromCoarsePageTable`**, for the words from a table on. -/
theorem freePagesFromCoarsePageTable_ok (s : Spaces) (behind : Nat → Nat → Option Word) (cpt : Nat)
    (pages pages' : Pageblocks) :
    freePagesFromCoarsePageTable (cptWord s behind cpt) pages = .ok pages' ↔
      (∀ word ∈ cptWords s behind cpt, Readable word) ∧
        pages' = clearPages ((cptWords s behind cpt).flatMap pagesOf) pages :=
  freePages_ok (cptWords s behind cpt) pages pages'

/-- The loop over the lists: what it needs, and what it leaves. -/
theorem freeTables_ok (s : Spaces) (behind : Nat → Nat → Option Word) (cptds cpts : Entries)
    (t t' : Teardown) : freeTables s behind cptds cpts t = .ok t' ↔
      cptds.length ≤ cpts.length ∧
      (∀ cpt ∈ cpts.take cptds.length, ∀ word ∈ cptWords s behind cpt.2, Readable word) ∧
      t' = { t with
        pages := clearPages ((cpts.take cptds.length).flatMap fun cpt =>
          (cptWords s behind cpt.2).flatMap pagesOf) t.pages
        freed := (cpts.take cptds.length).foldl
          (fun freed cpt => (.coarsePageTable, cpt.2) :: freed) t.freed } := by
  induction cptds generalizing cpts t with
  | nil =>
      rw [freeTables]
      refine ⟨fun h => ⟨Nat.zero_le _, (fun cpt hcpt => nomatch hcpt), (Except.ok.inj h).symm⟩, ?_⟩
      intro hgiven
      obtain ⟨-, -, rfl⟩ := hgiven
      rfl
  | cons cptd cptds ih =>
      cases cpts with
      | nil =>
          refine iff_of_false (fun h => nomatch h) ?_
          intro hgiven
          obtain ⟨hlen, -⟩ := hgiven
          exact absurd hlen (Nat.not_succ_le_zero _)
      | cons cpt cpts =>
          rw [freeTables, List.length_cons, List.length_cons, List.take_succ_cons,
            List.forall_mem_cons, List.flatMap_cons, clearPages_append, List.foldl_cons,
            Nat.succ_le_succ_iff]
          -- a word that cannot be read stops the whole teardown
          cases hpages : freePagesFromCoarsePageTable (cptWord s behind cpt.2) t.pages with
          | error e =>
              refine iff_of_false (fun h => nomatch h) ?_
              intro hgiven
              obtain ⟨-, ⟨hread, -⟩, -⟩ := hgiven
              have hok := freePagesFromCoarsePageTable_ok s behind cpt.2 t.pages
              rw [(hok _).mpr ⟨hread, rfl⟩] at hpages
              exact nomatch hpages
          | ok pages =>
              obtain ⟨hread, heq⟩ :=
                (freePagesFromCoarsePageTable_ok s behind cpt.2 t.pages pages).mp hpages
              rw [and_iff_right hread, ← heq]
              exact ih cpts _

/-! ## The whole call -/

/-- The pages that the loops give back, own ones and others. -/
def readPages (s : Spaces) (behind : Nat → Nat → Option Word) (a : Nat) : List Nat :=
  (tables s a).flatMap fun cpt => (cptWords s behind cpt.2).flatMap pagesOf

/-- Every section has its table, and every word read from a table on is readable. -/
structure Runs (s : Spaces) (behind : Nat → Nat → Option Word) (a : Nat) : Prop where
  length : (s.space a).cptds.length ≤ (s.space a).cpts.length
  readable : ∀ cpt ∈ tables s a, ∀ word ∈ cptWords s behind cpt.2, Readable word

/-- The objects that the call gives back. -/
def returned (s : Spaces) (tt a : Nat) : List Object :=
  (.translationTable, tt) :: (((s.space a).cptds.map fun e => (.listEntry, e.1)) ++
    (((s.space a).cpts.map fun e => (.listEntry, e.1)) ++
    (((tables s a).map fun cpt => (.coarsePageTable, cpt.2)) ++
    ((searchLinkedListEntry s.addressSpaces a).map fun e => (.listEntry, e.1)).toList)))

theorem foldl_cons_perm {α β : Type} (f : α → β) (l : List α) (acc : List β) :
    (l.foldl (fun acc e => f e :: acc) acc).Perm (l.map f ++ acc) := by
  induction l generalizing acc with
  | nil => exact .refl _
  | cons x l ih => exact (ih (f x :: acc)).trans List.perm_middle

/-- What the call leaves. -/
structure Destroyed (behind : Nat → Nat → Option Word) (tt a : Nat) (t t' : Teardown) : Prop where
  spaces : t'.spaces = t.spaces.destroyAddressSpace a
  pages : t'.pages = clearPages (readPages t.spaces behind a) t.pages
  freed : t'.freed.Perm (returned t.spaces tt a ++ t.freed)

/-- **`destroyAddressSpace`** returns if it gets past every word it reads. -/
theorem destroyAddressSpace_runs {behind : Nat → Nat → Option Word} {tt a : Nat} {t : Teardown}
    (h : Runs t.spaces behind a) :
    ∃ t', destroyAddressSpace behind tt a t = .ok t' ∧ Destroyed behind tt a t t' := by
  obtain ⟨t1, htables, hspaces, hpages, hfreed⟩ : ∃ t1,
      freeTables t.spaces behind (t.spaces.space a).cptds (t.spaces.space a).cpts (t.unlist a) =
        .ok t1 ∧ t1.spaces = t.spaces.destroyAddressSpace a ∧
        t1.pages = clearPages (readPages t.spaces behind a) t.pages ∧
        t1.freed = (tables t.spaces a).foldl
          (fun freed cpt => (.coarsePageTable, cpt.2) :: freed) (t.unlist a).freed :=
    ⟨_, (freeTables_ok _ _ _ _ _ _).mpr ⟨h.length, h.readable, rfl⟩, rfl, rfl, rfl⟩
  have hrun : destroyAddressSpace behind tt a t = .ok
      { t1 with freed := (.translationTable, tt) :: (destroyLinkedList (t.spaces.space a).cptds
          (destroyLinkedList (t.spaces.space a).cpts t1)).freed } := by
    rw [destroyAddressSpace, htables]
    rfl
  refine ⟨_, hrun, hspaces, hpages, ?_⟩
  rw [returned, List.cons_append, List.append_assoc, List.append_assoc, List.append_assoc]
  refine List.Perm.cons _ ((foldl_cons_perm _ _ _).trans ?_)
  refine List.Perm.append_left _ ((foldl_cons_perm _ _ _).trans (List.Perm.append_left _ ?_))
  rw [hfreed]
  exact foldl_cons_perm _ _ _

theorem runs_of_ok {behind : Nat → Nat → Option Word} {tt a : Nat} {t t' : Teardown}
    (h : destroyAddressSpace behind tt a t = .ok t') : Runs t.spaces behind a := by
  rw [destroyAddressSpace] at h
  cases htables : freeTables t.spaces behind (t.spaces.space a).cptds (t.spaces.space a).cpts
      (t.unlist a) with
  | error e =>
      rw [htables] at h
      exact nomatch h
  | ok t1 =>
      obtain ⟨hlen, hread, -⟩ := (freeTables_ok t.spaces behind _ _ (t.unlist a) t1).mp htables
      exact ⟨hlen, hread⟩

theorem destroyed_of_ok {behind : Nat → Nat → Option Word} {tt a : Nat} {t t' : Teardown}
    (h : destroyAddressSpace behind tt a t = .ok t') : Destroyed behind tt a t t' := by
  obtain ⟨t1, hrun, hdestroyed⟩ : ∃ t1, destroyAddressSpace behind tt a t = .ok t1 ∧
      Destroyed behind tt a t t1 := destroyAddressSpace_runs (runs_of_ok h)
  rwa [Except.ok.inj (h.symm.trans hrun)]

/-! ## The words behind the tables -/

/-- A page of a block is marked as used. -/
def PageUsed (pages : Pageblocks) (page : Nat) : Prop :=
  ∃ b ∈ pages, b.covers page = true ∧ b.usedBit (b.offset page) = true

/-- A word behind a table that does no harm: it is mapped, and it is no descriptor, or that of a
small page that is not in use or that the address space maps itself. -/
def Spares (pages : Pageblocks) (own : List Nat) (word : Option Word) : Prop :=
  ∃ w, word = some w ∧ (w &&& 0b11#32 = 0b0#32 ∨
    w &&& 0b11#32 = 0b10#32 ∧ (PageUsed pages (smallPage w) → smallPage w ∈ own))

/-- What `addVirtualPage` makes of an address space: every section has a table, of descriptors of
small pages. -/
structure Built (s : Spaces) (a : Nat) : Prop where
  length : (s.space a).cptds.length ≤ (s.space a).cpts.length
  entries : ∀ cpt ∈ tables s a, ∀ i < 256, Small (s.pageTable ((s.physical cpt.2).toNat + 4 * i))

theorem smallPage_aligned (w : Word) : smallPage w % 4096 = 0 := by
  rw [smallPage, show (0xfff#32 : Word) = BitVec.ofNat 32 (2 ^ 12 - 1) from rfl,
    toNat_and_not_mask w 12]
  omega

theorem mem_pagesOf {word : Option Word} {page : Nat} : page ∈ pagesOf word ↔
    ∃ w, word = some w ∧ w &&& 0b11#32 = 0b10#32 ∧ page = smallPage w := by
  cases word with
  | none =>
      refine iff_of_false (fun h => nomatch h) ?_
      intro hgiven
      obtain ⟨w, hw, -⟩ := hgiven
      exact nomatch hw
  | some w =>
      have hpages : pagesOf (some w) = mappedPage w := List.append_nil _
      rw [hpages, mappedPage]
      constructor
      · intro h
        split at h
        · exact ⟨w, rfl, ‹_›, List.mem_singleton.mp h⟩
        · exact nomatch h
      · intro hgiven
        obtain ⟨v, hv, htwo, rfl⟩ := hgiven
        obtain rfl := Option.some.inj hv
        rw [if_pos htwo]
        exact List.mem_singleton_self _

theorem mem_cptWords {s : Spaces} {behind : Nat → Nat → Option Word} {cpt : Nat}
    {word : Option Word} :
    word ∈ cptWords s behind cpt ↔ ∃ i < 1024, cptWord s behind cpt i = word := by
  simp only [cptWords, List.mem_map, List.mem_range]

theorem cptWord_own (s : Spaces) (behind : Nat → Nat → Option Word) (cpt : Nat) {i : Nat}
    (hi : i < 256) :
    cptWord s behind cpt i = some (s.pageTable ((s.physical cpt).toNat + 4 * i)) := if_pos hi

theorem cptWord_behind (s : Spaces) (behind : Nat → Nat → Option Word) (cpt : Nat) {i : Nat}
    (hi : 256 ≤ i) : cptWord s behind cpt i = behind cpt i := if_neg (by omega)

/-- The pages that are given back: own ones, and those of the words behind the tables. -/
theorem mem_readPages {s : Spaces} {behind : Nat → Nat → Option Word} {a page : Nat} :
    page ∈ readPages s behind a ↔ page ∈ ownPages s a ∨
      ∃ cpt ∈ tables s a, ∃ i, 256 ≤ i ∧ i < 1024 ∧ page ∈ pagesOf (behind cpt.2 i) := by
  have hsome : ∀ w, pagesOf (some w) = mappedPage w := fun w => List.append_nil _
  simp only [readPages, ownPages, List.mem_flatMap, mem_cptWords, List.mem_range]
  constructor
  · intro hgiven
    obtain ⟨cpt, hcpt, word, ⟨i, hi, rfl⟩, hpage⟩ := hgiven
    by_cases hown : i < 256
    · rw [cptWord_own s behind cpt.2 hown, hsome] at hpage
      exact .inl ⟨cpt, hcpt, i, hown, hpage⟩
    · rw [cptWord_behind s behind cpt.2 (by omega)] at hpage
      exact .inr ⟨cpt, hcpt, i, by omega, hi, hpage⟩
  · intro hor
    rcases hor with ⟨cpt, hcpt, i, hown, hpage⟩ | ⟨cpt, hcpt, i, hlow, hi, hpage⟩
    · refine ⟨cpt, hcpt, _, ⟨i, by omega, cptWord_own s behind cpt.2 hown⟩, ?_⟩
      rwa [hsome]
    · exact ⟨cpt, hcpt, _, ⟨i, hi, cptWord_behind s behind cpt.2 hlow⟩, hpage⟩

theorem ownPages_aligned {s : Spaces} {a page : Nat} (h : page ∈ ownPages s a) :
    page % 4096 = 0 := by
  simp only [ownPages, List.mem_flatMap] at h
  obtain ⟨cpt, -, i, -, hpage⟩ := h
  rw [mappedPage] at hpage
  split at hpage
  · rw [List.mem_singleton.mp hpage]
    exact smallPage_aligned _
  · exact nomatch hpage

/-- Two pages with the same bit are the same page. -/
theorem eq_of_offset {b : Pageblock} {p q : Nat} (hp : p % 4096 = 0) (hq : q % 4096 = 0)
    (hbp : b.covers p = true) (hbq : b.covers q = true) (h : b.offset p = b.offset q) : p = q := by
  have hp' : b.start ≤ p := by
    rw [Pageblock.covers, Bool.and_eq_true, decide_eq_true_eq] at hbp
    exact hbp.1
  have hq' : b.start ≤ q := by
    rw [Pageblock.covers, Bool.and_eq_true, decide_eq_true_eq] at hbq
    exact hbq.1
  simp only [Pageblock.offset, smallPageSize] at h
  omega

theorem usedBit_lt {b : Pageblock} {j : Nat} (h : b.usedBit j = true) : j < 128 := by
  by_contra hj
  rw [Pageblock.usedBit, if_neg (by omega), BitVec.getLsbD_of_ge _ _ (by omega)] at h
  exact Bool.false_ne_true h

/-- **The pages**: exactly the own ones are given back iff no other one of those read is in use. -/
theorem clear_readPages_iff (s : Spaces) (behind : Nat → Nat → Option Word) (a : Nat)
    (pages : Pageblocks) :
    clearPages (readPages s behind a) pages = clearPages (ownPages s a) pages ↔
      ∀ cpt ∈ tables s a, ∀ i, 256 ≤ i → i < 1024 → ∀ page ∈ pagesOf (behind cpt.2 i),
        PageUsed pages page → page ∈ ownPages s a := by
  rw [clearPages_eq_iff]
  constructor
  · intro h cpt hcpt i hlow hi page hpage hgiven
    obtain ⟨b, hb, hcov, hbit⟩ := hgiven
    obtain ⟨w, -, -, rfl⟩ := mem_pagesOf.mp hpage
    have hread : Clears (readPages s behind a) b (b.offset (smallPage w)) :=
      ⟨_, mem_readPages.mpr (.inr ⟨cpt, hcpt, i, hlow, hi, hpage⟩), hcov, rfl⟩
    obtain ⟨q, hq, hqcov, hqoff⟩ := (h b hb _ (usedBit_lt hbit) hbit).mp hread
    rwa [eq_of_offset (smallPage_aligned w) (ownPages_aligned hq) hcov hqcov hqoff.symm]
  · intro h b hb j hj hbit
    constructor
    · intro hgiven
      obtain ⟨page, hpage, hcov, rfl⟩ := hgiven
      rcases mem_readPages.mp hpage with hown | ⟨cpt, hcpt, i, hlow, hi, hpage⟩
      · exact ⟨page, hown, hcov, rfl⟩
      · exact ⟨page, h cpt hcpt i hlow hi page hpage ⟨b, hb, hcov, hbit⟩, hcov, rfl⟩
    · intro hgiven
      obtain ⟨page, hpage, hcov, hoff⟩ := hgiven
      exact ⟨page, mem_readPages.mpr (.inl hpage), hcov, hoff⟩

theorem spares_iff {pages : Pageblocks} {own : List Nat} {word : Option Word} :
    Spares pages own word ↔
      Readable word ∧ ∀ page ∈ pagesOf word, PageUsed pages page → page ∈ own := by
  constructor
  · intro hgiven
    obtain ⟨w, rfl, hw⟩ := hgiven
    refine ⟨⟨w, rfl, hw.imp_right And.left⟩, fun page hpage => ?_⟩
    obtain ⟨v, hv, htwo, rfl⟩ := mem_pagesOf.mp hpage
    obtain rfl := Option.some.inj hv
    rcases hw with hzero | ⟨-, hown⟩
    · exact absurd (hzero.symm.trans htwo) (by decide)
    · exact hown
  · intro hgiven
    obtain ⟨⟨w, rfl, hsmall⟩, hown⟩ := hgiven
    refine ⟨w, rfl, hsmall.imp_right fun htwo => ⟨htwo, ?_⟩⟩
    exact hown _ (mem_pagesOf.mpr ⟨w, rfl, htwo, rfl⟩)

/-- **`destroyAddressSpace`** is right exactly for an address space as `addVirtualPage` makes it,
with words that do no harm behind each of its tables. -/
theorem destroysRight_of_words (behind : Nat → Nat → Option Word) (tt a : Nat) (t : Teardown) :
    DestroysRight behind tt a t ↔ Built t.spaces a ∧
      ∀ cpt ∈ tables t.spaces a, ∀ i, 256 ≤ i → i < 1024 →
        Spares t.pages (ownPages t.spaces a) (behind cpt.2 i) := by
  constructor
  · intro hgiven
    obtain ⟨t', hrun, hpages⟩ := hgiven
    have hruns := runs_of_ok hrun
    have hclear := (destroyed_of_ok hrun).pages.symm.trans hpages
    have hread : ∀ cpt ∈ tables t.spaces a, ∀ i < 1024,
        Readable (cptWord t.spaces behind cpt.2 i) := fun cpt hcpt i hi =>
      hruns.readable cpt hcpt _ (mem_cptWords.mpr ⟨i, hi, rfl⟩)
    refine ⟨⟨hruns.length, fun cpt hcpt i hi => ?_⟩, fun cpt hcpt i hlow hi => ?_⟩
    · obtain ⟨w, hw, hsmall⟩ := hread cpt hcpt i (by omega)
      rw [cptWord_own t.spaces behind cpt.2 hi] at hw
      exact Option.some.inj hw ▸ hsmall
    · have hword := hread cpt hcpt i hi
      rw [cptWord_behind t.spaces behind cpt.2 hlow] at hword
      exact spares_iff.mpr
        ⟨hword, (clear_readPages_iff _ _ _ _).mp hclear cpt hcpt i hlow hi⟩
  · intro hgiven
    obtain ⟨hbuilt, hspares⟩ := hgiven
    have hruns : Runs t.spaces behind a := by
      refine ⟨hbuilt.length, fun cpt hcpt word hword => ?_⟩
      obtain ⟨i, hi, rfl⟩ := mem_cptWords.mp hword
      by_cases hown : i < 256
      · rw [cptWord_own t.spaces behind cpt.2 hown]
        exact ⟨_, rfl, hbuilt.entries cpt hcpt i hown⟩
      · rw [cptWord_behind t.spaces behind cpt.2 (by omega)]
        exact (spares_iff.mp (hspares cpt hcpt i (by omega) hi)).1
    obtain ⟨t', hrun, hdestroyed⟩ : ∃ t', destroyAddressSpace behind tt a t = .ok t' ∧
        Destroyed behind tt a t t' := destroyAddressSpace_runs hruns
    refine ⟨t', hrun, hdestroyed.pages.trans ((clear_readPages_iff _ _ _ _).mpr ?_)⟩
    exact fun cpt hcpt i hlow hi => (spares_iff.mp (hspares cpt hcpt i hlow hi)).2

/-! ## Address spaces as they are built -/

/-- Entry `j` of the page table in a block of physical memory. -/
def entryOf (s : Spaces) (block : Nat) (j : Fin 256) : Word := s.pageTable (1024 * block + 4 * j.val)

/-- The tables of the address spaces in use have descriptors of small pages only. -/
def SmallEntries (s : Spaces) : Prop :=
  ∀ e ∈ s.addressSpaces, ∀ c ∈ (s.space e.2).cpts, ∀ j, Small (entryOf s (s.block c.2) j)

theorem small_newSPD (c b ap : Byte) (page : Word) : Small (newSPD c b ap page) :=
  .inr ((and_three _ 2 (by omega)).mpr (newSPD_low c b ap page))

theorem small_onePage {descriptor : Word} (h : Small descriptor) (va : Word) (j : Fin 256) :
    Small (Spaces.onePage va descriptor j) := by
  by_cases hj : j = pageIndex va
  · rw [Spaces.onePage, hj, Function.update_self]
    exact h
  · rw [Spaces.onePage, Function.update_of_ne hj]
    exact .inl rfl

/-- An entry after a table is filled. -/
theorem entryOf_fill {s s' : Spaces} {block : Nat} {f : Fin 256 → Word}
    (hfill : ∀ tt, pageWalk tt s'.pageTable = (pageWalk tt s.pageTable).fill block f) (b : Nat)
    (j : Fin 256) : entryOf s' b j = if b = block then f j else entryOf s b j := by
  have hmem := congrFun (congrFun (congrArg TwoLevel.mem (hfill s.kernel.tt)) b) j
  refine hmem.trans ?_
  by_cases hb : b = block
  · rw [if_pos hb, hb]
    exact congrFun (Function.update_self ..) j
  · rw [if_neg hb]
    exact congrFun (Function.update_of_ne hb ..) j

/-- An entry after one is written: it is as before, or what was written. -/
theorem entryOf_writeTable {s : Spaces} {table : Nat} (h : (s.physical table).toNat % 1024 = 0)
    (i : Fin 256) (w : Word) (b : Nat) (j : Fin 256) :
    entryOf (s.writeTable table i.val w) b j = w ∨
      entryOf (s.writeTable table i.val w) b j = entryOf s b j := by
  have hwrite := Spaces.walk_writeTable h s.kernel.tt i w
  have hmem := congrFun (congrFun (congrArg TwoLevel.mem hwrite) b) j
  rw [TwoLevel.mem_write] at hmem
  split at hmem
  · exact .inl hmem
  · exact .inr hmem

/-- The tables in use stay where they are, and what is written into them is small. -/
theorem SmallEntries.still {s s' : Spaces} (h : SmallEntries s)
    (hlive : s'.addressSpaces = s.addressSpaces) (hcpts : ∀ a, (s'.space a).cpts = (s.space a).cpts)
    (hphys : ∀ e ∈ s.addressSpaces, ∀ c ∈ (s.space e.2).cpts, s'.physical c.2 = s.physical c.2)
    (hwords : ∀ e ∈ s.addressSpaces, ∀ c ∈ (s.space e.2).cpts, ∀ j,
      Small (entryOf s' (s.block c.2) j) ∨
        entryOf s' (s.block c.2) j = entryOf s (s.block c.2) j) : SmallEntries s' := by
  intro e he c hc j
  rw [hlive] at he
  rw [hcpts] at hc
  rw [Spaces.block_congr (hphys e he c hc)]
  rcases hwords e he c hc j with hsmall | hsame
  · exact hsmall
  · rw [hsame]
    exact h e he c hc j

section

variable {s s' : Spaces} {new : NewTable}

/-- A new table of the kernel is none of the tables in use. -/
theorem SmallEntries.kernelAdded {sect : Nat} {f : Fin 256 → Word} (hs : SmallEntries s)
    (hadd : Spaces.KernelAdded sect new f s s') (hfresh : s.FreshObjects (some sect) new)
    (hstill : ∀ t ∈ s.tables, s.Stays (sect / sectionSize) f t) : SmallEntries s' := by
  refine hs.still hadd.addressSpaces hadd.cpts (fun e he c hc => ?_) fun e he c hc j => .inr ?_
  · exact hadd.physical hfresh.only (hstill _ (Spaces.mem_tables_space he hc))
  · rw [entryOf_fill hadd.fill, if_neg (hfresh.unlisted _ (Spaces.mem_tables_space he hc))]

/-- `addVirtualKernelPage`, cached or not. -/
theorem small_addKernelPage {page va : Word} {c b : Byte} (h : s.Consistent) (hs : SmallEntries s)
    (hfresh : sectionOf va.toNat ∉ s.kernel.cptds.map Prod.snd →
      s.FreshObjects (some (sectionOf va.toNat)) new)
    (hapart : s.KernelPageApart va (newSPD c b 0b01010101#8 page) new)
    (hop : s.addKernelPage c b page va new = .ok s') : SmallEntries s' := by
  rcases Spaces.addKernelPage_cases hop with ⟨i, cptd, cpt, hcptd, hcpt, rfl⟩ | ⟨hnot, rfl⟩
  · refine hs.still rfl (fun a => rfl) (fun e he d hd => ?_) fun e he d hd j => ?_
    · exact hapart.physical h hcptd hcpt (Spaces.mem_tables_space he hd)
    · rw [Spaces.tableIndex_eq]
      refine (entryOf_writeTable (h.kernel.tables _ (List.mem_of_getElem? hcpt)) _ _ _ j).imp_left ?_
      intro hword
      rw [hword]
      exact small_newSPD c b _ page
  · have hadd := Spaces.kernelAdded_section (hfresh hnot) (newSPD c b 0b01010101#8 page) rfl
      (hapart.outside hnot) (hapart.user hnot) fun e he => (h.spaces e he).aligned
    exact hs.kernelAdded hadd (hfresh hnot) (hapart.unlisted hnot)

theorem small_migrateKernelCPT {sectWord : Word} {migrateCpt : Nat → Word} {pages : Nat}
    (hs : SmallEntries s)
    (hfresh : ∀ s1, s.dropKernelCPT (sectionOf sectWord.toNat) = .ok s1 →
      s1.FreshObjects (some (sectionOf sectWord.toNat)) new)
    (hapart : ∀ s1, s.dropKernelCPT (sectionOf sectWord.toNat) = .ok s1 →
      ∀ t ∈ new.table.object :: s1.tables, s1.Stays (sectionOf sectWord.toNat / sectionSize)
        (Spaces.copied migrateCpt (min pages 256)) t)
    (hop : s.migrateKernelCPT sectWord migrateCpt pages new = .ok s') : SmallEntries s' := by
  obtain ⟨s1, hdrop, rfl⟩ := Spaces.migrateKernelCPT_cases hop
  have hs1 : SmallEntries s1 := by
    rcases Spaces.dropKernelCPT_cases hdrop with ⟨-, rfl⟩ | ⟨i, cptd, cpt, -, -, rfl⟩
    · exact hs
    · exact hs
  have hadd := Spaces.kernelAdded_migrated (hfresh s1 hdrop) migrateCpt (Nat.min_le_right pages 256)
  exact hs1.kernelAdded hadd (hfresh s1 hdrop) fun t ht =>
    hapart s1 hdrop t (List.mem_cons_of_mem _ ht)

/-- `addVirtualPage` writes one descriptor, into a listed table or into a cleared new one. -/
theorem small_addVirtualPage {a : Nat} {page va : Word} (h : s.Consistent) (hs : SmallEntries s)
    (ha : a ∈ s.addressSpaces.map Prod.snd)
    (hfresh : sectionOf va.toNat ∉ (s.space a).cptds.map Prod.snd → s.FreshObjects none new)
    (hop : s.addVirtualPage a page va new = .ok s') : SmallEntries s' := by
  have hword := small_newSPD 1 1 0b11111111#8 page
  rcases Spaces.addVirtualPage_cases hop with ⟨i, cptd, cpt, hcptd, hcpt, rfl⟩ | ⟨hnot, rfl⟩
  · obtain ⟨e, he, rfl⟩ := List.mem_map.mp ha
    have hmem : cpt ∈ (s.space e.2).cpts := List.mem_of_getElem? hcpt
    rw [Spaces.tableIndex_eq]
    refine hs.still rfl (fun a => rfl) (fun _ _ d _ => ?_) fun _ _ d _ j => ?_
    · exact Spaces.physical_fill (Spaces.walk_writeTable (h.aligned e he cpt hmem) s.kernel.tt _ _)
        (h.apart e he cpt hmem _)
    · refine (entryOf_writeTable (h.aligned e he cpt hmem) _ _ _ j).imp_left fun heq => ?_
      rw [heq]
      exact hword
  · have hadd := Spaces.userAdded_section (a := a) (hfresh hnot) va
      (newSPD 1 1 0b11111111#8 page)
    have hphys := hadd.physical (hfresh hnot).fresh
    intro e he c hc j
    rw [hadd.addressSpaces] at he
    rw [Spaces.block_congr (hphys c.2), entryOf_fill hadd.fill]
    split
    · exact small_onePage hword va j
    · rename_i hne
      -- a table that is not the new one was there before
      refine hs e he c ?_ j
      by_cases hb : e.2 = a
      · rw [hb, hadd.space] at hc
        rcases List.mem_cons.mp hc with rfl | hc
        · exact absurd rfl hne
        · rwa [hb]
      · rwa [hadd.others _ hb] at hc

theorem small_createAddressSpace {newSpace : NewSpace} (hs : SmallEntries s)
    (hquiet : newSpace.Quiet) : SmallEntries (s.createAddressSpace newSpace) := by
  intro e he c hc j
  rw [Spaces.createAddressSpace, Spaces.fillAddressSpace, hquiet.space, hquiet.translationTable,
    hquiet.entry] at *
  by_cases hobject : e.2 = newSpace.space.object
  · rw [hobject] at hc
    have hnil : c ∈ ([] : Entries) := by
      have hspace := hc
      simp only [id_eq, Spaces.setSpace, Function.update_self] at hspace
      exact hspace
    exact absurd hnil List.not_mem_nil
  · have hold : c ∈ (s.space e.2).cpts := by
      simp only [id_eq, Spaces.setSpace, Function.update_of_ne hobject] at hc
      exact hc
    rcases List.mem_cons.mp he with rfl | he
    · exact absurd rfl hobject
    · exact hs e he c hold j

theorem small_destroyAddressSpace (hs : SmallEntries s) (a : Nat) :
    SmallEntries (s.destroyAddressSpace a) := by
  unfold Spaces.destroyAddressSpace
  cases searchLinkedListEntry s.addressSpaces a with
  | none => exact hs
  | some found =>
      exact fun e he => hs e ((Spaces.removeEntry_sublist found.1 s.addressSpaces).subset he)

/-- **One call** keeps the entries small. -/
theorem small_step (op : Spaces.Op) (h : s.Consistent) (hs : SmallEntries s) (hfresh : op.Fresh s)
    (hapart : op.Apart s) (hop : op.run s = .ok s') : SmallEntries s' := by
  cases op with
  | createAddressSpace new =>
      obtain rfl := Except.ok.inj hop
      exact small_createAddressSpace hs hfresh
  | addVirtualKernelPage page va new => exact small_addKernelPage h hs hfresh hapart hop
  | addVirtualKernelPageNoncached page va new => exact small_addKernelPage h hs hfresh hapart hop
  | migrateKernelCPT sect migrateCpt pages new => exact small_migrateKernelCPT hs hfresh hapart hop
  | addVirtualPage a page va new => exact small_addVirtualPage h hs hfresh.1 hfresh.2 hop
  | destroyAddressSpace a =>
      obtain rfl := Except.ok.inj hop
      exact small_destroyAddressSpace hs a

/-- **Every address space in use is as `addVirtualPage` makes it.** -/
theorem built_of_run {s0 : Spaces} (h0 : s0.Initial)
    (hrun : Spaces.Run (fun s op => op.Fresh s ∧ op.Apart s) s0 s) {a : Nat}
    (ha : a ∈ s.addressSpaces.map Prod.snd) : Built s a := by
  have hsmall0 : SmallEntries s0 := by
    intro e he
    rw [h0.addressSpaces] at he
    exact nomatch he
  obtain ⟨h, hs⟩ : s.Consistent ∧ SmallEntries s :=
    Spaces.Run.keeps (I := fun s => s.Consistent ∧ SmallEntries s) (fun _ op _ h hc hop =>
      ⟨Spaces.consistent_step op h.1 hc.1 hc.2 hop, small_step op h.1 h.2 hc.1 hc.2 hop⟩)
      hrun ⟨Spaces.consistent_initial h0, hsmall0⟩
  obtain ⟨e, he, rfl⟩ := List.mem_map.mp ha
  refine ⟨Nat.le_of_eq (h.spaces e he).length, fun cpt hcpt i hi => ?_⟩
  have hmem := List.mem_of_mem_take hcpt
  have hsmall := hs e he cpt hmem ⟨i, hi⟩
  rwa [entryOf, Spaces.block_mul (h.aligned e he cpt hmem)] at hsmall

end

/--
**Destroying an address space** that `createAddressSpace` and `addVirtualPage` made is right
exactly if the words behind its tables do no harm; in any other state its own tables have to
be as `addVirtualPage` makes them, too.
-/
theorem destroysRight_iff (behind : Nat → Nat → Option Word) (tt a : Nat) (t : Teardown) :
    (∀ s0 : Spaces, s0.Initial → Spaces.Run (fun s op => op.Fresh s ∧ op.Apart s) s0 t.spaces →
      a ∈ t.spaces.addressSpaces.map Prod.snd →
      (DestroysRight behind tt a t ↔ ∀ cpt ∈ tables t.spaces a, ∀ i, 256 ≤ i → i < 1024 →
        Spares t.pages (ownPages t.spaces a) (behind cpt.2 i))) ∧
    (DestroysRight behind tt a t ↔ Built t.spaces a ∧
      ∀ cpt ∈ tables t.spaces a, ∀ i, 256 ≤ i → i < 1024 →
        Spares t.pages (ownPages t.spaces a) (behind cpt.2 i)) := by
  have h := destroysRight_of_words behind tt a t
  refine ⟨fun s0 h0 hrun ha => h.trans ?_, h⟩
  exact and_iff_right (built_of_run h0 hrun ha)

/-- One page mapped; the table behind belongs to another address space, with the next page. -/
def nextTable (_ i : Nat) : Option Word :=
  some (if i = 256 then newSPD 1 1 0b11111111#8 0x13011000#32 else 0)

/-- Both pages are in use. -/
def twoPagesUsed : Pageblocks :=
  [{ unaligned := 0x13010000, start := 0x13010000, size := 2, used := 3#64, used2 := 0
     dirty := 0, dirty2 := 0, pageout := 0, pageout2 := 0 }]

theorem destroys_others : ¬ ∀ (s0 : Spaces) (t : Teardown) (a : Nat), s0.Initial →
    Spaces.Run (fun s op => op.Fresh s ∧ op.Apart s) s0 t.spaces →
    a ∈ t.spaces.addressSpaces.map Prod.snd →
    ∀ behind tt, DestroysRight behind tt a t := by
  intro h
  have hright := h Spaces.heapStarted ⟨Spaces.oneSpacePage, twoPagesUsed, []⟩ 0xe4004000
    Spaces.initial_heapStarted Spaces.oneSpacePage_reached (List.mem_cons_self ..) nextTable 0xe4008000
  obtain ⟨-, hspares⟩ := (destroysRight_of_words _ _ _ _).mp hright
  obtain ⟨w, hw, hspare⟩ := hspares (0xe400207c, 0xe4003400) (List.mem_cons_self ..) 256
    (Nat.le_refl _) (by omega)
  obtain rfl := Option.some.inj hw
  have hused : PageUsed twoPagesUsed (smallPage (newSPD 1 1 0b11111111#8 0x13011000#32)) :=
    ⟨_, List.mem_cons_self .., by decide, by decide⟩
  rcases hspare with hzero | ⟨-, hown⟩
  · exact absurd hzero (by decide)
  · have hnot : smallPage (newSPD 1 1 0b11111111#8 0x13011000#32) ∉
        ownPages Spaces.oneSpacePage 0xe4004000 := by decide +kernel
    exact hnot (hown hused)

end Teardown

end OSExt.Memory
