import OSExt.Memory.PageRanges

/-!
# The page bitmaps as marks

Taking a run of pages marks it in the bitmaps, giving it back clears the marks. Runs that
were free when they were taken have no bit in common, so the bitmaps after any such calls
are the ones from the start with the runs marked that are still held, in any order.
-/

namespace OSExt.Memory

namespace Pageblock

/-- Bit `j` of the block belongs to the run. -/
def Hits (b : Pageblock) (r : Nat × Nat) (j : Nat) : Prop :=
  ∃ i < r.2, b.covers (u32 (r.1 + smallPageSize * i)) = true ∧
    b.offset (u32 (r.1 + smallPageSize * i)) = j

/-- Two blocks that differ in their used bits only. -/
structure SameBlock (b c : Pageblock) : Prop where
  unaligned : c.unaligned = b.unaligned
  start : c.start = b.start
  size : c.size = b.size
  dirty : c.dirty = b.dirty
  dirty2 : c.dirty2 = b.dirty2
  pageout : c.pageout = b.pageout
  pageout2 : c.pageout2 = b.pageout2

theorem SameBlock.refl (b : Pageblock) : SameBlock b b := ⟨rfl, rfl, rfl, rfl, rfl, rfl, rfl⟩

theorem SameBlock.trans {b c d : Pageblock} (h : SameBlock b c) (h' : SameBlock c d) :
    SameBlock b d where
  unaligned := h'.unaligned.trans h.unaligned
  start := h'.start.trans h.start
  size := h'.size.trans h.size
  dirty := h'.dirty.trans h.dirty
  dirty2 := h'.dirty2.trans h.dirty2
  pageout := h'.pageout.trans h.pageout
  pageout2 := h'.pageout2.trans h.pageout2

theorem SameBlock.symm {b c : Pageblock} (h : SameBlock b c) : SameBlock c b :=
  ⟨h.unaligned.symm, h.start.symm, h.size.symm, h.dirty.symm, h.dirty2.symm, h.pageout.symm,
    h.pageout2.symm⟩

theorem SameBlock.hits_iff {b c : Pageblock} (h : SameBlock b c) (r : Nat × Nat) (j : Nat) :
    c.Hits r j ↔ b.Hits r j := by
  unfold Hits covers offset
  rw [h.start, h.size]

/-- A block is its fixed part and its used bits. -/
theorem SameBlock.eq_of_bits {b c : Pageblock} (h : SameBlock b c)
    (hbits : ∀ j < 128, c.usedBit j = b.usedBit j) : c = b := by
  have hused : c.used = b.used := by
    refine BitVec.eq_of_getLsbD_eq fun i hi => ?_
    have hbit := hbits i (by omega)
    simpa only [usedBit, if_pos hi] using hbit
  have hused2 : c.used2 = b.used2 := by
    refine BitVec.eq_of_getLsbD_eq fun i hi => ?_
    have hbit := hbits (i + 64) (by omega)
    simpa only [usedBit, if_neg (show ¬ i + 64 < 64 by omega), Nat.add_sub_cancel] using hbit
  obtain ⟨h1, h2, h3, h4, h5, h6, h7⟩ := h
  cases b
  cases c
  simp_all only

theorem sameBlock_setUsed (b : Pageblock) (i : Nat) (v : Bool) : SameBlock b (b.setUsed i v) :=
  ⟨rfl, rfl, rfl, rfl, rfl, rfl, rfl⟩

theorem sameBlock_setRun (b : Pageblock) (page n : Nat) (v : Bool) :
    SameBlock b (b.setRun page n v) := by
  induction n with
  | zero => exact SameBlock.refl b
  | succ n ih =>
      rw [setRun_succ]
      split
      · exact ih.trans (sameBlock_setUsed _ _ _)
      · exact ih

/-- A bit after a run is marked or cleared. -/
theorem usedBit_setRun (b : Pageblock) (r : Nat × Nat) (v : Bool) {j : Nat} (hj : j < 128) :
    (b.Hits r j → (b.setRun r.1 r.2 v).usedBit j = v) ∧
      (¬ b.Hits r j → (b.setRun r.1 r.2 v).usedBit j = b.usedBit j) := by
  constructor
  · intro hgiven
    obtain ⟨i, hi, hcovers, hoffset⟩ := hgiven
    exact setRun_hit b r.1 r.2 v hi hcovers hoffset hj
  · intro h
    exact setRun_miss b r.1 r.2 v fun i hi hcovers hoffset => h ⟨i, hi, hcovers, hoffset⟩

/-- All runs of a list marked. -/
def markAll (b : Pageblock) (runs : List (Nat × Nat)) : Pageblock :=
  runs.foldr (fun r b => b.setRun r.1 r.2 true) b

theorem sameBlock_markAll (b : Pageblock) (runs : List (Nat × Nat)) :
    SameBlock b (b.markAll runs) := by
  induction runs with
  | nil => exact SameBlock.refl b
  | cons r runs ih => exact ih.trans (sameBlock_setRun _ _ _ _)

/-- A bit is set if it was before or belongs to one of the runs. -/
theorem usedBit_markAll (b : Pageblock) (runs : List (Nat × Nat)) {j : Nat} (hj : j < 128) :
    (b.markAll runs).usedBit j = true ↔ b.usedBit j = true ∨ ∃ r ∈ runs, b.Hits r j := by
  induction runs with
  | nil =>
      refine ⟨Or.inl, fun h => h.resolve_right ?_⟩
      intro hgiven
      obtain ⟨r, hr, -⟩ := hgiven
      exact nomatch hr
  | cons r runs ih =>
      have hsame := sameBlock_markAll b runs
      obtain ⟨hset, hkeep⟩ := usedBit_setRun (b.markAll runs) r true hj
      rw [hsame.hits_iff] at hset hkeep
      by_cases hr : b.Hits r j
      · exact iff_of_true (hset hr) (Or.inr ⟨r, List.mem_cons_self .., hr⟩)
      · refine (Bool.eq_iff_iff.mp (hkeep hr)).trans (ih.trans (or_congr_right ?_))
        constructor
        · intro hgiven
          obtain ⟨r', hr', hhit⟩ := hgiven
          exact ⟨r', List.mem_cons_of_mem _ hr', hhit⟩
        · intro hgiven
          obtain ⟨r', hr', hhit⟩ := hgiven
          rcases List.mem_cons.mp hr' with rfl | hr'
          · exact absurd hhit hr
          · exact ⟨r', hr', hhit⟩

end Pageblock

open Pageblock

/-! ## All blocks -/

/-- A run marked in the bitmaps. -/
def mark (r : Nat × Nat) (ps : Pageblocks) : Pageblocks := setRun r.1 r.2 true ps

/-- All runs of a list marked, the last one first. -/
def markAll (runs : List (Nat × Nat)) (ps : Pageblocks) : Pageblocks := runs.foldr mark ps

theorem markAll_eq_map (runs : List (Nat × Nat)) (ps : Pageblocks) :
    markAll runs ps = ps.map fun b => b.markAll runs := by
  induction runs with
  | nil => exact (List.map_id' ps).symm
  | cons r runs ih =>
      show setRun r.1 r.2 true (markAll runs ps) = _
      rw [setRun_eq_map, ih, List.map_map]
      rfl

theorem markAll_append (runs runs' : List (Nat × Nat)) (ps : Pageblocks) :
    markAll (runs ++ runs') ps = markAll runs (markAll runs' ps) := List.foldr_append

/-- The bitmaps do not depend on the order of the marks. -/
theorem markAll_congr {runs runs' : List (Nat × Nat)} (ps : Pageblocks)
    (h : ∀ r, r ∈ runs ↔ r ∈ runs') : markAll runs ps = markAll runs' ps := by
  rw [markAll_eq_map, markAll_eq_map]
  refine List.map_congr_left fun b _ => ?_
  have hsame := sameBlock_markAll b runs
  have hsame' := sameBlock_markAll b runs'
  refine SameBlock.eq_of_bits ⟨hsame.unaligned.trans hsame'.unaligned.symm,
    hsame.start.trans hsame'.start.symm, hsame.size.trans hsame'.size.symm,
    hsame.dirty.trans hsame'.dirty.symm, hsame.dirty2.trans hsame'.dirty2.symm,
    hsame.pageout.trans hsame'.pageout.symm, hsame.pageout2.trans hsame'.pageout2.symm⟩
    fun j hj => ?_
  rw [Bool.eq_iff_iff, usedBit_markAll b runs hj, usedBit_markAll b runs' hj]
  simp only [h]

/-- None of the bits of the run is set. -/
def Free (ps : Pageblocks) (r : Nat × Nat) : Prop :=
  ∀ b ∈ ps, ∀ j < 128, b.Hits r j → b.usedBit j = false

/-- Two runs have no bit in common. -/
def Apart (ps : Pageblocks) (r r' : Nat × Nat) : Prop :=
  ∀ b ∈ ps, ∀ j < 128, b.Hits r j → ¬ b.Hits r' j

theorem Apart.symm {ps : Pageblocks} {r r' : Nat × Nat} (h : Apart ps r r') : Apart ps r' r :=
  fun b hb j hj hr' hr => h b hb j hj hr hr'

/-- The runs were free, and are apart from each other. -/
structure Separate (ps : Pageblocks) (runs : List (Nat × Nat)) : Prop where
  free : ∀ r ∈ runs, Free ps r
  apart : runs.Pairwise (Apart ps)

theorem separate_nil (ps : Pageblocks) : Separate ps [] := ⟨nofun, List.Pairwise.nil⟩

/-- A run that is free with others marked was free before, and is apart from them. -/
theorem free_markAll {ps : Pageblocks} {runs : List (Nat × Nat)} {r : Nat × Nat}
    (h : Free (markAll runs ps) r) : Free ps r ∧ ∀ r' ∈ runs, Apart ps r r' := by
  have hbit : ∀ b ∈ ps, ∀ j < 128, b.Hits r j → ¬ (b.usedBit j = true ∨ ∃ r' ∈ runs, b.Hits r' j) := by
    intro b hb j hj hr
    have hmem : b.markAll runs ∈ markAll runs ps := by
      rw [markAll_eq_map]
      exact List.mem_map_of_mem hb
    have hclear := h _ hmem j hj (((sameBlock_markAll b runs).hits_iff r j).mpr hr)
    rw [← usedBit_markAll b runs hj, hclear]
    exact Bool.false_ne_true
  refine ⟨fun b hb j hj hr => Bool.eq_false_iff.mpr fun hset => ?_, fun r' hr' b hb j hj hr hit => ?_⟩
  · exact hbit b hb j hj hr (Or.inl hset)
  · exact hbit b hb j hj hr (Or.inr ⟨r', hr', hit⟩)

/-- **Taking a free run** keeps the runs separate. -/
theorem Separate.cons {ps : Pageblocks} {runs : List (Nat × Nat)} {r : Nat × Nat}
    (h : Separate ps runs) (hfree : Free (markAll runs ps) r) : Separate ps (r :: runs) := by
  obtain ⟨hr, hapart⟩ := free_markAll hfree
  refine ⟨fun r' hr' => ?_, List.pairwise_cons.mpr ⟨hapart, h.apart⟩⟩
  rcases List.mem_cons.mp hr' with rfl | hr'
  · exact hr
  · exact h.free r' hr'

theorem Separate.perm {ps : Pageblocks} {runs runs' : List (Nat × Nat)} (h : Separate ps runs)
    (hp : runs.Perm runs') : Separate ps runs' :=
  ⟨fun r hr => h.free r (hp.mem_iff.mpr hr), (hp.pairwise_iff Apart.symm).mp h.apart⟩

theorem Separate.sublist {ps : Pageblocks} {runs runs' : List (Nat × Nat)} (h : Separate ps runs)
    (hs : runs'.Sublist runs) : Separate ps runs' :=
  ⟨fun r hr => h.free r (hs.subset hr), h.apart.sublist hs⟩

/-- **Giving a run back** leaves the marks of the others. -/
theorem Separate.release {ps : Pageblocks} {runs : List (Nat × Nat)} {r : Nat × Nat}
    (h : Separate ps (r :: runs)) :
    setRun r.1 r.2 false (markAll (r :: runs) ps) = markAll runs ps := by
  rw [setRun_eq_map, markAll_eq_map, markAll_eq_map, List.map_map]
  refine List.map_congr_left fun b hb => ?_
  have hsame := sameBlock_markAll b (r :: runs)
  have hsame' := sameBlock_markAll b runs
  have hcleared := sameBlock_setRun (b.markAll (r :: runs)) r.1 r.2 false
  have hall := hsame.trans hcleared
  refine SameBlock.eq_of_bits ⟨hall.unaligned.trans hsame'.unaligned.symm,
    hall.start.trans hsame'.start.symm, hall.size.trans hsame'.size.symm,
    hall.dirty.trans hsame'.dirty.symm, hall.dirty2.trans hsame'.dirty2.symm,
    hall.pageout.trans hsame'.pageout.symm, hall.pageout2.trans hsame'.pageout2.symm⟩
    fun j hj => ?_
  obtain ⟨hclear, hkeep⟩ := usedBit_setRun (b.markAll (r :: runs)) r false hj
  rw [hsame.hits_iff] at hclear hkeep
  rw [Bool.eq_iff_iff, usedBit_markAll b runs hj]
  by_cases hr : b.Hits r j
  · refine iff_of_false (fun hset => Bool.false_ne_true ((hclear hr).symm.trans hset)) ?_
    intro hor
    rcases hor with hset | ⟨r', hr', hit⟩
    · rw [h.free r (List.mem_cons_self ..) b hb j hj hr] at hset
      exact Bool.false_ne_true hset
    · exact (List.pairwise_cons.mp h.apart).1 r' hr' b hb j hj hr hit
  · refine (Bool.eq_iff_iff.mp (hkeep hr)).trans
      ((usedBit_markAll b (r :: runs) hj).trans (or_congr_right ?_))
    constructor
    · intro hgiven
      obtain ⟨r', hr', hit⟩ := hgiven
      rcases List.mem_cons.mp hr' with rfl | hr'
      · exact absurd hit hr
      · exact ⟨r', hr', hit⟩
    · intro hgiven
      obtain ⟨r', hr', hit⟩ := hgiven
      exact ⟨r', List.mem_cons_of_mem _ hr', hit⟩

/-! ## What the allocator hands out -/

/-- The bits of a run inside a block of well-formed blocks. -/
theorem free_of_clear {w : PageWorld} (hi : PageInv w) {b : Pageblock} (hb : b ∈ w.pages)
    {k n : Nat} (hlen : k + n ≤ b.size + 1) (hclear : ∀ i < n, b.usedBit (k + i) = false) :
    Free w.pages (b.start + smallPageSize * k, n) := by
  intro c hc j _ hgiven
  obtain ⟨i, hin, hcovers, hoffset⟩ := hgiven
  have hin : i < n := hin
  have hpage : u32 (b.start + smallPageSize * k + smallPageSize * i) =
      b.start + smallPageSize * (k + i) := by
    rw [Nat.add_assoc, ← Nat.mul_add, page_in_range (hi.wf b hb) (by omega)]
  rw [hpage] at hcovers hoffset
  obtain rfl := covers_unique hi.wf hi.regions hc hb hcovers (covers_page (hi.wf b hb) (by omega))
  rw [offset_page] at hoffset
  exact hoffset ▸ hclear i hin

/-- **A run handed out was free**, and is marked. -/
theorem useConsecutivePages_mark {w : PageWorld} (hi : PageInv w) {n alignment p : Nat}
    (h : (useConsecutivePages n alignment w.pages).1 = some p) :
    (useConsecutivePages n alignment w.pages).2 = mark (p, n) w.pages ∧ Free w.pages (p, n) := by
  obtain ⟨heq, b, hb, k, -, rfl, hlen, hclear⟩ := useConsecutivePages_some hi h
  exact ⟨heq, free_of_clear hi hb hlen hclear⟩

/-- So is a single page. -/
theorem usePage_mark {w : PageWorld} (hi : PageInv w) {p : Nat} (h : (usePage w.pages).1 = some p) :
    (usePage w.pages).2 = mark (p, 1) w.pages ∧ Free w.pages (p, 1) := by
  obtain ⟨b, hb, k, hk, rfl, hclear, heq⟩ := usePage_some w.pages hi.wf hi.regions h
  refine ⟨heq, free_of_clear hi hb (by omega) fun i hin => ?_⟩
  rw [show k + i = k by omega]
  exact hclear

/-! ## Keeping account -/

/-- Since `base` the runs have been taken and not given back. -/
structure Accounts (base : PageWorld) (runs : List (Nat × Nat)) (ps : Pageblocks) : Prop where
  inv : PageInv ⟨ps, runs ++ base.held⟩
  marks : ps = markAll runs base.pages
  separate : Separate base.pages runs
  nonnull : ∀ b ∈ base.pages, b.start ≠ 0

theorem PageInv.perm {ps : Pageblocks} {held held' : List (Nat × Nat)}
    (h : PageInv ⟨ps, held⟩) (hp : held.Perm held') : PageInv ⟨ps, held'⟩ where
  wf := h.wf
  regions := h.regions
  runs := fun r hr => h.runs r (hp.mem_iff.mpr hr)
  excl := (hp.pairwise_iff fun hab x hx hx' => hab x hx' hx).mp h.excl

namespace Accounts

variable {base : PageWorld} {runs runs' : List (Nat × Nat)} {ps : Pageblocks}

theorem init (hi : PageInv base) (hn : ∀ b ∈ base.pages, b.start ≠ 0) :
    Accounts base [] base.pages := ⟨hi, rfl, separate_nil _, hn⟩

theorem perm (h : Accounts base runs ps) (hp : runs.Perm runs') : Accounts base runs' ps where
  inv := h.inv.perm (hp.append_right _)
  marks := h.marks.trans (markAll_congr _ fun _ => hp.mem_iff)
  separate := h.separate.perm hp
  nonnull := h.nonnull

/-- No run that is handed out starts at NULL. -/
theorem ne_zero (h : Accounts base runs ps) {b : Pageblock} (hb : b ∈ ps) (k : Nat) :
    b.start + smallPageSize * k ≠ 0 := by
  rw [h.marks, markAll_eq_map] at hb
  obtain ⟨c, hc, rfl⟩ := List.mem_map.mp hb
  have hne := h.nonnull c hc
  rw [(sameBlock_markAll c runs).start]
  omega

/-- **Taking a run.** -/
theorem take (h : Accounts base runs ps) {n alignment p : Nat} (hn : 1 ≤ n)
    (hp : (useConsecutivePages n alignment ps).1 = some p) :
    Accounts base ((p, n) :: runs) (useConsecutivePages n alignment ps).2 ∧ p ≠ 0 := by
  have hinv := pageInv_useConsecutivePages h.inv alignment hn
  obtain ⟨hmark, hfree⟩ := useConsecutivePages_mark h.inv hp
  obtain ⟨-, b, hb, k, -, rfl, -⟩ := useConsecutivePages_some h.inv hp
  rw [hp] at hinv
  refine ⟨⟨hinv, hmark.trans (congrArg (mark _) h.marks), h.separate.cons (h.marks ▸ hfree),
    h.nonnull⟩, h.ne_zero hb k⟩

theorem takePage (h : Accounts base runs ps) {p : Nat} (hp : (usePage ps).1 = some p) :
    Accounts base ((p, 1) :: runs) (usePage ps).2 := by
  have hinv := pageInv_step h.inv .usePage
  obtain ⟨hmark, hfree⟩ := usePage_mark h.inv hp
  rw [hp] at hinv
  exact ⟨hinv, hmark.trans (congrArg (mark _) h.marks), h.separate.cons (h.marks ▸ hfree), h.nonnull⟩

/-- **Giving a run back.** -/
theorem release {r : Nat × Nat} (h : Accounts base (r :: runs) ps) :
    Accounts base runs (freeConsecutivePages r.1 r.2 ps) where
  inv := by
    have hinv := Memory.release h.inv (h := r) (List.mem_cons_self ..)
    rwa [List.cons_append, List.erase_cons_head] at hinv
  marks := by
    rw [h.marks]
    exact h.separate.release
  separate := h.separate.sublist (List.sublist_cons_self _ _)
  nonnull := h.nonnull

/-- Runs that leave the bitmaps as they were are none. -/
theorem eq_nil {taken : List (Nat × Nat)} (h : Accounts base (taken ++ runs) ps)
    (hsame : ps = markAll runs base.pages) : taken = [] := by
  refine List.eq_nil_iff_forall_not_mem.mpr fun r hr => ?_
  obtain ⟨b, hb, k, hrun⟩ := h.inv.runs r (by simp [hr])
  have hwf := h.inv.wf b hb
  have hfirst := hrun.first
  have h128 := hwf.size
  -- the first page of the run has a bit, which is set
  have hhit : b.Hits r k := by
    refine ⟨0, hrun.pos, ?_, ?_⟩ <;> rw [hrun.page_eq hwf hrun.pos, Nat.add_zero]
    · exact covers_page hwf (by omega)
    · exact offset_page b k
  have hset : b.usedBit k = true := by
    have hused := hrun.used 0 hrun.pos (by omega)
    rwa [Nat.add_zero] at hused
  rw [hsame, markAll_eq_map] at hb
  obtain ⟨c, hc, rfl⟩ := List.mem_map.mp hb
  rw [(sameBlock_markAll c runs).hits_iff] at hhit
  rw [usedBit_markAll c runs (by omega)] at hset
  rcases hset with hset | ⟨r', hr', hhit'⟩
  · rw [h.separate.free r (List.mem_append_left _ hr) c hc k (by omega) hhit] at hset
    exact Bool.false_ne_true hset
  · exact (List.pairwise_append.mp h.separate.apart).2.2 r hr r' hr' c hc k (by omega) hhit hhit'

/-- Runs that are held at the same time do not overlap. -/
theorem disjoint (h : Accounts base runs ps) :
    runs.Pairwise fun r r' =>
      r.1 + r.2 * smallPageSize ≤ r'.1 ∨ r'.1 + r'.2 * smallPageSize ≤ r.1 := by
  have hexcl := (List.pairwise_append.mp h.inv.excl).1
  refine hexcl.imp_of_mem fun hr hr' hdisj => ?_
  exact (h.inv.range (List.mem_append_left _ hr)).apart (h.inv.range (List.mem_append_left _ hr'))
    hdisj

end Accounts

end OSExt.Memory
