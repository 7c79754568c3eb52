import OSExt.Memory.PhysicalMM

/-!
# No page is handed out twice

Pages are handed out by two paths, the bit scan of `usePage` and the run search
of `useConsecutivePages`, and given back by two others; all four meet in the
used bits of the blocks.

The lookup range of a block is inclusive, so a run may reach one page past the
block's last one. That page still lies in the block's own `ti_malloc` region, so
no other block claims it, and a run that contains it also contains the page
before it. For a block of 128 pages that extra page has no bit at all: it is the
page before it that keeps two such runs apart.
-/

namespace OSExt.Memory

/-! ## Bits -/

/-- The used bit of page `i`; pages from 128 on have none. -/
def Pageblock.usedBit (b : Pageblock) (i : Nat) : Bool :=
  if i < 64 then b.used.getLsbD i else b.used2.getLsbD (i - 64)

theorem and_one_eq_one (w : BitVec 64) (i : Nat) :
    (((w >>> i) &&& 1#64) == 1#64) = w.getLsbD i := by
  rw [Bool.eq_iff_iff]
  simp only [beq_iff_eq]
  constructor
  · intro h
    have h0 := congrArg (fun v => v.getLsbD 0) h
    simpa using h0
  · intro h
    ext k hk
    rcases Nat.eq_zero_or_pos k with rfl | hpos
    · simpa [BitVec.getLsbD_eq_getElem] using h
    · have hk0 : k ≠ 0 := by omega
      simp [hk0]

theorem and_one_eq_zero (w : BitVec 64) (i : Nat) :
    (((w >>> i) &&& 1#64) == 0#64) = !w.getLsbD i := by
  rw [← and_one_eq_one w i]
  have h : (w >>> i) &&& 1#64 = 0#64 ∨ (w >>> i) &&& 1#64 = 1#64 := by
    rcases hb : w.getLsbD i with _ | _
    · left
      ext k hk
      rcases Nat.eq_zero_or_pos k with rfl | hpos
      · simpa using hb
      · have hk0 : k ≠ 0 := by omega
        simp [hk0]
    · right
      exact eq_of_beq ((and_one_eq_one w i).trans hb)
  rcases h with h | h <;> rw [h] <;> decide

theorem getBit128_eq_one (b : Pageblock) (i : Nat) :
    (getBit128 b.used b.used2 i == 1#64) = b.usedBit i := by
  unfold getBit128 Pageblock.usedBit
  split <;> exact and_one_eq_one _ _

theorem getBit128_eq_zero (b : Pageblock) (i : Nat) :
    (getBit128 b.used b.used2 i == 0#64) = !b.usedBit i := by
  unfold getBit128 Pageblock.usedBit
  split <;> exact and_one_eq_zero _ _

theorem getLsbD_or_one (w : BitVec 64) (i j : Nat) :
    (w ||| (1#64 <<< i)).getLsbD j = (if j = i ∧ i < 64 then true else w.getLsbD j) := by
  rw [BitVec.getLsbD_or, BitVec.getLsbD_shiftLeft]
  by_cases hj : j < 64
  · by_cases hji : j = i
    · subst hji; simp [hj]
    · by_cases hlt : j < i
      · simp [hlt, hji]
      · have : j - i ≠ 0 := by omega
        simp [hji, this]
  · have hw : w.getLsbD j = false := BitVec.getLsbD_of_ge _ _ (by omega)
    have : ¬ (j = i ∧ i < 64) := by omega
    rw [if_neg this]
    simp [hj]

theorem getLsbD_and_not_one (w : BitVec 64) (i j : Nat) :
    (w &&& ~~~(1#64 <<< i)).getLsbD j = (if j = i ∧ i < 64 then false else w.getLsbD j) := by
  rw [BitVec.getLsbD_and, BitVec.getLsbD_not, BitVec.getLsbD_shiftLeft]
  by_cases hj : j < 64
  · by_cases hji : j = i
    · subst hji; simp [hj]
    · by_cases hlt : j < i
      · simp [hlt, hji, hj]
      · have : j - i ≠ 0 := by omega
        simp [hji, this, hj]
  · have hw : w.getLsbD j = false := BitVec.getLsbD_of_ge _ _ (by omega)
    have : ¬ (j = i ∧ i < 64) := by omega
    rw [if_neg this]
    simp [hj, hw]

/-- Setting a used bit changes that bit only, and nothing at all from bit 128 on. -/
theorem usedBit_setUsed (b : Pageblock) (i j : Nat) (v : Bool) :
    (b.setUsed i v).usedBit j = (if j = i ∧ i < 128 then v else b.usedBit j) := by
  unfold Pageblock.setUsed Pageblock.usedBit setBit128
  by_cases hi : i < 64
  · by_cases hj : j < 64
    · cases v
      · simp only [hi, hj, ↓reduceIte, Bool.false_eq_true, getLsbD_and_not_one]
        have : i < 128 := by omega
        simp [this]
      · simp only [hi, hj, ↓reduceIte, getLsbD_or_one]
        have : i < 128 := by omega
        simp [this]
    · have : ¬ (j = i ∧ i < 128) := by omega
      simp [hi, hj, this]
  · by_cases hj : j < 64
    · have : ¬ (j = i ∧ i < 128) := by omega
      simp [hi, hj, this]
    · have hiff : (j - 64 = i - 64 ∧ i - 64 < 64) ↔ (j = i ∧ i < 128) := by omega
      cases v
      · simp only [hi, hj, ↓reduceIte, Bool.false_eq_true, getLsbD_and_not_one, hiff]
      · simp only [hi, hj, ↓reduceIte, getLsbD_or_one, hiff]

@[simp] theorem setUsed_start (b : Pageblock) (i : Nat) (v : Bool) :
    (b.setUsed i v).start = b.start := rfl
@[simp] theorem setUsed_size (b : Pageblock) (i : Nat) (v : Bool) :
    (b.setUsed i v).size = b.size := rfl
@[simp] theorem setUsed_unaligned (b : Pageblock) (i : Nat) (v : Bool) :
    (b.setUsed i v).unaligned = b.unaligned := rfl

/-! ## Blocks and the regions they came from -/

/-- One past the last byte of the `ti_malloc` region a block was carved from. -/
def Pageblock.regionEnd (b : Pageblock) : Nat := b.unaligned + smallPageSize * (b.size + 3)

/-- What `allocPageblock` makes of a region that does not wrap. -/
structure BlockWF (b : Pageblock) : Prop where
  /-- Only 128 pages have a bit. -/
  size : b.size ≤ 128
  /-- The region ends inside the address space. -/
  nowrap : b.regionEnd ≤ 4294967296
  /-- The first page starts less than a page into the region. -/
  start : b.unaligned ≤ b.start ∧ b.start < b.unaligned + smallPageSize
  /-- The first page is page-aligned. -/
  aligned : b.start % smallPageSize = 0

/-- Two blocks carved from disjoint regions. -/
def RegionsDisjoint (b c : Pageblock) : Prop :=
  b.regionEnd ≤ c.unaligned ∨ c.regionEnd ≤ b.unaligned

/-- The `k`-th page of a block, for any page the inclusive lookup range reaches. -/
theorem page_in_range {b : Pageblock} (h : BlockWF b) {k : Nat} (hk : k ≤ b.size) :
    u32 (b.start + smallPageSize * k) = b.start + smallPageSize * k := by
  have h1 := h.nowrap
  have h2 := h.start.2
  apply u32_of_lt
  simp only [Pageblock.regionEnd, smallPageSize] at *
  omega

theorem covers_iff {b : Pageblock} (h : BlockWF b) (p : Nat) :
    b.covers p = true ↔ b.start ≤ p ∧ p ≤ b.start + smallPageSize * b.size := by
  unfold Pageblock.covers
  rw [page_in_range h (Nat.le_refl _)]
  simp

theorem covers_page {b : Pageblock} (h : BlockWF b) {k : Nat} (hk : k ≤ b.size) :
    b.covers (b.start + smallPageSize * k) = true := by
  rw [covers_iff h]
  have := Nat.mul_le_mul_left smallPageSize hk
  omega

theorem offset_page (b : Pageblock) (k : Nat) :
    b.offset (b.start + smallPageSize * k) = k := by
  unfold Pageblock.offset
  rw [Nat.add_sub_cancel_left]
  exact Nat.mul_div_cancel_left k (by decide)

/-- A covered page lies inside the region of the block. -/
theorem covers_region {b : Pageblock} (h : BlockWF b) {p : Nat} (hc : b.covers p = true) :
    b.unaligned ≤ p ∧ p < b.regionEnd := by
  have hr := (covers_iff h p).mp hc
  have hs := h.start
  simp only [Pageblock.regionEnd, smallPageSize] at *
  omega

/-- One page past the inclusive range still lies inside the region. -/
theorem beyond_region {b : Pageblock} (h : BlockWF b) :
    b.start + smallPageSize * (b.size + 1) < b.regionEnd := by
  have hs := h.start
  simp only [Pageblock.regionEnd, smallPageSize] at *
  omega

theorem beyond_not_covered {b : Pageblock} (h : BlockWF b) {k : Nat} (hk : b.size < k) :
    b.covers (b.start + smallPageSize * k) = false := by
  rw [Bool.eq_false_iff]
  intro hc
  have hr := (covers_iff h _).mp hc
  simp only [smallPageSize] at hr
  omega

/-! ## The world: the block table and who holds what -/

/--
The block table, with the allocations that have been handed out and not given
back: the first page and the number of pages of each.
-/
structure PageWorld where
  pages : Pageblocks
  held : List (Nat × Nat)

def PageWorld.init : PageWorld := ⟨[], []⟩

/-- `ti_malloc` answers with NULL or a region that does not wrap and is nobody else's. -/
def Fresh (w : PageWorld) (unaligned size : Nat) : Prop :=
  unaligned ≠ 0 → unaligned + smallPageSize * (size + 3) ≤ 4294967296 ∧
    ∀ b ∈ w.pages, b.regionEnd ≤ unaligned ∨ unaligned + smallPageSize * (size + 3) ≤ b.unaligned

/-- One call. A free names an allocation that is held. -/
inductive PageStep : PageWorld → PageWorld → Prop where
  | allocPageblock {w : PageWorld} (unaligned size : Nat) :
      size ≤ 128 → Fresh w unaligned size →
      PageStep w ⟨(allocPageblock unaligned size w.pages).2, w.held⟩
  | usePage {w : PageWorld} :
      PageStep w ⟨(usePage w.pages).2, ((usePage w.pages).1.map (·, 1)).toList ++ w.held⟩
  | useConsecutivePages {w : PageWorld} (size alignment : Nat) :
      1 ≤ size → 1 ≤ alignment →
      PageStep w ⟨(useConsecutivePages size alignment w.pages).2,
        ((useConsecutivePages size alignment w.pages).1.map (·, size)).toList ++ w.held⟩
  | setPageUsedBit {w : PageWorld} (page : Nat) :
      (page, 1) ∈ w.held →
      PageStep w ⟨setPageUsedBit page false w.pages, w.held.erase (page, 1)⟩
  | freeConsecutivePages {w : PageWorld} (page size : Nat) :
      (page, size) ∈ w.held →
      PageStep w ⟨freeConsecutivePages page size w.pages, w.held.erase (page, size)⟩

inductive PageReachable : PageWorld → Prop where
  | init : PageReachable PageWorld.init
  | tail {w w' : PageWorld} : PageReachable w → PageStep w w' → PageReachable w'

/-- The numbers of the 4 KiB pages an allocation is made of. -/
def pageNumbers (h : Nat × Nat) : List Nat :=
  (List.range h.2).map (fun i => u32 (h.1 + smallPageSize * i) / smallPageSize)

/-- No page is part of two outstanding allocations. -/
def PagesExclusive (w : PageWorld) : Prop :=
  w.held.Pairwise (fun a b => ∀ x ∈ pageNumbers a, x ∉ pageNumbers b)

/-! ## The invariant -/

/--
An allocation is a run of one block that starts below the block's last page,
reaches at most one page past it, and has all the bits it can have.
-/
structure RunOf (b : Pageblock) (k : Nat) (h : Nat × Nat) : Prop where
  page : h.1 = b.start + smallPageSize * k
  pos : 1 ≤ h.2
  first : k < b.size
  last : k + h.2 ≤ b.size + 1
  used : ∀ i < h.2, k + i < 128 → b.usedBit (k + i) = true

structure PageInv (w : PageWorld) : Prop where
  /-- Every block is well formed. -/
  wf : ∀ b ∈ w.pages, BlockWF b
  /-- Blocks come from disjoint regions. -/
  regions : w.pages.Pairwise RegionsDisjoint
  /-- Every allocation is a run of one block. -/
  runs : ∀ h ∈ w.held, ∃ b ∈ w.pages, ∃ k, RunOf b k h
  /-- No page is shared. -/
  excl : PagesExclusive w

theorem pageInv_init : PageInv PageWorld.init :=
  ⟨by simp [PageWorld.init], by simp [PageWorld.init], by simp [PageWorld.init],
    by simp [PagesExclusive, PageWorld.init]⟩

theorem regionsDisjoint_symm {b c : Pageblock} (h : RegionsDisjoint b c) : RegionsDisjoint c b :=
  h.symm

instance : Std.Symm RegionsDisjoint := ⟨fun _ _ => regionsDisjoint_symm⟩

/-- A page is covered by at most one block. -/
theorem covers_unique {ps : Pageblocks} (hw : ∀ b ∈ ps, BlockWF b)
    (hr : ps.Pairwise RegionsDisjoint) {b c : Pageblock} (hb : b ∈ ps) (hc : c ∈ ps) {p : Nat}
    (hbp : b.covers p = true) (hcp : c.covers p = true) : b = c := by
  by_contra hne
  have h1 := covers_region (hw b hb) hbp
  have h2 := covers_region (hw c hc) hcp
  rcases hr.forall hb hc hne with h | h <;> omega

/-! ## What the lookups see -/

theorem isPageUsed_of_covers {b : Pageblock} {p : Nat} (hp : b.covers p = true) :
    ∀ (ps : Pageblocks), (∀ c ∈ ps, c.covers p = true → c = b) → b ∈ ps →
      isPageUsed p ps = b.usedBit (b.offset p)
  | [], _, hb => absurd hb (by simp)
  | c :: ps, hu, hb => by
      unfold isPageUsed
      rw [readPageBit]
      by_cases hc : c.covers p = true
      · have hcb : c = b := hu c (List.mem_cons_self ..) hc
        subst hcb
        rw [if_pos hc]
        exact getBit128_eq_one c _
      · rw [if_neg hc]
        have hbc : b ≠ c := fun he => hc (he ▸ hp)
        exact isPageUsed_of_covers hp ps (fun d hd => hu d (List.mem_cons_of_mem _ hd))
          (List.mem_of_ne_of_mem hbc hb)

theorem isPageUsed_uncovered {p : Nat} :
    ∀ (ps : Pageblocks), (∀ c ∈ ps, c.covers p = false) → isPageUsed p ps = true
  | [], _ => rfl
  | c :: ps, h => by
      unfold isPageUsed
      rw [readPageBit, h c (List.mem_cons_self ..)]
      exact isPageUsed_uncovered ps (fun d hd => h d (List.mem_cons_of_mem _ hd))

/-- A page of the inclusive range is looked up in its own block. -/
theorem isPageUsed_page {w : PageWorld} (hi : PageInv w) {b : Pageblock} (hb : b ∈ w.pages)
    {k : Nat} (hk : k ≤ b.size) :
    isPageUsed (b.start + smallPageSize * k) w.pages = b.usedBit k := by
  have hcov := covers_page (hi.wf b hb) hk
  rw [isPageUsed_of_covers hcov w.pages
    (fun c hc hcc => covers_unique hi.wf hi.regions hc hb hcc hcov) hb, offset_page]

/-- The page behind the inclusive range still lies in the block's region: no block covers it. -/
theorem beyond_uncovered {w : PageWorld} (hi : PageInv w) {b : Pageblock} (hb : b ∈ w.pages) :
    ∀ c ∈ w.pages, c.covers (b.start + smallPageSize * (b.size + 1)) = false := by
  have hwf := hi.wf b hb
  have hend := beyond_region hwf
  intro c hc
  by_cases hcb : c = b
  · subst hcb
    exact beyond_not_covered hwf (Nat.lt_succ_self _)
  · rw [Bool.eq_false_iff]
    intro hcov
    have h1 := covers_region (hi.wf c hc) hcov
    have h2 := hwf.start
    rcases hi.regions.forall hb hc (fun he => hcb he.symm) with h | h
    · omega
    · simp only [smallPageSize] at *; omega

/-- The `i`-th page of a run that starts in a block, as far as the page behind the range. -/
theorem run_page {b : Pageblock} (hwf : BlockWF b) {k i : Nat} (h : k + i ≤ b.size + 1) :
    u32 (b.start + smallPageSize * k + smallPageSize * i) = b.start + smallPageSize * (k + i) := by
  have hend := beyond_region hwf
  have hnowrap := hwf.nowrap
  have hle := Nat.mul_le_mul_left smallPageSize h
  rw [Nat.add_assoc, ← Nat.mul_add, u32_of_lt (by omega)]

/-- A free run found by the search stays inside one block's inclusive range, on clear bits. -/
theorem runFree_bits {w : PageWorld} (hi : PageInv w) {b : Pageblock} (hb : b ∈ w.pages)
    {k n : Nat} (hk : k < b.size) (hf : runFree (b.start + smallPageSize * k) n w.pages = true) :
    k + n ≤ b.size + 1 ∧ ∀ i < n, b.usedBit (k + i) = false := by
  have hwf := hi.wf b hb
  have hfree : ∀ i < n, isPageUsed (u32 (b.start + smallPageSize * k + smallPageSize * i))
      w.pages = false := by
    intro i hin
    have h0 := (List.all_eq_true.mp hf) i (List.mem_range.mpr hin)
    simpa using h0
  have hlen : k + n ≤ b.size + 1 := by
    by_contra hgt
    -- the first page past the inclusive range is covered by no block at all
    have h0 := hfree (b.size + 1 - k) (by omega)
    rw [run_page hwf (by omega), show k + (b.size + 1 - k) = b.size + 1 by omega,
      isPageUsed_uncovered _ (beyond_uncovered hi hb)] at h0
    exact absurd h0 (by simp)
  refine ⟨hlen, fun i hin => ?_⟩
  have h0 := hfree i hin
  rw [run_page hwf (by omega), isPageUsed_page hi hb (by omega)] at h0
  exact h0

/-! ## What marking a run does -/

/-- One block's share of `setRun`. -/
def Pageblock.setRun (b : Pageblock) (page size : Nat) (v : Bool) : Pageblock :=
  (List.range size).foldl (fun b i =>
    if b.covers (u32 (page + smallPageSize * i)) then
      b.setUsed (b.offset (u32 (page + smallPageSize * i))) v
    else b) b

theorem setRun_succ (b : Pageblock) (page n : Nat) (v : Bool) :
    b.setRun page (n + 1) v =
      if (b.setRun page n v).covers (u32 (page + smallPageSize * n)) then
        (b.setRun page n v).setUsed ((b.setRun page n v).offset (u32 (page + smallPageSize * n))) v
      else b.setRun page n v := by
  unfold Pageblock.setRun
  rw [List.range_succ, List.foldl_append]
  rfl

theorem setRun_eq_map (page n : Nat) (v : Bool) (ps : Pageblocks) :
    setRun page n v ps = ps.map (fun b => b.setRun page n v) := by
  induction n with
  | zero => exact (List.map_id' ps).symm
  | succ n ih =>
      have hs : setRun page (n + 1) v ps
          = setPageUsedBit (u32 (page + smallPageSize * n)) v (setRun page n v ps) := by
        unfold setRun
        rw [List.range_succ, List.foldl_append]
        rfl
      rw [hs, ih, setPageUsedBit, writePageBit, List.map_map]
      refine List.map_congr_left (fun b _ => ?_)
      rw [setRun_succ]
      rfl

/-- Marking changes bits only. -/
theorem setRun_shape (b : Pageblock) (page n : Nat) (v : Bool) :
    (b.setRun page n v).start = b.start ∧ (b.setRun page n v).size = b.size
      ∧ (b.setRun page n v).unaligned = b.unaligned := by
  induction n with
  | zero => exact ⟨rfl, rfl, rfl⟩
  | succ n ih =>
      rw [setRun_succ]
      split
      · exact ih
      · exact ih

theorem setRun_covers (b : Pageblock) (page n : Nat) (v : Bool) (p : Nat) :
    (b.setRun page n v).covers p = b.covers p
      ∧ (b.setRun page n v).offset p = b.offset p := by
  obtain ⟨h1, h2, _⟩ := setRun_shape b page n v
  unfold Pageblock.covers Pageblock.offset
  rw [h1, h2]
  exact ⟨rfl, rfl⟩

/-- A bit of the run takes the new value. -/
theorem setRun_hit (b : Pageblock) (page n : Nat) (v : Bool) {i j : Nat} (hi : i < n)
    (hc : b.covers (u32 (page + smallPageSize * i)) = true)
    (ho : b.offset (u32 (page + smallPageSize * i)) = j) (hj : j < 128) :
    (b.setRun page n v).usedBit j = v := by
  induction n with
  | zero => omega
  | succ n ih =>
      rw [setRun_succ, (setRun_covers b page n v _).1, (setRun_covers b page n v _).2]
      by_cases hin : i = n
      · subst hin
        rw [if_pos hc, ho, usedBit_setUsed, if_pos ⟨rfl, hj⟩]
      · have h0 := ih (by omega)
        split
        · rw [usedBit_setUsed]
          split
          · rfl
          · exact h0
        · exact h0

/-- A bit outside the run keeps its value. -/
theorem setRun_miss (b : Pageblock) (page n : Nat) (v : Bool) {j : Nat}
    (h : ∀ i < n, b.covers (u32 (page + smallPageSize * i)) = true →
      b.offset (u32 (page + smallPageSize * i)) ≠ j) :
    (b.setRun page n v).usedBit j = b.usedBit j := by
  induction n with
  | zero => rfl
  | succ n ih =>
      have h0 := ih (fun i hi => h i (by omega))
      rw [setRun_succ, (setRun_covers b page n v _).1, (setRun_covers b page n v _).2]
      split
      · rename_i hc
        have hne := h n (Nat.lt_succ_self n) hc
        rw [usedBit_setUsed, if_neg (fun hx => hne hx.1.symm)]
        exact h0
      · exact h0

/-! ## Marking keeps the blocks apart -/

theorem blockWF_setRun {b : Pageblock} (h : BlockWF b) (page n : Nat) (v : Bool) :
    BlockWF (b.setRun page n v) := by
  obtain ⟨h1, h2, h3⟩ := setRun_shape b page n v
  refine ⟨by rw [h2]; exact h.size, ?_, by rw [h1, h3]; exact h.start, by rw [h1]; exact h.aligned⟩
  unfold Pageblock.regionEnd
  rw [h2, h3]
  exact h.nowrap

theorem regions_setRun {ps : Pageblocks} (h : ps.Pairwise RegionsDisjoint) (page n : Nat)
    (v : Bool) : (setRun page n v ps).Pairwise RegionsDisjoint := by
  rw [setRun_eq_map, List.pairwise_map]
  refine h.imp (fun {b c} hbc => ?_)
  obtain ⟨_, b2, b3⟩ := setRun_shape b page n v
  obtain ⟨_, c2, c3⟩ := setRun_shape c page n v
  unfold RegionsDisjoint Pageblock.regionEnd at *
  rw [b2, b3, c2, c3]
  exact hbc

theorem wf_setRun {ps : Pageblocks} (h : ∀ b ∈ ps, BlockWF b) (page n : Nat) (v : Bool) :
    ∀ b ∈ setRun page n v ps, BlockWF b := by
  intro b hb
  rw [setRun_eq_map] at hb
  obtain ⟨c, hc, rfl⟩ := List.mem_map.mp hb
  exact blockWF_setRun (h c hc) page n v

/-! ## Where the pages of a run are -/

theorem mem_pageNumbers {h : Nat × Nat} {x : Nat} :
    x ∈ pageNumbers h ↔ ∃ i < h.2, u32 (h.1 + smallPageSize * i) / smallPageSize = x := by
  simp [pageNumbers]

/-- The pages of a run are consecutive, and none of them wraps. -/
theorem RunOf.page_eq {b : Pageblock} (hwf : BlockWF b) {k : Nat} {h : Nat × Nat}
    (hr : RunOf b k h) {i : Nat} (hi : i < h.2) :
    u32 (h.1 + smallPageSize * i) = b.start + smallPageSize * (k + i) := by
  have hlast := hr.last
  rw [hr.page, Nat.add_assoc, ← Nat.mul_add, page_in_range hwf (by omega)]

theorem RunOf.mem_pageNumbers {b : Pageblock} (hwf : BlockWF b) {k : Nat} {h : Nat × Nat}
    (hr : RunOf b k h) {x : Nat} :
    x ∈ pageNumbers h ↔ ∃ i < h.2, b.start / smallPageSize + (k + i) = x := by
  rw [Memory.mem_pageNumbers]
  refine exists_congr (fun i => and_congr_right (fun hi => ?_))
  rw [hr.page_eq hwf hi, Nat.add_mul_div_left _ _ (by decide)]

/-- Runs of different blocks share no page. -/
theorem runs_of_blocks {b c : Pageblock} (hb : BlockWF b) (hc : BlockWF c)
    (hd : RegionsDisjoint b c) {k l : Nat} {g h : Nat × Nat} (hg : RunOf b k g)
    (hh : RunOf c l h) : ∀ x ∈ pageNumbers g, x ∉ pageNumbers h := by
  intro x hx hx'
  obtain ⟨i, hi, hxi⟩ := (hg.mem_pageNumbers hb).mp hx
  obtain ⟨j, hj, hxj⟩ := (hh.mem_pageNumbers hc).mp hx'
  have h1 := hg.last
  have h2 := hh.last
  have hb1 := hb.start
  have hc1 := hc.start
  have ha := hb.aligned
  have hac := hc.aligned
  unfold RegionsDisjoint Pageblock.regionEnd at hd
  simp only [smallPageSize] at *
  omega

/-- A run that keeps its bits is still a run after marking another one. -/
theorem RunOf.setRun {b : Pageblock} {k : Nat} {h : Nat × Nat} (hr : RunOf b k h)
    {page n : Nat} {v : Bool}
    (hkeep : ∀ i < h.2, k + i < 128 → (b.setRun page n v).usedBit (k + i) = true) :
    RunOf (b.setRun page n v) k h := by
  obtain ⟨h1, h2, _⟩ := setRun_shape b page n v
  exact ⟨by rw [h1]; exact hr.page, hr.pos, by rw [h2]; exact hr.first, by rw [h2]; exact hr.last,
    hkeep⟩

theorem runs_setRun_true {w : PageWorld} (hi : PageInv w) (page n : Nat) :
    ∀ h ∈ w.held, ∃ b ∈ Memory.setRun page n true w.pages, ∃ k, RunOf b k h := by
  intro h hh
  obtain ⟨b, hb, k, hr⟩ := hi.runs h hh
  refine ⟨b.setRun page n true, ?_, k, hr.setRun (fun i hin h128 => ?_)⟩
  · rw [setRun_eq_map]
    exact List.mem_map_of_mem hb
  · by_cases hhit : ∃ m < n, b.covers (u32 (page + smallPageSize * m)) = true
        ∧ b.offset (u32 (page + smallPageSize * m)) = k + i
    · obtain ⟨m, hm, hc, ho⟩ := hhit
      exact setRun_hit b page n true hm hc ho h128
    · rw [setRun_miss b page n true (fun m hm hc ho => hhit ⟨m, hm, hc, ho⟩)]
      exact hr.used i hin h128

/--
**Handing out a run.** A run whose bits are all clear shares no page with an
outstanding allocation: the two would meet in a bit, or in the bitless page 128,
and then in page 127 as well.
-/
theorem grant {w : PageWorld} (hi : PageInv w) {b : Pageblock} (hb : b ∈ w.pages) {k n : Nat}
    (hn : 1 ≤ n) (hk : k < b.size) (hlen : k + n ≤ b.size + 1)
    (hclear : ∀ i < n, b.usedBit (k + i) = false) :
    PageInv ⟨setRun (b.start + smallPageSize * k) n true w.pages,
      (b.start + smallPageSize * k, n) :: w.held⟩ := by
  have hwf := hi.wf b hb
  have h128 := hwf.size
  have hnew : RunOf (b.setRun (b.start + smallPageSize * k) n true) k
      (b.start + smallPageSize * k, n) := by
    obtain ⟨h1, h2, _⟩ := setRun_shape b (b.start + smallPageSize * k) n true
    refine ⟨by rw [h1], hn, by rw [h2]; exact hk, by rw [h2]; exact hlen, fun i hin hlt => ?_⟩
    have hin' : i < n := hin
    have hpg : u32 (b.start + smallPageSize * k + smallPageSize * i)
        = b.start + smallPageSize * (k + i) := by
      rw [Nat.add_assoc, ← Nat.mul_add, page_in_range hwf (by omega)]
    refine setRun_hit b _ n true hin' ?_ ?_ hlt
    · rw [hpg]; exact covers_page hwf (by omega)
    · rw [hpg]; exact offset_page b _
  have hsame : ∀ (l m : Nat) (h : Nat × Nat), RunOf b l h →
      ∀ x ∈ pageNumbers (b.start + smallPageSize * k, n), x ∉ pageNumbers h := by
    intro l m h hr x hx hx'
    obtain ⟨i, hin, hxi⟩ := (Memory.mem_pageNumbers).mp hx
    obtain ⟨j, hjn, hxj⟩ := (hr.mem_pageNumbers hwf).mp hx'
    have hin' : i < n := hin
    simp only at hxi
    rw [Nat.add_assoc, ← Nat.mul_add, page_in_range hwf (by omega),
      Nat.add_mul_div_left _ _ (by decide)] at hxi
    have hij : l + j = k + i := by omega
    have hlast := hr.last
    have hfirst := hr.first
    by_cases hbit : k + i < 128
    · have hset := hr.used j hjn (by omega)
      rw [hij, hclear i hin'] at hset
      exact absurd hset (by simp)
    · -- page 128: both runs start below it, so both hold page 127
      have hset := hr.used (j - 1) (by omega) (by omega)
      have hc := hclear (i - 1) (by omega)
      rw [show l + (j - 1) = k + (i - 1) by omega, hc] at hset
      exact absurd hset (by simp)
  refine ⟨wf_setRun hi.wf _ _ _, regions_setRun hi.regions _ _ _, ?_, ?_⟩
  · intro h hh
    rcases List.mem_cons.mp hh with rfl | hh
    · refine ⟨_, ?_, k, hnew⟩
      rw [setRun_eq_map]
      exact List.mem_map_of_mem hb
    · exact runs_setRun_true hi _ _ h hh
  · refine List.pairwise_cons.mpr ⟨?_, hi.excl⟩
    intro h hh
    obtain ⟨c, hc, l, hr⟩ := hi.runs h hh
    by_cases hcb : c = b
    · subst hcb
      exact hsame l l h hr
    · -- a run of another block: compare it with the new run of `b`, marked or not
      have hb' := blockWF_setRun hwf (b.start + smallPageSize * k) n true
      have hd : RegionsDisjoint (b.setRun (b.start + smallPageSize * k) n true) c := by
        obtain ⟨_, h2, h3⟩ := setRun_shape b (b.start + smallPageSize * k) n true
        have h0 := hi.regions.forall hb hc (fun he => hcb he.symm)
        unfold RegionsDisjoint Pageblock.regionEnd at *
        rw [h2, h3]
        exact h0
      exact runs_of_blocks hb' (hi.wf c hc) hd hnew hr

/--
**Taking a run back.** Only the pages of the returned allocation lose their bits,
and no other allocation has any of them.
-/
theorem release {w : PageWorld} (hi : PageInv w) {h : Nat × Nat} (hh : h ∈ w.held) :
    PageInv ⟨setRun h.1 h.2 false w.pages, w.held.erase h⟩ := by
  obtain ⟨b, hb, k, hr⟩ := hi.runs h hh
  have hwf := hi.wf b hb
  refine ⟨wf_setRun hi.wf _ _ _, regions_setRun hi.regions _ _ _, ?_,
    hi.excl.sublist (List.erase_sublist ..)⟩
  intro g hg
  obtain ⟨c, hc, l, hr'⟩ := hi.runs g (List.mem_of_mem_erase hg)
  have hwc := hi.wf c hc
  have hdisj : ∀ x ∈ pageNumbers h, x ∉ pageNumbers g := by
    have hperm := List.perm_cons_erase hh
    have hsymm : ∀ {a d : Nat × Nat}, (∀ x ∈ pageNumbers a, x ∉ pageNumbers d) →
        ∀ x ∈ pageNumbers d, x ∉ pageNumbers a := fun had x hx hx' => had x hx' hx
    have hp : (h :: w.held.erase h).Pairwise (fun a d => ∀ x ∈ pageNumbers a, x ∉ pageNumbers d) :=
      (hperm.pairwise_iff hsymm).mp hi.excl
    exact (List.pairwise_cons.mp hp).1 g hg
  refine ⟨c.setRun h.1 h.2 false, ?_, l, hr'.setRun (fun j hj h128 => ?_)⟩
  · rw [setRun_eq_map]
    exact List.mem_map_of_mem hc
  · rw [setRun_miss c h.1 h.2 false ?_]
    · exact hr'.used j hj h128
    intro i hin hcov hoff
    rw [hr.page_eq hwf hin] at hcov hoff
    have hlast := hr.last
    have hcb : c = b := covers_unique hi.wf hi.regions hc hb hcov (covers_page hwf (by omega))
    subst hcb
    rw [offset_page] at hoff
    refine hdisj (c.start / smallPageSize + (k + i)) ?_ ?_
    · exact (hr.mem_pageNumbers hwf).mpr ⟨i, hin, rfl⟩
    · exact (hr'.mem_pageNumbers hwf).mpr ⟨j, hj, by rw [hoff]⟩

/-! ## One call at a time -/

theorem setRun_one (b : Pageblock) {page : Nat} (v : Bool) (h : u32 page = page) :
    b.setRun page 1 v = if b.covers page then b.setUsed (b.offset page) v else b := by
  simp [Pageblock.setRun, h]

theorem setRun_one_self {b : Pageblock} (h : BlockWF b) {k : Nat} (hk : k ≤ b.size) :
    b.setRun (b.start + smallPageSize * k) 1 true = b.setUsed k true := by
  rw [setRun_one b true (page_in_range h hk), if_pos (covers_page h hk), offset_page]

theorem setRun_one_other {b c : Pageblock} (hb : BlockWF b) (hc : BlockWF c)
    (hd : RegionsDisjoint b c) {k : Nat} (hk : k ≤ b.size) :
    c.setRun (b.start + smallPageSize * k) 1 true = c := by
  rw [setRun_one c true (page_in_range hb hk), if_neg]
  intro hcov
  have h1 := covers_region hb (covers_page hb hk)
  have h2 := covers_region hc hcov
  rcases hd with h | h <;> omega

/-- `usePage` hands out a clear page of a block, as a run of length one. -/
theorem usePage_some {p : Nat} :
    ∀ (ps : Pageblocks), (∀ b ∈ ps, BlockWF b) → ps.Pairwise RegionsDisjoint →
      (usePage ps).1 = some p →
      ∃ b ∈ ps, ∃ k < b.size, p = b.start + smallPageSize * k ∧ b.usedBit k = false
        ∧ (usePage ps).2 = setRun p 1 true ps
  | [], _, _, h => by simp [usePage] at h
  | c :: ps, hw, hr, h => by
      have hwc := hw c (List.mem_cons_self ..)
      have hws : ∀ b ∈ ps, BlockWF b := fun b hb => hw b (List.mem_cons_of_mem _ hb)
      obtain ⟨hcps, hrs⟩ := List.pairwise_cons.mp hr
      rw [usePage] at h ⊢
      -- a block that is passed over covers no page of the block it is in
      have hskip : (usePage ps).1 = some p →
          ∃ b ∈ c :: ps, ∃ k < b.size, p = b.start + smallPageSize * k ∧ b.usedBit k = false
            ∧ c :: (usePage ps).2 = setRun p 1 true (c :: ps) := by
        intro h'
        obtain ⟨b, hb, k, hk, hp, hbit, heq⟩ := usePage_some ps hws hrs h'
        refine ⟨b, List.mem_cons_of_mem _ hb, k, hk, hp, hbit, ?_⟩
        rw [heq, setRun_eq_map, setRun_eq_map, List.map_cons, hp,
          setRun_one_other (hws b hb) hwc (hcps b hb).symm (Nat.le_of_lt hk)]
      split
      · rename_i hlt
        rw [if_pos hlt] at h
        split
        · rename_i a ha
          rw [ha] at h
          simp only [Option.some.injEq] at h
          have hmem := List.mem_of_find?_eq_some ha
          have hclear := List.find?_some ha
          rw [getBit128_eq_zero] at hclear
          have hak : a < c.size := List.mem_range.mp hmem
          rw [page_in_range hwc (Nat.le_of_lt hak)] at h
          refine ⟨c, List.mem_cons_self .., a, hak, h.symm, by simpa using hclear, ?_⟩
          rw [setRun_eq_map, List.map_cons, ← h, setRun_one_self hwc (Nat.le_of_lt hak)]
          refine congrArg (c.setUsed a true :: ·) ?_
          refine (List.map_congr_left (fun e he => ?_)).trans (List.map_id' ps) |>.symm
          exact setRun_one_other hwc (hws e he) (hcps e he) (Nat.le_of_lt hak)
        · rename_i ha
          rw [ha] at h
          exact hskip h
      · rename_i hlt
        rw [if_neg hlt] at h
        exact hskip h

theorem usePage_none : ∀ (ps : Pageblocks), (usePage ps).1 = none → (usePage ps).2 = ps
  | [], _ => rfl
  | c :: ps, h => by
      rw [usePage] at h ⊢
      split
      · rename_i hlt
        rw [if_pos hlt] at h
        split
        · rename_i a ha
          rw [ha] at h
          exact absurd h (by simp)
        · rename_i ha
          rw [ha] at h
          exact congrArg (c :: ·) (usePage_none ps h)
      · rename_i hlt
        rw [if_neg hlt] at h
        exact congrArg (c :: ·) (usePage_none ps h)

/-- `useConsecutivePages` hands out a run of one block whose bits are clear. -/
theorem useConsecutivePages_some {w : PageWorld} (hi : PageInv w) {n alignment p : Nat}
    (h : (useConsecutivePages n alignment w.pages).1 = some p) :
    (useConsecutivePages n alignment w.pages).2 = setRun p n true w.pages
      ∧ ∃ b ∈ w.pages, ∃ k < b.size, p = b.start + smallPageSize * k ∧ k + n ≤ b.size + 1
        ∧ ∀ i < n, b.usedBit (k + i) = false := by
  unfold useConsecutivePages at h ⊢
  split at h
  · rename_i q hq
    simp only [Option.some.injEq] at h
    subst h
    refine ⟨rfl, ?_⟩
    obtain ⟨pre, b, post, hps, hb, _⟩ := List.findSome?_eq_some_iff.mp hq
    have hbm : b ∈ w.pages := by rw [hps]; simp
    unfold Pageblock.runStart at hb
    have hpred := List.find?_some hb
    obtain ⟨k, hk, hkq⟩ := List.mem_map.mp (List.mem_of_find?_eq_some hb)
    have hks : k < b.size := List.mem_range.mp hk
    rw [page_in_range (hi.wf b hbm) (Nat.le_of_lt hks)] at hkq
    subst hkq
    simp only [Bool.and_eq_true] at hpred
    obtain ⟨hlen, hclear⟩ := runFree_bits hi hbm hks hpred.2
    exact ⟨b, hbm, k, hks, rfl, hlen, hclear⟩
  · exact absurd h (by simp)

theorem useConsecutivePages_none {n alignment : Nat} {ps : Pageblocks}
    (h : (useConsecutivePages n alignment ps).1 = none) :
    (useConsecutivePages n alignment ps).2 = ps := by
  unfold useConsecutivePages at h ⊢
  split at h
  · exact absurd h (by simp)
  · rfl

/-! ## Page boundaries -/

theorem PageInv.blocksAligned {w : PageWorld} (hi : PageInv w) : BlocksAligned w.pages :=
  fun b hb => Nat.dvd_of_mod_eq_zero (hi.wf b hb).aligned

/-- The pages of a block are on page boundaries as its start is. -/
theorem page_dvd {b : Pageblock} (h : smallPageSize ∣ b.start) (a : Nat) :
    smallPageSize ∣ u32 (b.start + smallPageSize * a) := by
  unfold smallPageSize u32 at *
  omega

theorem usePage_dvd {p : Nat} : ∀ {ps : Pageblocks}, BlocksAligned ps →
    (usePage ps).1 = some p → smallPageSize ∣ p
  | [], _, h => nomatch h
  | c :: ps, hps, h => by
      have hskip : (usePage ps).1 = some p → smallPageSize ∣ p :=
        usePage_dvd fun b hb => hps b (List.mem_cons_of_mem _ hb)
      rw [usePage] at h
      split at h
      · split at h
        · obtain rfl := Option.some.inj h
          exact page_dvd (hps c (List.mem_cons_self ..)) _
        · exact hskip h
      · exact hskip h

/-- The run that is found starts on a page boundary, and at a multiple of the alignment. -/
theorem useConsecutivePages_dvd {n alignment p : Nat} {ps : Pageblocks}
    (h : (useConsecutivePages n alignment ps).1 = some p) :
    (BlocksAligned ps → smallPageSize ∣ p) ∧ pageMod p alignment = 0 := by
  unfold useConsecutivePages at h
  split at h
  · rename_i q hq
    obtain rfl := Option.some.inj h
    obtain ⟨b, hb, hrun⟩ := List.exists_of_findSome?_eq_some hq
    have hpred := List.find?_some hrun
    obtain ⟨a, _, rfl⟩ := List.mem_map.mp (List.mem_of_find?_eq_some hrun)
    rw [Bool.and_eq_true, beq_iff_eq] at hpred
    exact ⟨fun hps => page_dvd (hps b hb) a, hpred.1⟩
  · exact nomatch h

/-- Taking pages leaves the blocks where they are. -/
theorem usePage_starts : ∀ ps : Pageblocks,
    (usePage ps).2.map Pageblock.start = ps.map Pageblock.start
  | [] => rfl
  | c :: ps => by
      have ih := congrArg (c.start :: ·) (usePage_starts ps)
      rw [usePage]
      split
      · split
        · rfl
        · exact ih
      · exact ih

theorem useConsecutivePages_starts (n alignment : Nat) (ps : Pageblocks) :
    (useConsecutivePages n alignment ps).2.map Pageblock.start = ps.map Pageblock.start := by
  unfold useConsecutivePages
  split
  · show (setRun _ n true ps).map Pageblock.start = _
    rw [setRun_eq_map, List.map_map]
    exact List.map_congr_left fun b _ => (setRun_shape b _ n true).1
  · rfl

/-! ## New blocks -/

theorem pageInv_allocPageblock {w : PageWorld} (hi : PageInv w) {r n : Nat} (hn : n ≤ 128)
    (hf : Fresh w r n) : PageInv ⟨(allocPageblock r n w.pages).2, w.held⟩ := by
  unfold allocPageblock
  rw [if_neg (by omega)]
  split
  · exact hi
  · rename_i hr
    obtain ⟨hwrap, hdis⟩ := hf hr
    unfold addPageBlock
    split
    · exact hi
    · refine ⟨?_, ?_, ?_, hi.excl⟩
      · intro b hb
        rcases List.mem_append.mp hb with hb | hb
        · exact hi.wf b hb
        · rw [List.mem_singleton.mp hb]
          have hstart : r ≤ makeSmallPageAligned r ∧ makeSmallPageAligned r < r + smallPageSize
              ∧ makeSmallPageAligned r % smallPageSize = 0 := by
            unfold makeSmallPageAligned u32
            simp only [smallPageSize] at *
            split <;> omega
          exact ⟨hn, hwrap, ⟨hstart.1, hstart.2.1⟩, hstart.2.2⟩
      · refine List.pairwise_append.mpr ⟨hi.regions, by simp, ?_⟩
        intro b hb c hc
        rw [List.mem_singleton.mp hc]
        exact hdis b hb
      · intro h hh
        obtain ⟨b, hb, hrest⟩ := hi.runs h hh
        exact ⟨b, List.mem_append_left _ hb, hrest⟩

/-- Giving back a page is giving back a run of one. -/
theorem setPageUsedBit_eq {w : PageWorld} (hi : PageInv w) {p : Nat} (hp : (p, 1) ∈ w.held) :
    setPageUsedBit p false w.pages = setRun p 1 false w.pages := by
  obtain ⟨b, hb, k, hr⟩ := hi.runs _ hp
  have hpg := hr.page_eq (hi.wf b hb) (i := 0) Nat.one_pos
  have hpp : u32 (p + smallPageSize * 0) = p := hpg.trans hr.page.symm
  unfold setRun
  simp only [List.range_one, List.foldl_cons, List.foldl_nil]
  rw [hpp]

/-- A run handed out with any alignment keeps the invariant. -/
theorem pageInv_useConsecutivePages {w : PageWorld} (hi : PageInv w) {n : Nat} (alignment : Nat)
    (hn : 1 ≤ n) :
    PageInv ⟨(useConsecutivePages n alignment w.pages).2,
      ((useConsecutivePages n alignment w.pages).1.map (·, n)).toList ++ w.held⟩ := by
  cases hp : (useConsecutivePages n alignment w.pages).1 with
  | none =>
      rw [useConsecutivePages_none hp]
      exact hi
  | some p =>
      obtain ⟨heq, b, hb, k, hk, hpk, hlen, hclear⟩ := useConsecutivePages_some hi hp
      subst hpk
      rw [heq]
      exact grant hi hb hn hk hlen hclear

/-- **The invariant is preserved by every call.** -/
theorem pageInv_step {w w' : PageWorld} (hi : PageInv w) (hs : PageStep w w') : PageInv w' := by
  cases hs with
  | allocPageblock r n hn hf => exact pageInv_allocPageblock hi hn hf
  | usePage =>
      cases hp : (Memory.usePage w.pages).1 with
      | none =>
          rw [usePage_none w.pages hp]
          exact hi
      | some p =>
          obtain ⟨b, hb, k, hk, hpk, hbit, heq⟩ := usePage_some w.pages hi.wf hi.regions hp
          subst hpk
          rw [heq]
          refine grant hi hb (Nat.le_refl 1) hk (by omega) (fun i hin => ?_)
          have : i = 0 := by omega
          subst this
          exact hbit
  | useConsecutivePages n alignment hn _ => exact pageInv_useConsecutivePages hi alignment hn
  | setPageUsedBit p hp =>
      rw [setPageUsedBit_eq hi hp]
      exact release hi hp
  | freeConsecutivePages p n hp => exact release hi hp

theorem pageInv_reachable {w : PageWorld} (h : PageReachable w) : PageInv w := by
  induction h with
  | init => exact pageInv_init
  | tail _ hs ih => exact pageInv_step ih hs

/-- **Page ownership.** No run of the allocator ever hands one page to two holders. -/
theorem pages_exclusive {w : PageWorld} (h : PageReachable w) : PagesExclusive w :=
  (pageInv_reachable h).excl

/-- A block of two pages, the first taken by `usePage`, the second by a run of two. -/
def twoHolders : PageWorld :=
  let w : PageWorld := ⟨(allocPageblock 0x10000800 2 []).2, []⟩
  let w : PageWorld := ⟨(usePage w.pages).2, ((usePage w.pages).1.map (·, 1)).toList ++ w.held⟩
  ⟨(useConsecutivePages 2 1 w.pages).2,
    ((useConsecutivePages 2 1 w.pages).1.map (·, 2)).toList ++ w.held⟩

theorem pageReachable_twoHolders : PageReachable twoHolders := by
  refine .tail (.tail (.tail .init (.allocPageblock 0x10000800 2 (by omega) ?_)) .usePage)
    (.useConsecutivePages 2 1 (by omega) (by omega))
  exact fun _ => ⟨by decide, by simp [PageWorld.init]⟩

theorem pages_exclusive_twoHolders :
    twoHolders.held = [(0x10002000, 2), (0x10001000, 1)] ∧ PagesExclusive twoHolders :=
  ⟨by decide, pages_exclusive pageReachable_twoHolders⟩

end OSExt.Memory
