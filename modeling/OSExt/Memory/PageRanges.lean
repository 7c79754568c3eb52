import OSExt.Memory.PageOwnership

/-!
# Runs as ranges of bytes

A run that the page allocator gave is an aligned range of bytes that does not wrap, and
two runs that are held at the same time do not overlap. Alignment 0, which the loader
asks for, gives runs like any other.
-/

namespace OSExt.Memory

theorem u32_lt (n : Nat) : u32 n < 4294967296 := Nat.mod_lt n (by omega)

/-- `n` pages from `a` on, which end more than a page below the end of memory. -/
structure PageRange (a n : Nat) : Prop where
  pos : 1 ≤ n
  aligned : a % smallPageSize = 0
  below : a + n * smallPageSize + smallPageSize < 4294967296

/-- **A held run is a range of pages.** -/
theorem PageInv.range {w : PageWorld} (hi : PageInv w) {h : Nat × Nat} (hh : h ∈ w.held) :
    PageRange h.1 h.2 := by
  obtain ⟨b, hb, k, hr⟩ := hi.runs h hh
  have hwf := hi.wf b hb
  have haligned := hwf.aligned
  have hnowrap := hwf.nowrap
  have hstart := hwf.start
  have hlast := hr.last
  refine ⟨hr.pos, ?_, ?_⟩
  · rw [hr.page, Nat.add_mul_mod_self_left]
    exact haligned
  · rw [hr.page]
    simp only [Pageblock.regionEnd, smallPageSize] at *
    omega

theorem PageRange.page {a n : Nat} (h : PageRange a n) {i : Nat} (hi : i < n) :
    u32 (a + smallPageSize * i) / smallPageSize = a / smallPageSize + i := by
  have hbelow := h.below
  rw [u32_of_lt, Nat.add_mul_div_left _ _ (by decide)]
  simp only [smallPageSize] at *
  omega

/-- Ranges without a common page do not overlap. -/
theorem PageRange.apart {a n b k : Nat} (ha : PageRange a n) (hb : PageRange b k)
    (hdisj : ∀ x ∈ pageNumbers (a, n), x ∉ pageNumbers (b, k)) :
    a + n * smallPageSize ≤ b ∨ b + k * smallPageSize ≤ a := by
  have hpa := ha.pos
  have hpb := hb.pos
  have haa := ha.aligned
  have hab := hb.aligned
  by_contra hmeet
  -- the later of the two first pages belongs to both
  obtain ⟨i, hin, j, hjk, hij⟩ : ∃ i < n, ∃ j < k,
      a / smallPageSize + i = b / smallPageSize + j := by
    by_cases hle : a ≤ b
    · refine ⟨b / smallPageSize - a / smallPageSize, ?_, 0, by omega, ?_⟩ <;>
        simp only [smallPageSize] at * <;> omega
    · refine ⟨0, by omega, a / smallPageSize - b / smallPageSize, ?_, ?_⟩ <;>
        simp only [smallPageSize] at * <;> omega
  refine hdisj (a / smallPageSize + i) ?_ ?_
  · exact mem_pageNumbers.mpr ⟨i, hin, ha.page hin⟩
  · exact mem_pageNumbers.mpr ⟨j, hjk, (hb.page hjk).trans hij.symm⟩

/-- **A new run is disjoint from those held.** -/
theorem useConsecutivePages_apart {w : PageWorld} (hi : PageInv w) {n alignment p : Nat}
    (hn : 1 ≤ n) (h : (useConsecutivePages n alignment w.pages).1 = some p) :
    PageRange p n ∧ ∀ g ∈ w.held,
      p + n * smallPageSize ≤ g.1 ∨ g.1 + g.2 * smallPageSize ≤ p := by
  have hnew := pageInv_useConsecutivePages hi alignment hn
  rw [h] at hnew
  have hrange := hnew.range (h := (p, n)) (List.mem_cons_self ..)
  refine ⟨hrange, fun g hg => ?_⟩
  exact hrange.apart (hi.range hg) ((List.pairwise_cons.mp hnew.excl).1 g hg)

end OSExt.Memory
