import OSExt.Memory.PageMarks

/-!
# What the page searches find

`usePage` and `useConsecutivePages` against the plain reading of the bitmaps: the first
page, in the order of the blocks, at which enough free pages start.

Both go wrong at the end of a block. The run search learns that a block is over only from
`isPageUsed`, whose range is inclusive: it looks at the bit behind the last page, and takes
a run that needs it. Such a run sets a bit that stands for no page, and from then on the
population count that `usePage` compares with the block's size is one too high.
-/

namespace OSExt.Memory

open Pageblock

/-! ## Calls on the block table -/

inductive PageCall where
  | allocPageblock (unaligned size : Nat)
  | usePage
  | useConsecutivePages (size alignment : Nat)
  | setPageUsedBit (page : Nat)
  | freeConsecutivePages (page size : Nat)
deriving DecidableEq, Repr

/-- Only holders free; blocks come from fresh memory; a run has at least one page. -/
def PageCall.Legal (w : PageWorld) : PageCall → Prop
  | .allocPageblock unaligned size => size ≤ 128 ∧ Fresh w unaligned size
  | .usePage => True
  | .useConsecutivePages size _ => 1 ≤ size
  | .setPageUsedBit page => (page, 1) ∈ w.held
  | .freeConsecutivePages page size => (page, size) ∈ w.held

def PageCall.run (w : PageWorld) : PageCall → PageWorld
  | .allocPageblock unaligned size => ⟨(Memory.allocPageblock unaligned size w.pages).2, w.held⟩
  | .usePage =>
      ⟨(Memory.usePage w.pages).2, ((Memory.usePage w.pages).1.map (·, 1)).toList ++ w.held⟩
  | .useConsecutivePages size alignment =>
      ⟨(Memory.useConsecutivePages size alignment w.pages).2,
        ((Memory.useConsecutivePages size alignment w.pages).1.map (·, size)).toList ++ w.held⟩
  | .setPageUsedBit page =>
      ⟨Memory.setPageUsedBit page false w.pages, w.held.erase (page, 1)⟩
  | .freeConsecutivePages page size =>
      ⟨Memory.freeConsecutivePages page size w.pages, w.held.erase (page, size)⟩

/-- Everything that calls can reach whose every step meets `P`. -/
inductive TableRun (P : PageWorld → PageCall → Prop) : PageWorld → Prop where
  | init : TableRun P PageWorld.init
  | call {w : PageWorld} (c : PageCall) : TableRun P w → c.Legal w → P w c → TableRun P (c.run w)

/-- No condition on the steps. -/
def AnyCall (_ : PageWorld) (_ : PageCall) : Prop := True

theorem TableRun.any {P : PageWorld → PageCall → Prop} {w : PageWorld} (h : TableRun P w) :
    TableRun AnyCall w := by
  induction h with
  | init => exact .init
  | call c _ hlegal _ ih => exact .call c ih hlegal trivial

theorem pageInv_call {w : PageWorld} (hi : PageInv w) {c : PageCall} (hc : c.Legal w) :
    PageInv (c.run w) := by
  cases c with
  | allocPageblock unaligned size => exact pageInv_allocPageblock hi hc.1 hc.2
  | usePage => exact pageInv_step hi .usePage
  | useConsecutivePages size alignment => exact pageInv_useConsecutivePages hi alignment hc
  | setPageUsedBit page => exact pageInv_step hi (.setPageUsedBit page hc)
  | freeConsecutivePages page size => exact pageInv_step hi (.freeConsecutivePages page size hc)

/-- The page table's invariant holds in every run. -/
theorem TableRun.pageInv {P : PageWorld → PageCall → Prop} {w : PageWorld} (h : TableRun P w) :
    PageInv w := by
  induction h with
  | init => exact pageInv_init
  | call c _ hlegal _ ih => exact pageInv_call ih hlegal

/-! ## The plain scan -/

/-- The places at which a run can start, in the order of the search. -/
def starts (ps : Pageblocks) : List (Pageblock × Nat) :=
  ps.flatMap fun b => (List.range b.size).map (b, ·)

/-- The address of a block's page. -/
def address (s : Pageblock × Nat) : Nat := u32 (s.1.start + smallPageSize * s.2)

/-- `n` free pages of the block, from an aligned one on. -/
def RunFits (n alignment : Nat) (s : Pageblock × Nat) : Bool :=
  pageMod (address s) alignment == 0 && decide (s.2 + n ≤ s.1.size) &&
    (List.range n).all fun i => !s.1.usedBit (s.2 + i)

def firstFit (n alignment : Nat) (ps : Pageblocks) : Option (Pageblock × Nat) :=
  (starts ps).find? (RunFits n alignment)

/--
The used bits of the `n` pages from `page` on are set in `ps'`, and nothing else has
changed: a bit stands for a page if it is below the size of its block.
-/
def Marked (page n : Nat) (ps ps' : Pageblocks) : Prop :=
  List.Forall₂ (fun b b' => SameBlock b b' ∧ ∀ j < 128,
    (b'.usedBit j = true ↔ b.usedBit j = true ∨
      j < b.size ∧ ∃ i < n, b.start + smallPageSize * j = page + smallPageSize * i)) ps ps'

/-! ## The bits the run search touches -/

/-- The block and the index of the bit that `isPageUsed` looks at. -/
def lookedAt (page : Nat) (ps : Pageblocks) : List (Pageblock × Nat) :=
  ((ps.find? fun b => b.covers page).map fun b => (b, b.offset page)).toList

/-- The bits that `setPageUsedBit` writes. -/
def writtenAt (page : Nat) (ps : Pageblocks) : List (Pageblock × Nat) :=
  (ps.filter fun b => b.covers page).map fun b => (b, b.offset page)

/-- The bits the inner loop looks at, for `m` more pages of the run: it stops at a used one. -/
def runLooks (page : Nat) (ps : Pageblocks) (i : Nat) : Nat → List (Pageblock × Nat)
  | 0 => []
  | m + 1 =>
      lookedAt (u32 (page + smallPageSize * i)) ps ++
        if isPageUsed (u32 (page + smallPageSize * i)) ps then [] else runLooks page ps (i + 1) m

/-- The bits the whole search uses, those it sets at its end among them. -/
def searchBits (n alignment : Nat) (ps : Pageblocks) : List Nat → List (Pageblock × Nat)
  | [] => []
  | page :: pages =>
      if pageMod page alignment = 0 then
        runLooks page ps 0 n ++
          if runFree page n ps then
            (List.range n).flatMap fun i => writtenAt (u32 (page + smallPageSize * i)) ps
          else searchBits n alignment ps pages
      else searchBits n alignment ps pages

/-- **What the run search is to do**: first fit, marked, inside the blocks' own pages. -/
structure SearchRight (n alignment : Nat) (ps : Pageblocks) : Prop where
  answer : (useConsecutivePages n alignment ps).1 = (firstFit n alignment ps).map address
  marks : ∀ s, firstFit n alignment ps = some s →
    Marked (address s) n ps (useConsecutivePages n alignment ps).2
  nothing : firstFit n alignment ps = none → (useConsecutivePages n alignment ps).2 = ps
  inside : ∀ x ∈ searchBits n alignment ps ((starts ps).map address), x.2 < x.1.size

/-- The rest of the block is free from here on, and too short. -/
def Overreaches (n alignment : Nat) (s : Pageblock × Nat) : Prop :=
  pageMod (address s) alignment = 0 ∧ s.1.size < s.2 + n ∧
    ∀ j, s.2 ≤ j → j < s.1.size → s.1.usedBit j = false

theorem mem_starts {s : Pageblock × Nat} {ps : Pageblocks} :
    s ∈ starts ps ↔ s.1 ∈ ps ∧ s.2 < s.1.size := by
  obtain ⟨b, k⟩ := s
  simp only [starts, List.mem_flatMap, List.mem_map, List.mem_range, Prod.mk.injEq]
  constructor
  · intro hgiven
    obtain ⟨c, hc, j, hj, rfl, rfl⟩ := hgiven
    exact ⟨hc, hj⟩
  · intro hgiven
    obtain ⟨hb, hk⟩ := hgiven
    exact ⟨b, hb, k, hk, rfl, rfl⟩

theorem runFits_iff {n alignment : Nat} {s : Pageblock × Nat} :
    RunFits n alignment s = true ↔ pageMod (address s) alignment = 0 ∧ s.2 + n ≤ s.1.size ∧
      ∀ i < n, s.1.usedBit (s.2 + i) = false := by
  simp [RunFits, and_assoc]

theorem not_overreaches_of_fits {s : Pageblock × Nat} {n alignment : Nat}
    (hf : RunFits n alignment s = true) : ¬ Overreaches n alignment s := by
  intro hgiven
  obtain ⟨-, hlt, -⟩ := hgiven
  obtain ⟨-, hlen, -⟩ := runFits_iff.mp hf
  omega

/-- The loops over the blocks and their pages are one pass over the starts. -/
theorem useConsecutivePages_eq (n alignment : Nat) (ps : Pageblocks) :
    (useConsecutivePages n alignment ps).1 = ((starts ps).find? fun s =>
      pageMod (address s) alignment == 0 && runFree (address s) n ps).map address := by
  have hfind : ps.findSome? (runStart ps n alignment) = ((starts ps).find? fun s =>
      pageMod (address s) alignment == 0 && runFree (address s) n ps).map address := by
    unfold runStart starts
    rw [List.find?_flatMap, List.map_findSome?]
    congr 1
    funext b
    rw [List.find?_map, Function.comp_apply, List.find?_map, Option.map_map]
    rfl
  rw [← hfind, useConsecutivePages]
  cases ps.findSome? (runStart ps n alignment) <;> rfl

section

variable {w : PageWorld} (hi : PageInv w)
include hi

theorem address_eq {s : Pageblock × Nat} (hs : s ∈ starts w.pages) :
    address s = s.1.start + smallPageSize * s.2 := by
  obtain ⟨hb, hk⟩ := mem_starts.mp hs
  exact page_in_range (hi.wf _ hb) (Nat.le_of_lt hk)

/-- A page of the inclusive range is looked up at its own bit. -/
theorem lookedAt_page {b : Pageblock} (hb : b ∈ w.pages) {k : Nat} (hk : k ≤ b.size) :
    lookedAt (b.start + smallPageSize * k) w.pages = [(b, k)] := by
  have hcov := covers_page (hi.wf b hb) hk
  unfold lookedAt
  cases hfind : w.pages.find? fun c => c.covers (b.start + smallPageSize * k) with
  | none => exact absurd hcov (List.find?_eq_none.mp hfind b hb)
  | some c =>
      have hc : c.covers (b.start + smallPageSize * k) = true := by
        simpa using List.find?_some hfind
      obtain rfl := covers_unique hi.wf hi.regions (List.mem_of_find?_eq_some hfind) hb hc hcov
      rw [Option.map_some, offset_page]
      rfl

theorem writtenAt_page {b : Pageblock} (hb : b ∈ w.pages) {k : Nat} (hk : k ≤ b.size) :
    ∀ x ∈ writtenAt (b.start + smallPageSize * k) w.pages, x = (b, k) := by
  intro x hx
  obtain ⟨c, hc, rfl⟩ := List.mem_map.mp hx
  obtain ⟨hc, hcov⟩ := List.mem_filter.mp hc
  obtain rfl := covers_unique hi.wf hi.regions hc hb hcov (covers_page (hi.wf b hb) hk)
  rw [offset_page]

/-! ## One start of the search -/

/-- A run is taken if its bits are clear and it ends at most one page behind the block. -/
theorem runFree_iff {b : Pageblock} (hb : b ∈ w.pages) {k n : Nat} (hk : k < b.size) :
    runFree (b.start + smallPageSize * k) n w.pages = true ↔
      k + n ≤ b.size + 1 ∧ ∀ i < n, b.usedBit (k + i) = false := by
  refine ⟨runFree_bits hi hb hk, fun ⟨hlen, hclear⟩ => ?_⟩
  refine List.all_eq_true.mpr fun i hin => ?_
  have hin := List.mem_range.mp hin
  rw [run_page (hi.wf b hb) (by omega), isPageUsed_page hi hb (by omega), hclear i hin]
  rfl

/--
The looks of the inner loop, from page `i` of the run on: an index at or behind the
block's size is reached exactly through free pages.
-/
theorem runLooks_inside {b : Pageblock} (hb : b ∈ w.pages) {k : Nat} (m : Nat) :
    ∀ i, k + i ≤ b.size →
      ((∀ x ∈ runLooks (b.start + smallPageSize * k) w.pages i m, x.2 < x.1.size) ↔
        ¬ (b.size < k + i + m ∧ ∀ j, k + i ≤ j → j < b.size → b.usedBit j = false)) := by
  induction m with
  | zero =>
      intro i hle
      refine iff_of_true (fun x hx => nomatch hx) ?_
      intro hgiven
      obtain ⟨hlt, -⟩ := hgiven
      omega
  | succ m ih =>
      intro i hle
      rw [runLooks, run_page (hi.wf b hb) (by omega), lookedAt_page hi hb hle,
        isPageUsed_page hi hb hle]
      simp only [List.mem_append, List.mem_singleton, or_imp, forall_and, forall_eq]
      rcases Nat.lt_or_eq_of_le hle with hlt | heq
      · cases hbit : b.usedBit (k + i) with
        | true =>
            -- a used page of the block ends the loop
            refine iff_of_true ⟨hlt, fun x hx => nomatch hx⟩ ?_
            intro hgiven
            obtain ⟨-, hclear⟩ := hgiven
            rw [hclear (k + i) (Nat.le_refl _) hlt] at hbit
            exact Bool.false_ne_true hbit
        | false =>
            rw [if_neg Bool.false_ne_true, ih (i + 1) (by omega), and_iff_right hlt]
            refine not_congr (and_congr (by omega) (forall_congr' fun j => ?_))
            constructor
            · intro h hj hjs
              rcases Nat.lt_or_eq_of_le hj with hj | rfl
              · exact h (by omega) hjs
              · exact hbit
            · exact fun h hj hjs => h (by omega) hjs
      · refine iff_of_false ?_ ?_
        · intro hgiven
          obtain ⟨hbad, -⟩ := hgiven
          exact absurd hbad (by rw [heq]; exact Nat.lt_irrefl _)
        · intro h
          exact h ⟨by omega, fun j hj hjs => absurd hjs (by omega)⟩

/-- One start of the search looks at bits of its block only, unless it overreaches. -/
theorem start_inside {s : Pageblock × Nat} (hs : s ∈ starts w.pages) {n alignment : Nat}
    (ha : pageMod (address s) alignment = 0) :
    (∀ x ∈ runLooks (address s) w.pages 0 n, x.2 < x.1.size) ↔ ¬ Overreaches n alignment s := by
  obtain ⟨hb, hk⟩ := mem_starts.mp hs
  rw [Overreaches, and_iff_right ha, address_eq hi hs,
    runLooks_inside hi hb n 0 (Nat.le_of_lt hk), Nat.add_zero]

/-- A start that does not overreach is taken exactly if the run fits. -/
theorem runFree_fits {s : Pageblock × Nat} (hs : s ∈ starts w.pages) {n alignment : Nat}
    (ha : pageMod (address s) alignment = 0) (ho : ¬ Overreaches n alignment s) :
    runFree (address s) n w.pages = RunFits n alignment s := by
  obtain ⟨hb, hk⟩ := mem_starts.mp hs
  rw [Bool.eq_iff_iff, runFits_iff, and_iff_right ha, address_eq hi hs, runFree_iff hi hb hk]
  constructor
  · intro hgiven
    obtain ⟨hlen, hclear⟩ := hgiven
    refine ⟨?_, hclear⟩
    by_contra hlt
    refine ho ⟨ha, by omega, fun j hj hjs => ?_⟩
    have hbit := hclear (j - s.2) (by omega)
    rwa [show s.2 + (j - s.2) = j by omega] at hbit
  · exact fun ⟨hlen, hclear⟩ => ⟨by omega, hclear⟩

/-- The bits that the search writes are those of the run it takes. -/
theorem written_inside {s : Pageblock × Nat} (hs : s ∈ starts w.pages) {n alignment : Nat}
    (hf : RunFits n alignment s = true) :
    ∀ x ∈ (List.range n).flatMap fun i => writtenAt (u32 (address s + smallPageSize * i)) w.pages,
      x.2 < x.1.size := by
  obtain ⟨hb, hk⟩ := mem_starts.mp hs
  obtain ⟨-, hlen, -⟩ := runFits_iff.mp hf
  intro x hx
  obtain ⟨i, hin, hx⟩ := List.mem_flatMap.mp hx
  have hin := List.mem_range.mp hin
  rw [address_eq hi hs, run_page (hi.wf _ hb) (by omega)] at hx
  obtain rfl := writtenAt_page hi hb (by omega) x hx
  show s.2 + i < s.1.size
  omega

/-! ## The whole search -/

/-- **The bits of the search** are bits of pages iff no start before the first fit overreaches. -/
theorem searchBits_inside (n alignment : Nat) (l : List (Pageblock × Nat))
    (hl : ∀ s ∈ l, s ∈ starts w.pages) :
    (∀ x ∈ searchBits n alignment w.pages (l.map address), x.2 < x.1.size) ↔
      ∀ s ∈ l.takeWhile (fun s => !RunFits n alignment s), ¬ Overreaches n alignment s := by
  induction l with
  | nil => exact iff_of_true (fun x hx => nomatch hx) (fun s hs => nomatch hs)
  | cons s l ih =>
      have hs := hl s (List.mem_cons_self ..)
      have ih := ih fun t ht => hl t (List.mem_cons_of_mem _ ht)
      rw [List.map_cons, searchBits, List.takeWhile_cons]
      by_cases ha : pageMod (address s) alignment = 0
      · rw [if_pos ha]
        simp only [List.mem_append, or_imp, forall_and, start_inside hi hs ha]
        cases hf : RunFits n alignment s with
        | true =>
            -- the search ends here, with the run it takes
            have ho := not_overreaches_of_fits hf
            rw [runFree_fits hi hs ha ho, hf, if_pos rfl]
            exact iff_of_true ⟨ho, written_inside hi hs hf⟩ (fun t ht => nomatch ht)
        | false =>
            simp only [Bool.not_false, if_true, List.forall_mem_cons]
            refine and_congr_right fun ho => ?_
            rw [runFree_fits hi hs ha ho, hf, if_neg Bool.false_ne_true]
            exact ih
      · rw [if_neg ha, ih]
        have hf : RunFits n alignment s = false :=
          Bool.eq_false_iff.mpr fun hf => ha (runFits_iff.mp hf).1
        simp only [hf, Bool.not_false, if_true, List.forall_mem_cons]
        exact ⟨fun h => ⟨fun ho => ha ho.1, h⟩, And.right⟩

/-- Where nothing overreaches, the search takes the first fit. -/
theorem find?_fits (n alignment : Nat) (l : List (Pageblock × Nat))
    (hl : ∀ s ∈ l, s ∈ starts w.pages)
    (ho : ∀ s ∈ l.takeWhile (fun s => !RunFits n alignment s), ¬ Overreaches n alignment s) :
    l.find? (fun s => pageMod (address s) alignment == 0 && runFree (address s) n w.pages) =
      l.find? (RunFits n alignment) := by
  induction l with
  | nil => rfl
  | cons s l ih =>
      have hs := hl s (List.mem_cons_self ..)
      rw [List.find?_cons, List.find?_cons]
      rw [List.takeWhile_cons] at ho
      cases hf : RunFits n alignment s with
      | true =>
          have ha := (runFits_iff.mp hf).1
          rw [runFree_fits hi hs ha (not_overreaches_of_fits hf), hf, ha]
          rfl
      | false =>
          simp only [hf, Bool.not_false, if_true, List.forall_mem_cons] at ho
          have hno : (pageMod (address s) alignment == 0 && runFree (address s) n w.pages) = false := by
            rw [Bool.eq_false_iff, ne_eq, Bool.and_eq_true, beq_iff_eq]
            intro hgiven
            obtain ⟨ha, hrun⟩ := hgiven
            rw [runFree_fits hi hs ha ho.1, hf] at hrun
            exact Bool.false_ne_true hrun
          rw [hno]
          exact ih (fun t ht => hl t (List.mem_cons_of_mem _ ht)) ho.2

/-- The bits that marking a fitting run sets. -/
theorem marked_setRun {s : Pageblock × Nat} (hs : s ∈ starts w.pages) {n : Nat}
    (hlen : s.2 + n ≤ s.1.size) :
    Marked (address s) n w.pages (setRun (address s) n true w.pages) := by
  obtain ⟨hb, hk⟩ := mem_starts.mp hs
  have hwf := hi.wf _ hb
  rw [setRun_eq_map, Marked, List.forall₂_map_right_iff, List.forall₂_same]
  refine fun c hc => ⟨sameBlock_setRun c _ n true, fun j hj => ?_⟩
  obtain ⟨hset, hkeep⟩ := usedBit_setRun c (address s, n) true hj
  have hhits : c.Hits (address s, n) j ↔
      j < c.size ∧ ∃ i < n, c.start + smallPageSize * j = address s + smallPageSize * i := by
    rw [address_eq hi hs]
    constructor
    · intro hgiven
      obtain ⟨i, hin, hcov, hoff⟩ := hgiven
      have hin : i < n := hin
      rw [run_page hwf (by omega)] at hcov hoff
      obtain rfl := covers_unique hi.wf hi.regions hc hb hcov (covers_page hwf (by omega))
      rw [offset_page] at hoff
      subst hoff
      exact ⟨by omega, i, hin, by rw [Nat.mul_add, Nat.add_assoc]⟩
    · intro hgiven
      obtain ⟨hjs, i, hin, heq⟩ := hgiven
      have hcov := covers_page (hi.wf c hc) (Nat.le_of_lt hjs)
      have hpage : s.1.start + smallPageSize * s.2 + smallPageSize * i =
          s.1.start + smallPageSize * (s.2 + i) := by rw [Nat.mul_add, Nat.add_assoc]
      refine ⟨i, hin, ?_, ?_⟩ <;> rw [run_page hwf (by omega), ← hpage, ← heq]
      · exact hcov
      · exact offset_page c j
  by_cases h : c.Hits (address s, n) j
  · exact iff_of_true (hset h) (Or.inr (hhits.mp h))
  · rw [hkeep h, ← hhits, or_iff_left h]

/--
**The run search** is right exactly if it meets no start that overreaches before the first
one that fits.
-/
theorem searchRight_of_inv (n alignment : Nat) :
    SearchRight n alignment w.pages ↔
      ∀ s ∈ (starts w.pages).takeWhile (fun s => !RunFits n alignment s),
        ¬ Overreaches n alignment s := by
  have hinside := searchBits_inside hi n alignment (starts w.pages) fun s hs => hs
  refine ⟨fun h => hinside.mp h.inside, fun ho => ?_⟩
  have hanswer : (useConsecutivePages n alignment w.pages).1 =
      (firstFit n alignment w.pages).map address := by
    rw [useConsecutivePages_eq, find?_fits hi n alignment _ (fun s hs => hs) ho]
    rfl
  refine ⟨hanswer, fun s hs => ?_, fun hnone => ?_, hinside.mpr ho⟩
  · have hmem := List.mem_of_find?_eq_some hs
    obtain ⟨-, hlen, -⟩ := runFits_iff.mp (List.find?_some hs)
    rw [hs, Option.map_some] at hanswer
    rw [(useConsecutivePages_some hi hanswer).1]
    exact marked_setRun hi hmem hlen
  · rw [hnone, Option.map_none] at hanswer
    exact useConsecutivePages_none hanswer

end

/-- **First fit**, in every state of the block table. -/
theorem searchRight_iff {w : PageWorld} (h : TableRun AnyCall w) (n alignment : Nat) :
    SearchRight n alignment w.pages ↔
      ∀ s ∈ (starts w.pages).takeWhile (fun s => !RunFits n alignment s),
        ¬ Overreaches n alignment s :=
  searchRight_of_inv h.pageInv n alignment

/-- A block of two pages, the first of them taken. -/
def firstTaken : PageWorld :=
  PageCall.run (PageCall.run .init (.allocPageblock 0x10000800 2)) .usePage

theorem tableRun_firstTaken {P : PageWorld → PageCall → Prop}
    (halloc : P .init (.allocPageblock 0x10000800 2))
    (huse : P (PageCall.run .init (.allocPageblock 0x10000800 2)) .usePage) :
    TableRun P firstTaken :=
  .call _ (.call _ .init ⟨by decide, fun _ => ⟨by decide, by simp [PageWorld.init]⟩⟩ halloc)
    trivial huse

theorem searchRight_firstTaken :
    SearchRight 1 0 firstTaken.pages ↔
      ∀ s ∈ (starts firstTaken.pages).takeWhile (fun s => !RunFits 1 0 s), ¬ Overreaches 1 0 s :=
  searchRight_iff (tableRun_firstTaken trivial trivial) 1 0

/-- One page is free in the block, and a run of two is handed out. -/
theorem firstTaken_overrun :
    (useConsecutivePages 2 0 firstTaken.pages).1 = some 0x10002000 ∧
      firstFit 2 0 firstTaken.pages = none := by
  decide +kernel

theorem search_overreaches :
    ¬ ∀ w, TableRun AnyCall w → ∀ n alignment, 1 ≤ n → SearchRight n alignment w.pages := by
  intro h
  have hright := h firstTaken (tableRun_firstTaken trivial trivial) 2 0 (by omega)
  have hanswer := hright.answer
  rw [firstTaken_overrun.1, firstTaken_overrun.2] at hanswer
  exact absurd hanswer (by simp)

/-! ## The population count -/

/-- What `usePage` compares with the size of the block. -/
def Pageblock.ones (b : Pageblock) : Nat := popcountll b.used + popcountll b.used2

/-- The lowest free page of the first block that has one. -/
def firstFree (ps : Pageblocks) : Option (Pageblock × Nat) :=
  (starts ps).find? fun s => !s.1.usedBit s.2

/-- **What `usePage` is to do**: the first free page, marked. -/
structure UsePageRight (ps : Pageblocks) : Prop where
  null : (usePage ps).1 = none ↔ ∀ b ∈ ps, ∀ k < b.size, b.usedBit k = true
  answer : (usePage ps).1 = (firstFree ps).map address
  marks : ∀ s, firstFree ps = some s → Marked (address s) 1 ps (usePage ps).2
  nothing : firstFree ps = none → (usePage ps).2 = ps

/-- In the first block with a free page fewer bits are set than the block has pages. -/
def CountsRight (ps : Pageblocks) : Prop := ∀ s, firstFree ps = some s → s.1.ones < s.1.size

/-- No bit stands for a page that the block does not have. -/
def NoStray (ps : Pageblocks) : Prop :=
  ∀ b ∈ ps, ∀ j, b.size ≤ j → j < 128 → b.usedBit j = false

/-- The number of set bits. -/
theorem ones_eq (b : Pageblock) : b.ones = ((List.range 128).filter b.usedBit).length := by
  have hsplit : List.range 128 = List.range 64 ++ (List.range 64).map (64 + ·) := by decide
  rw [hsplit, List.filter_append, List.length_append, List.filter_map, List.length_map]
  have hlow : (List.range 64).filter b.usedBit =
      (List.range 64).filter fun i => b.used.getLsbD i :=
    List.filter_congr fun i hi => by rw [usedBit, if_pos (List.mem_range.mp hi)]
  have hhigh : (List.range 64).filter (b.usedBit ∘ (64 + ·)) =
      (List.range 64).filter fun i => b.used2.getLsbD i :=
    List.filter_congr fun i _ => by
      rw [Function.comp_apply, usedBit, if_neg (by omega), Nat.add_sub_cancel_left]
  rw [hlow, hhigh]
  rfl

/-- The pages of a block and the bits behind them. -/
theorem ones_split {b : Pageblock} (hb : b.size ≤ 128) :
    b.ones = ((List.range b.size).filter b.usedBit).length +
      ((List.range (128 - b.size)).filter fun i => b.usedBit (b.size + i)).length := by
  have hsplit : List.range 128 =
      List.range b.size ++ (List.range (128 - b.size)).map (b.size + ·) := by
    rw [← List.range_add]
    congr 1
    omega
  rw [ones_eq, hsplit, List.filter_append, List.length_append, List.filter_map, List.length_map]
  rfl

/-- A full block is never searched. -/
theorem size_le_ones {b : Pageblock} (hb : b.size ≤ 128)
    (hfull : ∀ k < b.size, b.usedBit k = true) : b.size ≤ b.ones := by
  have hall : (List.range b.size).filter b.usedBit = List.range b.size :=
    List.filter_eq_self.mpr fun k hk => hfull k (List.mem_range.mp hk)
  rw [ones_split hb, hall, List.length_range]
  omega

/-- Without stray bits a block with a free page is searched. -/
theorem ones_lt_size {b : Pageblock} (hb : b.size ≤ 128)
    (hstray : ∀ j, b.size ≤ j → j < 128 → b.usedBit j = false) {k : Nat} (hk : k < b.size)
    (hfree : b.usedBit k = false) : b.ones < b.size := by
  have hnone : ((List.range (128 - b.size)).filter fun i => b.usedBit (b.size + i)) = [] := by
    refine List.filter_eq_nil_iff.mpr fun i hi => ?_
    have hi := List.mem_range.mp hi
    rw [hstray _ (by omega) (by omega)]
    exact Bool.false_ne_true
  have hlt : ((List.range b.size).filter b.usedBit).length < (List.range b.size).length :=
    List.length_filter_lt_length_iff_exists.mpr
      ⟨k, List.mem_range.mpr hk, by rw [hfree]; exact Bool.false_ne_true⟩
  rw [List.length_range] at hlt
  rw [ones_split hb, hnone]
  exact hlt

theorem firstFree_cons (b : Pageblock) (ps : Pageblocks) :
    firstFree (b :: ps) = (b.firstFree.map (b, ·)).or (firstFree ps) := by
  have hpred : (fun a => getBit128 b.used b.used2 a == 0#64) = fun a => !b.usedBit a :=
    funext (getBit128_eq_zero b)
  rw [firstFree, starts, List.flatMap_cons, List.find?_append, List.find?_map,
    Pageblock.firstFree, hpred]
  rfl

/-- Right counts make the scan of `usePage` the plain one. -/
theorem usePage_answer (ps : Pageblocks) (hc : CountsRight ps) :
    (usePage ps).1 = (firstFree ps).map address := by
  induction ps with
  | nil => rfl
  | cons b ps ih =>
      rw [usePage]
      cases hb : b.firstFree with
      | none =>
          have hrest : firstFree (b :: ps) = firstFree ps := by
            rw [firstFree_cons, hb]
            rfl
          have ih := ih fun s hs => hc s (hrest.trans hs)
          rw [hrest, ← ih]
          split <;> rfl
      | some k =>
          have hfirst : firstFree (b :: ps) = some (b, k) := by
            rw [firstFree_cons, hb]
            rfl
          have hones : popcountll b.used + popcountll b.used2 < b.size := hc _ hfirst
          rw [hfirst, if_pos hones]
          rfl

/-- A page that `usePage` hands out is of a block whose count is below its size. -/
theorem usePage_ones {p : Nat} (ps : Pageblocks) (h : (usePage ps).1 = some p) :
    ∃ s ∈ starts ps, address s = p ∧ s.1.ones < s.1.size := by
  induction ps with
  | nil => exact nomatch h
  | cons b ps ih =>
      have hrest : (usePage ps).1 = some p →
          ∃ s ∈ starts (b :: ps), address s = p ∧ s.1.ones < s.1.size := by
        intro h
        obtain ⟨s, hs, haddr, hlt⟩ := ih h
        obtain ⟨hmem, hk⟩ := mem_starts.mp hs
        exact ⟨s, mem_starts.mpr ⟨List.mem_cons_of_mem _ hmem, hk⟩, haddr, hlt⟩
      rw [usePage] at h
      split at h
      · rename_i hones
        cases hb : b.firstFree with
        | none =>
            rw [hb] at h
            exact hrest h
        | some k =>
            rw [hb] at h
            have hk := List.mem_range.mp (List.mem_of_find?_eq_some hb)
            exact ⟨(b, k), mem_starts.mpr ⟨List.mem_cons_self .., hk⟩, Option.some.inj h, hones⟩
      · exact hrest h

theorem firstFree_eq_none {ps : Pageblocks} :
    firstFree ps = none ↔ ∀ b ∈ ps, ∀ k < b.size, b.usedBit k = true := by
  rw [firstFree, List.find?_eq_none]
  constructor
  · intro h b hb k hk
    simpa using h (b, k) (mem_starts.mpr ⟨hb, hk⟩)
  · intro h s hs
    obtain ⟨hb, hk⟩ := mem_starts.mp hs
    simp [h s.1 hb s.2 hk]

/-- **`usePage`** is right exactly if the count of the first block with a free page is. -/
theorem usePageRight_iff {w : PageWorld} (hi : PageInv w) :
    UsePageRight w.pages ↔ CountsRight w.pages := by
  constructor
  · intro h s hs
    have hmem := List.mem_of_find?_eq_some hs
    have hanswer := h.answer
    rw [hs, Option.map_some] at hanswer
    obtain ⟨t, ht, haddr, hones⟩ := usePage_ones _ hanswer
    rw [address_eq hi ht, address_eq hi hmem] at haddr
    obtain ⟨hb, hk⟩ := mem_starts.mp hmem
    obtain ⟨hc, hl⟩ := mem_starts.mp ht
    have hcov := covers_page (hi.wf _ hc) (Nat.le_of_lt hl)
    rw [haddr] at hcov
    rw [covers_unique hi.wf hi.regions hb hc (covers_page (hi.wf _ hb) (Nat.le_of_lt hk)) hcov]
    exact hones
  · intro hc
    have hanswer := usePage_answer w.pages hc
    refine ⟨?_, hanswer, fun s hs => ?_, fun hnone => ?_⟩
    · rw [hanswer, Option.map_eq_none_iff, firstFree_eq_none]
    · have hmem := List.mem_of_find?_eq_some hs
      obtain ⟨-, hk⟩ := mem_starts.mp hmem
      rw [hs, Option.map_some] at hanswer
      obtain ⟨-, -, -, -, -, -, heq⟩ := usePage_some w.pages hi.wf hi.regions hanswer
      rw [heq]
      exact marked_setRun hi hmem hk
    · rw [hnone, Option.map_none] at hanswer
      exact usePage_none w.pages hanswer

/-! ## Runs without an overrun -/

/-- A free run that needs exactly the bit behind a block of fewer than 128 pages. -/
def Overruns (n alignment : Nat) (s : Pageblock × Nat) : Prop :=
  pageMod (address s) alignment = 0 ∧ s.2 + n = s.1.size + 1 ∧ s.1.size < 128 ∧
    ∀ i < n, s.1.usedBit (s.2 + i) = false

/-- No run search takes a run that reaches behind its block. -/
def StaysInside (w : PageWorld) : PageCall → Prop
  | .useConsecutivePages n alignment =>
      ∀ s ∈ (starts w.pages).takeWhile (fun s => !RunFits n alignment s), ¬ Overruns n alignment s
  | _ => True

theorem noStray_setRun {ps : Pageblocks} (h : NoStray ps) (page n : Nat) (v : Bool)
    (hhits : ∀ b ∈ ps, ∀ j, b.size ≤ j → j < 128 → b.Hits (page, n) j → v = false) :
    NoStray (setRun page n v ps) := by
  rw [setRun_eq_map]
  intro c hc j hj h128
  obtain ⟨b, hb, rfl⟩ := List.mem_map.mp hc
  rw [(sameBlock_setRun b page n v).size] at hj
  obtain ⟨hset, hkeep⟩ := usedBit_setRun b (page, n) v h128
  by_cases hhit : b.Hits (page, n) j
  · exact (hset hhit).trans (hhits b hb j hj h128 hhit)
  · exact (hkeep hhit).trans (h b hb j hj h128)

/-- The bits of a run that starts in a block. -/
theorem hits_run {w : PageWorld} (hi : PageInv w) {b c : Pageblock} (hb : b ∈ w.pages)
    (hc : c ∈ w.pages) {k n j : Nat} (hlen : k + n ≤ b.size + 1)
    (h : c.Hits (b.start + smallPageSize * k, n) j) : c = b ∧ j < k + n := by
  obtain ⟨i, hin, hcov, hoff⟩ := h
  have hin : i < n := hin
  rw [run_page (hi.wf b hb) (by omega)] at hcov hoff
  obtain rfl := covers_unique hi.wf hi.regions hc hb hcov (covers_page (hi.wf b hb) (by omega))
  rw [offset_page] at hoff
  exact ⟨rfl, by omega⟩

/-- Marking pages of a block leaves no stray bit, and neither does the bitless page 128. -/
theorem noStray_mark {w : PageWorld} (hi : PageInv w) (h : NoStray w.pages) {s : Pageblock × Nat}
    (hs : s ∈ starts w.pages) {n : Nat} (hlen : s.2 + n ≤ s.1.size + 1)
    (hend : s.2 + n ≤ s.1.size ∨ 128 ≤ s.1.size) :
    NoStray (setRun (address s) n true w.pages) := by
  rw [address_eq hi hs]
  refine noStray_setRun h _ n true fun c hc j hj h128 hhit => ?_
  obtain ⟨rfl, hlt⟩ := hits_run hi (mem_starts.mp hs).1 hc hlen hhit
  omega

/-- The run that a search takes fits, or overruns its block. -/
theorem search_takes {w : PageWorld} (hi : PageInv w) {n alignment p : Nat}
    (h : (useConsecutivePages n alignment w.pages).1 = some p) :
    ∃ s ∈ starts w.pages, address s = p ∧ s.2 + n ≤ s.1.size + 1 ∧
      (s.2 + n ≤ s.1.size ∨ 128 ≤ s.1.size ∨
        s ∈ (starts w.pages).takeWhile (fun s => !RunFits n alignment s) ∧
          Overruns n alignment s) := by
  rw [useConsecutivePages_eq, Option.map_eq_some_iff] at h
  obtain ⟨s, hs, haddr⟩ := h
  obtain ⟨htakes, pre, post, hsplit, hpre⟩ := List.find?_eq_some_iff_append.mp hs
  have hmem : s ∈ starts w.pages := List.mem_of_find?_eq_some hs
  rw [Bool.and_eq_true, beq_iff_eq, address_eq hi hmem,
    runFree_iff hi (mem_starts.mp hmem).1 (mem_starts.mp hmem).2, ← address_eq hi hmem] at htakes
  obtain ⟨ha, hlen, hclear⟩ := htakes
  refine ⟨s, hmem, haddr, hlen, ?_⟩
  by_cases hin : s.2 + n ≤ s.1.size
  · exact .inl hin
  by_cases h128 : 128 ≤ s.1.size
  · exact .inr (.inl h128)
  refine .inr (.inr ⟨?_, ha, by omega, by omega, hclear⟩)
  -- a start before it that fits would have been taken
  rw [hsplit, List.takeWhile_append_of_pos]
  · have hfit : RunFits n alignment s = false :=
      Bool.eq_false_iff.mpr fun hf => hin (runFits_iff.mp hf).2.1
    rw [List.takeWhile_cons, hfit]
    exact List.mem_append_right _ (List.mem_cons_self ..)
  · intro t ht
    have htmem : t ∈ starts w.pages := by
      rw [hsplit]
      exact List.mem_append_left _ ht
    rw [Bool.not_eq_true', Bool.eq_false_iff]
    intro hf
    obtain ⟨hta, htlen, htclear⟩ := runFits_iff.mp hf
    have hno := hpre t ht
    rw [Bool.not_eq_true', Bool.and_eq_false_iff, beq_eq_false_iff_ne] at hno
    rcases hno with hno | hno
    · exact hno hta
    · rw [address_eq hi htmem, Bool.eq_false_iff] at hno
      exact hno ((runFree_iff hi (mem_starts.mp htmem).1 (mem_starts.mp htmem).2).mpr
        ⟨by omega, htclear⟩)

/-- **Each call** that stays inside leaves no stray bit. -/
theorem noStray_call {w : PageWorld} (hi : PageInv w) (h : NoStray w.pages) {c : PageCall}
    (hc : c.Legal w) (hin : StaysInside w c) : NoStray (c.run w).pages := by
  cases c with
  | allocPageblock unaligned size =>
      show NoStray (allocPageblock unaligned size w.pages).2
      unfold allocPageblock addPageBlock
      split
      · exact h
      split
      · exact h
      split
      · exact h
      intro b hb j hj h128
      rcases List.mem_append.mp hb with hb | hb
      · exact h b hb j hj h128
      · rw [List.mem_singleton.mp hb]
        simp [usedBit]
  | usePage =>
      show NoStray (usePage w.pages).2
      cases hp : (usePage w.pages).1 with
      | none => rwa [usePage_none _ hp]
      | some p =>
          obtain ⟨b, hb, k, hk, rfl, -, heq⟩ := usePage_some w.pages hi.wf hi.regions hp
          have hs : (b, k) ∈ starts w.pages := mem_starts.mpr ⟨hb, hk⟩
          have haddr : address (b, k) = b.start + smallPageSize * k := address_eq hi hs
          rw [heq, ← haddr]
          exact noStray_mark hi h hs (Nat.succ_le_succ (Nat.le_of_lt hk)) (.inl hk)
  | useConsecutivePages n alignment =>
      show NoStray (useConsecutivePages n alignment w.pages).2
      cases hp : (useConsecutivePages n alignment w.pages).1 with
      | none => rwa [useConsecutivePages_none hp]
      | some p =>
          obtain ⟨s, hs, rfl, hlen, hend⟩ := search_takes hi hp
          rw [(useConsecutivePages_some hi hp).1]
          -- the run ends inside its block, at its end, or overreaches
          rcases hend with hend | hend | ⟨hbefore, hover⟩
          · exact noStray_mark hi h hs hlen (.inl hend)
          · exact noStray_mark hi h hs hlen (.inr hend)
          · exact absurd hover (hin s hbefore)
  | setPageUsedBit page =>
      show NoStray (setPageUsedBit page false w.pages)
      rw [setPageUsedBit_eq hi hc]
      exact noStray_setRun h page 1 false fun _ _ _ _ _ _ => rfl
  | freeConsecutivePages page n => exact noStray_setRun h page n false fun _ _ _ _ _ _ => rfl

/-- **In a run without overruns** no bit ever stands for a page that is not there. -/
theorem TableRun.noStray {w : PageWorld} (h : TableRun StaysInside w) : NoStray w.pages := by
  induction h with
  | init => exact fun b hb => nomatch hb
  | call c hrun hlegal hin ih => exact noStray_call hrun.pageInv ih hlegal hin

theorem countsRight_of_noStray {w : PageWorld} (hi : PageInv w) (h : NoStray w.pages) :
    CountsRight w.pages := by
  intro s hs
  obtain ⟨hb, hk⟩ := mem_starts.mp (List.mem_of_find?_eq_some hs)
  have hfree : s.1.usedBit s.2 = false := by simpa using List.find?_some hs
  exact ones_lt_size (hi.wf _ hb).size (h s.1 hb) hk hfree

/--
**The shortcut of `usePage`.** In each state it is right exactly if the count of the first
block with a free page is below the block's size, and this is so in every state of a run in
which no run search took a page behind its block.
-/
theorem usePage_shortcut {w : PageWorld} (h : TableRun AnyCall w) :
    (UsePageRight w.pages ↔ CountsRight w.pages) ∧
      (TableRun StaysInside w → UsePageRight w.pages) :=
  ⟨usePageRight_iff h.pageInv, fun hin =>
    (usePageRight_iff h.pageInv).mpr (countsRight_of_noStray h.pageInv hin.noStray)⟩

theorem usePage_shortcut_firstTaken :
    ((UsePageRight firstTaken.pages ↔ CountsRight firstTaken.pages) ∧
      (TableRun StaysInside firstTaken → UsePageRight firstTaken.pages)) ∧
      UsePageRight firstTaken.pages := by
  have h := usePage_shortcut (tableRun_firstTaken (P := AnyCall) trivial trivial)
  exact ⟨h, h.2 (tableRun_firstTaken trivial trivial)⟩

/-- The overrun's bit stays when the first page is given back: two bits for two pages. -/
def strayBit : PageWorld :=
  PageCall.run (PageCall.run firstTaken (.useConsecutivePages 2 0)) (.setPageUsedBit 0x10001000)

theorem strayBit_skipped :
    (usePage strayBit.pages).1 = none ∧ (firstFree strayBit.pages).map address = some 0x10001000 := by
  decide +kernel

theorem usePage_skips : ¬ ∀ w, TableRun AnyCall w → UsePageRight w.pages := by
  intro h
  have hrun : TableRun AnyCall strayBit :=
    .call _ (.call _ (tableRun_firstTaken trivial trivial) (Nat.le_succ 1) trivial)
      (by show _ ∈ _; decide +kernel) trivial
  have hanswer := (h strayBit hrun).answer
  rw [strayBit_skipped.1, strayBit_skipped.2] at hanswer
  exact absurd hanswer (by simp)

end OSExt.Memory
