import OSExt.Memory.PageTableLists
import OSExt.Memory.PhysicalMM

/-!
# The kernel's own pages at boot

`relocate_self` maps the copy of the kernel with temporary page tables, and
`initializeKernelSpace` migrates them section by section into tables of the kernel
heap. The two loops split the pages into sections on their own: the first fills
`kernel_size/4096+1` entries, the second copies 256 of them for a section and for
the last one what is left over, modulo 256. **Both map every page of the kernel
alike unless the last section is full**: of a full section nothing is copied.
-/

namespace OSExt.Memory

open Lib

def virtualBaseAddress : Nat := 0xe0100000

/-- What `relocate_self` works with: the kernel's size, and what the operating system's `malloc`
and `calloc` return, the latter a block of memory. -/
structure Relocation where
  kernelSize : Nat
  mallocedChunk : Nat
  initPdsUnaligned : Nat
  size_lt : kernelSize < 2 ^ 32
  calloc : initPdsUnaligned + (4 * (kernelSize / sectionSize + 1) * 256 + 16 + smallPageSize * 3) ≤
    0x100000000

/-- The address of a page of the kernel. -/
def pageAddress (i : Nat) : Word := BitVec.ofNat 32 (virtualBaseAddress + i * smallPageSize)

def sectionAddress (i : Nat) : Word := BitVec.ofNat 32 (virtualBaseAddress + sectionSize * i)

namespace Relocation

variable (r : Relocation)

def sections : Nat := r.kernelSize / sectionSize + 1

/-- `pages_left` -/
def pages : Nat := r.kernelSize / smallPageSize + 1

def aligned : Nat := makeSmallPageAligned r.mallocedChunk

def initPds : Nat := makeSmallPageAligned r.initPdsUnaligned

/-- The physical page that holds page `i` of the kernel. -/
def page (i : Nat) : Word := BitVec.ofNat 32 (r.aligned + i * smallPageSize)

/-- `init_pds[i] = newSPD(...)` for all pages -/
def fillInitPds (pageTable : Nat → Word) : Nat → Word :=
  (List.range r.pages).foldl (fun pageTable i =>
    Function.update pageTable (r.initPds + 4 * i) (newSPD 1 1 0b01010101#8 (r.page i))) pageTable

/-- `tt[(section+SECTION_SIZE*i)>>20] = newCPTD(0, init_pds+256*i)` for all sections -/
def mapInitPds (tt : Nat → Word) : Nat → Word :=
  (List.range r.sections).foldl (fun tt i =>
    Function.update tt (sectionAddress i >>> 20).toNat
      (newCPTD 0 (BitVec.ofNat 32 (r.initPds + 4 * (256 * i))))) tt

/-- The tables that `relocate_self` builds. -/
def relocateSelf (s : Spaces) : Spaces :=
  { s with
    kernel := { s.kernel with tt := r.mapInitPds s.kernel.tt }
    pageTable := r.fillInitPds s.pageTable }

/-- The pages `initializeKernelSpace` migrates of a section. -/
def sectionPages (i : Nat) : Nat := if i = r.sections - 1 then r.pages % 256 else 256

/-- The first `n` turns of the migration loop in `initializeKernelSpace`. -/
def migrateSections (news : Nat → NewTable) : Nat → Spaces → Except Stop Spaces
  | 0, s => .ok s
  | n + 1, s => do
    let s ← migrateSections news n s
    s.migrateKernelCPT (sectionAddress n) (fun j => s.pageTable (r.initPds + 4 * (256 * n + j)))
      (r.sectionPages n) (news n)

end Relocation

/-- `initializeKernelSpace` empties the kernel's lists. -/
def Spaces.clearLists (s : Spaces) : Spaces :=
  { s with kernel := { s.kernel with cptds := [], cpts := [] } }

/-! ## Places -/

theorem sectionIndex_sectionAddress (n : Nat) :
    sectionIndex (sectionAddress n) = (0xe01 + n) % 4096 := by
  unfold sectionIndex sectionAddress virtualBaseAddress sectionSize
  rw [BitVec.toNat_ofNat]
  omega

theorem sectionIndex_pageAddress (i : Nat) :
    sectionIndex (pageAddress i) = (0xe01 + i / 256) % 4096 := by
  unfold sectionIndex pageAddress virtualBaseAddress sectionSize smallPageSize
  rw [BitVec.toNat_ofNat]
  omega

theorem pageIndex_pageAddress (i : Nat) : (pageIndex (pageAddress i)).val = i % 256 := by
  show (pageAddress i).toNat / 4096 % 256 = i % 256
  unfold pageAddress virtualBaseAddress smallPageSize
  rw [BitVec.toNat_ofNat]
  omega

theorem sectionAddress_shift (n : Nat) :
    (sectionAddress n >>> 20).toNat = sectionIndex (sectionAddress n) := by
  rw [BitVec.toNat_ushiftRight, Nat.shiftRight_eq_div_pow]
  rfl

theorem sectionOf_sectionAddress (n : Nat) :
    sectionOf (sectionAddress n).toNat = (sectionAddress n).toNat := by
  unfold sectionOf sectionAddress virtualBaseAddress sectionSize
  rw [BitVec.toNat_ofNat]
  omega

theorem makeSmallPageAligned_mod (ptr : Nat) : makeSmallPageAligned ptr % 4096 = 0 := by
  unfold makeSmallPageAligned u32
  split <;> omega

theorem makeSmallPageAligned_le {ptr : Nat} (h : ptr + 4096 ≤ 0x100000000) :
    makeSmallPageAligned ptr ≤ ptr + 4095 := by
  unfold makeSmallPageAligned u32
  split <;> omega

/-- Loops that write one entry a turn, to places of their own. -/
theorem foldl_update_range {β : Type} (w : Nat → Nat) (v : Nat → β) (m : Nat → β) (n : Nat)
    (hw : ∀ i j, i < n → j < n → w i = w j → i = j) {i : Nat} (hi : i < n) :
    (List.range n).foldl (fun m i => Function.update m (w i) (v i)) m (w i) = v i := by
  induction n with
  | zero => omega
  | succ n ih =>
      rw [List.range_succ, List.foldl_append, List.foldl_cons, List.foldl_nil]
      by_cases hin : i = n
      · subst hin
        exact Function.update_self ..
      · have hne : w i ≠ w n := fun heq => hin (hw i n hi (by omega) heq)
        rw [Function.update_of_ne hne]
        exact ih (fun a c ha hc => hw a c (by omega) (by omega)) (by omega)

namespace Relocation

variable {r : Relocation} {s s' : Spaces} {n m i : Nat}

theorem sections_eq : r.sections = r.kernelSize / smallPageSize / 256 + 1 := by
  unfold sections sectionSize smallPageSize
  omega

theorem sections_le : r.sections ≤ 4096 := by
  have hsize := r.size_lt
  unfold sections sectionSize
  omega

theorem section_lt (hi : i < r.pages) : i / 256 < r.sections := by
  rw [sections_eq]
  unfold pages at hi
  omega

theorem page_aligned (i : Nat) : (r.page i).toNat % smallPageSize = 0 := by
  have haligned := makeSmallPageAligned_mod r.mallocedChunk
  rw [page, aligned, BitVec.toNat_ofNat]
  unfold smallPageSize
  omega

theorem initPds_aligned : r.initPds % 4096 = 0 := makeSmallPageAligned_mod _

/-- The temporary tables fit into memory. -/
theorem initPds_le : r.initPds + 1024 * r.sections ≤ 0x100000000 := by
  have hcalloc := r.calloc
  obtain ⟨size, hsize⟩ : ∃ size, size =
    4 * (r.kernelSize / sectionSize + 1) * 256 + 16 + smallPageSize * 3 := ⟨_, rfl⟩
  rw [← hsize] at hcalloc
  unfold smallPageSize at hsize
  have hle := makeSmallPageAligned_le (show r.initPdsUnaligned + 4096 ≤ 0x100000000 by omega)
  unfold initPds sections
  omega

/-- Different sections have different entries. -/
theorem index_inj (hn : n < r.sections) (hm : m < r.sections)
    (h : sectionIndex (sectionAddress n) = sectionIndex (sectionAddress m)) : n = m := by
  have hle := sections_le (r := r)
  rw [sectionIndex_sectionAddress, sectionIndex_sectionAddress] at h
  omega

/-! ## Sections as `relocate_self` leaves them -/

/-- Section `m` is mapped by the temporary tables. -/
structure Relocated (r : Relocation) (s : Spaces) (m : Nat) : Prop where
  entry : s.kernel.tt (sectionIndex (sectionAddress m)) =
    newCPTD 0 (BitVec.ofNat 32 (r.initPds + 4 * (256 * m)))
  pds : ∀ i < r.pages, i / 256 = m →
    s.pageTable (r.initPds + 4 * i) = newSPD 1 1 0b01010101#8 (r.page i)

/-- **`relocate_self` maps all sections.** -/
theorem relocated_relocateSelf (s : Spaces) (hm : m < r.sections) :
    r.Relocated (r.relocateSelf s) m where
  entry := by
    rw [← sectionAddress_shift]
    refine foldl_update_range (fun i => (sectionAddress i >>> 20).toNat) _ s.kernel.tt r.sections
      (fun i j hi hj h => ?_) hm
    rw [sectionAddress_shift, sectionAddress_shift] at h
    exact index_inj hi hj h
  pds i hi _ := foldl_update_range (fun i => r.initPds + 4 * i) _ s.pageTable r.pages
    (fun i j _ _ h => by omega) hi

theorem Relocated.dir (h : r.Relocated s m) (hm : m < r.sections) :
    (s.walk s.kernel).dir (sectionIndex (sectionAddress m)) = .inr (r.initPds / 1024 + m) := by
  have hfits := initPds_le (r := r)
  have haligned := initPds_aligned (r := r)
  have hlow := newCPTD_low 0 (BitVec.ofNat 32 (r.initPds + 4 * (256 * m)))
  have hcoarse := (and_three _ 1 (by omega)).mpr hlow
  show (if s.kernel.tt _ &&& 0b11#32 = 0b01#32 then _ else _) = _
  rw [h.entry, if_pos hcoarse, newCPTD_table, BitVec.toNat_ofNat]
  congr 1
  omega

/-- **Through the temporary tables** each page of the kernel is found. -/
theorem Relocated.lookup (h : r.Relocated s (i / 256)) (hi : i < r.pages) :
    s.lookup s.kernel (pageAddress i) = r.page i := by
  have haligned := initPds_aligned (r := r)
  have hdir := h.dir (section_lt hi)
  rw [sectionIndex_sectionAddress, ← sectionIndex_pageAddress] at hdir
  have hword : 1024 * (r.initPds / 1024 + i / 256) + 4 * (pageIndex (pageAddress i)).val =
      r.initPds + 4 * i := by
    rw [pageIndex_pageAddress]
    omega
  have hentry : (s.walk s.kernel).mem (r.initPds / 1024 + i / 256) (pageIndex (pageAddress i)) =
      newSPD 1 1 0b01010101#8 (r.page i) := by
    show s.pageTable _ = _
    rw [hword]
    exact h.pds i hi rfl
  rw [Spaces.lookup_eq, TwoLevel.lookup_of_dir hdir, hentry,
    resolve_newSPD 1 1 0b01010101#8 (page_aligned i), Spaces.offset_eq]
  have hoffset : (pageAddress i).toNat % smallPageSize = 0 := by
    unfold pageAddress virtualBaseAddress smallPageSize
    rw [BitVec.toNat_ofNat]
    omega
  rw [hoffset]
  exact BitVec.add_zero _

/-! ## The migration -/

/-- A heap that grows between `s` and `s'` leaves the kernel's own sections alone. -/
structure Leaves (r : Relocation) (s s' : Spaces) : Prop where
  lookup : ∀ i < r.pages,
    s'.lookup s'.kernel (pageAddress i) = s.lookup s.kernel (pageAddress i)
  entry : ∀ m < r.sections, s'.kernel.tt (sectionIndex (sectionAddress m)) =
    s.kernel.tt (sectionIndex (sectionAddress m))
  pds : ∀ i < r.pages, s'.pageTable (r.initPds + 4 * i) = s.pageTable (r.initPds + 4 * i)
  unlisted : ∀ m < r.sections, (sectionAddress m).toNat ∈ s'.kernel.cptds.map Prod.snd →
    (sectionAddress m).toNat ∈ s.kernel.cptds.map Prod.snd

/-- The requests of a migration give a page table that no entry names. -/
structure Ready (r : Relocation) (s : Spaces) (new : NewTable) : Prop where
  leaves : r.Leaves s (new.grow s)
  aligned : ((new.grow s).physical new.table.object).toNat % 1024 = 0
  fresh : ((new.grow s).walk (new.grow s).kernel).Fresh ((new.grow s).block new.table.object)

/-- **The first `n` sections are handed over**: of each the pages copied are mapped, and no
others; the sections after them are as `relocate_self` left them. -/
structure HandedOver (r : Relocation) (n : Nat) (s : Spaces) : Prop where
  migrated : ∀ i < r.pages, i / 256 < n → s.lookup s.kernel (pageAddress i) =
    if i % 256 < r.sectionPages (i / 256) then r.page i else 0
  waiting : ∀ m, n ≤ m → m < r.sections → r.Relocated s m
  unlisted : ∀ m, n ≤ m → m < r.sections →
    (sectionAddress m).toNat ∉ s.kernel.cptds.map Prod.snd

theorem Relocated.leaves (h : r.Relocated s m) (hm : m < r.sections) (hl : r.Leaves s s') :
    r.Relocated s' m where
  entry := by rw [hl.entry m hm, h.entry]
  pds i hi him := by rw [hl.pds i hi, h.pds i hi him]

theorem HandedOver.leaves (h : r.HandedOver n s) (hl : r.Leaves s s') : r.HandedOver n s' where
  migrated i hi hin := by rw [hl.lookup i hi, h.migrated i hi hin]
  waiting m hnm hm := (h.waiting m hnm hm).leaves hm hl
  unlisted m hnm hm hmem := h.unlisted m hnm hm (hl.unlisted m hm hmem)

theorem sectionPages_le (m : Nat) : r.sectionPages m ≤ 256 := by
  unfold sectionPages
  split <;> omega

/-- What a migration copies of the temporary table. -/
theorem resolve_copied (h : r.Relocated s (i / 256)) (hi : i < r.pages) :
    resolve (pageAddress i) (.inr (Spaces.copied
      (fun j => s.pageTable (r.initPds + 4 * (256 * (i / 256) + j)))
      (min (r.sectionPages (i / 256)) 256) (pageIndex (pageAddress i)))) =
      if i % 256 < r.sectionPages (i / 256) then r.page i else 0 := by
  have hmin := Nat.min_eq_left (sectionPages_le (r := r) (i / 256))
  have hplace : 256 * (i / 256) + i % 256 = i := Nat.div_add_mod i 256
  rw [hmin, Spaces.copied, pageIndex_pageAddress, hplace]
  by_cases hcopied : i % 256 < r.sectionPages (i / 256)
  · have hoffset : (pageAddress i).toNat % smallPageSize = 0 := by
      unfold pageAddress virtualBaseAddress smallPageSize
      rw [BitVec.toNat_ofNat]
      omega
    rw [if_pos hcopied, if_pos hcopied, h.pds i hi rfl,
      resolve_newSPD 1 1 0b01010101#8 (page_aligned i), Spaces.offset_eq, hoffset]
    exact BitVec.add_zero _
  · rw [if_neg hcopied, if_neg hcopied, resolve_zero]

/-- **One turn of the loop** hands over one section. -/
theorem handedOver_step {new : NewTable} (h : r.HandedOver n s) (hn : n < r.sections)
    (hready : r.Ready s new) : ∃ s', s.migrateKernelCPT (sectionAddress n)
        (fun j => s.pageTable (r.initPds + 4 * (256 * n + j))) (r.sectionPages n) new = .ok s' ∧
      r.HandedOver (n + 1) s' := by
  obtain ⟨source, hsource⟩ : ∃ source, source =
    fun j => s.pageTable (r.initPds + 4 * (256 * n + j)) := ⟨_, rfl⟩
  have hunlisted := h.unlisted n (Nat.le_refl n) hn
  rw [← sectionOf_sectionAddress] at hunlisted
  rw [← hsource]
  refine ⟨_, Spaces.migrateKernelCPT_unlisted source (r.sectionPages n) hunlisted, ?_⟩
  obtain ⟨s1, hs1⟩ : ∃ s1, s1 = new.grow s := ⟨_, rfl⟩
  have hspec := Spaces.addMigrated_spec (sectionOf (sectionAddress n).toNat) source
    (min (r.sectionPages n) 256) new s
  have hgrown := h.leaves hready.leaves
  have haligned := hready.aligned
  have hfresh := hready.fresh
  rw [← hs1] at hspec hgrown haligned hfresh
  obtain ⟨s2, hs2⟩ : ∃ s2, s2 = s.addMigrated (sectionOf (sectionAddress n).toNat) source
    (min (r.sectionPages n) 256) new := ⟨_, rfl⟩
  rw [← hs2] at hspec ⊢
  obtain ⟨hphys, hwalk⟩ := Spaces.copyTable_spec source haligned (hfresh _)
    (Nat.min_le_right (r.sectionPages n) 256)
  rw [← hspec.pageTable] at hwalk
  have hindex : sectionOf (sectionAddress n).toNat / sectionSize =
      sectionIndex (sectionAddress n) := Spaces.sectionOf_div _
  have hkernel := hspec.kernel
  rw [hphys, hindex] at hkernel
  have hlookup : ∀ x, s2.lookup s2.kernel x =
      if sectionIndex x = sectionIndex (sectionAddress n) then
        resolve x (.inr (Spaces.copied source (min (r.sectionPages n) 256) (pageIndex x)))
      else s1.lookup s1.kernel x := by
    intro x
    rw [Spaces.lookup, hkernel]
    exact Spaces.lookup_newTable (hfresh.only _) (hwalk _) x
  refine ⟨?_, ?_, ?_⟩
  · intro i hi hin
    rw [hlookup, sectionIndex_sectionAddress, sectionIndex_pageAddress]
    by_cases hsect : i / 256 = n
    · subst hsect
      rw [if_pos rfl, hsource]
      exact resolve_copied (h.waiting _ (Nat.le_refl _) hn) hi
    · have hlt := section_lt hi
      have hle := sections_le (r := r)
      rw [if_neg (by omega)]
      exact hgrown.migrated i hi (by omega)
  · intro m hnm hm
    have hold := hgrown.waiting m (by omega) hm
    have hne : sectionIndex (sectionAddress m) ≠ sectionIndex (sectionAddress n) := fun heq =>
      absurd (index_inj hm hn heq) (by omega)
    refine ⟨?_, fun i hi him => ?_⟩
    · rw [hkernel]
      exact (Function.update_of_ne hne _ _).trans hold.entry
    · -- the temporary table is named by its section's entry, the new table by none
      have hdir := hold.dir hm
      have hblock : r.initPds / 1024 + m ≠ s1.block new.table.object := by
        intro heq
        rw [heq] at hdir
        exact hfresh _ hdir
      have hinit := initPds_aligned (r := r)
      have hword : r.initPds + 4 * i =
          1024 * (r.initPds / 1024 + m) + 4 * (⟨i % 256, by omega⟩ : Fin 256).val := by
        show r.initPds + 4 * i = 1024 * (r.initPds / 1024 + m) + 4 * (i % 256)
        omega
      have hmem := congrFun (congrFun (congrArg TwoLevel.mem (hwalk s1.kernel.tt))
        (r.initPds / 1024 + m)) ⟨i % 256, by omega⟩
      rw [← hold.pds i hi him, hword]
      refine hmem.trans ?_
      simp [TwoLevel.fill, hblock, pageWalk]
  · intro m hnm hm
    rw [hkernel]
    intro hmem
    rcases List.mem_cons.mp hmem with heq | hmem
    · have hsame : sectionIndex (sectionAddress m) = sectionIndex (sectionAddress n) := by
        rw [sectionOf_sectionAddress] at heq
        rw [sectionIndex, heq]
        rfl
      exact absurd (index_inj hm hn hsame) (by omega)
    · exact hgrown.unlisted m (by omega) hm hmem

/-- **The whole loop**: every turn returns and hands over its section. -/
theorem handedOver_run {news : Nat → NewTable} (h : r.HandedOver 0 s) (hn : n ≤ r.sections)
    (hready : ∀ m < n, ∀ s', r.migrateSections news m s = .ok s' → r.Ready s' (news m)) :
    ∃ s', r.migrateSections news n s = .ok s' ∧ r.HandedOver n s' := by
  induction n with
  | zero => exact ⟨s, rfl, h⟩
  | succ n ih =>
      obtain ⟨s1, hrun, h1⟩ := ih (by omega) fun m hm => hready m (by omega)
      obtain ⟨s2, hstep, h2⟩ := handedOver_step h1 (by omega) (hready n (by omega) s1 hrun)
      refine ⟨s2, ?_, h2⟩
      rw [migrateSections, hrun]
      exact hstep

/-- Before the loop the kernel's lists are empty. -/
theorem handedOver_zero (hl : r.Leaves (r.relocateSelf s).clearLists s') : r.HandedOver 0 s' where
  migrated i _ hi := absurd hi (Nat.not_lt_zero _)
  waiting m _ hm := by
    have h := relocated_relocateSelf (r := r) s hm
    have hempty : r.Relocated (r.relocateSelf s).clearLists m := ⟨h.entry, h.pds⟩
    exact hempty.leaves hm hl
  unlisted m _ hm hmem := absurd (hl.unlisted m hm hmem) List.not_mem_nil

/-! ## The hand-over -/

/--
**The two mappings of the kernel's pages**: the loop of `initializeKernelSpace`
returns, and after it every page of the kernel is where `relocate_self` has put it
exactly when the number of whole pages is not 255 modulo 256, that is, when the last
section is not full.
-/
theorem kernelPages_handedOver_iff (r : Relocation) (s s1 : Spaces) (news : Nat → NewTable)
    (hleaves : r.Leaves (r.relocateSelf s).clearLists s1)
    (hready : ∀ n < r.sections, ∀ s', r.migrateSections news n s1 = .ok s' → r.Ready s' (news n)) :
    ∃ s2, r.migrateSections news r.sections s1 = .ok s2 ∧
      ((∀ i ≤ r.kernelSize / smallPageSize, s2.lookup s2.kernel (pageAddress i) =
          (r.relocateSelf s).lookup (r.relocateSelf s).kernel (pageAddress i)) ↔
        r.kernelSize / smallPageSize % 256 ≠ 255) := by
  obtain ⟨s2, hrun, h⟩ := handedOver_run (handedOver_zero hleaves) (Nat.le_refl _) hready
  have hbefore : ∀ i < r.pages, (r.relocateSelf s).lookup (r.relocateSelf s).kernel
      (pageAddress i) = r.page i := fun i hi =>
    (relocated_relocateSelf s (section_lt hi)).lookup hi
  have hafter : ∀ i < r.pages, s2.lookup s2.kernel (pageAddress i) =
      if i % 256 < r.sectionPages (i / 256) then r.page i else 0 := fun i hi =>
    h.migrated i hi (section_lt hi)
  have hsections := sections_eq (r := r)
  obtain ⟨k, hk⟩ : ∃ k, k = r.kernelSize / smallPageSize := ⟨_, rfl⟩
  have hpages : r.pages = k + 1 := by rw [hk, pages]
  rw [← hk] at hsections ⊢
  refine ⟨s2, hrun, fun hsame hfull => ?_, fun hpart i hi => ?_⟩
  · -- nothing of the last section is copied, and its pages are not all at 0
    have hlast : ∀ i ≤ k, i / 256 = k / 256 → (r.page i).toNat = 0 := by
      intro i hi hin
      have hcopied : r.sectionPages (i / 256) = 0 := by
        rw [sectionPages, if_pos (by omega), hpages]
        omega
      have hi2 := hsame i hi
      rw [hbefore i (by omega), hafter i (by omega), hcopied, if_neg (Nat.not_lt_zero _)] at hi2
      exact congrArg BitVec.toNat hi2.symm
    have hpage := hlast k (Nat.le_refl _) rfl
    have hnext := hlast (k - 1) (by omega) (by omega)
    rw [page, BitVec.toNat_ofNat] at hpage hnext
    unfold smallPageSize at hpage hnext
    omega
  · rw [hbefore i (by omega), hafter i (by omega), if_pos]
    rw [sectionPages, hpages]
    split <;> omega

/-! ## Kernels of one section -/

theorem Leaves.refl (r : Relocation) (s : Spaces) : r.Leaves s s :=
  ⟨fun _ _ => rfl, fun _ _ => rfl, fun _ _ => rfl, fun _ _ h => h⟩

/-- The table requested for a kernel of one section: the second in the heap. -/
def secondTable : NewTable := .quiet 0xe400206c 0xe4002074 0xe4003400

/-- The migration of a kernel of one section, after that of the heap. -/
theorem ready_heap (hone : r.sections = 1)
    (hphys : (r.relocateSelf Spaces.heapMigrated).physical 0xe4003400 = 0x13003400#32)
    (hpds : r.initPds / 1024 ≠ 0x13003400 / 1024) :
    ∀ n < r.sections, ∀ s', r.migrateSections (fun _ => secondTable) n
      (r.relocateSelf Spaces.heapMigrated) = .ok s' → r.Ready s' secondTable := by
  intro n hn s' hrun
  obtain rfl : n = 0 := by omega
  obtain rfl : r.relocateSelf Spaces.heapMigrated = s' := Except.ok.inj hrun
  have hquiet : secondTable.Quiet := NewTable.quiet_quiet _ _ _
  have hfits := initPds_le (r := r)
  refine ⟨?_, ?_, ?_⟩
  · rw [Spaces.grow_of_quiet hquiet]
    exact .refl r _
  · rw [Spaces.grow_of_quiet hquiet]
    show ((r.relocateSelf Spaces.heapMigrated).physical 0xe4003400).toNat % 1024 = 0
    rw [hphys]
    rfl
  · rw [Spaces.grow_of_quiet hquiet]
    show TwoLevel.Fresh _ ((r.relocateSelf Spaces.heapMigrated).block 0xe4003400)
    rw [Spaces.block, hphys]
    have hmap : r.mapInitPds Spaces.heapMigrated.kernel.tt = Function.update
        Spaces.heapMigrated.kernel.tt 0xe01 (newCPTD 0 (BitVec.ofNat 32 r.initPds)) := by
      rw [mapInitPds, hone]
      rfl
    intro n hn
    have hdir : (pageWalk (r.mapInitPds Spaces.heapMigrated.kernel.tt)
        (r.fillInitPds Spaces.heapMigrated.pageTable)).dir n = .inr (0x13003400 / 1024) := hn
    rw [hmap, pageWalk_attach, TwoLevel.dir_attach] at hdir
    by_cases hkernel : n = 0xe01
    · rw [if_pos hkernel, BitVec.toNat_ofNat] at hdir
      have hblock := Sum.inr.inj hdir
      omega
    · rw [if_neg hkernel] at hdir
      exact absurd (Spaces.heapMigrated_dir hdir).2 (by omega)

/-- The kernel's section is not that of the heap. -/
theorem leaves_heap (hone : r.sections = 1) : r.Leaves
    (r.relocateSelf Spaces.heapMigrated).clearLists (r.relocateSelf Spaces.heapMigrated) where
  lookup _ _ := rfl
  entry _ _ := rfl
  pds _ _ := rfl
  unlisted m hm hmem := by
    obtain rfl : m = 0 := by omega
    exact absurd (List.mem_singleton.mp hmem) (by decide)

/-- A kernel of 19 pages. -/
def smallKernel : Relocation := ⟨0x12345, 0x11800010, 0x11900010, by decide, by decide⟩

theorem kernelPages_handedOver_small : ∃ s2,
    smallKernel.migrateSections (fun _ => secondTable) 1
      (smallKernel.relocateSelf Spaces.heapMigrated) = .ok s2 ∧
    ∀ i ≤ 18, s2.lookup s2.kernel (pageAddress i) =
      (smallKernel.relocateSelf Spaces.heapMigrated).lookup
        (smallKernel.relocateSelf Spaces.heapMigrated).kernel (pageAddress i) := by
  obtain ⟨s2, hrun, hiff⟩ := kernelPages_handedOver_iff smallKernel Spaces.heapMigrated
    (smallKernel.relocateSelf Spaces.heapMigrated) (fun _ => secondTable) (leaves_heap rfl)
    (ready_heap rfl (by decide +kernel) (by decide))
  exact ⟨s2, hrun, hiff.mpr (by decide)⟩

/-- A kernel whose 256 pages fill its section. -/
def fullKernel : Relocation := ⟨0xff000, 0x11800010, 0x11a00010, by decide, by decide⟩

/-- **A full section is handed over empty.** -/
theorem fullKernel_unmapped : ∃ s2,
    fullKernel.migrateSections (fun _ => secondTable) 1
      (fullKernel.relocateSelf Spaces.heapMigrated) = .ok s2 ∧
    (fullKernel.relocateSelf Spaces.heapMigrated).lookup
      (fullKernel.relocateSelf Spaces.heapMigrated).kernel (pageAddress 0) = 0x11801000#32 ∧
    s2.lookup s2.kernel (pageAddress 0) = 0 := by
  obtain ⟨s2, hrun, h⟩ : ∃ s2, fullKernel.migrateSections (fun _ => secondTable) 1
      (fullKernel.relocateSelf Spaces.heapMigrated) = .ok s2 ∧ fullKernel.HandedOver 1 s2 :=
    handedOver_run (handedOver_zero (leaves_heap rfl)) (Nat.le_refl 1)
      (ready_heap (r := fullKernel) rfl (by decide +kernel) (by decide))
  refine ⟨s2, hrun, ?_, ?_⟩
  · exact (relocated_relocateSelf (r := fullKernel) Spaces.heapMigrated (m := 0)
      (by decide)).lookup (i := 0) (by decide)
  · exact (h.migrated 0 (by decide) (by decide)).trans (if_neg (by decide))

end Relocation

end OSExt.Memory
