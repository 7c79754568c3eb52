import OSExt.Memory.PageLookup
import OSExt.Memory.SlabPaths

/-!
# How growing extends the kernel's mappings

A heap page in a section that has a page table is mapped by writing its entry, before it
is handed to the virtual memory manager and once more when it is. The lists and the
translation table stay as they are, and no other lookup changes. A heap page in any other
section is looked up past the end of the translation table. So a call that grows caches,
however deep, either extends the heap's mappings or strays, and it does the one as long
as every page it takes is in a section with a page table.
-/

namespace OSExt.Memory

open Lib Libk

namespace Kernel

variable (k : Kernel)

/-- The kernel's address space as one of `Spaces`, without the others. -/
def spaces : Spaces where
  kernel := ⟨k.space.tt, k.space.cptds, k.space.cpts⟩
  space := fun _ => ⟨fun _ => 0, [], []⟩
  addressSpaces := []
  pageTable := k.space.pageTable

/-- `getPhysicalAddress(&kernel_space, address)` -/
def lookup (address : Word) : Word := getPhysicalAddress k.space.tt k.space.pageTable address

/-- The section of the address is on the list of sections with a page table. -/
def Tracked (va : Nat) : Prop := sectionOf va ∈ k.space.cptds.map Prod.snd

theorem lookup_writeTable (table i : Nat) (w : Word) :
    (k.writeTable table i w).lookup =
      (k.spaces.writeTable table i w).lookup k.spaces.kernel := rfl

/-- `n` pages from `va` on are mapped to the block at `page`. -/
def Placed (va n page : Nat) : Prop :=
  ∀ o < n * smallPageSize, k.lookup (BitVec.ofNat 32 (va + o)) = BitVec.ofNat 32 (page + o)

/-- The pages from `lo` to `hi` are mapped to these runs of pages, one behind the other. -/
def Backed : Nat → List (Nat × Nat) → Nat → Prop
  | lo, [], hi => lo = hi
  | lo, r :: runs, hi => k.Placed lo r.2 r.1 ∧ Backed (lo + r.2 * smallPageSize) runs hi

end Kernel

/-- The kernel's page tables are in order and lie below `b`. -/
structure TablesBelow (b : Nat) (k : Kernel) : Prop where
  agrees : k.spaces.Agrees k.spaces.kernel
  sections : ∀ d ∈ k.space.cptds, d.2 < 4294967296
  tables : ∀ t ∈ k.space.cpts, t.2 ≠ 0 ∧ t.2 < b

/-- Entries of the pages from `lo` to `hi` were written, in page tables that were there. -/
structure Rewritten (lo hi : Nat) (k k' : Kernel) : Prop where
  tt : k'.space.tt = k.space.tt
  cptds : k'.space.cptds = k.space.cptds
  cpts : k'.space.cpts = k.space.cpts
  strays : k'.strays = k.strays
  lookup : ∀ x : Word, ¬ (lo ≤ x.toNat ∧ x.toNat < hi) → k'.lookup x = k.lookup x

section

variable {k k1 k2 k' : Kernel} {b va lo hi n m page : Nat}

namespace Rewritten

theorem of_space (hspace : k'.space = k.space) (hstrays : k'.strays = k.strays) :
    Rewritten lo hi k k' := by
  refine ⟨by rw [hspace], by rw [hspace], by rw [hspace], hstrays, fun x _ => ?_⟩
  unfold Kernel.lookup
  rw [hspace]

theorem trans (h : Rewritten lo hi k k1) (h' : Rewritten lo hi k1 k2) : Rewritten lo hi k k2 :=
  ⟨h'.tt.trans h.tt, h'.cptds.trans h.cptds, h'.cpts.trans h.cpts, h'.strays.trans h.strays,
    fun x hx => (h'.lookup x hx).trans (h.lookup x hx)⟩

theorem mono {lo' hi' : Nat} (h : Rewritten lo hi k k') (hlo : lo' ≤ lo) (hhi : hi ≤ hi') :
    Rewritten lo' hi' k k' :=
  ⟨h.tt, h.cptds, h.cpts, h.strays, fun x hx => h.lookup x (by omega)⟩

theorem tracked (h : Rewritten lo hi k k') : k'.Tracked va ↔ k.Tracked va := by
  unfold Kernel.Tracked
  rw [h.cptds]

end Rewritten

theorem TablesBelow.mono {b' : Nat} (h : TablesBelow b k) (hb : b ≤ b') : TablesBelow b' k :=
  ⟨h.agrees, h.sections, fun t ht => ⟨(h.tables t ht).1, Nat.lt_of_lt_of_le (h.tables t ht).2 hb⟩⟩

/-- **Entries of pages above the tables**: the tables stay where they are. -/
theorem TablesBelow.rewritten (h : TablesBelow b k) (hb : b ≤ lo) (hk : Rewritten lo hi k k') :
    TablesBelow b k' := by
  have hphys : ∀ t ∈ k.space.cpts, k'.spaces.physical t.2 = k.spaces.physical t.2 := by
    intro t ht
    refine hk.lookup _ fun hin => ?_
    have hlt := (h.tables t ht).2
    have hmod : (BitVec.ofNat 32 t.2).toNat ≤ t.2 := by
      rw [BitVec.toNat_ofNat]
      exact Nat.mod_le ..
    omega
  have hagrees := h.agrees
  have hat : ∀ (i : Nat) (cpt : Nat × Nat), k.space.cpts[i]? = some cpt → cpt ∈ k.space.cpts :=
    fun i cpt hcpt => List.mem_of_getElem? hcpt
  refine ⟨⟨⟨?_, ?_, ?_, ?_⟩, ?_, ?_⟩, ?_, ?_⟩
  · show k'.space.cptds.length = k'.space.cpts.length
    rw [hk.cptds, hk.cpts]
    exact hagrees.length
  · show ∀ d ∈ k'.space.cptds, _
    rw [hk.cptds]
    exact hagrees.aligned
  · show (k'.space.cptds.map Prod.snd).Nodup
    rw [hk.cptds]
    exact hagrees.distinct
  · show ∀ (i : Nat) (cptd cpt : Nat × Nat), k'.space.cptds[i]? = some cptd →
      k'.space.cpts[i]? = some cpt → k'.space.tt (cptd.2 / sectionSize) = _
    rw [hk.cptds, hk.cpts, hk.tt]
    intro i cptd cpt hcptd hcpt
    rw [hphys cpt (hat i cpt hcpt)]
    exact hagrees.entries i cptd cpt hcptd hcpt
  · show ∀ c ∈ k'.space.cpts, _
    rw [hk.cpts]
    intro c hc
    rw [hphys c hc]
    exact hagrees.tables c hc
  · show ∀ (i : Nat) (cptd cpt : Nat × Nat), k'.space.cptds[i]? = some cptd →
      k'.space.cpts[i]? = some cpt → _
    rw [hk.cptds, hk.cpts]
    intro i cptd cpt hcptd hcpt
    have hblock : k'.spaces.block cpt.2 = k.spaces.block cpt.2 := by
      unfold Spaces.block
      rw [hphys cpt (hat i cpt hcpt)]
    have hdir : (k'.spaces.walk k'.spaces.kernel).dir = (k.spaces.walk k.spaces.kernel).dir := by
      show (pageWalk k'.space.tt _).dir = (pageWalk k.space.tt _).dir
      rw [hk.tt]
      rfl
    rw [hblock]
    exact (hagrees.only i cptd cpt hcptd hcpt).congr hdir
  · rw [hk.cptds]
    exact h.sections
  · rw [hk.cpts]
    exact h.tables

theorem TablesBelow.of_space (h : TablesBelow b k) (hspace : k'.space = k.space) :
    TablesBelow b k' :=
  have hspaces : k'.spaces = k.spaces := by
    unfold Kernel.spaces
    rw [hspace]
  ⟨hspaces ▸ h.agrees, hspace ▸ h.sections, hspace ▸ h.tables⟩

/-- What has a page table is a 32-bit address. -/
theorem TablesBelow.lt_of_tracked (h : TablesBelow b k) (hva : k.Tracked va) : va < 4294967296 := by
  obtain ⟨d, hd, hsect⟩ := List.mem_map.mp hva
  have hlt := h.sections d hd
  rw [hsect] at hlt
  unfold sectionOf at hlt
  omega

/-! ## One page -/

/-- What mapping a page leaves alone. -/
structure SameHeap (k k' : Kernel) : Prop where
  heap : k'.kernelHeapNextPage = k.kernelHeapNextPage
  pages : k'.pages = k.pages

/-- `n` pages from `va` on were mapped to the block at `page`, in page tables that were there. -/
structure Maps (va n page : Nat) (k k' : Kernel) : Prop extends SameHeap k k' where
  rewritten : Rewritten va (va + n * smallPageSize) k k'
  placed : smallPageSize ∣ page → k'.Placed va n page

theorem SameHeap.trans (h : SameHeap k k1) (h' : SameHeap k1 k2) : SameHeap k k2 :=
  ⟨h'.heap.trans h.heap, h'.pages.trans h.pages⟩

instance : StrayWrites SameHeap where
  refl _ := ⟨rfl, rfl⟩
  trans _ _ _ := SameHeap.trans
  setMem _ _ := ⟨rfl, rfl⟩
  setSlab _ _ _ := ⟨rfl, rfl⟩
  setCache _ _ _ := ⟨rfl, rfl⟩
  logs _ _ _ _ _ := ⟨rfl, rfl⟩
  setSpace _ _ := ⟨rfl, rfl⟩
  stray _ _ := ⟨rfl, rfl⟩

theorem samePage {a : Word} (hdvd : smallPageSize ∣ a.toNat) (x : Word) :
    x.toNat / smallPageSize = a.toNat / smallPageSize ↔
      a.toNat ≤ x.toNat ∧ x.toNat < a.toNat + 1 * smallPageSize := by
  unfold smallPageSize at *
  omega

/-- The entry a page gets. -/
theorem lookup_entry {a : Word} {table : Nat} (hdvd : smallPageSize ∣ a.toNat)
    (htable : k.spaces.IsTable k.spaces.kernel (sectionOf a.toNat) table) (w x : Word)
    (hx : ¬ (a.toNat ≤ x.toNat ∧ x.toNat < a.toNat + 1 * smallPageSize)) :
    (k.writeTable table ((a.toNat - sectionOf a.toNat) / smallPageSize) w).lookup x =
      k.lookup x := by
  have hlookup := Spaces.lookup_writeEntry htable w x
  rw [if_neg fun heq => hx ((samePage hdvd x).mp heq)] at hlookup
  rw [Kernel.lookup_writeTable]
  exact hlookup

theorem lookup_inPage {a : Word} {table : Nat} (hdvd : smallPageSize ∣ a.toNat)
    (htable : k.spaces.IsTable k.spaces.kernel (sectionOf a.toNat) table) (cb : Byte) {page : Word}
    (hpage : page.toNat % smallPageSize = 0) {x : Word}
    (hx : a.toNat ≤ x.toNat ∧ x.toNat < a.toNat + 1 * smallPageSize) :
    (k.writeTable table ((a.toNat - sectionOf a.toNat) / smallPageSize)
      (newSPD cb cb 0b01010101#8 page)).lookup x =
        page + BitVec.ofNat 32 (x.toNat - a.toNat) := by
  have hlookup := Spaces.lookup_writeTable cb cb 0b01010101#8 htable hpage x
  have hoff : x.toNat % smallPageSize = x.toNat - a.toNat := by
    unfold smallPageSize at *
    omega
  rw [Spaces.mapped, if_pos ((samePage hdvd x).mpr hx), hoff] at hlookup
  rw [Kernel.lookup_writeTable]
  exact hlookup

theorem placed_entry {a : Word} {table : Nat} (hdvd : smallPageSize ∣ a.toNat)
    (htable : k.spaces.IsTable k.spaces.kernel (sectionOf a.toNat) table) (cb : Byte) {page : Nat}
    (hpage : smallPageSize ∣ page) :
    (k.writeTable table ((a.toNat - sectionOf a.toNat) / smallPageSize)
      (newSPD cb cb 0b01010101#8 (BitVec.ofNat 32 page))).Placed a.toNat 1 page := by
  intro o ho
  have hword : (BitVec.ofNat 32 page).toNat % smallPageSize = 0 := by
    rw [BitVec.toNat_ofNat]
    unfold smallPageSize at hpage ⊢
    omega
  have ha := a.isLt
  have hx : (BitVec.ofNat 32 (a.toNat + o)).toNat = a.toNat + o := by
    rw [BitVec.toNat_ofNat]
    unfold smallPageSize at hdvd ho
    exact Nat.mod_eq_of_lt (by omega)
  rw [lookup_inPage hdvd htable cb hword (by omega), hx, Nat.add_sub_cancel_left, BitVec.ofNat_add]

/-- An entry is all that is written. -/
theorem rewritten_writeTable (table i : Nat) (w : Word)
    (h : ∀ x : Word, ¬ (lo ≤ x.toNat ∧ x.toNat < hi) →
      (k.writeTable table i w).lookup x = k.lookup x) :
    SameHeap k (k.writeTable table i w) ∧ Rewritten lo hi k (k.writeTable table i w) :=
  ⟨⟨rfl, rfl⟩, ⟨rfl, rfl, rfl, rfl, h⟩⟩

/-- The tables, with a page above them. -/
structure AboveTables (b va : Nat) (k : Kernel) : Prop where
  tables : TablesBelow b k
  above : b ≤ va
  aligned : smallPageSize ∣ va

/-- **A page's entry** is written into the page table of its section. -/
theorem maps_writeTable (h : AboveTables b va k) (hva : k.Tracked va) (cb : Byte) (page : Nat) :
    ∃ e i cpt, searchLinkedListEntry k.space.cptds (sectionOf va) = some (e, i) ∧
      k.space.cpts[i]? = some cpt ∧ cpt.2 ≠ 0 ∧
      Maps va 1 page k (k.writeTable cpt.2 ((va - sectionOf va) / smallPageSize)
        (newSPD cb cb 0b01010101#8 (BitVec.ofNat 32 page))) := by
  obtain ⟨a, ha⟩ : ∃ a : Word, a.toNat = va :=
    ⟨BitVec.ofNat 32 va, (BitVec.toNat_ofNat ..).trans
      (Nat.mod_eq_of_lt (h.tables.lt_of_tracked hva))⟩
  obtain ⟨e, i, cpt, hsearch, hcpt, htable⟩ := h.tables.agrees.listed hva
  refine ⟨e, i, cpt, hsearch, hcpt, (h.tables.tables _ (List.mem_of_getElem? hcpt)).1, ?_⟩
  have hdvd := h.aligned
  rw [← ha] at htable hdvd ⊢
  obtain ⟨hsame, hrewritten⟩ := rewritten_writeTable cpt.2 _ _
    fun x hx => lookup_entry hdvd htable (newSPD cb cb 0b01010101#8 (BitVec.ofNat 32 page)) x hx
  exact ⟨hsame, hrewritten, placed_entry hdvd htable cb⟩

theorem getKernelCPT_tracked (h : AboveTables b va k) (hva : k.Tracked va) (cb : Byte) (page : Nat)
    {table : Nat} (hrun : getKernelCPT va k = (.ok table, k1)) :
    k1 = k ∧ table ≠ 0 ∧ Maps va 1 page k (k.writeTable table ((va - sectionOf va) / smallPageSize)
      (newSPD cb cb 0b01010101#8 (BitVec.ofNat 32 page))) := by
  obtain ⟨e, i, cpt, hsearch, hcpt, hne, hmaps⟩ := maps_writeTable h hva cb page
  unfold getKernelCPT at hrun
  obtain ⟨space, k2, hspace, hrun⟩ := bind_ok.mp hrun
  obtain ⟨rfl, rfl⟩ := gets_ok.mp hspace
  rw [hsearch] at hrun
  simp only [hcpt] at hrun
  obtain ⟨rfl, rfl⟩ := pure_ok.mp hrun
  exact ⟨rfl, hne, hmaps⟩

theorem getKernelCPT_untracked (hva : ¬k.Tracked va) {table : Nat}
    (hrun : getKernelCPT va k = (.ok table, k1)) : k1 = k ∧ table = 0 := by
  unfold getKernelCPT at hrun
  obtain ⟨space, k2, hspace, hrun⟩ := bind_ok.mp hrun
  obtain ⟨rfl, rfl⟩ := gets_ok.mp hspace
  rw [Spaces.searchLinkedListEntry_none.mpr hva] at hrun
  obtain ⟨rfl, rfl⟩ := pure_ok.mp hrun
  exact ⟨rfl, rfl⟩

/-- **A tracked page** is mapped, and no temporary page table is set up. -/
theorem addUnlistedKernelPage_tracked {env : Env} {cb : Byte} {cpt : Option (Nat → Word)}
    (h : AboveTables b va k) (hva : k.Tracked va)
    (hrun : addUnlistedKernelPage env cb page va k = (.ok cpt, k1)) :
    cpt = none ∧ Maps va 1 page k k1 := by
  unfold addUnlistedKernelPage at hrun
  obtain ⟨table, k2, htable, hrest⟩ := bind_ok.mp hrun
  obtain ⟨rfl, hne, hmaps⟩ := getKernelCPT_tracked h hva cb page htable
  rw [if_pos hne] at hrest
  obtain ⟨_, k3, hwrite, hend⟩ := bind_ok.mp hrest
  obtain rfl := update_ok.mp hwrite
  obtain ⟨rfl, rfl⟩ := pure_ok.mp hend
  exact ⟨rfl, hmaps⟩

/-- The heap is far above what a translation table has entries for. -/
theorem le_sectionOf (hva : kernelHeapStart ≤ va) : 4096 ≤ sectionOf va := by
  unfold kernelHeapStart at hva
  unfold sectionOf
  omega

/-- **An untracked page** makes the lookup stray. -/
theorem addUnlistedKernelPage_untracked {env : Env} {cb : Byte} {cpt : Option (Nat → Word)}
    (hva : ¬k.Tracked va) (hstart : kernelHeapStart ≤ va)
    (hrun : addUnlistedKernelPage env cb page va k = (.ok cpt, k1)) :
    k1.strays = va :: k.strays := by
  have hlarge : ¬sectionOf va < 4096 := Nat.not_lt.mpr (le_sectionOf hstart)
  unfold addUnlistedKernelPage at hrun
  obtain ⟨table, k2, htable, hrest⟩ := bind_ok.mp hrun
  obtain ⟨rfl, hzero⟩ := getKernelCPT_untracked hva htable
  rw [if_neg (not_not.mpr hzero)] at hrest
  obtain ⟨coarse, k3, hread, hend⟩ := bind_ok.mp hrest
  have hstray : k3.strays = va :: k2.strays := by
    unfold readUnshifted at hread
    rw [if_neg hlarge] at hread
    obtain ⟨_, k4, hlog, hread⟩ := bind_ok.mp hread
    obtain rfl := update_ok.mp hlog
    obtain ⟨answer, k5, hanswer, hread⟩ := bind_ok.mp hread
    obtain ⟨-, rfl⟩ := gets_ok.mp hanswer
    cases answer with
    | dataAbort => exact (stop_ok.mp hread).elim
    | coarse =>
        obtain ⟨-, rfl⟩ := pure_ok.mp hread
        rfl
    | other =>
        obtain ⟨-, rfl⟩ := pure_ok.mp hread
        rfl
  rw [← hstray]
  by_cases hcoarse : coarse = true
  · rw [if_pos hcoarse] at hend
    obtain ⟨-, rfl⟩ := pure_ok.mp hend
    rfl
  · rw [if_neg hcoarse] at hend
    obtain ⟨tmpPds, k4, htmp, hset⟩ := bind_ok.mp hend
    obtain ⟨-, rfl⟩ := gets_ok.mp htmp
    by_cases hnull : tmpPds = 0
    · rw [if_pos hnull] at hset
      exact (stop_ok.mp hset).elim
    · rw [if_neg hnull] at hset
      simp only [if_neg hlarge] at hset
      obtain ⟨-, rfl⟩ := pure_ok.mp hset
      rfl

/-- A page handed over to the virtual memory manager, whose section has a page table. -/
theorem addVirtualKernelPage_tracked {calls : SlabCalls} {cb : Byte} (h : AboveTables b va k)
    (hva : k.Tracked va) {u : Unit}
    (hrun : addVirtualKernelPage calls cb cb page va k = (.ok u, k1)) : Maps va 1 page k k1 := by
  obtain ⟨e, i, cpt, hsearch, hcpt, -, hmaps⟩ := maps_writeTable h hva cb page
  unfold addVirtualKernelPage at hrun
  obtain ⟨space, k2, hspace, hrest⟩ := bind_ok.mp hrun
  obtain ⟨rfl, rfl⟩ := gets_ok.mp hspace
  rw [hsearch] at hrest
  simp only [hcpt] at hrest
  obtain rfl := update_ok.mp hrest
  exact hmaps

/-! ## Several pages -/

theorem Kernel.Placed.rewritten (h : k.Placed va n page) (hk : Rewritten lo hi k k')
    (hlo : va + n * smallPageSize ≤ lo) : k'.Placed va n page := by
  intro o ho
  rw [hk.lookup _ fun hin => ?_, h o ho]
  have hle : (BitVec.ofNat 32 (va + o)).toNat ≤ va + o := by
    rw [BitVec.toNat_ofNat]
    exact Nat.mod_le ..
  omega

theorem Kernel.Backed.le {runs : List (Nat × Nat)} : ∀ {a c : Nat}, k.Backed a runs c → a ≤ c := by
  induction runs with
  | nil => exact fun h => Nat.le_of_eq h
  | cons r runs ih => exact fun h => (Nat.le_add_right _ _).trans (ih h.2)

theorem Kernel.Backed.rewritten {runs : List (Nat × Nat)} (hk : Rewritten lo hi k k') :
    ∀ {a c : Nat}, k.Backed a runs c → c ≤ lo → k'.Backed a runs c := by
  induction runs with
  | nil => exact fun h _ => h
  | cons r runs ih =>
      exact fun h hc => ⟨h.1.rewritten hk (h.2.le.trans hc), ih h.2 hc⟩

theorem Kernel.Backed.append {runs runs' : List (Nat × Nat)} :
    ∀ {a c d : Nat}, k.Backed a runs c → k.Backed c runs' d → k.Backed a (runs ++ runs') d := by
  induction runs with
  | nil =>
      intro a c d h h'
      obtain rfl : a = c := h
      exact h'
  | cons r runs ih => exact fun h h' => ⟨h.1, ih h.2 h'⟩

/-- The pages from `lo` to `hi` are in sections that have page tables. -/
def Kernel.TrackedFrom (k : Kernel) (lo hi : Nat) : Prop := ∀ va, lo ≤ va → va < hi → k.Tracked va

theorem Rewritten.trackedFrom (h : Rewritten lo hi k k') {a c : Nat} :
    k'.TrackedFrom a c ↔ k.TrackedFrom a c :=
  forall_congr' fun _ => imp_congr_right fun _ => imp_congr_right fun _ => h.tracked

theorem AboveTables.rewritten (h : AboveTables b va k) (hk : Rewritten lo hi k k') (hb : b ≤ lo) :
    AboveTables b va k' :=
  ⟨h.tables.rewritten hb hk, h.above, h.aligned⟩

theorem AboveTables.atPage (h : AboveTables b va k) (i : Nat) :
    AboveTables b (va + smallPageSize * i) k :=
  ⟨h.tables, h.above.trans (Nat.le_add_right ..),
    (Nat.dvd_add_right h.aligned).mpr (Nat.dvd_mul_right ..)⟩

/-- Two blocks in a row are one. -/
theorem Kernel.Placed.append {m : Nat} (h : k.Placed va n page)
    (h' : k.Placed (va + smallPageSize * n) m (page + smallPageSize * n)) :
    k.Placed va (n + m) page := by
  intro o ho
  by_cases hlt : o < n * smallPageSize
  · exact h o hlt
  · have hrest := h' (o - smallPageSize * n) (by unfold smallPageSize at *; omega)
    have hva : va + smallPageSize * n + (o - smallPageSize * n) = va + o := by
      unfold smallPageSize at *
      omega
    have hpage : page + smallPageSize * n + (o - smallPageSize * n) = page + o := by
      unfold smallPageSize at *
      omega
    rwa [hva, hpage] at hrest

/-- **Pages in a row**, from the `i`th on, all of them tracked. -/
theorem addUnlistedKernelPages_tracked {env : Env} {cb : Byte} :
    ∀ (n i : Nat) {k : Kernel} {cpts : List (Option (Nat → Word))}, AboveTables b va k →
      k.TrackedFrom (va + smallPageSize * i) (va + smallPageSize * (i + n)) →
      addUnlistedKernelPages env cb page va i n k = (.ok cpts, k1) →
      (∀ cpt ∈ cpts, cpt = none) ∧ SameHeap k k1 ∧
        Rewritten (va + smallPageSize * i) (va + smallPageSize * (i + n)) k k1 ∧
        (smallPageSize ∣ page →
          k1.Placed (va + smallPageSize * i) n (page + smallPageSize * i)) := by
  intro n
  induction n with
  | zero =>
      intro i k cpts _ _ hrun
      obtain ⟨rfl, rfl⟩ := pure_ok.mp hrun
      exact ⟨nofun, ⟨rfl, rfl⟩, .of_space rfl rfl, fun _ o ho => by omega⟩
  | succ n ih =>
      intro i k cpts h htracked hrun
      obtain ⟨cpt, k2, hfirst, hrest⟩ := bind_ok.mp hrun
      obtain ⟨cpts', k3, hothers, hend⟩ := bind_ok.mp hrest
      obtain ⟨rfl, rfl⟩ := pure_ok.mp hend
      have hva : k.Tracked (va + smallPageSize * i) :=
        htracked _ (Nat.le_refl _) (by unfold smallPageSize; omega)
      obtain ⟨rfl, hmaps⟩ := addUnlistedKernelPage_tracked (h.atPage i) hva hfirst
      have hpage : va + smallPageSize * i + 1 * smallPageSize = va + smallPageSize * (i + 1) := by
        unfold smallPageSize
        omega
      have hrewritten := hmaps.rewritten
      rw [hpage] at hrewritten
      have hlast : i + 1 + n = i + (n + 1) := by omega
      have hfits := h.rewritten hrewritten (h.above.trans (Nat.le_add_right ..))
      obtain ⟨hnone, hsame, hmore, hplaced⟩ := ih (i + 1) hfits (fun x hlo hhi =>
        hrewritten.tracked.mpr (htracked x (by unfold smallPageSize at *; omega) (hlast ▸ hhi)))
        hothers
      rw [hlast] at hmore
      refine ⟨?_, hmaps.toSameHeap.trans hsame, ?_, fun hdvd => ?_⟩
      · intro cpt hcpt
        rcases List.mem_cons.mp hcpt with rfl | hcpt
        · rfl
        · exact hnone cpt hcpt
      · exact (hrewritten.mono (Nat.le_refl _) (by unfold smallPageSize; omega)).trans
          (hmore.mono (by unfold smallPageSize; omega) (Nat.le_refl _))
      · have hone := hmaps.placed ((Nat.dvd_add_right hdvd).mpr (Nat.dvd_mul_right ..))
        have hfirst := hone.rewritten hmore (Nat.le_of_eq hpage)
        have hboth : k3.Placed (va + smallPageSize * i) (1 + n) (page + smallPageSize * i) := by
          refine hfirst.append ?_
          rw [Nat.add_assoc, Nat.add_assoc, ← Nat.mul_add]
          exact hplaced hdvd
        rwa [Nat.add_comm 1 n] at hboth

/-! ## What no call undoes -/

/-- The log of stray accesses only gets longer, and so does the heap. -/
structure Longer (k k' : Kernel) : Prop where
  strays : k.strays <:+ k'.strays
  heap : k.kernelHeapNextPage ≤ k'.kernelHeapNextPage

theorem Longer.of_eq (hstrays : k'.strays = k.strays)
    (hheap : k'.kernelHeapNextPage = k.kernelHeapNextPage) : Longer k k' :=
  ⟨hstrays ▸ List.suffix_refl _, hheap.symm.le⟩

instance : GrowthWrites Longer where
  refl _ := ⟨List.suffix_refl _, Nat.le_refl _⟩
  trans _ _ _ h h' := ⟨h.strays.trans h'.strays, h.heap.trans h'.heap⟩
  setMem _ _ := .of_eq rfl rfl
  setSlab _ _ _ := .of_eq rfl rfl
  setCache _ _ _ := .of_eq rfl rfl
  logs _ _ _ _ _ := .of_eq rfl rfl
  setSpace _ _ := .of_eq rfl rfl
  setPages _ _ := .of_eq rfl rfl
  stray _ va := ⟨List.suffix_cons va _, Nat.le_refl _⟩
  heap _ n := ⟨List.suffix_refl _, Nat.le_add_right _ n⟩

/-- More accesses past the end of the translation table were made. -/
def Stray (k k' : Kernel) : Prop := k.strays.length < k'.strays.length

theorem Stray.then (h : Stray k k1) (h' : Longer k1 k') : Stray k k' :=
  Nat.lt_of_lt_of_le h h'.strays.length_le

theorem Longer.stray (h : Longer k k1) (h' : Stray k1 k') : Stray k k' :=
  Nat.lt_of_le_of_lt h.strays.length_le h'

/-- A page is in one section. -/
theorem Kernel.Tracked.wholePage (h : k.Tracked va) (hdvd : smallPageSize ∣ va) :
    k.TrackedFrom va (va + smallPageSize) := by
  intro x hlo hhi
  have hsect : sectionOf x = sectionOf va := by
    unfold sectionOf smallPageSize at *
    omega
  unfold Kernel.Tracked at h ⊢
  rw [hsect]
  exact h

theorem Kernel.TrackedFrom.append {c d : Nat} {a : Nat} (h : k.TrackedFrom a c)
    (h' : k.TrackedFrom c d) : k.TrackedFrom a d := by
  intro x hlo hhi
  by_cases hx : x < c
  · exact h x hlo hx
  · exact h' x (Nat.not_lt.mp hx) hhi

/-- **Pages in a row**, not all of them tracked: the first one that is not makes the
lookup stray. -/
theorem addUnlistedKernelPages_untracked {env : Env} {cb : Byte} (hstart : kernelHeapStart ≤ va) :
    ∀ (n i : Nat) {k : Kernel} {cpts : List (Option (Nat → Word))}, AboveTables b va k →
      ¬k.TrackedFrom (va + smallPageSize * i) (va + smallPageSize * (i + n)) →
      addUnlistedKernelPages env cb page va i n k = (.ok cpts, k1) → Stray k k1 := by
  intro n
  induction n with
  | zero =>
      intro i k cpts _ huntracked _
      exact (huntracked fun x hlo hhi => absurd hhi (Nat.not_lt.mpr hlo)).elim
  | succ n ih =>
      intro i k cpts h huntracked hrun
      obtain ⟨cpt, k2, hfirst, hrest⟩ := bind_ok.mp hrun
      obtain ⟨cpts', k3, hothers, hend⟩ := bind_ok.mp hrest
      obtain ⟨rfl, rfl⟩ := pure_ok.mp hend
      by_cases hva : k.Tracked (va + smallPageSize * i)
      · obtain ⟨rfl, hmaps⟩ := addUnlistedKernelPage_tracked (h.atPage i) hva hfirst
        have hfits := h.rewritten hmaps.rewritten (h.above.trans (Nat.le_add_right ..))
        have hpage : va + smallPageSize * i + smallPageSize = va + smallPageSize * (i + 1) := by
          unfold smallPageSize
          omega
        have hlast : i + 1 + n = i + (n + 1) := by omega
        have hmore := ih (i + 1) hfits (fun htracked => huntracked ?_) hothers
        · exact Longer.stray ⟨hmaps.rewritten.strays ▸ List.suffix_refl _, hmaps.heap.symm.le⟩ hmore
        · have hthis := hva.wholePage (h.atPage i).aligned
          rw [hpage] at hthis
          rw [hlast] at htracked
          exact hthis.append (hmaps.rewritten.trackedFrom.mp htracked)
      · have hstray := addUnlistedKernelPage_untracked hva
          (hstart.trans (Nat.le_add_right ..)) hfirst
        have hfirst : Stray k k2 := by
          unfold Stray
          rw [hstray]
          exact Nat.lt_succ_self _
        exact hfirst.then
          ((addUnlistedKernelPages_leads env cb page va (i + 1) n).rel _ _ _ hothers)

end

end OSExt.Memory
