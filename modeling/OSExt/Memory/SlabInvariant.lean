import OSExt.Memory.GrowCache
import OSExt.Memory.SlabLayout
import OSExt.Memory.SlabLists

/-!
# The allocator's invariant

A `Shape` is what the heap looks like: the caches, the slabs on their three
lists, and the objects someone relies on, each with what it is relied on for. A
slab off its own pages needs two such objects of other caches, its descriptor and
its used bits; caches and the kernel's page tables are objects as well.

The invariant says that the kernel state spells out a shape. Nothing else is said
about objects no one relies on: an object that was leaked, freed twice or freed
by the wrong slab may come and go.
-/

namespace OSExt.Memory

open Lib

/-- What an object is relied on for. -/
inductive Role where
  /-- someone outside the allocator holds it -/
  | client
  /-- it is a `struct cache_t` -/
  | cacheDesc
  /-- it is the descriptor of a slab -/
  | slabDesc (s : Nat)
  /-- it holds the used bits of a slab -/
  | bitmap (s : Nat)
  /-- it is a list entry or a page table of the kernel space -/
  | vm
deriving DecidableEq

/-- The caches, the slabs on their lists, and the roles of objects by slab and slot. -/
structure Shape where
  caches : List Nat
  on : Nat → SlabList → List Nat
  role : Nat → Nat → Option Role

/-- `s` is a slab of the cache `c`. -/
def Shape.Has (g : Shape) (c s : Nat) : Prop := c ∈ g.caches ∧ ∃ w, s ∈ g.on c w

def Shape.setRole (g : Shape) (s i : Nat) (r : Option Role) : Shape :=
  { g with role := Function.update g.role s (Function.update (g.role s) i r) }

/-! ## Places -/

namespace Kernel

variable (k : Kernel)

/-- The layout of slab `s` as one of cache `c`. -/
def base (c s : Nat) : Nat := (k.slab s).base (k.cache c)
def count (c s : Nat) : Nat := (k.slab s).count (k.cache c)
def bitmap (c s : Nat) : Nat := (k.slab s).bitmap (k.cache c)
def objSize (c : Nat) : Nat := (k.cache c).objSize
def objAddr (c s i : Nat) : Nat := k.base c s + i * k.objSize c

/-- The page is one that the cache can be given. -/
def PageFor (c page : Nat) : Prop :=
  (BlocksAligned k.pages → smallPageSize ∣ page) ∧
    (smallPageSize ≤ k.objSize c → pageMod page (k.cache c).alignment = 0)

/-- The used bit of slot `i` is set. -/
def IsUsed (c s i : Nat) : Prop := usedBit k.mem (k.bitmap c s) i ≠ 0

/-- Every used array was given with its used bits clear. -/
def Clean : Prop := ∀ a ∈ k.arrays, ∀ i < a.objs, usedBit a.mem a.start i = 0

/-- The byte `x` is in the slab's pages, in one of its slots, among its used bits. -/
def InSlab (s x : Nat) : Prop := (k.slab s).start ≤ x ∧ x < (k.slab s).pagesEnd
def InObject (c s i x : Nat) : Prop := k.objAddr c s i ≤ x ∧ x < k.objAddr c s i + k.objSize c
def InBitmap (c s x : Nat) : Prop :=
  k.bitmap c s ≤ x ∧ x < k.bitmap c s + (k.count c s / 8 + 1)

end Kernel

/-- At `p` there is an object of at least `n` bytes with role `r`. -/
def Holds (g : Shape) (k : Kernel) (r : Role) (p n : Nat) : Prop :=
  ∃ c s i, g.Has c s ∧ g.role s i = some r ∧ k.objAddr c s i = p ∧ n ≤ k.objSize c

/-! ## The invariant -/

/-- The links spell out the lists of the shape. -/
structure ListsOk (g : Shape) (k : Kernel) : Prop where
  caches : IsList (fun c => (k.cache c).next) 0 k.caches g.caches
  cachesNodup : g.caches.Nodup
  on : ∀ c ∈ g.caches, OnLists k c (g.on c)
  /-- A slab is one of a single cache. -/
  owner : ∀ c c' s, g.Has c s → g.Has c' s → c = c'

/-- The slabs lie apart in the heap. -/
structure LayoutOk (g : Shape) (k : Kernel) : Prop where
  heap : kernelHeapStart ≤ k.kernelHeapNextPage
  fits : ∀ c s, g.Has c s → Fits (k.cache c) (k.slab s)
  low : ∀ c s, g.Has c s → kernelHeapStart ≤ (k.slab s).start
  high : ∀ c s, g.Has c s → (k.slab s).pagesEnd ≤ k.kernelHeapNextPage
  apart : ∀ c s c' s', g.Has c s → g.Has c' s' → s ≠ s' →
    (k.slab s).pagesEnd ≤ (k.slab s').start ∨ (k.slab s').pagesEnd ≤ (k.slab s).start
  /-- An on-slab descriptor starts the slab. -/
  onSlab : ∀ c s, g.Has c s → (k.cache c).descOnSlab = true → s = (k.slab s).start

/-- Objects with a role are in use, and what the allocator needs has its role. -/
structure UseOk (g : Shape) (k : Kernel) : Prop where
  used : ∀ s i r, g.role s i = some r → ∃ c, g.Has c s ∧ i < k.count c s ∧ k.IsUsed c s i
  /-- A slab on a full list has no free slot. -/
  full : ∀ c ∈ g.caches, ∀ s ∈ g.on c .full, ∀ i < k.count c s, k.IsUsed c s i
  /-- One on a free list has, as long as used arrays come clean. -/
  stock : k.Clean → ∀ c ∈ g.caches, ∀ s ∈ g.on c .free, ∃ i < k.count c s, ¬ k.IsUsed c s i
  slabDesc : ∀ c s, g.Has c s → (k.cache c).descOnSlab = false →
    Holds g k (.slabDesc s) s sizeofSlabDesc
  bitmap : ∀ c s, g.Has c s → (k.cache c).descOnSlab = false →
    Holds g k (.bitmap s) (k.slab s).used (k.count c s / 8 + 1)
  cacheDesc : ∀ c ∈ g.caches, Holds g k .cacheDesc c sizeofCache

/-- The pages `growCache` takes for a slab. -/
def Cache.slabPages (ca : Cache) : Nat := if ca.objSize < smallPageSize then 1 else ca.objPages

/-- The object sizes of the caches that are set up by hand. -/
def bootSizes : List Nat := [sizeofCache, sizeofSlabDesc, sizeofLinkedList, 1024]

/-- The four caches the allocator and the page tables depend on, and what the logs say. -/
structure CachesOk (g : Shape) (k : Kernel) : Prop where
  objSize : ∀ c ∈ g.caches, 0 < k.objSize c
  slabCache : k.slabCache ∈ g.caches ∧ k.objSize k.slabCache = sizeofSlabDesc
  cacheCache : k.cacheCache ∈ g.caches ∧ k.objSize k.cacheCache = sizeofCache
  linkedlistCache : k.linkedlistCache ∈ g.caches ∧ k.objSize k.linkedlistCache = sizeofLinkedList
  cptCache : k.cptCache ∈ g.caches ∧ k.objSize k.cptCache = 1024
  /-- The log of growths has the slabs there are. -/
  added : ∀ c s, (c, s) ∈ k.added ↔ g.Has c s
  /-- As long as used arrays come clean, `growCache` adds slabs that are wholly free. -/
  grown : k.Clean → ∀ x ∈ k.grown, g.Has x.cache x.slab ∧
    ∀ i < k.count x.cache x.slab, usedBit x.mem (k.bitmap x.cache x.slab) i = 0
  /-- The heap goes on at a page boundary, and slabs of the cache's size start there. -/
  heap : smallPageSize ∣ k.kernelHeapNextPage
  places : ∀ c s, g.Has c s →
    smallPageSize ∣ (k.slab s).start ∧ (k.slab s).size = (k.cache c).slabPages
  /-- What `growCache` adds is a slab on pages for its cache. -/
  logged : ∀ x ∈ k.grown, g.Has x.cache x.slab ∧ k.PageFor x.cache x.page
  /-- The first slabs of the first caches apart, it has added them all. -/
  backed : ∀ c s, g.Has c s → (∃ x ∈ k.grown, x.cache = c ∧ x.slab = s) ∨
    ((k.cache c).alignment = 0 ∧ k.objSize c ∈ bootSizes)

/-- The list entries and page tables of the kernel space. -/
def vmObjects (space : KernelSpace) : List Nat :=
  space.cptds.map Prod.fst ++ (space.cpts.map Prod.fst ++ space.cpts.map Prod.snd)

/-- They are distinct objects with their role. -/
structure VmOk (g : Shape) (k : Kernel) : Prop where
  cptds : ∀ e ∈ k.space.cptds, Holds g k .vm e.1 sizeofLinkedList
  cpts : ∀ e ∈ k.space.cpts, Holds g k .vm e.1 sizeofLinkedList
  tables : ∀ e ∈ k.space.cpts, Holds g k .vm e.2 1024
  nodup : (vmObjects k.space).Nodup

/-- **The invariant.** -/
structure SlabInv (g : Shape) (k : Kernel) : Prop where
  lists : ListsOk g k
  layout : LayoutOk g k
  uses : UseOk g k
  caches : CachesOk g k
  vm : VmOk g k

/-- The addresses the allocator and the kernel's page tables rely on. -/
def Kernel.Owned (k : Kernel) (p : Nat) : Prop :=
  (∃ c s, (c, s) ∈ k.added ∧ (k.cache c).descOnSlab = false ∧ (p = s ∨ p = (k.slab s).used))
    ∨ Linked (fun c => (k.cache c).next) 0 p k.caches
    ∨ p ∈ vmObjects k.space

/-! ## Places do not overlap -/

section Places

variable {g : Shape} {k : Kernel}

theorem SlabInv.role_count (h : SlabInv g k) {c s i : Nat} {r : Role} (hs : g.Has c s)
    (hr : g.role s i = some r) : i < k.count c s := by
  obtain ⟨c', hc', hi, _⟩ := h.uses.used s i r hr
  obtain rfl := h.lists.owner c' c s hc' hs
  exact hi

/-- An object lies behind the header, inside the pages. -/
theorem LayoutOk.object_inSlab (h : LayoutOk g k) {c s i x : Nat} (hs : g.Has c s)
    (hi : i < k.count c s) (hx : k.InObject c s i x) : k.base c s ≤ x ∧ k.InSlab s x := by
  have hend := object_le_end (h.fits c s hs) hi
  have hstart := start_le_base (k.slab s) (k.cache c)
  obtain ⟨hlo, hhi⟩ := hx
  unfold Kernel.objAddr Kernel.base Kernel.objSize at hlo hhi
  refine ⟨?_, ?_, ?_⟩
  · unfold Kernel.base
    omega
  · omega
  · omega

theorem LayoutOk.slabs_unique (h : LayoutOk g k) {c s c' s' x : Nat} (hs : g.Has c s)
    (hs' : g.Has c' s') (hx : k.InSlab s x) (hx' : k.InSlab s' x) : s = s' := by
  by_contra hne
  obtain ⟨hlo, hhi⟩ := hx
  obtain ⟨hlo', hhi'⟩ := hx'
  rcases h.apart c s c' s' hs hs' hne with hap | hap
  · omega
  · omega

/-- **A byte is in one object at most.** -/
theorem SlabInv.objects_unique (h : SlabInv g k) {c s i c' s' i' x : Nat} (hs : g.Has c s)
    (hs' : g.Has c' s') (hi : i < k.count c s) (hi' : i' < k.count c' s')
    (hx : k.InObject c s i x) (hx' : k.InObject c' s' i' x) : s = s' ∧ i = i' := by
  obtain rfl := h.layout.slabs_unique hs hs' (h.layout.object_inSlab hs hi hx).2
    (h.layout.object_inSlab hs' hi' hx').2
  obtain rfl := h.lists.owner c c' s hs hs'
  refine ⟨rfl, ?_⟩
  obtain ⟨hlo, hhi⟩ := hx
  obtain ⟨hlo', hhi'⟩ := hx'
  unfold Kernel.objAddr at hlo hhi hlo' hhi'
  by_contra hne
  rcases Nat.lt_or_gt_of_ne hne with hlt | hlt
  · have := slots_apart (k.objSize c) hlt
    omega
  · have := slots_apart (k.objSize c) hlt
    omega

/-- Used bits are in the header of their slab or in an object kept for them. -/
theorem SlabInv.inBitmap (h : SlabInv g k) {c s x : Nat} (hs : g.Has c s)
    (hx : k.InBitmap c s x) :
    (x < k.base c s ∧ k.InSlab s x)
      ∨ ∃ c' s' i, g.Has c' s' ∧ g.role s' i = some (.bitmap s) ∧ k.InObject c' s' i x := by
  obtain ⟨hlo, hhi⟩ := hx
  cases hon : (k.cache c).descOnSlab with
  | true =>
      have hhead := bitmap_le_base (d := k.slab s) hon
      have hroom := base_onSlab_room (h.layout.fits c s hs) hon
      have hb : k.bitmap c s = (k.slab s).start + 16 := bitmap_onSlab hon
      unfold Kernel.count at hhi
      refine .inl ⟨?_, ?_, ?_⟩
      · unfold Kernel.base
        omega
      · omega
      · omega
  | false =>
      have hb : k.bitmap c s = (k.slab s).used := bitmap_offSlab hon
      obtain ⟨c', s', i, hs', hr, haddr, hsize⟩ := h.uses.bitmap c s hs hon
      refine .inr ⟨c', s', i, hs', hr, ?_, ?_⟩
      · omega
      · omega

/-- Used bits are on the heap, as far as it goes. -/
theorem SlabInv.inBitmap_lt (h : SlabInv g k) {c s x : Nat} (hs : g.Has c s)
    (hx : k.InBitmap c s x) : x < k.kernelHeapNextPage := by
  rcases h.inBitmap hs hx with ⟨_, hin⟩ | ⟨c', s', i, hs', hr, hx'⟩
  · exact Nat.lt_of_lt_of_le hin.2 (h.layout.high c s hs)
  · have hin := (h.layout.object_inSlab hs' (h.role_count hs' hr) hx').2
    exact Nat.lt_of_lt_of_le hin.2 (h.layout.high c' s' hs')

/-- So are the descriptors. -/
theorem SlabInv.slab_lt (h : SlabInv g k) {c s : Nat} (hs : g.Has c s) :
    s < k.kernelHeapNextPage := by
  cases hon : (k.cache c).descOnSlab with
  | true =>
      have hstart := h.layout.onSlab c s hs hon
      have hhigh := h.layout.high c s hs
      have hsize := (h.layout.fits c s hs).size
      unfold SlabDesc.pagesEnd smallPageSize at hhigh
      omega
  | false =>
      obtain ⟨c', s', i, hs', hr, haddr, hsize⟩ := h.uses.slabDesc c s hs hon
      have hx : k.InObject c' s' i s := by
        unfold sizeofSlabDesc at hsize
        exact ⟨by omega, by omega⟩
      have hin := (h.layout.object_inSlab hs' (h.role_count hs' hr) hx).2
      exact Nat.lt_of_lt_of_le hin.2 (h.layout.high c' s' hs')

/-- An object with a role holds the used bits of a slab only if that is its role. -/
theorem SlabInv.role_of_inBitmap (h : SlabInv g k) {c s i c' s' x : Nat} {r : Role}
    (hs : g.Has c s) (hr : g.role s i = some r) (hs' : g.Has c' s') (hx : k.InObject c s i x)
    (hx' : k.InBitmap c' s' x) : r = .bitmap s' := by
  have hi := h.role_count hs hr
  obtain ⟨hbase, hin⟩ := h.layout.object_inSlab hs hi hx
  rcases h.inBitmap hs' hx' with ⟨hlt, hin'⟩ | ⟨c1, s1, i1, hs1, hr1, hx1⟩
  · obtain rfl := h.layout.slabs_unique hs hs' hin hin'
    obtain rfl := h.lists.owner c c' s hs hs'
    omega
  · obtain ⟨rfl, rfl⟩ := h.objects_unique hs hs1 hi (h.role_count hs1 hr1) hx hx1
    rw [hr] at hr1
    exact Option.some.inj hr1

/-- **A byte holds used bits of one slab at most.** -/
theorem SlabInv.bitmaps_unique (h : SlabInv g k) {c s c' s' x : Nat} (hs : g.Has c s)
    (hs' : g.Has c' s') (hx : k.InBitmap c s x) (hx' : k.InBitmap c' s' x) : s = s' := by
  rcases h.inBitmap hs hx with ⟨hlt, hin⟩ | ⟨c1, s1, i1, hs1, hr1, hx1⟩
  · rcases h.inBitmap hs' hx' with ⟨_, hin'⟩ | ⟨c1, s1, i1, hs1, hr1, hx1⟩
    · exact h.layout.slabs_unique hs hs' hin hin'
    · have hr := h.role_of_inBitmap hs1 hr1 hs hx1 hx
      simpa using hr.symm
  · have hr := h.role_of_inBitmap hs1 hr1 hs' hx1 hx'
    simpa using hr

/-- The byte of a used bit is among the used bits; the one behind the last slot's as well. -/
theorem inBitmap_of_le {c s i : Nat} (hi : i ≤ k.count c s) :
    k.InBitmap c s (k.bitmap c s + i / 8) := by
  have := Nat.div_le_div_right (c := 8) hi
  refine ⟨?_, ?_⟩
  · omega
  · omega

/-- A descriptor's address is that of an object only if the object is kept for it. -/
theorem SlabInv.role_of_slab (h : SlabInv g k) {c s i c' s' : Nat} {r : Role} (hs : g.Has c s)
    (hr : g.role s i = some r) (hs' : g.Has c' s') (hx : k.InObject c s i s') :
    r = .slabDesc s' := by
  have hi := h.role_count hs hr
  obtain ⟨hbase, hin⟩ := h.layout.object_inSlab hs hi hx
  cases hon : (k.cache c').descOnSlab with
  | true =>
      have hstart := h.layout.onSlab c' s' hs' hon
      have hroom := base_onSlab_room (h.layout.fits c' s' hs') hon
      have hhead := bitmap_le_base (d := k.slab s') hon
      have hin' : k.InSlab s' s' := ⟨by omega, by omega⟩
      obtain rfl := h.layout.slabs_unique hs hs' hin hin'
      obtain rfl := h.lists.owner c c' s hs hs'
      unfold Kernel.base at hbase
      omega
  | false =>
      obtain ⟨c1, s1, i1, hs1, hr1, haddr, hsize⟩ := h.uses.slabDesc c' s' hs' hon
      have hx1 : k.InObject c1 s1 i1 s' := by
        refine ⟨by omega, ?_⟩
        unfold sizeofSlabDesc at hsize
        omega
      obtain ⟨rfl, rfl⟩ := h.objects_unique hs hs1 hi (h.role_count hs1 hr1) hx hx1
      rw [hr] at hr1
      exact Option.some.inj hr1

/-- What is relied on has a role that says so. -/
theorem SlabInv.holds_of_owned (h : SlabInv g k) {p : Nat} (hp : k.Owned p) :
    ∃ r n, r ≠ .client ∧ (r = .vm → p ∈ vmObjects k.space) ∧ 0 < n ∧ Holds g k r p n := by
  rcases hp with ⟨c, s, hadd, hoff, rfl | rfl⟩ | hlinked | hvm
  · have hs := (h.caches.added c p).mp hadd
    exact ⟨_, _, by simp, by simp, by decide, h.uses.slabDesc c p hs hoff⟩
  · have hs := (h.caches.added c s).mp hadd
    exact ⟨_, _, by simp, by simp, Nat.succ_pos _, h.uses.bitmap c s hs hoff⟩
  · have hc := (linked_iff h.lists.caches).mp hlinked
    exact ⟨_, _, by simp, by simp, by decide, h.uses.cacheDesc p hc⟩
  · refine ⟨.vm, 1, by simp, fun _ => hvm, by omega, ?_⟩
    have hweaken : ∀ n, 1 ≤ n → Holds g k .vm p n → Holds g k .vm p 1 := by
      intro n hn hp
      obtain ⟨c, s, i, hs, hr, haddr, hsize⟩ := hp
      exact ⟨c, s, i, hs, hr, haddr, Nat.le_trans hn hsize⟩
    rcases List.mem_append.mp hvm with hp | hp
    · obtain ⟨e, he, rfl⟩ := List.mem_map.mp hp
      exact hweaken _ (by decide) (h.vm.cptds e he)
    · rcases List.mem_append.mp hp with hp | hp
      · obtain ⟨e, he, rfl⟩ := List.mem_map.mp hp
        exact hweaken _ (by decide) (h.vm.cpts e he)
      · obtain ⟨e, he, rfl⟩ := List.mem_map.mp hp
        exact hweaken _ (by omega) (h.vm.tables e he)

/-- An object's first byte is in it. -/
theorem LayoutOk.inObject_self (h : LayoutOk g k) {c s i : Nat} (hs : g.Has c s) :
    k.InObject c s i (k.objAddr c s i) := by
  have hpos : 0 < k.objSize c := (h.fits c s hs).objSize
  exact ⟨Nat.le_refl _, by omega⟩

/-- An object has one role only. -/
theorem SlabInv.role_unique (h : SlabInv g k) {c s i n : Nat} {r r' : Role} (hs : g.Has c s)
    (hr : g.role s i = some r) (hn : 0 < n) (hp : Holds g k r' (k.objAddr c s i) n) : r' = r := by
  obtain ⟨c', s', i', hs', hr', haddr, hsize⟩ := hp
  have hx' : k.InObject c' s' i' (k.objAddr c s i) := ⟨by omega, by omega⟩
  obtain ⟨rfl, rfl⟩ := h.objects_unique hs hs' (h.role_count hs hr) (h.role_count hs' hr')
    (h.layout.inObject_self hs) hx'
  rw [hr] at hr'
  exact (Option.some.inj hr').symm

/-- **Nothing relies on what a client holds.** -/
theorem SlabInv.not_owned (h : SlabInv g k) {c s i : Nat} (hs : g.Has c s)
    (hr : g.role s i = some .client) : ¬ k.Owned (k.objAddr c s i) := by
  intro hp
  obtain ⟨r, n, hne, _, hn, hp⟩ := h.holds_of_owned hp
  exact hne (h.role_unique hs hr hn hp)

/-- Nor on an object of the page tables that is off their lists. -/
theorem SlabInv.not_owned_vm (h : SlabInv g k) {c s i : Nat} (hs : g.Has c s)
    (hr : g.role s i = some .vm) (hoff : k.objAddr c s i ∉ vmObjects k.space) :
    ¬ k.Owned (k.objAddr c s i) := by
  intro hp
  obtain ⟨r, n, _, hvm, hn, hp⟩ := h.holds_of_owned hp
  exact hoff (hvm (h.role_unique hs hr hn hp))

end Places

end OSExt.Memory
