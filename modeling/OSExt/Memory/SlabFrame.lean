import OSExt.Memory.SlabInvariant

/-!
# What single writes do to the invariant

The calls of the allocator are made of a few kinds of writes: bytes outside the
used bits, one used bit, a few links, a new descriptor, a new slab. Each keeps
the invariant under its own conditions, which are what the calls have to see to.
-/

namespace OSExt.Memory

open Lib

/-! ## Layouts that stay -/

/-- The fields the layout is computed from, and that are never written again. -/
structure SameSlab (d d' : SlabDesc) : Prop where
  size : d'.size = d.size
  start : d'.start = d.start
  used : d'.used = d.used

structure SameCache (ca ca' : Cache) : Prop where
  objSize : ca'.objSize = ca.objSize
  alignment : ca'.alignment = ca.alignment
  flags : ca'.flags = ca.flags

theorem SameSlab.refl (d : SlabDesc) : SameSlab d d := ⟨rfl, rfl, rfl⟩
theorem SameCache.refl (ca : Cache) : SameCache ca ca := ⟨rfl, rfl, rfl⟩

theorem SameSlab.trans {d d' d'' : SlabDesc} (h : SameSlab d d') (h' : SameSlab d' d'') :
    SameSlab d d'' :=
  ⟨h'.size.trans h.size, h'.start.trans h.start, h'.used.trans h.used⟩

theorem SameCache.trans {ca ca' ca'' : Cache} (h : SameCache ca ca') (h' : SameCache ca' ca'') :
    SameCache ca ca'' :=
  ⟨h'.objSize.trans h.objSize, h'.alignment.trans h.alignment, h'.flags.trans h.flags⟩

theorem SameSlab.pagesEnd {d d' : SlabDesc} (h : SameSlab d d') : d'.pagesEnd = d.pagesEnd := by
  unfold SlabDesc.pagesEnd
  rw [h.start, h.size]

section

variable {d d' : SlabDesc} {ca ca' : Cache}

theorem base_congr (hd : SameSlab d d') (hc : SameCache ca ca') : d'.base ca' = d.base ca := by
  unfold SlabDesc.base SlabDesc.objectsStart
  rw [hc.objSize, hc.flags, hd.start, hd.size]

theorem count_congr (hd : SameSlab d d') (hc : SameCache ca ca') : d'.count ca' = d.count ca := by
  unfold SlabDesc.count SlabDesc.objs SlabDesc.objectsStart
  rw [hc.objSize, hc.flags, hd.start, hd.size]

theorem bitmap_congr (hd : SameSlab d d') (hc : SameCache ca ca') :
    d'.bitmap ca' = d.bitmap ca := by
  unfold SlabDesc.bitmap SlabDesc.bits
  rw [hc.objSize, hc.flags, hd.start, hd.used]

theorem descOnSlab_congr (hc : SameCache ca ca') : ca'.descOnSlab = ca.descOnSlab := by
  unfold Cache.descOnSlab
  rw [hc.objSize, hc.flags]

end

/-- The slabs and caches of a shape are laid out in `k'` as in `k`. -/
structure SameLayout (g : Shape) (k k' : Kernel) : Prop where
  slab : ∀ c s, g.Has c s → SameSlab (k.slab s) (k'.slab s)
  cache : ∀ c ∈ g.caches, SameCache (k.cache c) (k'.cache c)

namespace SameLayout

variable {g : Shape} {k k' k'' : Kernel} {c s i x : Nat}

theorem refl (g : Shape) (k : Kernel) : SameLayout g k k :=
  ⟨fun _ _ _ => .refl _, fun _ _ => .refl _⟩

theorem base (h : SameLayout g k k') (hs : g.Has c s) : k'.base c s = k.base c s :=
  base_congr (h.slab c s hs) (h.cache c hs.1)

theorem count (h : SameLayout g k k') (hs : g.Has c s) : k'.count c s = k.count c s :=
  count_congr (h.slab c s hs) (h.cache c hs.1)

theorem bitmap (h : SameLayout g k k') (hs : g.Has c s) : k'.bitmap c s = k.bitmap c s :=
  bitmap_congr (h.slab c s hs) (h.cache c hs.1)

theorem objSize (h : SameLayout g k k') (hc : c ∈ g.caches) : k'.objSize c = k.objSize c :=
  (h.cache c hc).objSize

theorem objAddr (h : SameLayout g k k') (hs : g.Has c s) (i : Nat) :
    k'.objAddr c s i = k.objAddr c s i := by
  unfold Kernel.objAddr
  rw [h.base hs, h.objSize hs.1]

theorem inSlab (h : SameLayout g k k') (hs : g.Has c s) : k'.InSlab s x ↔ k.InSlab s x := by
  unfold Kernel.InSlab
  rw [(h.slab c s hs).start, (h.slab c s hs).pagesEnd]

theorem inObject (h : SameLayout g k k') (hs : g.Has c s) :
    k'.InObject c s i x ↔ k.InObject c s i x := by
  unfold Kernel.InObject
  rw [h.objAddr hs, h.objSize hs.1]

theorem inBitmap (h : SameLayout g k k') (hs : g.Has c s) :
    k'.InBitmap c s x ↔ k.InBitmap c s x := by
  unfold Kernel.InBitmap
  rw [h.bitmap hs, h.count hs]

/-- A used bit stays if its byte does. -/
theorem isUsed (h : SameLayout g k k') (hs : g.Has c s)
    (hmem : k'.mem (k.bitmap c s + i / 8) = k.mem (k.bitmap c s + i / 8)) :
    k'.IsUsed c s i ↔ k.IsUsed c s i := by
  unfold Kernel.IsUsed
  rw [h.bitmap hs, usedBit_congr hmem]

end SameLayout

/-! ## The parts of the invariant, carried over -/

section Carry

variable {g g' : Shape} {k k' : Kernel}

theorem Holds.mono {r : Role} {p n : Nat} (h : Holds g k r p n)
    (hhas : ∀ c s, g.Has c s → g'.Has c s)
    (hrole : ∀ s i, g.role s i = some r → g'.role s i = some r) (hl : SameLayout g k k') :
    Holds g' k' r p n := by
  obtain ⟨c, s, i, hs, hr, haddr, hn⟩ := h
  refine ⟨c, s, i, hhas c s hs, hrole s i hr, ?_, ?_⟩
  · rw [hl.objAddr hs, haddr]
  · rw [hl.objSize hs.1]
    exact hn

theorem LayoutOk.carry (h : LayoutOk g k) (hhas : ∀ c s, g'.Has c s → g.Has c s)
    (hl : SameLayout g k k') (hheap : k.kernelHeapNextPage ≤ k'.kernelHeapNextPage) :
    LayoutOk g' k' where
  heap := Nat.le_trans h.heap hheap
  fits c s hs := by
    have hf := h.fits c s (hhas c s hs)
    have hd := hl.slab c s (hhas c s hs)
    have hc := hl.cache c (hhas c s hs).1
    exact ⟨by rw [hc.objSize]; exact hf.objSize, by rw [hd.size]; exact hf.size,
      by rw [hc.objSize, hd.size]; exact hf.fits⟩
  low c s hs := by
    rw [(hl.slab c s (hhas c s hs)).start]
    exact h.low c s (hhas c s hs)
  high c s hs := by
    rw [(hl.slab c s (hhas c s hs)).pagesEnd]
    exact Nat.le_trans (h.high c s (hhas c s hs)) hheap
  apart c s c' s' hs hs' hne := by
    have hd := hl.slab c s (hhas c s hs)
    have hd' := hl.slab c' s' (hhas c' s' hs')
    rw [hd.pagesEnd, hd'.pagesEnd, hd.start, hd'.start]
    exact h.apart c s c' s' (hhas c s hs) (hhas c' s' hs') hne
  onSlab c s hs hon := by
    rw [descOnSlab_congr (hl.cache c (hhas c s hs).1)] at hon
    rw [(hl.slab c s (hhas c s hs)).start]
    exact h.onSlab c s (hhas c s hs) hon

/-- The used bits of objects with a role and of full slabs have to be shown anew. -/
theorem UseOk.carry (h : UseOk g k) (hcaches : g'.caches = g.caches)
    (hhas : ∀ c s, g'.Has c s ↔ g.Has c s)
    (hrole : ∀ s i r, g.role s i = some r → r ≠ .client → r ≠ .vm → g'.role s i = some r)
    (hl : SameLayout g k k')
    (hused : ∀ s i r, g'.role s i = some r → ∃ c, g.Has c s ∧ i < k.count c s ∧ k'.IsUsed c s i)
    (hfull : ∀ c ∈ g.caches, ∀ s ∈ g'.on c .full, ∀ i < k.count c s, k'.IsUsed c s i)
    (hstock : k'.Clean → ∀ c ∈ g.caches, ∀ s ∈ g'.on c .free,
      ∃ i < k.count c s, ¬ k'.IsUsed c s i) :
    UseOk g' k' where
  used s i r hr := by
    obtain ⟨c, hs, hi, hu⟩ := hused s i r hr
    refine ⟨c, (hhas c s).mpr hs, ?_, hu⟩
    rw [hl.count hs]
    exact hi
  full c hc s hs i hi := by
    have hs' : g.Has c s := (hhas c s).mp ⟨hc, .full, hs⟩
    rw [hl.count hs'] at hi
    exact hfull c hs'.1 s hs i hi
  stock hclean c hc s hs := by
    have hs' : g.Has c s := (hhas c s).mp ⟨hc, .free, hs⟩
    rw [hl.count hs']
    exact hstock hclean c hs'.1 s hs
  slabDesc c s hs hon := by
    have hs' := (hhas c s).mp hs
    rw [descOnSlab_congr (hl.cache c hs'.1)] at hon
    exact (h.slabDesc c s hs' hon).mono (fun c s hs => (hhas c s).mpr hs)
      (fun s i hr => hrole s i _ hr (by simp) (by simp)) hl
  bitmap c s hs hon := by
    have hs' := (hhas c s).mp hs
    rw [descOnSlab_congr (hl.cache c hs'.1)] at hon
    rw [(hl.slab c s hs').used, hl.count hs']
    exact (h.bitmap c s hs' hon).mono (fun c s hs => (hhas c s).mpr hs)
      (fun s i hr => hrole s i _ hr (by simp) (by simp)) hl
  cacheDesc c hc := by
    rw [hcaches] at hc
    exact (h.cacheDesc c hc).mono (fun c s hs => (hhas c s).mpr hs)
      (fun s i hr => hrole s i _ hr (by simp) (by simp)) hl

/-- The cache pointers, where the page blocks start and the heap's place in its page. -/
structure SameStatics (k k' : Kernel) : Prop where
  caches : k'.caches = k.caches
  slabCache : k'.slabCache = k.slabCache
  cacheCache : k'.cacheCache = k.cacheCache
  linkedlistCache : k'.linkedlistCache = k.linkedlistCache
  cptCache : k'.cptCache = k.cptCache
  blocks : k'.pages.map Pageblock.start = k.pages.map Pageblock.start
  heap : k'.kernelHeapNextPage % smallPageSize = k.kernelHeapNextPage % smallPageSize

theorem SameStatics.refl (k : Kernel) : SameStatics k k := ⟨rfl, rfl, rfl, rfl, rfl, rfl, rfl⟩

theorem SameStatics.trans {k k' k'' : Kernel} (h : SameStatics k k') (h' : SameStatics k' k'') :
    SameStatics k k'' :=
  ⟨h'.caches.trans h.caches, h'.slabCache.trans h.slabCache, h'.cacheCache.trans h.cacheCache,
    h'.linkedlistCache.trans h.linkedlistCache, h'.cptCache.trans h.cptCache,
    h'.blocks.trans h.blocks, h'.heap.trans h.heap⟩

theorem blocksAligned_iff {pages : Pageblocks} :
    BlocksAligned pages ↔ ∀ a ∈ pages.map Pageblock.start, smallPageSize ∣ a := by
  unfold BlocksAligned
  rw [List.forall_mem_map]

theorem SameStatics.blocksAligned {k k' : Kernel} (h : SameStatics k k') :
    BlocksAligned k'.pages ↔ BlocksAligned k.pages := by
  rw [blocksAligned_iff, blocksAligned_iff, h.blocks]

theorem SameStatics.heap_dvd {k k' : Kernel} (h : SameStatics k k') :
    smallPageSize ∣ k'.kernelHeapNextPage ↔ smallPageSize ∣ k.kernelHeapNextPage := by
  rw [Nat.dvd_iff_mod_eq_zero, Nat.dvd_iff_mod_eq_zero, h.heap]

theorem slabPages_congr {ca ca' : Cache} (h : SameCache ca ca') : ca'.slabPages = ca.slabPages := by
  unfold Cache.slabPages Cache.objPages
  rw [h.objSize]

/-- A page for a cache stays one. -/
theorem Kernel.PageFor.carry {c page : Nat} (h : k.PageFor c page)
    (hc : SameCache (k.cache c) (k'.cache c))
    (hblocks : BlocksAligned k'.pages → BlocksAligned k.pages) : k'.PageFor c page := by
  refine ⟨fun h' => h.1 (hblocks h'), fun hbig => ?_⟩
  rw [hc.alignment]
  refine h.2 ?_
  unfold Kernel.objSize at hbig ⊢
  rwa [hc.objSize] at hbig

theorem CachesOk.carry (h : CachesOk g k) (hcaches : g'.caches = g.caches)
    (hhas : ∀ c s, g'.Has c s ↔ g.Has c s) (hl : SameLayout g k k') (hst : SameStatics k k')
    (hadded : k'.added = k.added) (hgrown : k'.grown = k.grown) (hclean : k'.Clean → k.Clean) :
    CachesOk g' k' where
  objSize c hc := by
    rw [hcaches] at hc
    rw [hl.objSize hc]
    exact h.objSize c hc
  slabCache := by
    rw [hst.slabCache, hcaches, hl.objSize h.slabCache.1]
    exact h.slabCache
  cacheCache := by
    rw [hst.cacheCache, hcaches, hl.objSize h.cacheCache.1]
    exact h.cacheCache
  linkedlistCache := by
    rw [hst.linkedlistCache, hcaches, hl.objSize h.linkedlistCache.1]
    exact h.linkedlistCache
  cptCache := by
    rw [hst.cptCache, hcaches, hl.objSize h.cptCache.1]
    exact h.cptCache
  added c s := by
    rw [hadded, hhas]
    exact h.added c s
  grown hcl x hx := by
    rw [hgrown] at hx
    obtain ⟨hs, hbits⟩ := h.grown (hclean hcl) x hx
    rw [hl.count hs, hl.bitmap hs]
    exact ⟨(hhas _ _).mpr hs, hbits⟩
  heap := hst.heap_dvd.mpr h.heap
  places c s hs := by
    have hs' := (hhas c s).mp hs
    rw [(hl.slab c s hs').start, (hl.slab c s hs').size, slabPages_congr (hl.cache c hs'.1)]
    exact h.places c s hs'
  logged x hx := by
    rw [hgrown] at hx
    obtain ⟨hs, hpage⟩ := h.logged x hx
    exact ⟨(hhas _ _).mpr hs, hpage.carry (hl.cache _ hs.1) hst.blocksAligned.mp⟩
  backed c s hs := by
    have hs' := (hhas c s).mp hs
    rw [hgrown, (hl.cache c hs'.1).alignment, hl.objSize hs'.1]
    exact h.backed c s hs'

theorem VmOk.carry (h : VmOk g k) (hhas : ∀ c s, g.Has c s → g'.Has c s)
    (hrole : ∀ s i, g.role s i = some .vm → g'.role s i = some .vm) (hl : SameLayout g k k')
    (hspace : k'.space = k.space) : VmOk g' k' where
  cptds e he := (h.cptds e (hspace ▸ he)).mono hhas hrole hl
  cpts e he := (h.cpts e (hspace ▸ he)).mono hhas hrole hl
  tables e he := (h.tables e (hspace ▸ he)).mono hhas hrole hl
  nodup := by rw [hspace]; exact h.nodup

theorem ListsOk.carry (h : ListsOk g k) (hcaches : g'.caches = g.caches) (hon : g'.on = g.on)
    (hslab : ∀ c s, g.Has c s → k'.nextSlab s = k.nextSlab s)
    (hcache : ∀ c ∈ g.caches, k'.cache c = k.cache c) (hst : k'.caches = k.caches) :
    ListsOk g' k' where
  caches := by
    rw [hst, hcaches]
    exact h.caches.congr fun c hc => by rw [hcache c hc]
  cachesNodup := by
    rw [hcaches]
    exact h.cachesNodup
  on c hc := by
    rw [hcaches] at hc
    rw [hon]
    refine ⟨fun w => ?_, (h.on c hc).nodup, (h.on c hc).once⟩
    rw [hcache c hc]
    exact ((h.on c hc).links w).congr fun s hs => hslab c s ⟨hc, w, hs⟩
  owner := by
    unfold Shape.Has
    rw [hcaches, hon]
    exact h.owner

end Carry

/-! ## Bytes -/

section Bytes

variable {g : Shape} {k : Kernel}

theorem sameLayout_setMem (g : Shape) (k : Kernel) (mem : Nat → Byte) :
    SameLayout g k (k.setMem mem) := ⟨fun _ _ _ => .refl _, fun _ _ => .refl _⟩

/-- **Writing bytes**: the used bits of objects with a role and of full slabs have to stay. -/
theorem SlabInv.writes (h : SlabInv g k) {role : Nat → Nat → Option Role} {mem : Nat → Byte}
    (hrole : ∀ s i r, g.role s i = some r → role s i = some r)
    (hused : ∀ s i r, role s i = some r →
      ∃ c, g.Has c s ∧ i < k.count c s ∧ (k.setMem mem).IsUsed c s i)
    (hfull : ∀ c ∈ g.caches, ∀ s ∈ g.on c .full, ∀ i < k.count c s, (k.setMem mem).IsUsed c s i)
    (hstock : k.Clean → ∀ c ∈ g.caches, ∀ s ∈ g.on c .free,
      ∃ i < k.count c s, ¬ (k.setMem mem).IsUsed c s i) :
    SlabInv { g with role := role } (k.setMem mem) := by
  have hl := sameLayout_setMem g k mem
  have hst : SameStatics k (k.setMem mem) := ⟨rfl, rfl, rfl, rfl, rfl, rfl, rfl⟩
  exact ⟨h.lists.carry rfl rfl (fun _ _ _ => rfl) (fun _ _ => rfl) rfl,
    h.layout.carry (fun _ _ hs => hs) hl (Nat.le_refl _),
    h.uses.carry rfl (fun _ _ => Iff.rfl) (fun s i r hr _ _ => hrole s i r hr) hl hused hfull hstock,
    h.caches.carry rfl (fun _ _ => Iff.rfl) hl hst rfl rfl id,
    h.vm.carry (fun _ _ hs => hs) (fun s i hr => hrole s i _ hr) hl rfl⟩

/-- **Bytes that are no used bits** may be anything. -/
theorem SlabInv.setMem (h : SlabInv g k) {mem : Nat → Byte}
    (hmem : ∀ c s x, g.Has c s → k.InBitmap c s x → mem x = k.mem x) :
    SlabInv g (k.setMem mem) := by
  have hbit : ∀ c s i, g.Has c s → i < k.count c s →
      ((k.setMem mem).IsUsed c s i ↔ k.IsUsed c s i) := fun c s i hs hi =>
    (sameLayout_setMem g k mem).isUsed hs
      (hmem c s _ hs (inBitmap_of_le (Nat.le_of_lt hi)))
  refine h.writes (fun _ _ _ hr => hr) ?_ ?_ ?_
  · intro s i r hr
    obtain ⟨c, hs, hi, hu⟩ := h.uses.used s i r hr
    exact ⟨c, hs, hi, (hbit c s i hs hi).mpr hu⟩
  · intro c hc s hs i hi
    exact (hbit c s i ⟨hc, _, hs⟩ hi).mpr (h.uses.full c hc s hs i hi)
  · intro hclean c hc s hs
    obtain ⟨i, hi, hu⟩ := h.uses.stock hclean c hc s hs
    exact ⟨i, hi, fun hu' => hu ((hbit c s i ⟨hc, _, hs⟩ hi).mp hu')⟩

/-- A used bit of one slab is no used bit of another, nor another of its own. -/
theorem SlabInv.isUsed_of_other (h : SlabInv g k) {c s j c' s' i : Nat} {mem : Nat → Byte}
    (hs : g.Has c s) (hj : j ≤ k.count c s) (hs' : g.Has c' s') (hi : i < k.count c' s')
    (hother : ∀ x, x ≠ k.bitmap c s + j / 8 → mem x = k.mem x)
    (hsame : ∀ i, i ≠ j → usedBit mem (k.bitmap c s) i = usedBit k.mem (k.bitmap c s) i)
    (hne : s' ≠ s ∨ i ≠ j) : (k.setMem mem).IsUsed c' s' i ↔ k.IsUsed c' s' i := by
  by_cases hss : s' = s
  · subst hss
    obtain rfl := h.lists.owner c c' s' hs hs'
    show usedBit mem (k.bitmap c s') i ≠ 0 ↔ _
    rw [hsame i (by tauto)]
    rfl
  · refine (sameLayout_setMem g k mem).isUsed hs' (hother _ fun he => hss ?_)
    have hx := inBitmap_of_le (Nat.le_of_lt hi)
    rw [he] at hx
    exact h.bitmaps_unique hs' hs hx (inBitmap_of_le hj)

@[simp] theorem Shape.setRole_self (g : Shape) (s i : Nat) (r : Option Role) :
    (g.setRole s i r).role s i = r := by
  simp [Shape.setRole]

theorem Shape.setRole_other (g : Shape) {s i s' i' : Nat} (r : Option Role)
    (h : ¬ (s' = s ∧ i' = i)) : (g.setRole s i r).role s' i' = g.role s' i' := by
  show Function.update g.role s (Function.update (g.role s) i r) s' i' = g.role s' i'
  by_cases hss : s' = s
  · subst hss
    rw [Function.update_self, Function.update_of_ne fun hi => h ⟨rfl, hi⟩]
  · rw [Function.update_of_ne hss]

/-- **Taking** a free slot: its object is the client's. -/
theorem SlabInv.take (h : SlabInv g k) {c s i : Nat} (hs : g.Has c s) (hi : i < k.count c s)
    (hclear : ¬ k.IsUsed c s i) (hlist : s ∉ g.on c .free) :
    SlabInv (g.setRole s i (some .client)) (k.setMem (setUsedBit k.mem (k.bitmap c s) i)) := by
  -- the slot has no role yet
  have hnone : ∀ r, g.role s i ≠ some r := by
    intro r hr
    obtain ⟨c', hs', _, hu⟩ := h.uses.used s i r hr
    obtain rfl := h.lists.owner c c' s hs hs'
    exact hclear hu
  have hself : (k.setMem (setUsedBit k.mem (k.bitmap c s) i)).IsUsed c s i :=
    usedBit_set_self _ _ _
  have hother : ∀ c' s' i', g.Has c' s' → i' < k.count c' s' → s' ≠ s ∨ i' ≠ i →
      ((k.setMem (setUsedBit k.mem (k.bitmap c s) i)).IsUsed c' s' i' ↔ k.IsUsed c' s' i') :=
    fun c' s' i' hs' hi' => h.isUsed_of_other hs (Nat.le_of_lt hi) hs' hi'
      (fun x hx => setUsedBit_other hx) (fun j hj => usedBit_set_other _ _ hj.symm)
  have hstays : ∀ c' s' i', g.Has c' s' → i' < k.count c' s' → k.IsUsed c' s' i' →
      (k.setMem (setUsedBit k.mem (k.bitmap c s) i)).IsUsed c' s' i' := by
    intro c' s' i' hs' hi' hu
    by_cases hsame : s' = s ∧ i' = i
    · obtain ⟨rfl, rfl⟩ := hsame
      obtain rfl := h.lists.owner c c' s' hs hs'
      exact hself
    · exact (hother c' s' i' hs' hi' (not_and_or.mp hsame)).mpr hu
  refine h.writes ?_ ?_ ?_ ?_
  · intro s' i' r hr
    refine (g.setRole_other _ ?_).trans hr
    intro hgiven
    obtain ⟨rfl, rfl⟩ := hgiven
    exact hnone r hr
  · intro s' i' r hr
    by_cases hsame : s' = s ∧ i' = i
    · obtain ⟨rfl, rfl⟩ := hsame
      exact ⟨c, hs, hi, hself⟩
    · obtain ⟨c', hs', hi', hu⟩ := h.uses.used s' i' r ((g.setRole_other _ hsame).symm.trans hr)
      exact ⟨c', hs', hi', hstays c' s' i' hs' hi' hu⟩
  · intro c' hc' s' hs' i' hi'
    exact hstays c' s' i' ⟨hc', _, hs'⟩ hi' (h.uses.full c' hc' s' hs' i' hi')
  · intro hclean c' hc' s' hs'
    obtain ⟨i', hi', hu⟩ := h.uses.stock hclean c' hc' s' hs'
    refine ⟨i', hi', fun hu' => hu ((hother c' s' i' ⟨hc', _, hs'⟩ hi' (.inl ?_)).mp hu')⟩
    intro heq
    subst heq
    obtain rfl := h.lists.owner c c' s' hs ⟨hc', _, hs'⟩
    exact hlist hs'

/-- **Clearing** a bit of a slot without a role, or the one behind the last, off the full list. -/
theorem SlabInv.clear (h : SlabInv g k) {c s j : Nat} (hs : g.Has c s) (hj : j ≤ k.count c s)
    (hrole : g.role s j = none) (hlist : s ∉ g.on c .full) :
    SlabInv g (k.setMem (clearUsedBit k.mem (k.bitmap c s) j)) := by
  have hother : ∀ c' s' i', g.Has c' s' → i' < k.count c' s' → s' ≠ s ∨ i' ≠ j →
      ((k.setMem (clearUsedBit k.mem (k.bitmap c s) j)).IsUsed c' s' i' ↔ k.IsUsed c' s' i') :=
    fun c' s' i' hs' hi' => h.isUsed_of_other hs hj hs' hi'
      (fun x hx => clearUsedBit_other hx) (fun i hi => usedBit_clear_other _ _ hi.symm)
  refine h.writes (fun _ _ _ hr => hr) ?_ ?_ ?_
  · intro s' i' r hr
    obtain ⟨c', hs', hi', hu⟩ := h.uses.used s' i' r hr
    refine ⟨c', hs', hi', (hother c' s' i' hs' hi' (not_and_or.mp ?_)).mpr hu⟩
    intro hgiven
    obtain ⟨rfl, rfl⟩ := hgiven
    rw [hrole] at hr
    exact absurd hr (by simp)
  · intro c' hc' s' hs' i' hi'
    refine (hother c' s' i' ⟨hc', _, hs'⟩ hi' (.inl ?_)).mpr (h.uses.full c' hc' s' hs' i' hi')
    intro heq
    subst heq
    obtain rfl := h.lists.owner c c' s' hs ⟨hc', _, hs'⟩
    exact hlist hs'
  · intro hclean c' hc' s' hs'
    obtain ⟨i', hi', hu⟩ := h.uses.stock hclean c' hc' s' hs'
    refine ⟨i', hi', fun hu' => ?_⟩
    by_cases hsame : s' = s ∧ i' = j
    · obtain ⟨rfl, rfl⟩ := hsame
      obtain rfl := h.lists.owner c c' s' hs ⟨hc', _, hs'⟩
      exact hu' (usedBit_clear_self _ _ _)
    · exact hu ((hother c' s' i' ⟨hc', _, hs'⟩ hi' (not_and_or.mp hsame)).mp hu')

end Bytes

end OSExt.Memory
