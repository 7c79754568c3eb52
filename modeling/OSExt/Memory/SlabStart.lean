import OSExt.Memory.SlabBoot

/-!
# What `initSlabAllocator` starts from

The first four heap pages are clear, so the first allocations take the first
slots: the caches from the first page, the descriptor of the page tables' slab
from the second and its used array from the third. With these six objects in use
the four caches meet the invariant, and every later call keeps it.
-/

namespace OSExt.Memory

open Lib

/-! ## The first slots of a clear page -/

/-- The first clear bit is found. -/
theorem findClear_eq {mem : Nat → Byte} {used i n : Nat} (hi : i < n)
    (hused : ∀ j < i, usedBit mem used j ≠ 0) (hclear : usedBit mem used i = 0) :
    findClear mem used 0 n = some i := by
  cases hfind : findClear mem used 0 n with
  | none => exact absurd hclear (findClear_none.mp hfind i (Nat.zero_le i) (by omega))
  | some j =>
      obtain ⟨_, _, hj, hbefore⟩ := findClear_some hfind
      rcases Nat.lt_trichotomy j i with hlt | rfl | hlt
      · exact absurd hj (hused j hlt)
      · rfl
      · exact absurd hclear (hbefore i (Nat.zero_le i) hlt)

/-- The first `n` of the eight used bits at `a` are set. -/
def FirstBits (mem : Nat → Byte) (a n : Nat) : Prop := ∀ j < 8, usedBit mem a j ≠ 0 ↔ j < n

theorem FirstBits.zero {mem : Nat → Byte} {a : Nat} (h : mem a = 0) : FirstBits mem a 0 := by
  intro j hj
  have hbyte : a + j / 8 = a := by omega
  simp [usedBit, hbyte, h]

theorem FirstBits.set {mem : Nat → Byte} {a n : Nat} (h : FirstBits mem a n) :
    FirstBits (setUsedBit mem a n) a (n + 1) := by
  intro j hj
  by_cases hjn : j = n
  · subst hjn
    exact iff_of_true (usedBit_set_self mem a j) (Nat.lt_succ_self j)
  · rw [usedBit_set_other mem a (Ne.symm hjn), h j hj]
    omega

theorem FirstBits.other {mem : Nat → Byte} {a b i n : Nat} (h : FirstBits mem a n) (hi : i < 8)
    (hne : a ≠ b) : FirstBits (setUsedBit mem b i) a n := by
  intro j hj
  rw [usedBit_congr (setUsedBit_other (by omega))]
  exact h j hj

/-- The first free slot is the one that is given. -/
theorem allocObjectFromSlab_at {k : Kernel} {c s i : Nat}
    (hbits : (k.cache c).descOnSlab = true ∨ (k.slab s).used ≠ 0) (hi : i < k.count c s)
    (hused : ∀ j < i, k.IsUsed c s j) (hclear : ¬ k.IsUsed c s i) :
    allocObjectFromSlab s (k.cache c).objSize (k.cache c).flags k
      = (.ok (k.objAddr c s i), k.setMem (setUsedBit k.mem (k.bitmap c s) i)) := by
  have hfind : findClear k.mem ((k.slab s).bits (k.cache c).objSize (k.cache c).flags) 0
      ((k.slab s).objs (k.cache c).objSize (k.cache c).flags) = some i :=
    findClear_eq hi hused (not_not.mp hclear)
  rw [allocObjectFromSlab, bind_ok]
  refine ⟨_, _, rfl, ?_⟩
  rw [if_neg, bind_ok]
  · refine ⟨_, _, rfl, ?_⟩
    rw [hfind]
    rfl
  · rcases hbits with hon | hne
    · simp [show onSlab (k.cache c).objSize (k.cache c).flags = true from hon]
    · simp [hne]

/-- A slab with the record of one of the cache, whose first slots are in use, gives the next. -/
theorem allocObjectFromSlab_first {k : Kernel} {slab objSize i : Nat} {flags : BitVec 16}
    {d : SlabDesc} (hd : k.slab slab = d) (hon : onSlab objSize flags = true)
    (hi : i < d.objs objSize flags) (hi8 : i < 8)
    (hbits : FirstBits k.mem (d.bits objSize flags) i) :
    allocObjectFromSlab slab objSize flags k
      = (.ok (d.objectsStart objSize flags + i * objSize),
        k.setMem (setUsedBit k.mem (d.bits objSize flags) i)) := by
  subst hd
  have hfind := findClear_eq hi (fun j hj => (hbits j (by omega)).mpr hj)
    (not_not.mp (mt (hbits i hi8).mp (Nat.lt_irrefl i)))
  rw [allocObjectFromSlab, bind_ok]
  refine ⟨_, _, rfl, ?_⟩
  rw [if_neg (by simp [hon]), bind_ok]
  refine ⟨_, _, rfl, ?_⟩
  rw [hfind]
  rfl

/-! ## `bootCaches` -/

/-- `bootCaches` on its way: the used bits it has set and the records it has written. -/
structure Booting (k0 k : Kernel) (n m l : Nat) (slab : Nat → SlabDesc) (cache : Nat → Cache) :
    Prop where
  cacheBits : FirstBits k.mem 0xe4000010 n
  slabBits : FirstBits k.mem 0xe4001010 m
  listBits : FirstBits k.mem 0xe4002010 l
  /-- the used array of the first page table slab -/
  tableBits : FirstBits k.mem 0xe4002054 0
  slab : k.slab = slab
  cache : k.cache = cache
  rest : k = { k0 with mem := k.mem, slab := k.slab, cache := k.cache }

section

variable {k0 k : Kernel} {n m l : Nat} {slab : Nat → SlabDesc} {cache : Nat → Cache}
  {E : Stop → Kernel → Prop}

theorem Booting.setSlab (h : Booting k0 k n m l slab cache) (s : Nat) (d : SlabDesc) :
    Booting k0 (k.setSlab s d) n m l (Function.update slab s d) cache := by
  have hrest := h.rest
  refine ⟨h.cacheBits, h.slabBits, h.listBits, h.tableBits, ?_, h.cache, ?_⟩
  · rw [← h.slab]
    rfl
  · rw [hrest]
    rfl

theorem Booting.setCache (h : Booting k0 k n m l slab cache) (c : Nat) (ca : Cache) :
    Booting k0 (k.setCache c ca) n m l slab (Function.update cache c ca) := by
  have hrest := h.rest
  refine ⟨h.cacheBits, h.slabBits, h.listBits, h.tableBits, h.slab, ?_, ?_⟩
  · rw [← h.cache]
    rfl
  · rw [hrest]
    rfl

theorem bootSlab_spec (h : Booting k0 k n m l slab cache) (page : Nat) :
    Ensures (bootSlab page)
      (fun _ k' => Booting k0 k' n m l (Function.update slab page ⟨1, page, 0, 0⟩) cache) E k :=
  h.setSlab page _

theorem bootCache_spec (h : Booting k0 k n m l slab cache) (hn : n < 8)
    (hd : slab 0xe4000000 = ⟨1, 0xe4000000, 0, 0⟩) (s objSize : Nat) (flags : BitVec 16) :
    Ensures (bootCache 0xe4000000 s objSize flags)
      (fun p k' => p = 0xe4000024 + n * 28 ∧ Booting k0 k' (n + 1) m l slab
        (Function.update cache p ⟨0, 0, s, objSize, 0, flags, 0⟩)) E k := by
  have hcount : n < (⟨1, 0xe4000000, 0, 0⟩ : SlabDesc).objs sizeofCache 0 :=
    Nat.lt_trans hn (by decide)
  rw [bootCache, ensures_bind, ensures_of_ok (allocObjectFromSlab_first (by rw [h.slab, hd]) rfl
    hcount hn h.cacheBits), ensures_bind, ensures_update]
  refine ⟨rfl, Booting.setCache ?_ _ _⟩
  have hrest := h.rest
  refine ⟨h.cacheBits.set, h.slabBits.other hn (by decide), h.listBits.other hn (by decide),
    h.tableBits.other hn (by decide), h.slab, h.cache, ?_⟩
  rw [hrest]
  rfl

theorem slabSlab_spec (h : Booting k0 k n 0 l slab cache)
    (hd : slab 0xe4001000 = ⟨1, 0xe4001000, 0, 0⟩) :
    Ensures (allocObjectFromSlab 0xe4001000 sizeofSlabDesc 0)
      (fun p k' => p = 0xe4001034 ∧ Booting k0 k' n 1 l slab cache) E k := by
  have hcount : 0 < (⟨1, 0xe4001000, 0, 0⟩ : SlabDesc).objs sizeofSlabDesc 0 := by decide
  rw [ensures_of_ok (allocObjectFromSlab_first (by rw [h.slab, hd]) rfl hcount (by omega)
    h.slabBits)]
  have hrest := h.rest
  refine ⟨rfl, h.cacheBits.other (by decide) (by decide), h.slabBits.set,
    h.listBits.other (by decide) (by decide), h.tableBits.other (by decide) (by decide), h.slab,
    h.cache, ?_⟩
  rw [hrest]
  rfl

theorem linkedlistSlab_spec (h : Booting k0 k n m 0 slab cache)
    (hd : slab 0xe4002000 = ⟨1, 0xe4002000, 0, 0⟩) :
    Ensures (allocObjectFromSlab 0xe4002000 sizeofLinkedList 0)
      (fun p k' => p = 0xe4002054 ∧ Booting k0 k' n m 1 slab cache) E k := by
  have hcount : 0 < (⟨1, 0xe4002000, 0, 0⟩ : SlabDesc).objs sizeofLinkedList 0 := by decide
  rw [ensures_of_ok (allocObjectFromSlab_first (by rw [h.slab, hd]) rfl hcount (by omega)
    h.listBits)]
  have hrest := h.rest
  refine ⟨rfl, h.cacheBits.other (by decide) (by decide),
    h.slabBits.other (by decide) (by decide), h.listBits.set,
    h.tableBits.other (by decide) (by decide), h.slab, h.cache, ?_⟩
  rw [hrest]
  rfl

/-- What `bootCaches` leaves: four caches, each with one slab on its free list. -/
structure Booted (k0 k : Kernel) : Prop where
  cacheSlab : k.slab 0xe4000000 = ⟨1, 0xe4000000, 0, 0⟩
  slabSlab : k.slab 0xe4001000 = ⟨1, 0xe4001000, 0, 0⟩
  linkedlistSlab : k.slab 0xe4002000 = ⟨1, 0xe4002000, 0, 0⟩
  cptSlab : k.slab 0xe4001034 = ⟨1, 0xe4003000, 0, 0xe4002054⟩
  cacheCache : k.cache 0xe4000024 = ⟨0, 0, 0xe4000000, sizeofCache, 0, 0, 0xe4000040⟩
  slabCache : k.cache 0xe4000040 = ⟨0, 0, 0xe4001000, sizeofSlabDesc, 0, 0, 0xe400005c⟩
  linkedlistCache : k.cache 0xe400005c = ⟨0, 0, 0xe4002000, sizeofLinkedList, 0, 0, 0xe4000078⟩
  cptCache : k.cache 0xe4000078 = ⟨0, 0, 0xe4001034, 1024, 0, 0b1000, 0⟩
  cacheBits : FirstBits k.mem 0xe4000010 4
  slabBits : FirstBits k.mem 0xe4001010 1
  listBits : FirstBits k.mem 0xe4002010 1
  tableBits : FirstBits k.mem 0xe4002054 0
  rest : k = { k0 with
    mem := k.mem
    slab := k.slab
    cache := k.cache
    caches := 0xe4000024
    cacheCache := 0xe4000024
    slabCache := 0xe4000040
    linkedlistCache := 0xe400005c
    cptCache := 0xe4000078
    kernelHeapNextPage := 0xe4004000
    added := [(0xe4000078, 0xe4001034), (0xe400005c, 0xe4002000), (0xe4000040, 0xe4001000),
      (0xe4000024, 0xe4000000)] }

/-- **`bootCaches`** takes the first slots. -/
theorem bootCaches_spec (hzero : ∀ x, kernelHeapStart ≤ x →
    x < kernelHeapStart + 4 * smallPageSize → k.mem x = 0) :
    Ensures bootCaches (fun _ k' => Booted k k') E k := by
  have h : Booting k k 0 0 0 k.slab k.cache :=
    ⟨.zero (hzero _ (by decide) (by decide)), .zero (hzero _ (by decide) (by decide)),
      .zero (hzero _ (by decide) (by decide)), .zero (hzero _ (by decide) (by decide)), rfl, rfl,
      rfl⟩
  -- three slabs, each with the cache that it belongs to
  rw [bootCaches, ensures_bind]
  refine (bootSlab_spec h _).imp fun _ k1 h1 => ?_
  rw [ensures_bind]
  refine (bootCache_spec h1 (by omega) rfl _ _ _).imp fun p k2 hk2 => ?_
  obtain ⟨rfl, h2⟩ := hk2
  rw [ensures_bind]
  refine (bootSlab_spec h2 _).imp fun _ k3 h3 => ?_
  rw [ensures_bind]
  refine (bootCache_spec h3 (by omega) rfl _ _ _).imp fun p k4 hk4 => ?_
  obtain ⟨rfl, h4⟩ := hk4
  rw [ensures_bind]
  refine (bootSlab_spec h4 _).imp fun _ k5 h5 => ?_
  rw [ensures_bind]
  refine (bootCache_spec h5 (by omega) rfl _ _ _).imp fun p k6 hk6 => ?_
  obtain ⟨rfl, h6⟩ := hk6
  rw [ensures_bind]
  -- the descriptor and the used array of the fourth slab come from the slabs so far
  refine (slabSlab_spec h6 rfl).imp fun p k7 hk7 => ?_
  obtain ⟨rfl, h7⟩ := hk7
  have h8 := h7.setSlab 0xe4001034
    { k7.slab 0xe4001034 with size := 1, start := kernelHeapStart + smallPageSize * 3, next := 0 }
  rw [ensures_bind, ensures_update, ensures_bind]
  refine (linkedlistSlab_spec h8 rfl).imp fun p k9 hk9 => ?_
  obtain ⟨rfl, h9⟩ := hk9
  have h10 := h9.setSlab 0xe4001034 { k9.slab 0xe4001034 with used := 0xe4002054 }
  rw [ensures_bind, ensures_update, ensures_bind]
  refine (bootCache_spec h10 (by omega) rfl _ _ _).imp fun p k11 hk11 => ?_
  obtain ⟨rfl, h11⟩ := hk11
  rw [ensures_bind, ensures_update, ensures_bind, ensures_update, ensures_bind, ensures_update,
    ensures_update]
  -- the last writes give each cache the slab it has
  have hrest := h11.rest
  have hslab := h11.slab
  have hcc : k11.cache 0xe4000024 = ⟨0, 0, 0xe4000000, sizeofCache, 0, 0, 0⟩ := by
    rw [h11.cache]
    rfl
  have hsc : k11.cache 0xe4000040 = ⟨0, 0, 0xe4001000, sizeofSlabDesc, 0, 0, 0⟩ := by
    rw [h11.cache]
    rfl
  have hll : k11.cache 0xe400005c = ⟨0, 0, 0xe4002000, sizeofLinkedList, 0, 0, 0⟩ := by
    rw [h11.cache]
    rfl
  have hcpt : k11.cache 0xe4000078 = ⟨0, 0, 0xe4001034, 1024, 0, 0b1000, 0⟩ := by
    rw [h11.cache]
    rfl
  refine ⟨?_, ?_, ?_, ?_, ?_, ?_, ?_, ?_, h11.cacheBits, h11.slabBits, h11.listBits,
    h11.tableBits, ?_⟩
  · show k11.slab _ = _
    rw [hslab]
    rfl
  · show k11.slab _ = _
    rw [hslab]
    rfl
  · show k11.slab _ = _
    rw [hslab]
    rfl
  · have hcpt : k9.slab 0xe4001034 = _ := congrFun h9.slab _
    rw [Function.update_self] at hcpt
    show k11.slab _ = _
    rw [hslab, Function.update_self, hcpt]
    rfl
  · simp [Kernel.setCache, hcc]
  · simp [Kernel.setCache, hsc]
  · simp [Kernel.setCache, hll]
  · simp [Kernel.setCache, hcpt]
  · rw [hrest]
    rfl

end

/-! ## The first shape -/

/-- The first four caches, each with its slab. -/
def bootSlabs : List (Nat × Nat) :=
  [(0xe4000024, 0xe4000000), (0xe4000040, 0xe4001000), (0xe400005c, 0xe4002000),
    (0xe4000078, 0xe4001034)]

/-- The slabs are free, but for what the allocator itself keeps on them. -/
def bootShape : Shape where
  caches := bootSlabs.map Prod.fst
  on c w := if w = .free then (bootSlabs.filter (fun x => x.1 = c)).map Prod.snd else []
  role s i :=
    if s = 0xe4000000 ∧ i < 4 then some .cacheDesc
    else if s = 0xe4001000 ∧ i = 0 then some (.slabDesc 0xe4001034)
    else if s = 0xe4002000 ∧ i = 0 then some (.bitmap 0xe4001034)
    else none

theorem bootShape_has (c s : Nat) : bootShape.Has c s ↔ (c, s) ∈ bootSlabs := by
  constructor
  · intro hgiven
    obtain ⟨_, w, hs⟩ := hgiven
    by_cases hw : w = .free
    · simp only [bootShape, if_pos hw, List.mem_map, List.mem_filter] at hs
      obtain ⟨x, ⟨hx, hc⟩, rfl⟩ := hs
      obtain rfl : x.1 = c := by simpa using hc
      exact hx
    · simp [bootShape, if_neg hw] at hs
  · intro hs
    refine ⟨List.mem_map.mpr ⟨(c, s), hs, rfl⟩, .free, ?_⟩
    simp only [bootShape, if_true, List.mem_map, List.mem_filter]
    exact ⟨(c, s), ⟨hs, by simp⟩, rfl⟩

/-- Every slab of the first shape is one of four. -/
theorem bootShape_cases {P : Nat → Nat → Prop} (h0 : P 0xe4000024 0xe4000000)
    (h1 : P 0xe4000040 0xe4001000) (h2 : P 0xe400005c 0xe4002000) (h3 : P 0xe4000078 0xe4001034)
    (c s : Nat) (hs : bootShape.Has c s) : P c s := by
  have hmem := (bootShape_has c s).mp hs
  simp only [bootSlabs, List.mem_cons, Prod.mk.injEq, List.not_mem_nil, or_false] at hmem
  rcases hmem with ⟨rfl, rfl⟩ | ⟨rfl, rfl⟩ | ⟨rfl, rfl⟩ | ⟨rfl, rfl⟩
  · exact h0
  · exact h1
  · exact h2
  · exact h3

/-- Where a slab of the first shape is, and its layout. -/
structure Place (k : Kernel) (c s start base count bitmap : Nat) : Prop where
  start : (k.slab s).start = start
  size : (k.slab s).size = 1
  base : k.base c s = base
  count : k.count c s = count
  bitmap : k.bitmap c s = bitmap

theorem place_of {k : Kernel} {c s start base count bitmap : Nat} {d : SlabDesc} {ca : Cache}
    (hd : k.slab s = d) (hc : k.cache c = ca) (hstart : d.start = start) (hsize : d.size = 1)
    (hbase : d.base ca = base) (hcount : d.count ca = count) (hbitmap : d.bitmap ca = bitmap) :
    Place k c s start base count bitmap := by
  subst hd hc
  exact ⟨hstart, hsize, hbase, hcount, hbitmap⟩

section

variable {k0 k : Kernel}

theorem Booted.cachePlace (h : Booted k0 k) :
    Place k 0xe4000024 0xe4000000 0xe4000000 0xe4000024 145 0xe4000010 :=
  place_of h.cacheSlab h.cacheCache rfl rfl (by decide) (by decide) (by decide)

theorem Booted.slabPlace (h : Booted k0 k) :
    Place k 0xe4000040 0xe4001000 0xe4001000 0xe4001034 252 0xe4001010 :=
  place_of h.slabSlab h.slabCache rfl rfl (by decide) (by decide) (by decide)

theorem Booted.listPlace (h : Booted k0 k) :
    Place k 0xe400005c 0xe4002000 0xe4002000 0xe4002054 501 0xe4002010 :=
  place_of h.linkedlistSlab h.linkedlistCache rfl rfl (by decide) (by decide) (by decide)

theorem Booted.tablePlace (h : Booted k0 k) :
    Place k 0xe4000078 0xe4001034 0xe4003000 0xe4003000 4 0xe4002054 :=
  place_of h.cptSlab h.cptCache rfl rfl (by decide) (by decide) (by decide)

theorem Booted.statics (h : Booted k0 k) : k.caches = 0xe4000024 ∧ k.cacheCache = 0xe4000024 ∧
    k.slabCache = 0xe4000040 ∧ k.linkedlistCache = 0xe400005c ∧ k.cptCache = 0xe4000078 ∧
    k.kernelHeapNextPage = 0xe4004000 ∧ k.space = k0.space ∧ k.arrays = k0.arrays ∧
    k.grown = k0.grown ∧ k.added = bootSlabs.reverse := by
  rw [h.rest]
  exact ⟨rfl, rfl, rfl, rfl, rfl, rfl, rfl, rfl, rfl, rfl⟩

theorem Booted.lists (h : Booted k0 k) : ListsOk bootShape k := by
  obtain ⟨hcaches, _⟩ := h.statics
  refine ⟨?_, by decide, ?_, ?_⟩
  · refine ⟨hcaches, by omega, ?_, by omega, ?_, by omega, ?_, by omega, ?_⟩
    · show (k.cache 0xe4000024).next = _
      rw [h.cacheCache]
    · show (k.cache 0xe4000040).next = _
      rw [h.slabCache]
    · show (k.cache 0xe400005c).next = _
      rw [h.linkedlistCache]
    · show (k.cache 0xe4000078).next = _
      rw [h.cptCache]
  · -- each cache has one slab, on the free list
    have hone : ∀ c s, s ≠ 0 → k.slab s = { k.slab s with next := 0 } →
        k.cache c = { k.cache c with fullSlabs := 0, partialSlabs := 0, freeSlabs := s } →
        bootShape.on c .free = [s] → OnLists k c (bootShape.on c) := by
      intro c s hne hs hc hfree
      refine ⟨fun w => ?_, fun w => ?_, fun w w' x hx hx' => ?_⟩
      · rw [hc]
        cases w with
        | full => exact rfl
        | part => exact rfl
        | free =>
            rw [hfree]
            refine ⟨rfl, hne, ?_⟩
            show (k.slab s).next = 0
            rw [hs]
      · cases w with
        | full => exact List.nodup_nil
        | part => exact List.nodup_nil
        | free =>
            rw [hfree]
            exact List.nodup_singleton s
      · cases w with
        | full => exact absurd hx List.not_mem_nil
        | part => exact absurd hx List.not_mem_nil
        | free =>
            cases w' with
            | full => exact absurd hx' List.not_mem_nil
            | part => exact absurd hx' List.not_mem_nil
            | free => rfl
    intro c hc
    simp only [bootShape, bootSlabs, List.map_cons, List.map_nil, List.mem_cons, List.not_mem_nil,
      or_false] at hc
    rcases hc with rfl | rfl | rfl | rfl
    · exact hone _ 0xe4000000 (by decide) (by rw [h.cacheSlab]) (by rw [h.cacheCache]) (by decide)
    · exact hone _ 0xe4001000 (by decide) (by rw [h.slabSlab]) (by rw [h.slabCache]) (by decide)
    · exact hone _ 0xe4002000 (by omega) (by rw [h.linkedlistSlab]) (by rw [h.linkedlistCache])
        (by decide)
    · exact hone _ 0xe4001034 (by decide) (by rw [h.cptSlab]) (by rw [h.cptCache]) (by decide)
  · intro c c' s hs hs'
    have h1 := (bootShape_has c s).mp hs
    have h2 := (bootShape_has c' s).mp hs'
    simp only [bootSlabs, List.mem_cons, Prod.mk.injEq, List.not_mem_nil, or_false] at h1 h2
    omega

theorem Place.pagesEnd {c s start base count bitmap : Nat} (hp : Place k c s start base count bitmap) :
    (k.slab s).pagesEnd = start + 4096 := by
  unfold SlabDesc.pagesEnd smallPageSize
  rw [hp.start, hp.size]

/-- The four slabs have the first four pages of the heap. -/
theorem Booted.page (h : Booted k0 k) : ∀ c s, bootShape.Has c s →
    ∃ i < 4, (k.slab s).start = 0xe4000000 + i * 4096 ∧
      (k.slab s).pagesEnd = 0xe4000000 + i * 4096 + 4096 ∧
      s = if i = 3 then 0xe4001034 else 0xe4000000 + i * 4096 := by
  refine bootShape_cases ?_ ?_ ?_ ?_
  · exact ⟨0, by omega, h.cachePlace.start, h.cachePlace.pagesEnd, rfl⟩
  · exact ⟨1, by omega, h.slabPlace.start, h.slabPlace.pagesEnd, rfl⟩
  · exact ⟨2, by omega, h.listPlace.start, h.listPlace.pagesEnd, rfl⟩
  · exact ⟨3, by omega, h.tablePlace.start, h.tablePlace.pagesEnd, rfl⟩

theorem Booted.fits (h : Booted k0 k) : ∀ c s, bootShape.Has c s → Fits (k.cache c) (k.slab s) := by
  refine bootShape_cases ?_ ?_ ?_ ?_
  · have hsize := h.cachePlace.size
    exact ⟨by rw [h.cacheCache]; decide, by rw [hsize]; decide, by rw [h.cacheCache, hsize]; decide⟩
  · have hsize := h.slabPlace.size
    exact ⟨by rw [h.slabCache]; decide, by rw [hsize]; decide, by rw [h.slabCache, hsize]; decide⟩
  · have hsize := h.listPlace.size
    exact ⟨by rw [h.linkedlistCache]; decide, by rw [hsize]; decide,
      by rw [h.linkedlistCache, hsize]; decide⟩
  · have hsize := h.tablePlace.size
    exact ⟨by rw [h.cptCache]; decide, by rw [hsize]; decide, by rw [h.cptCache, hsize]; decide⟩

theorem Booted.layout (h : Booted k0 k) : LayoutOk bootShape k := by
  have hheap : k.kernelHeapNextPage = 0xe4004000 := h.statics.2.2.2.2.2.1
  have hstart : kernelHeapStart = 0xe4000000 := rfl
  refine ⟨by rw [hheap, hstart]; omega, h.fits, ?_, ?_, ?_, ?_⟩
  · intro c s hs
    obtain ⟨i, _, hi, _, _⟩ := h.page c s hs
    omega
  · intro c s hs
    obtain ⟨i, hlt, _, hie, _⟩ := h.page c s hs
    omega
  · intro c s c' s' hs hs' hne
    obtain ⟨i, _, hi, hie, rfl⟩ := h.page c s hs
    obtain ⟨j, _, hj, hje, rfl⟩ := h.page c' s' hs'
    rw [hie, hje, hi, hj]
    rcases Nat.lt_trichotomy i j with hlt | rfl | hlt
    · omega
    · exact absurd rfl hne
    · omega
  · refine bootShape_cases ?_ ?_ ?_ ?_
    · exact fun _ => h.cachePlace.start.symm
    · exact fun _ => h.slabPlace.start.symm
    · exact fun _ => h.listPlace.start.symm
    · intro hon
      rw [h.cptCache] at hon
      exact absurd hon Bool.false_ne_true

/-- The roles of the first shape. -/
theorem bootShape_role {s i : Nat} {r : Role} (h : bootShape.role s i = some r) :
    (s = 0xe4000000 ∧ i < 4 ∧ r = .cacheDesc)
      ∨ (s = 0xe4001000 ∧ i = 0 ∧ r = .slabDesc 0xe4001034)
      ∨ (s = 0xe4002000 ∧ i = 0 ∧ r = .bitmap 0xe4001034) := by
  simp only [bootShape] at h
  split at h
  · rename_i hs
    exact .inl ⟨hs.1, hs.2, (Option.some.inj h).symm⟩
  · split at h
    · rename_i hs
      exact .inr (.inl ⟨hs.1, hs.2, (Option.some.inj h).symm⟩)
    · split at h
      · rename_i hs
        exact .inr (.inr ⟨hs.1, hs.2, (Option.some.inj h).symm⟩)
      · exact absurd h (by simp)

theorem Booted.uses (h : Booted k0 k) : UseOk bootShape k := by
  have hp0 := h.cachePlace
  have hp1 := h.slabPlace
  have hp2 := h.listPlace
  have hp3 := h.tablePlace
  have hhas : ∀ c s, (c, s) ∈ bootSlabs → bootShape.Has c s := fun c s => (bootShape_has c s).mpr
  have hoff : ∀ c s, bootShape.Has c s → (k.cache c).descOnSlab = false →
      c = 0xe4000078 ∧ s = 0xe4001034 := by
    refine bootShape_cases ?_ ?_ ?_ ?_
    · intro hoff
      rw [h.cacheCache] at hoff
      exact absurd hoff (by decide)
    · intro hoff
      rw [h.slabCache] at hoff
      exact absurd hoff (by decide)
    · intro hoff
      rw [h.linkedlistCache] at hoff
      exact absurd hoff (by decide)
    · exact fun _ => ⟨rfl, rfl⟩
  refine ⟨?_, ?_, ?_, ?_, ?_, ?_⟩
  · intro s i r hr
    unfold Kernel.IsUsed
    rcases bootShape_role hr with ⟨rfl, hi, _⟩ | ⟨rfl, rfl, _⟩ | ⟨rfl, rfl, _⟩
    · refine ⟨0xe4000024, hhas _ _ (by decide), ?_, ?_⟩
      · rw [hp0.count]
        omega
      · rw [hp0.bitmap]
        exact (h.cacheBits i (by omega)).mpr hi
    · refine ⟨0xe4000040, hhas _ _ (by decide), ?_, ?_⟩
      · rw [hp1.count]
        decide
      · rw [hp1.bitmap]
        exact (h.slabBits 0 (by omega)).mpr (by omega)
    · refine ⟨0xe400005c, hhas _ _ (by decide), ?_, ?_⟩
      · rw [hp2.count]
        decide
      · rw [hp2.bitmap]
        exact (h.listBits 0 (by omega)).mpr (by omega)
  · exact fun c _ s hs => absurd hs List.not_mem_nil
  · -- the slot behind those in use
    intro _ c hc s hs
    have hfree : ∀ c s, bootShape.Has c s → ∃ i < k.count c s, ¬ k.IsUsed c s i := by
      unfold Kernel.IsUsed
      refine bootShape_cases ?_ ?_ ?_ ?_
      · refine ⟨4, ?_, ?_⟩
        · rw [hp0.count]
          decide
        · rw [hp0.bitmap, h.cacheBits 4 (by omega)]
          decide
      · refine ⟨1, ?_, ?_⟩
        · rw [hp1.count]
          decide
        · rw [hp1.bitmap, h.slabBits 1 (by omega)]
          decide
      · refine ⟨1, ?_, ?_⟩
        · rw [hp2.count]
          decide
        · rw [hp2.bitmap, h.listBits 1 (by omega)]
          decide
      · refine ⟨0, ?_, ?_⟩
        · rw [hp3.count]
          decide
        · rw [hp3.bitmap, h.tableBits 0 (by omega)]
          decide
    exact hfree c s ⟨hc, _, hs⟩
  · intro c s hs hoffc
    obtain ⟨rfl, rfl⟩ := hoff c s hs hoffc
    refine ⟨0xe4000040, 0xe4001000, 0, hhas _ _ (by decide), rfl, ?_, ?_⟩
    · unfold Kernel.objAddr
      rw [hp1.base, Nat.zero_mul]
    · unfold Kernel.objSize
      rw [h.slabCache]
  · intro c s hs hoffc
    obtain ⟨rfl, rfl⟩ := hoff c s hs hoffc
    refine ⟨0xe400005c, 0xe4002000, 0, hhas _ _ (by decide), rfl, ?_, ?_⟩
    · unfold Kernel.objAddr
      rw [hp2.base, Nat.zero_mul, h.cptSlab]
    · unfold Kernel.objSize
      rw [h.linkedlistCache, hp3.count]
      decide
  · intro c hc
    have hobj : ∀ i < 4, Holds bootShape k .cacheDesc (0xe4000024 + i * 28) sizeofCache := by
      intro i hi
      refine ⟨0xe4000024, 0xe4000000, i, hhas _ _ (by decide), ?_, ?_, ?_⟩
      · exact if_pos ⟨rfl, hi⟩
      · unfold Kernel.objAddr Kernel.objSize
        rw [hp0.base, h.cacheCache]
        rfl
      · unfold Kernel.objSize
        rw [h.cacheCache]
    simp only [bootShape, bootSlabs, List.map_cons, List.map_nil, List.mem_cons, List.not_mem_nil,
      or_false] at hc
    rcases hc with rfl | rfl | rfl | rfl
    · exact hobj 0 (by omega)
    · exact hobj 1 (by omega)
    · exact hobj 2 (by omega)
    · exact hobj 3 (by omega)

theorem Booted.caches (h : Booted k0 k) (hgrown : k0.grown = []) : CachesOk bootShape k := by
  obtain ⟨_, hcc, hsc, hll, hcpt, hheap, _, _, hlog, hadded⟩ := h.statics
  have hsizes : k.objSize 0xe4000024 = sizeofCache ∧ k.objSize 0xe4000040 = sizeofSlabDesc ∧
      k.objSize 0xe400005c = sizeofLinkedList ∧ k.objSize 0xe4000078 = 1024 := by
    unfold Kernel.objSize
    rw [h.cacheCache, h.slabCache, h.linkedlistCache, h.cptCache]
    exact ⟨rfl, rfl, rfl, rfl⟩
  obtain ⟨h0, h1, h2, h3⟩ := hsizes
  have haligned : (k.cache 0xe4000024).alignment = 0 ∧ (k.cache 0xe4000040).alignment = 0 ∧
      (k.cache 0xe400005c).alignment = 0 ∧ (k.cache 0xe4000078).alignment = 0 := by
    rw [h.cacheCache, h.slabCache, h.linkedlistCache, h.cptCache]
    exact ⟨rfl, rfl, rfl, rfl⟩
  obtain ⟨ha0, ha1, ha2, ha3⟩ := haligned
  have hplace : ∀ {c s start base count bitmap : Nat}, Place k c s start base count bitmap →
      start % smallPageSize = 0 → k.objSize c < smallPageSize →
      smallPageSize ∣ (k.slab s).start ∧ (k.slab s).size = (k.cache c).slabPages := by
    intro c s start base count bitmap hp hmod hsmall
    rw [hp.start, hp.size]
    exact ⟨Nat.dvd_of_mod_eq_zero hmod, (if_pos hsmall).symm⟩
  -- nothing has grown yet, so what is said of grown slabs holds vacuously
  refine ⟨?_, ?_, ?_, ?_, ?_, ?_, ?_, ?_, ?_, ?_, ?_⟩
  · intro c hc
    simp only [bootShape, bootSlabs, List.map_cons, List.map_nil, List.mem_cons, List.not_mem_nil,
      or_false] at hc
    rcases hc with rfl | rfl | rfl | rfl
    · rw [h0]; decide
    · rw [h1]; decide
    · rw [h2]; decide
    · rw [h3]; decide
  · rw [hsc]
    exact ⟨by decide, h1⟩
  · rw [hcc]
    exact ⟨by decide, h0⟩
  · rw [hll]
    exact ⟨by decide, h2⟩
  · rw [hcpt]
    exact ⟨by decide, h3⟩
  · intro c s
    rw [hadded, bootShape_has, List.mem_reverse]
  · intro _ x hx
    rw [hlog, hgrown] at hx
    exact absurd hx List.not_mem_nil
  · rw [hheap]
    exact Nat.dvd_of_mod_eq_zero rfl
  · refine bootShape_cases ?_ ?_ ?_ ?_
    · exact hplace h.cachePlace rfl (by rw [h0]; decide)
    · exact hplace h.slabPlace rfl (by rw [h1]; decide)
    · exact hplace h.listPlace rfl (by rw [h2]; decide)
    · exact hplace h.tablePlace rfl (by rw [h3]; decide)
  · intro x hx
    rw [hlog, hgrown] at hx
    exact absurd hx List.not_mem_nil
  · refine bootShape_cases ?_ ?_ ?_ ?_
    · exact .inr ⟨ha0, by simp [h0, bootSizes]⟩
    · exact .inr ⟨ha1, by simp [h1, bootSizes]⟩
    · exact .inr ⟨ha2, by simp [h2, bootSizes]⟩
    · exact .inr ⟨ha3, by simp [h3, bootSizes]⟩

/-- **The first four caches meet the invariant.** -/
theorem Booted.inv (h : Booted k0 k) (hgrown : k0.grown = []) (hcptds : k0.space.cptds = [])
    (hcpts : k0.space.cpts = []) : SlabInv bootShape k := by
  have hspace : k.space = k0.space := h.statics.2.2.2.2.2.2.1
  refine ⟨h.lists, h.layout, h.uses, h.caches hgrown, ?_, ?_, ?_, ?_⟩
  · rw [hspace, hcptds]
    exact fun e he => absurd he List.not_mem_nil
  · rw [hspace, hcpts]
    exact fun e he => absurd he List.not_mem_nil
  · rw [hspace, hcpts]
    exact fun e he => absurd he List.not_mem_nil
  · unfold vmObjects
    rw [hspace, hcptds, hcpts]
    exact List.nodup_nil
end


/-! ## `initSlabAllocator` -/

/-- Nothing is allocated yet. -/
structure Pristine (k : Kernel) : Prop where
  arrays : k.arrays = []
  grown : k.grown = []
  cptds : k.space.cptds = []
  cpts : k.space.cpts = []

/-- The first `n` heap pages are mapped and clear. -/
structure Mapped (k : Kernel) (n : Nat) : Prop extends Pristine k where
  clear : ∀ x, kernelHeapStart ≤ x → x < kernelHeapStart + n * smallPageSize → k.mem x = 0

section

variable {k : Kernel} {n : Nat} {E : Stop → Kernel → Prop}

theorem bootPage_spec (h : Mapped k n) : Ensures bootPage (fun _ k' => Mapped k' n) E k := by
  rw [bootPage, ensures_bind, ensures_gets]
  rcases usePage k.pages with ⟨page | page, pages⟩
  · exact h
  · exact ⟨⟨h.arrays, h.grown, h.cptds, h.cpts⟩, h.clear⟩

theorem mapBootPage_spec (h : Mapped k n) (tmpPds page : Nat) :
    Ensures (mapBootPage tmpPds n page) (fun _ k' => Mapped k' (n + 1)) E k := by
  rw [mapBootPage, ensures_bind, ensures_update, ensures_update]
  refine ⟨⟨h.arrays, h.grown, h.cptds, h.cpts⟩, fun x hlo hhi => ?_⟩
  show fill k.mem (kernelHeapStart + smallPageSize * n) smallPageSize 0 x = 0
  unfold fill
  split
  · rfl
  · rename_i hx
    refine h.clear x hlo ?_
    rw [Nat.succ_mul] at hhi
    rw [Nat.mul_comm smallPageSize n] at hx
    omega

theorem mapBootPages_spec (tmpPds : Nat) : ∀ {m n : Nat} {k : Kernel}, Mapped k n →
    Ensures (mapBootPages tmpPds n m) (fun b k' => b = true → Mapped k' (n + m)) E k := by
  intro m
  induction m with
  | zero => exact fun h _ => h
  | succ m ih =>
      intro n k h
      rw [mapBootPages, ensures_bind]
      refine (bootPage_spec h).imp fun page k1 h1 => ?_
      refine ensures_ite (fun _ => by simp) fun _ => ?_
      rw [ensures_bind]
      refine (mapBootPage_spec h1 tmpPds page).imp fun _ k2 h2 => ?_
      rw [show n + (m + 1) = n + 1 + m by omega]
      exact ih h2

end

/-- **`initSlabAllocator` establishes the invariant**, with the caches it creates. -/
theorem initSlabAllocator_spec (env : Env) (fuel : Nat) {k : Kernel} (h : Pristine k) :
    Ensures (initSlabAllocator env fuel) (fun b k' => b = true → ∃ g, SlabInv g k' ∧
      ∀ x ∈ createdCaches, ∃ c ∈ g.caches, (k'.cache c).CreatedWith x) NoEmptySlab k := by
  have h0 : Mapped k 0 := ⟨h, fun x hlo hhi => by omega⟩
  rw [initSlabAllocator, ensures_bind]
  refine (bootPage_spec h0).imp fun page k1 h1 => ?_
  refine ensures_ite (fun _ => by simp) fun _ => ?_
  rw [ensures_bind, ensures_gets]
  refine ensures_ite (fun _ => by simp) fun _ => ?_
  simp only []
  rw [ensures_bind, ensures_update, ensures_bind, ensures_update, ensures_bind]
  have h2 : Mapped ((k1.setSpace { k1.space with
      pageTable := fun a => if make1KAligned (env.tiMalloc k1) ≤ a ∧
        a < make1KAligned (env.tiMalloc k1) + 1024 then 0 else k1.space.pageTable a }).writeTt
      (kernelHeapStart / 0x100000)
      (newCPTD 0 (BitVec.ofNat 32 (make1KAligned (env.tiMalloc k1))))) 0 :=
    ⟨⟨h1.arrays, h1.grown, h1.cptds, h1.cpts⟩, h1.clear⟩
  refine (mapBootPage_spec h2 _ page).imp fun _ k3 h3 => ?_
  rw [ensures_bind]
  refine (mapBootPages_spec _ h3).imp fun mapped k4 h4 => ?_
  refine ensures_ite (fun _ => by simp) fun hmapped => ?_
  have h4 := h4 (by simpa using hmapped)
  rw [ensures_bind]
  refine (bootCaches_spec h4.clear).imp fun _ k5 h5 => ?_
  have hinv := h5.inv h4.grown h4.cptds h4.cpts
  rw [ensures_bind, ensures_gets, ensures_bind]
  have hcalls := slabCalls_ok env fuel
  refine (migrateKernelCPT_spec hcalls hinv _ _ _).imp fun _ k6 hk6 => ?_
  obtain ⟨g6, h6, _⟩ := hk6
  rw [ensures_bind]
  refine (createCaches_spec hcalls (by decide) h6).imp fun _ k7 hk7 => ?_
  obtain ⟨g7, h7, _, hall⟩ := hk7
  exact fun _ => ⟨g7, h7, hall⟩

end OSExt.Memory
