import OSExt.Memory.SlabRuns

/-!
# Where objects lie in physical memory

A cache is created with an alignment for its pages, and what it gives is meant to
lie at multiples of it in physical memory. Objects of at least a page have a slab
each, on pages that `useConsecutivePages` searches at that alignment. Smaller ones
share the page that `usePage` gives, which nobody asks for an alignment: where they
lie depends on that page, on the header before them and on their size.
-/

namespace OSExt.Memory

open Lib

/-! ## Offsets into a slab -/

/-- A slab of the cache, at address 0. -/
def Cache.slabAtZero (ca : Cache) : SlabDesc :=
  { size := ca.slabPages, start := 0, next := 0, used := 0 }

@[simp] theorem Cache.slabAtZero_size (ca : Cache) : ca.slabAtZero.size = ca.slabPages := rfl
@[simp] theorem Cache.slabAtZero_start (ca : Cache) : ca.slabAtZero.start = 0 := rfl

/-- What lies before the objects of a slab, and how many there are. -/
def Cache.header (ca : Cache) : Nat := ca.slabAtZero.base ca
def Cache.slots (ca : Cache) : Nat := ca.slabAtZero.count ca

/-- The objects of a slab on the pages from `page` on are at multiples of `a`. -/
def Cache.Aligns (ca : Cache) (a page : Nat) : Prop :=
  a ∣ page + ca.header ∧ (ca.slots ≤ 1 ∨ a ∣ ca.objSize)

theorem align4Bytes_add {n : Nat} (h : smallPageSize ∣ n) (m : Nat) :
    align4Bytes (n + m) = n + align4Bytes m := by
  unfold align4Bytes
  unfold smallPageSize at h
  split
  · rw [if_pos (by omega)]
  · rw [if_neg (by omega)]
    omega

section

variable {ca : Cache} {d : SlabDesc}

/-- A slab on a page boundary has its objects where one at 0 has them. -/
theorem base_eq_header (hstart : smallPageSize ∣ d.start) (hsize : d.size = ca.slabPages) :
    d.base ca = d.start + ca.header := by
  unfold Cache.header
  cases hon : ca.descOnSlab with
  | true =>
      rw [base_onSlab hon, base_onSlab hon, hsize, ca.slabAtZero_size, ca.slabAtZero_start,
        ← align4Bytes_add hstart, Nat.zero_add, Nat.add_assoc, Nat.add_assoc, Nat.add_assoc]
  | false =>
      rw [base_offSlab hon, base_offSlab hon]
      rfl

theorem count_eq_slots (hstart : smallPageSize ∣ d.start) (hsize : d.size = ca.slabPages) :
    d.count ca = ca.slots := by
  have hbase := base_eq_header hstart hsize
  unfold Cache.header at hbase
  unfold Cache.slots
  cases hon : ca.descOnSlab with
  | true =>
      rw [count_onSlab hon, count_onSlab hon, hbase, SlabDesc.pagesEnd, SlabDesc.pagesEnd, hsize,
        ca.slabAtZero_size, ca.slabAtZero_start, Nat.zero_add, Nat.add_sub_add_left]
  | false =>
      rw [count_offSlab hon, count_offSlab hon, hsize]
      rfl

/-- **Objects of at least a page** have a slab each, without a header. -/
theorem slots_big (hbig : smallPageSize ≤ ca.objSize) : ca.slots ≤ 1 ∧ ca.header = 0 := by
  have hoff : ca.descOnSlab = false := by
    cases hon : ca.descOnSlab with
    | false => rfl
    | true =>
        have hsmall := onSlab_lt hon
        unfold smallPageSize at hbig
        omega
  refine ⟨?_, base_offSlab hoff⟩
  unfold Cache.slots
  rw [count_offSlab hoff]
  show ca.slabPages * smallPageSize / ca.objSize ≤ 1
  refine Nat.le_of_lt_succ (Nat.div_lt_of_lt_mul ?_)
  unfold Cache.slabPages Cache.objPages
  rw [if_neg (by omega)]
  unfold smallPageSize at *
  split <;> omega

/-- On a page boundary an alignment that divides the page size is up to header and size. -/
theorem aligns_of_dvd {a page : Nat} (hpage : smallPageSize ∣ page) (ha : a ∣ smallPageSize) :
    ca.Aligns a page ↔ a ∣ ca.header ∧ (ca.slots ≤ 1 ∨ a ∣ ca.objSize) := by
  unfold Cache.Aligns
  rw [Nat.dvd_add_right (Dvd.dvd.trans ha hpage)]

theorem aligns_congr {ca' : Cache} (h : SameCache ca ca') {a page : Nat} :
    ca'.Aligns a page ↔ ca.Aligns a page := by
  unfold Cache.Aligns Cache.header Cache.slots Cache.slabAtZero SlabDesc.base SlabDesc.count
  rw [slabPages_congr h, h.objSize, h.flags]

/-- Evenly spaced places are multiples if the first is and the distance, as far as it matters. -/
theorem dvd_places {a base stride n : Nat} (hn : 0 < n) :
    (∀ i < n, a ∣ base + i * stride) ↔ a ∣ base ∧ (n ≤ 1 ∨ a ∣ stride) := by
  constructor
  · intro h
    have h0 : a ∣ base := by simpa using h 0 hn
    refine ⟨h0, ?_⟩
    by_cases h1 : n ≤ 1
    · exact .inl h1
    · have hone := h 1 (by omega)
      rw [Nat.one_mul] at hone
      exact .inr ((Nat.dvd_add_right h0).mp hone)
  · intro hgiven i hi
    obtain ⟨h0, h1⟩ := hgiven
    rcases h1 with h1 | hstride
    · obtain rfl : i = 0 := by omega
      simpa using h0
    · exact Nat.dvd_add h0 (Dvd.dvd.mul_left hstride i)

end

/-! ## The slabs that `growCache` adds -/

/-- Slot `i` of the slab in physical memory: as far behind the first page as behind the start. -/
def Kernel.physicalAddr (k : Kernel) (x : Grown) (i : Nat) : Nat :=
  x.page + (k.objAddr x.cache x.slab i - (k.slab x.slab).start)

/-- All its objects are at multiples of `a`. -/
def Kernel.ObjectsAligned (k : Kernel) (a : Nat) (x : Grown) : Prop :=
  ∀ i < k.count x.cache x.slab, a ∣ k.physicalAddr x i

section

variable {g g' : Shape} {k k' : Kernel} {x : Grown}

theorem SlabInv.count_slots (h : SlabInv g k) {c s : Nat} (hs : g.Has c s) :
    k.count c s = (k.cache c).slots := by
  obtain ⟨hstart, hsize⟩ := h.caches.places c s hs
  exact count_eq_slots hstart hsize

theorem SlabInv.physicalAddr (h : SlabInv g k) (hx : x ∈ k.grown) (i : Nat) :
    k.physicalAddr x i = x.page + (k.cache x.cache).header + i * k.objSize x.cache := by
  obtain ⟨hstart, hsize⟩ := h.caches.places _ _ (h.caches.logged x hx).1
  have hbase : k.base x.cache x.slab = _ := base_eq_header hstart hsize
  unfold Kernel.physicalAddr Kernel.objAddr
  omega

/-- **The objects of a slab** are aligned exactly if header, size and page are. -/
theorem objectsAligned_iff_aligns (h : SlabInv g k) (hx : x ∈ k.grown) (a : Nat) :
    k.ObjectsAligned a x ↔ (k.cache x.cache).Aligns a x.page := by
  have hs := (h.caches.logged x hx).1
  have hpos : 0 < k.count x.cache x.slab := count_pos (h.layout.fits _ _ hs)
  unfold Kernel.ObjectsAligned Cache.Aligns
  rw [← h.count_slots hs, ← dvd_places hpos]
  exact forall₂_congr fun i _ => by rw [h.physicalAddr hx]; rfl

/-- Pages for big objects are searched at the alignment, so these are. -/
theorem aligns_big (h : SlabInv g k) (hx : x ∈ k.grown)
    (hbig : smallPageSize ≤ k.objSize x.cache) (hne : (k.cache x.cache).alignment ≠ 0) :
    (k.cache x.cache).Aligns (k.cache x.cache).alignment x.page := by
  obtain ⟨hslots, hheader⟩ := slots_big hbig
  have hmod := (h.caches.logged x hx).2.2 hbig
  rw [pageMod, if_neg hne] at hmod
  refine ⟨?_, .inl hslots⟩
  rw [hheader]
  exact Nat.dvd_of_mod_eq_zero hmod

/-- **Alignments of caches**: big objects, or a page, a header and a size that fit. -/
theorem objectsAligned_iff (h : SlabInv g k) (hx : x ∈ k.grown)
    (hne : (k.cache x.cache).alignment ≠ 0) :
    k.ObjectsAligned (k.cache x.cache).alignment x ↔ smallPageSize ≤ k.objSize x.cache ∨
      (k.cache x.cache).Aligns (k.cache x.cache).alignment x.page := by
  rw [objectsAligned_iff_aligns h hx]
  constructor
  · exact fun ha => .inr ha
  · intro hor
    rcases hor with hbig | ha
    · exact aligns_big h hx hbig hne
    · exact ha

/-- Slabs that are not from setting up have been added by `growCache`. -/
theorem SlabInv.grown_of_has (h : SlabInv g k) {c s : Nat} (hs : g.Has c s)
    (hc : (k.cache c).alignment ≠ 0 ∨ k.objSize c ∉ bootSizes) :
    ∃ x ∈ k.grown, x.cache = c ∧ x.slab = s := by
  rcases h.caches.backed c s hs with hx | ⟨halign, hsize⟩
  · exact hx
  · rcases hc with hc | hc
    · exact absurd halign hc
    · exact absurd hsize hc

/-- A slab's log entries are of its cache. -/
theorem SlabInv.grown_cache (h : SlabInv g k) {c : Nat} (hs : g.Has c x.slab) (hx : x ∈ k.grown) :
    x.cache = c := h.lists.owner _ _ _ (h.caches.logged x hx).1 hs

end

/-- An object that was given is in the log with its slab. -/
theorem Gives.logged {g g' : Shape} {k k' : Kernel} {c p : Nat} (h : Gives g k c p g' k')
    (hc : c ∈ g.caches) (hgrown : (k.cache c).alignment ≠ 0 ∨ k.objSize c ∉ bootSizes) :
    ∃ x ∈ k'.grown, x.cache = c ∧ ∃ i < k'.count c x.slab, k'.objAddr c x.slab i = p := by
  obtain ⟨s, i, hs, haddr, hr, _⟩ := h.object
  have hca := h.later.layout.cache c hc
  have hgrown' : (k'.cache c).alignment ≠ 0 ∨ k'.objSize c ∉ bootSizes := by
    rw [hca.alignment, h.later.layout.objSize hc]
    exact hgrown
  obtain ⟨x, hx, hxc, rfl⟩ := h.inv.grown_of_has hs hgrown'
  exact ⟨x, hx, hxc, i, h.inv.role_count hs hr, haddr⟩

/-! ## The cache `kmalloc` takes -/

/-- **`kmalloc` takes from a cache of the size** where there is one. -/
theorem bestFitCache_exact {k : Kernel} {size r : Nat} : ∀ {fuel head best : Nat} {l : List Nat},
    IsList (fun c => (k.cache c).next) 0 head l →
    (∃ c ∈ l, (k.cache c).kmallocs = true ∧ k.objSize c = size) →
    bestFitCache k size fuel head best = some r → k.objSize r = size
  | 0, _, _, _, _, _, h => nomatch h
  | fuel + 1, head, best, [], _, ⟨c, hc, _⟩, _ => absurd hc List.not_mem_nil
  | fuel + 1, head, best, a :: l, hl, hex, h => by
      obtain ⟨rfl, hne, hrest⟩ := hl
      rw [bestFitCache, if_neg hne] at h
      have hlater : ∀ best', ¬ ((k.cache head).kmallocs = true ∧ k.objSize head = size) →
          bestFitCache k size fuel (k.cache head).next best' = some r → k.objSize r = size := by
        intro best' hnot h
        obtain ⟨c, hc, hexact⟩ := hex
        rcases List.mem_cons.mp hc with rfl | hc
        · exact absurd hexact hnot
        · exact bestFitCache_exact hrest ⟨c, hc, hexact⟩ h
      by_cases hk : (k.cache head).kmallocs = true
      · rw [if_pos hk] at h
        by_cases hsize : (k.cache head).objSize = size
        · rw [if_pos hsize] at h
          obtain rfl := Option.some.inj h
          exact hsize
        · rw [if_neg hsize] at h
          exact hlater _ (fun hand => hsize hand.2) h
      · rw [if_neg hk] at h
        exact hlater _ (fun hand => hk hand.1) h

end OSExt.Memory
