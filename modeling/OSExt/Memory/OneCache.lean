import OSExt.Memory.SlabFreeing

/-!
# One cache by itself

What `alloc_object_from_cache` and `free_object_from_cache` do to one cache, given a
`growCache` that puts one wholly free slab on its free list. The scan of the partial list moves
a slab without a free slot to the full list before it follows the slab's link. If the full
list was empty the scan is over then; if not, it goes on there, and since the slabs there
are full it never ends.
-/

namespace OSExt.Memory

open Lib

/-- The slab has a free slot. -/
def Kernel.HasSlot (k : Kernel) (c s : Nat) : Prop := ∃ i < k.count c s, ¬ k.IsUsed c s i

/-- A slab in the heap, with a slot at least and with its used bits. -/
structure SlabOk (k : Kernel) (c s : Nat) : Prop where
  slots : 0 < k.count c s
  low : kernelHeapStart ≤ (k.slab s).start
  used : (k.cache c).descOnSlab = true ∨ (k.slab s).used ≠ 0
  high : s < k.kernelHeapNextPage
  bits : ∀ x, k.InBitmap c s x → x < k.kernelHeapNextPage

/-- The links spell out the lists of a cache with the parameters of `ca`; its slabs have used bits
of their own, all set on the full list and not all of them on the free one. -/
structure CacheOk (ca : Cache) (k : Kernel) (c : Nat) (on : SlabList → List Nat) : Prop where
  params : SameCache ca (k.cache c)
  heap : kernelHeapStart ≤ k.kernelHeapNextPage
  lists : OnLists k c on
  slabs : ∀ w, ∀ s ∈ on w, SlabOk k c s
  apart : ∀ w w' s s', s ∈ on w → s' ∈ on w' → s ≠ s' →
    ∀ x, k.InBitmap c s x → ¬ k.InBitmap c s' x
  full : ∀ s ∈ on .full, ¬ k.HasSlot c s
  stock : ∀ s ∈ on .free, k.HasSlot c s

/-! ## Used bits -/

theorem usedBit_set_mono {mem : Nat → Byte} {used used' i j : Nat}
    (h : usedBit mem used' j ≠ 0) : usedBit (setUsedBit mem used i) used' j ≠ 0 := by
  rw [Ne, usedBit_eq_zero] at h ⊢
  by_cases hbyte : used' + j / 8 = used + i / 8
  · rw [hbyte] at h ⊢
    simp only [setUsedBit, Function.update_self, BitVec.getLsbD_or, Bool.or_eq_false_iff, not_and]
    exact fun hclear => absurd hclear h
  · rw [setUsedBit_other hbyte]
    exact h

theorem usedBit_clear_mono {mem : Nat → Byte} {used used' i j : Nat}
    (h : usedBit mem used' j = 0) : usedBit (clearUsedBit mem used i) used' j = 0 := by
  rw [usedBit_eq_zero] at h ⊢
  by_cases hbyte : used' + j / 8 = used + i / 8
  · rw [hbyte] at h ⊢
    simp only [clearUsedBit, Function.update_self, BitVec.getLsbD_and, h, Bool.false_and]
  · rw [clearUsedBit_other hbyte]
    exact h

section

variable {ca : Cache} {k k' : Kernel} {c s i x : Nat} {on on' : SlabList → List Nat}

/-- The byte of a used bit is among the used bits; so is the one behind the last. -/
theorem inBitmap_of_slot (hi : i ≤ k.count c s) : k.InBitmap c s (k.bitmap c s + i / 8) := by
  have hle : i / 8 ≤ k.count c s / 8 := Nat.div_le_div_right hi
  exact ⟨Nat.le_add_right _ _, by omega⟩

theorem hasSlot_congr (hd : SameSlab (k.slab s) (k'.slab s))
    (hc : SameCache (k.cache c) (k'.cache c))
    (hbits : ∀ x, k.InBitmap c s x → k'.mem x = k.mem x) : k'.HasSlot c s ↔ k.HasSlot c s := by
  have hcount : k'.count c s = k.count c s := count_congr hd hc
  have hbitmap : k'.bitmap c s = k.bitmap c s := bitmap_congr hd hc
  have hused : ∀ i < k.count c s, (k'.IsUsed c s i ↔ k.IsUsed c s i) := by
    intro i hi
    unfold Kernel.IsUsed
    rw [hbitmap, usedBit_congr (hbits _ (inBitmap_of_slot (Nat.le_of_lt hi)))]
  unfold Kernel.HasSlot
  rw [hcount]
  exact exists_congr fun i => and_congr_right fun hi => not_congr (hused i hi)

/-! ## What keeps a cache -/

theorem SlabOk.carry (h : SlabOk k c s) (hd : SameSlab (k.slab s) (k'.slab s))
    (hc : SameCache (k.cache c) (k'.cache c))
    (hheap : k.kernelHeapNextPage ≤ k'.kernelHeapNextPage) : SlabOk k' c s where
  slots := by
    rw [show k'.count c s = k.count c s from count_congr hd hc]
    exact h.slots
  low := hd.start ▸ h.low
  used := by
    rw [descOnSlab_congr hc, hd.used]
    exact h.used
  high := Nat.lt_of_lt_of_le h.high hheap
  bits x hx := by
    have hbitmap : k'.bitmap c s = k.bitmap c s := bitmap_congr hd hc
    have hcount : k'.count c s = k.count c s := count_congr hd hc
    unfold Kernel.InBitmap at hx
    rw [hbitmap, hcount] at hx
    exact Nat.lt_of_lt_of_le (h.bits x hx) hheap

/-- The layout stays; which slabs have a free slot is looked at again. -/
theorem CacheOk.carry (h : CacheOk ca k c on) (hd : ∀ s, SameSlab (k.slab s) (k'.slab s))
    (hc : SameCache (k.cache c) (k'.cache c))
    (hheap : k.kernelHeapNextPage ≤ k'.kernelHeapNextPage) (hlists : OnLists k' c on')
    (hmem : ∀ w, ∀ s ∈ on' w, ∃ w', s ∈ on w') (hfull : ∀ s ∈ on' .full, ¬ k'.HasSlot c s)
    (hstock : ∀ s ∈ on' .free, k'.HasSlot c s) : CacheOk ca k' c on' where
  params := h.params.trans hc
  heap := Nat.le_trans h.heap hheap
  lists := hlists
  slabs w s hs := by
    obtain ⟨w', hs'⟩ := hmem w s hs
    exact (h.slabs w' s hs').carry (hd s) hc hheap
  apart w w' s s' hs hs' hne x hx := by
    obtain ⟨v, hv⟩ := hmem w s hs
    obtain ⟨v', hv'⟩ := hmem w' s' hs'
    have hbits : ∀ t, k'.InBitmap c t x ↔ k.InBitmap c t x := by
      intro t
      unfold Kernel.InBitmap
      rw [show k'.bitmap c t = k.bitmap c t from bitmap_congr (hd t) hc,
        show k'.count c t = k.count c t from count_congr (hd t) hc]
    rw [hbits] at hx ⊢
    exact h.apart v v' s s' hv hv' hne x hx
  full := hfull
  stock := hstock

/-- The ghost of the scan is no part of the cache. -/
theorem CacheOk.scanned (h : CacheOk ca k c on) (l : List Nat) :
    CacheOk ca { k with scanned := l } c on :=
  h.carry (fun _ => .refl _) (.refl _) (Nat.le_refl _)
    ⟨h.lists.links, h.lists.nodup, h.lists.once⟩ (fun w _ hs => ⟨w, hs⟩) h.full h.stock

/-- **A slab moves**: to the full list if it is full, to the free one if it is not. -/
theorem CacheOk.move (h : CacheOk ca k c on) {a b : SlabList} {pre post : List Nat}
    (ha : on a = pre ++ s :: post) (hfull : b = .full → ¬ k.HasSlot c s)
    (hstock : b = .free → k.HasSlot c s) :
    CacheOk ca (k.move c a b s (prevOf pre)) c (movedOn on a b s pre post) := by
  have hk : Relinked c (fun _ => True) k (k.move c a b s (prevOf pre)) :=
    Relinked.move k c a b trivial fun _ => trivial
  have hslot : ∀ x, (k.move c a b s (prevOf pre)).HasSlot c x ↔ k.HasSlot c x :=
    fun x => hasSlot_congr (hk.slab x) hk.cache fun y _ => congrFun hk.mem y
  refine h.carry hk.slab hk.cache hk.heap.symm.le (h.lists.move b ha) ?_ ?_ ?_
  · exact fun w x hx => (exists_mem_movedOn ha).mp ⟨w, hx⟩
  · intro x hx
    rw [hslot]
    rcases mem_movedOn ha hx with ⟨rfl, hb⟩ | hx
    · exact hfull hb.symm
    · exact h.full x hx
  · intro x hx
    rw [hslot]
    rcases mem_movedOn ha hx with ⟨rfl, hb⟩ | hx
    · exact hstock hb.symm
    · exact h.stock x hx

/-- Bytes outside the used bits of a slab leave its slots alone. -/
theorem CacheOk.hasSlot_other (h : CacheOk ca k c on) {mem : Nat → Byte} {w w' : SlabList}
    (hs : s ∈ on w) (hx : x ∈ on w') (hne : s ≠ x)
    (hmem : ∀ y, ¬ k.InBitmap c s y → mem y = k.mem y) :
    (k.setMem mem).HasSlot c x ↔ k.HasSlot c x :=
  hasSlot_congr (.refl _) (.refl _) fun y hy => hmem y (h.apart w' w x s hx hs hne.symm y hy)

/-- **A slot is taken**, on the partial list. -/
theorem CacheOk.take (h : CacheOk ca k c on) {w : SlabList} (hs : s ∈ on w) (hw : w ≠ .free)
    (hi : i < k.count c s) :
    CacheOk ca (k.setMem (setUsedBit k.mem (k.bitmap c s) i)) c on := by
  refine h.carry (fun _ => .refl _) (.refl _) (Nat.le_refl _)
    ⟨h.lists.links, h.lists.nodup, h.lists.once⟩ (fun w _ hs => ⟨w, hs⟩) ?_ ?_
  · -- no bit is cleared
    intro x hx hslot
    obtain ⟨j, hj, hclear⟩ := hslot
    refine h.full x hx ⟨j, hj, fun hused => hclear ?_⟩
    exact usedBit_set_mono hused
  · intro x hx
    have hne : s ≠ x := fun heq => hw (h.lists.once w .free s hs (heq ▸ hx))
    refine (h.hasSlot_other hs hx hne fun y hy => setUsedBit_other ?_).mpr (h.stock x hx)
    exact fun heq => hy (heq ▸ inBitmap_of_slot (Nat.le_of_lt hi))

/-- **A slot is given back**, or the place behind the last one, off the full list. -/
theorem CacheOk.clear (h : CacheOk ca k c on) {w : SlabList} (hs : s ∈ on w) (hw : w ≠ .full)
    (hi : i ≤ k.count c s) :
    CacheOk ca (k.setMem (clearUsedBit k.mem (k.bitmap c s) i)) c on := by
  refine h.carry (fun _ => .refl _) (.refl _) (Nat.le_refl _)
    ⟨h.lists.links, h.lists.nodup, h.lists.once⟩ (fun w _ hs => ⟨w, hs⟩) ?_ ?_
  · intro x hx
    have hne : s ≠ x := fun heq => hw (h.lists.once w .full s hs (heq ▸ hx))
    refine fun hslot => h.full x hx ((h.hasSlot_other hs hx hne fun y hy => ?_).mp hslot)
    exact clearUsedBit_other fun heq => hy (heq ▸ inBitmap_of_slot hi)
  · -- no bit is set
    intro x hx
    obtain ⟨j, hj, hclear⟩ := h.stock x hx
    refine ⟨j, hj, fun hused => hclear ?_⟩
    exact fun hzero => hused (usedBit_clear_mono hzero)

/-! ## Allocating from a slab -/

theorem allocObjectFromSlab_returns (hbits : (k.cache c).descOnSlab = true ∨ (k.slab s).used ≠ 0) :
    Returns (allocObjectFromSlab s (k.cache c).objSize (k.cache c).flags) k := by
  have hused : (!onSlab (k.cache c).objSize (k.cache c).flags && (k.slab s).used == 0) = false := by
    rcases hbits with honslab | hne
    · rw [show onSlab (k.cache c).objSize (k.cache c).flags = true from honslab]
      rfl
    · rw [beq_false_of_ne hne, Bool.and_false]
  refine Returns.bind ⟨_, _, rfl⟩ fun d k1 hd => ?_
  obtain ⟨rfl, rfl⟩ := gets_ok.mp hd
  rw [if_neg (by rw [hused]; exact Bool.false_ne_true)]
  refine Returns.bind ⟨_, _, rfl⟩ fun mem k2 hmem => ?_
  obtain ⟨rfl, rfl⟩ := gets_ok.mp hmem
  split
  · exact ⟨_, _, rfl⟩
  · exact ⟨_, _, rfl⟩

/-- A slab with a free slot gives one. -/
theorem allocObjectFromSlab_slot (h : SlabOk k c s) (hslot : k.HasSlot c s) :
    ∃ i < k.count c s, allocObjectFromSlab s (k.cache c).objSize (k.cache c).flags k =
      (.ok (k.objAddr c s i), k.setMem (setUsedBit k.mem (k.bitmap c s) i)) := by
  obtain ⟨p, k', hcall⟩ := allocObjectFromSlab_returns h.used
  rcases (allocObjectFromSlab_spec k c s).ok hcall with ⟨_, _, hall⟩ | ⟨i, hi, _, rfl, rfl⟩
  · obtain ⟨i, hi, hclear⟩ := hslot
    exact absurd (hall i hi) hclear
  · exact ⟨i, hi, hcall⟩

/-- Without a free slot there is no object. -/
theorem allocObjectFromSlab_none (hbits : (k.cache c).descOnSlab = true ∨ (k.slab s).used ≠ 0)
    (hused : ∀ i < k.count c s, k.IsUsed c s i) :
    allocObjectFromSlab s (k.cache c).objSize (k.cache c).flags k = (.ok 0, k) := by
  obtain ⟨p, k', hcall⟩ := allocObjectFromSlab_returns hbits
  rcases (allocObjectFromSlab_spec k c s).ok hcall with ⟨rfl, rfl, _⟩ | ⟨i, hi, hclear, _⟩
  · exact hcall
  · exact absurd (hused i hi) hclear

theorem not_hasSlot (h : ¬ k.HasSlot c s) : ∀ i < k.count c s, k.IsUsed c s i :=
  fun i hi => by_contra fun hclear => h ⟨i, hi, hclear⟩

/-- Objects are heap addresses. -/
theorem SlabOk.objAddr_ne_zero (h : SlabOk k c s) (i : Nat) : k.objAddr c s i ≠ 0 := by
  have hlow := h.low
  have hstart := start_le_base (k.slab s) (k.cache c)
  unfold Kernel.objAddr Kernel.base
  unfold kernelHeapStart at hlow
  omega

/-! ## The scan of the partial list -/

/-- **Among the full slabs the scan never ends**: it moves the second to the front, time and
again. -/
theorem scanFull_neverEnds (fuel : Nat) : ∀ {k : Kernel} {on : SlabList → List Nat} {a b : Nat}
    {rest : List Nat} {Q : Nat → Kernel → Prop}, OnLists k c on →
    (∀ s ∈ on .full, ∀ i < k.count c s, k.IsUsed c s i) → on .full = a :: b :: rest →
    Ensures (scanPartial c fuel b a) Q NoEmptySlab k := by
  induction fuel with
  | zero =>
      intro k on a b rest Q hon hfull hl
      exact fun _ => by simp
  | succ fuel ih =>
      intro k on a b rest Q hon hfull hl
      have ha : a ≠ 0 := hon.ne_zero (w := .full) (by simp [hl])
      have hb : b ≠ 0 := hon.ne_zero (w := .full) (by simp [hl])
      rw [scanPartial, if_neg hb, ensures_bind, ensures_update, ensures_bind, ensures_gets,
        ensures_bind]
      have hon1 : OnLists { k with scanned := b :: k.scanned } c on :=
        ⟨hon.links, hon.nodup, hon.once⟩
      refine (allocObjectFromSlab_spec { k with scanned := b :: k.scanned } c b).imp
        fun p k' hp => ?_
      rcases hp with ⟨rfl, rfl, _⟩ | ⟨i, hi, hclear, _⟩
      case inr => exact absurd (hfull b (by simp [hl]) i hi) hclear
      rw [if_neg (by simp), ensures_bind, ensures_of_ok (scanToFull_eq _ _ _ _), ensures_bind,
        ensures_gets, Kernel.move_behind _ _ _ _ .part .full .full ha]
      -- `b` now comes first and `a` second, and `a` is next
      have hpre : on .full = [a] ++ b :: rest := hl
      have hon2 := hon1.move .full hpre
      have hl2 : movedOn on .full .full b [a] rest .full = b :: a :: rest := by simp [movedOn]
      have hlinks := hon2.links .full
      rw [hl2] at hlinks
      have hk : Relinked c (fun _ => True) { k with scanned := b :: k.scanned }
          (({ k with scanned := b :: k.scanned } : Kernel).move c .full .full b a) :=
        Relinked.move _ c .full .full trivial fun _ => trivial
      have hnext : ((({ k with scanned := b :: k.scanned } : Kernel).move c .full .full b a).slab
          b).next = a := hlinks.2.2.1
      rw [hnext]
      refine ih hon2 (fun s hs i hi => ?_) hl2
      have hcount := count_congr (hk.slab s) hk.cache
      have hbitmap := bitmap_congr (hk.slab s) hk.cache
      have hs' : s ∈ on .full := by
        rcases mem_movedOn hpre hs with ⟨rfl, _⟩ | hs
        · rw [hl]
          exact List.mem_cons_of_mem _ List.mem_cons_self
        · exact hs
      have hused := hfull s hs' i (Nat.lt_of_lt_of_eq hi hcount)
      unfold Kernel.IsUsed Kernel.bitmap
      rw [hbitmap, hk.mem]
      exact hused

/-- What the call gives: an object, with the cache in order, after a scan of these slabs. -/
structure Gave (ca : Cache) (c : Nat) (k : Kernel) (visited : List Nat) (p : Nat) (k' : Kernel) :
    Prop where
  object : p ≠ 0
  cache : ∃ on', CacheOk ca k' c on'
  scanned : k'.scanned = visited ++ k.scanned

/-- The first partial slab has a free slot. -/
theorem scanPartial_slot (h : CacheOk ca k c on) {rest : List Nat} (hl : on .part = s :: rest)
    (hslot : k.HasSlot c s) {fuel : Nat} {E : Stop → Kernel → Prop}
    (hfuel : 1 ≤ fuel ∨ ∀ t k', E t k') :
    Ensures (scanPartial c fuel s 0) (Gave ca c k [s]) E k := by
  have hs : s ∈ on .part := by simp [hl]
  have h1 := h.scanned (s :: k.scanned)
  have hok : SlabOk { k with scanned := s :: k.scanned } c s := h1.slabs _ s hs
  obtain ⟨i, hi, hcall⟩ := allocObjectFromSlab_slot hok hslot
  have hne := hok.objAddr_ne_zero i
  cases fuel with
  | zero => exact hfuel.resolve_left (by omega) _ _
  | succ fuel =>
      rw [scanPartial, if_neg (h.lists.ne_zero hs), ensures_bind, ensures_update, ensures_bind,
        ensures_gets, ensures_bind, ensures_of_ok hcall, if_pos hne]
      exact ⟨hne, ⟨on, h1.take hs (by decide) hi⟩, rfl⟩

/-- It has none, and is then alone on the full list: the scan is over. -/
theorem scanPartial_emptyFull (h : CacheOk ca k c on) {rest : List Nat} (hl : on .part = s :: rest)
    (hnone : ¬ k.HasSlot c s) (hfull : on .full = []) {fuel : Nat} {E : Stop → Kernel → Prop}
    (hfuel : 2 ≤ fuel ∨ ∀ t k', E t k') :
    Ensures (scanPartial c fuel s 0)
      (fun p k' => p = 0 ∧ CacheOk ca k' c (movedOn on .part .full s [] rest) ∧
        (∀ x, k'.HasSlot c x ↔ k.HasSlot c x) ∧ k'.scanned = s :: k.scanned) E k := by
  have hs : s ∈ on .part := by simp [hl]
  have h1 := h.scanned (s :: k.scanned)
  have hcall := allocObjectFromSlab_none (h1.slabs _ s hs).used (not_hasSlot hnone)
  have h2 := h1.move (b := .full) (show on .part = [] ++ s :: rest from hl) (fun _ => hnone)
    fun hb => by cases hb
  have hk : Relinked c (fun _ => True) { k with scanned := s :: k.scanned }
      (({ k with scanned := s :: k.scanned } : Kernel).move c .part .full s 0) :=
    Relinked.move _ c .part .full trivial fun _ => trivial
  have hlinks := h2.lists.links .full
  have hl2 : movedOn on .part .full s [] rest .full = [s] := by simp [movedOn, hfull]
  rw [hl2] at hlinks
  have hnext : ((({ k with scanned := s :: k.scanned } : Kernel).move c .part .full s 0).slab
    s).next = 0 := hlinks.2.2
  cases fuel with
  | zero => exact hfuel.resolve_left (by omega) _ _
  | succ fuel =>
      rw [scanPartial, if_neg (h.lists.ne_zero hs), ensures_bind, ensures_update, ensures_bind,
        ensures_gets, ensures_bind, ensures_of_ok hcall, if_neg (not_not_intro rfl), ensures_bind,
        ensures_of_ok (scanToFull_eq _ _ _ _), ensures_bind, ensures_gets, hnext]
      cases fuel with
      | zero => exact hfuel.resolve_left (by omega) _ _
      | succ fuel =>
          rw [scanPartial, if_pos rfl]
          refine ⟨rfl, h2, fun x => ?_, by rw [hk.rest]⟩
          exact hasSlot_congr (hk.slab x) hk.cache fun y _ => congrFun hk.mem y

/-- It has none, and another slab is on the full list. -/
theorem scanPartial_neverEnds (h : CacheOk ca k c on) {rest rest' : List Nat} {b : Nat}
    (hl : on .part = s :: rest) (hnone : ¬ k.HasSlot c s) (hfull : on .full = b :: rest')
    (fuel : Nat) {Q : Nat → Kernel → Prop} : Ensures (scanPartial c fuel s 0) Q NoEmptySlab k := by
  cases fuel with
  | zero => exact fun _ => by simp
  | succ fuel =>
      have hs : s ∈ on .part := by simp [hl]
      have h1 := h.scanned (s :: k.scanned)
      have hcall := allocObjectFromSlab_none (h1.slabs _ s hs).used (not_hasSlot hnone)
      have h2 := h1.move (b := .full) (show on .part = [] ++ s :: rest from hl) (fun _ => hnone)
        fun hb => by cases hb
      have hl2 : movedOn on .part .full s [] rest .full = s :: b :: rest' := by
        simp [movedOn, hfull]
      have hlinks := h2.lists.links .full
      rw [hl2] at hlinks
      have hnext : ((({ k with scanned := s :: k.scanned } : Kernel).move c .part .full s 0).slab
        s).next = b := hlinks.2.2.1
      rw [scanPartial, if_neg (h.lists.ne_zero hs), ensures_bind, ensures_update, ensures_bind,
        ensures_gets, ensures_bind, ensures_of_ok hcall, if_neg (not_not_intro rfl), ensures_bind,
        ensures_of_ok (scanToFull_eq _ _ _ _), ensures_bind, ensures_gets, hnext]
      exact scanFull_neverEnds fuel h2.lists (fun x hx => not_hasSlot (h2.full x hx)) hl2

/-- **The first free slab** gives an object. -/
theorem takeFreeSlab_gave (h : CacheOk ca k c on) (hfree : on .free ≠ []) :
    Ensures (takeFreeSlab c) (Gave ca c k []) (fun _ _ => False) k := by
  obtain ⟨s, rest, hl⟩ := List.exists_cons_of_ne_nil hfree
  have hlinks := h.lists.links .free
  rw [hl] at hlinks
  have hhead : (k.cache c).freeSlabs = s := hlinks.1
  have hs : s ∈ on .free := by simp [hl]
  have h1 := h.move (b := .part) (show on .free = [] ++ s :: rest from hl)
    (fun hb => by cases hb) fun hb => by cases hb
  have hs1 : s ∈ movedOn on .free .part s [] rest .part := by simp [movedOn]
  have hk : Relinked c (fun _ => True) k (k.move c .free .part s 0) :=
    Relinked.move k c .free .part trivial fun _ => trivial
  have hslot := (hasSlot_congr (hk.slab s) hk.cache fun y _ => congrFun hk.mem y).mpr
    (h.stock s hs)
  have hok : SlabOk (k.move c .free .part s 0) c s := h1.slabs _ s hs1
  obtain ⟨i, hi, hcall⟩ := allocObjectFromSlab_slot hok hslot
  have hne := hok.objAddr_ne_zero i
  rw [ensures_takeFreeSlab, hhead, ensures_bind, ensures_gets, ensures_bind, ensures_of_ok hcall,
    if_neg hne]
  refine ⟨hne, ⟨_, h1.take hs1 (by decide) hi⟩, ?_⟩
  show (k.move c .free .part s 0).scanned = k.scanned
  rw [hk.rest]

/-! ## `growCache` -/

/-- One wholly free slab more, in front of the free list, and the cache as it was; what other
scans have visited on the way are no slabs of the cache. -/
structure AddsFree (k k' : Kernel) (c : Nat) (on : SlabList → List Nat) (s : Nat)
    (visited : List Nat) : Prop where
  params : SameCache (k.cache c) (k'.cache c)
  heads : ∀ w, (k'.cache c).head w = if w = .free then s else (k.cache c).head w
  next : (k'.slab s).next = (k.cache c).freeSlabs
  heap : k.kernelHeapNextPage ≤ k'.kernelHeapNextPage
  nonNull : s ≠ 0
  fresh : ∀ w, s ∉ on w
  slabs : ∀ w, ∀ x ∈ on w, k'.slab x = k.slab x
  bytes : ∀ w, ∀ x ∈ on w, ∀ y, k.InBitmap c x y → k'.mem y = k.mem y
  slab : SlabOk k' c s
  free : ∀ i < k'.count c s, ¬ k'.IsUsed c s i
  apart : ∀ w, ∀ x ∈ on w, ∀ y, k.InBitmap c x y → ¬ k'.InBitmap c s y
  scanned : k'.scanned = visited ++ k.scanned
  others : ∀ w, ∀ x ∈ on w, x ∉ visited

/-- `growCache` is always able to add one wholly free slab to the cache. -/
def AlwaysGrows (grow : Nat → KernelM Unit) (ca : Cache) (c : Nat) : Prop :=
  ∀ k on, CacheOk ca k c on →
    Ensures (grow c) (fun _ k' => ∃ s visited, AddsFree k k' c on s visited) (fun _ _ => False) k

/-- The lists with a slab more. -/
def addedOn (on : SlabList → List Nat) (s : Nat) : SlabList → List Nat :=
  Function.update on .free (s :: on .free)

theorem mem_addedOn {w : SlabList} (hx : x ∈ addedOn on s w) : x = s ∨ x ∈ on w := by
  unfold addedOn at hx
  by_cases hw : w = .free
  · subst hw
    rw [Function.update_self] at hx
    exact List.mem_cons.mp hx
  · rw [Function.update_of_ne hw] at hx
    exact Or.inr hx

namespace AddsFree

variable {visited : List Nat}

theorem hasSlot (ha : AddsFree k k' c on s visited) {w : SlabList} (hx : x ∈ on w) :
    k'.HasSlot c x ↔ k.HasSlot c x := by
  refine hasSlot_congr ?_ ha.params (ha.bytes w x hx)
  rw [ha.slabs w x hx]
  exact .refl _

theorem lists (ha : AddsFree k k' c on s visited) (h : OnLists k c on) :
    OnLists k' c (addedOn on s) := by
  -- the links and heads are those of a push
  have hpush := h.push .free ha.fresh ha.nonNull
  refine ⟨fun w => ?_, hpush.nodup, hpush.once⟩
  have hhead : ((k.push c .free s).cache c).head w = (k'.cache c).head w := by
    rw [ha.heads w]
    exact head_setHead _ _ _ _ _
  rw [← hhead]
  refine (hpush.links w).congr fun x hx => ?_
  have hlink : (k.push c .free s).nextSlab =
      Function.update k.nextSlab s ((k.cache c).head .free) := nextSlab_setNext _ _ _
  rw [hlink]
  by_cases hxs : x = s
  · rw [hxs, Function.update_self]
    exact ha.next
  · rw [Function.update_of_ne hxs]
    rcases mem_addedOn hx with hx | hx
    · exact absurd hx hxs
    · exact congrArg SlabDesc.next (ha.slabs w x hx)

theorem cacheOk (ha : AddsFree k k' c on s visited) (h : CacheOk ca k c on) :
    CacheOk ca k' c (addedOn on s) := by
  have hsame : ∀ w, ∀ x ∈ on w, SameSlab (k.slab x) (k'.slab x) := by
    intro w x hx
    rw [ha.slabs w x hx]
    exact .refl _
  have hbits : ∀ w, ∀ x ∈ on w, ∀ y, k'.InBitmap c x y ↔ k.InBitmap c x y := by
    intro w x hx y
    unfold Kernel.InBitmap
    rw [show k'.bitmap c x = k.bitmap c x from bitmap_congr (hsame w x hx) ha.params,
      show k'.count c x = k.count c x from count_congr (hsame w x hx) ha.params]
  refine ⟨h.params.trans ha.params, Nat.le_trans h.heap ha.heap, ha.lists h.lists, ?_, ?_, ?_, ?_⟩
  · intro w x hx
    rcases mem_addedOn hx with rfl | hx
    · exact ha.slab
    · exact (h.slabs w x hx).carry (hsame w x hx) ha.params ha.heap
  · intro w w' x x' hx hx' hne y hy hy'
    rcases mem_addedOn hx with rfl | hold
    · rcases mem_addedOn hx' with rfl | hold'
      · exact hne rfl
      · exact ha.apart w' x' hold' y ((hbits w' x' hold' y).mp hy') hy
    · rw [hbits w x hold] at hy
      rcases mem_addedOn hx' with rfl | hold'
      · exact ha.apart w x hold y hy hy'
      · exact h.apart w w' x x' hold hold' hne y hy ((hbits w' x' hold' y).mp hy')
  · intro x hx
    have hx : x ∈ on .full := by
      rwa [addedOn, Function.update_of_ne (by decide)] at hx
    rw [ha.hasSlot hx]
    exact h.full x hx
  · intro x hx
    rw [addedOn, Function.update_self] at hx
    rcases List.mem_cons.mp hx with rfl | hx
    · exact ⟨0, ha.slab.slots, ha.free 0 ha.slab.slots⟩
    · rw [ha.hasSlot hx]
      exact h.stock x hx

end AddsFree

end

end OSExt.Memory
