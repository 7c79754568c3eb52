import OSExt.Memory.SlabFrame

/-!
# Moves, new slabs and new roles

The steps that change the shape: a slab moves to another list, a new slab joins a
free list, a cache joins the list of caches, an object gets another role. What
the kernel relies on decides which roles may change: a client's object can be
forgotten at any time, one of the allocator's own only when nothing points to it.
-/

namespace OSExt.Memory

open Lib

variable {g : Shape} {k k' : Kernel}

/-! ## Nothing of the shape changes -/

/-- **Writes elsewhere**: what the shape is about stays, the page tables' objects are given anew. -/
theorem SlabInv.elsewhere (h : SlabInv g k) (hmem : k'.mem = k.mem)
    (hslab : ∀ c s, g.Has c s → k'.slab s = k.slab s)
    (hcache : ∀ c ∈ g.caches, k'.cache c = k.cache c) (hst : SameStatics k k')
    (hadded : k'.added = k.added) (hgrown : k'.grown = k.grown)
    (hheap : k.kernelHeapNextPage ≤ k'.kernelHeapNextPage)
    (hclean : k'.Clean → k.Clean) (hvm : SameLayout g k k' → VmOk g k') : SlabInv g k' := by
  have hl : SameLayout g k k' :=
    ⟨fun c s hs => by rw [hslab c s hs]; exact .refl _,
      fun c hc => by rw [hcache c hc]; exact .refl _⟩
  have hbit : ∀ c s i, g.Has c s → (k'.IsUsed c s i ↔ k.IsUsed c s i) :=
    fun c s i hs => hl.isUsed hs (by rw [hmem])
  refine ⟨h.lists.carry rfl rfl (fun c s hs => ?_) hcache hst.caches,
    h.layout.carry (fun _ _ hs => hs) hl hheap, ?_,
    h.caches.carry rfl (fun _ _ => Iff.rfl) hl hst hadded hgrown hclean, hvm hl⟩
  · unfold Kernel.nextSlab
    rw [hslab c s hs]
  · refine h.uses.carry rfl (fun _ _ => Iff.rfl) (fun _ _ _ hr _ _ => hr) hl ?_ ?_ ?_
    · intro s i r hr
      obtain ⟨c, hs, hi, hu⟩ := h.uses.used s i r hr
      exact ⟨c, hs, hi, (hbit c s i hs).mpr hu⟩
    · intro c hc s hs i hi
      exact (hbit c s i ⟨hc, _, hs⟩).mpr (h.uses.full c hc s hs i hi)
    · intro hcl c hc s hs
      obtain ⟨i, hi, hu⟩ := h.uses.stock (hclean hcl) c hc s hs
      exact ⟨i, hi, fun hu' => hu ((hbit c s i ⟨hc, _, hs⟩).mp hu')⟩

/-- A record written where no slab is. -/
theorem SlabInv.setSlab (h : SlabInv g k) {s : Nat} (hs : ∀ c, ¬ g.Has c s) (d : SlabDesc) :
    SlabInv g (k.setSlab s d) := by
  refine h.elsewhere rfl (fun c s' hs' => ?_) (fun _ _ => rfl) ⟨rfl, rfl, rfl, rfl, rfl, rfl, rfl⟩ rfl
    rfl (Nat.le_refl _) id fun hl => h.vm.carry (fun _ _ hs => hs) (fun _ _ hr => hr) hl rfl
  refine Function.update_of_ne ?_ _ _
  intro heq
  subst heq
  exact hs c hs'

/-- New page tables. -/
theorem SlabInv.setSpace (h : SlabInv g k) {space : KernelSpace}
    (hvm : VmOk g (k.setSpace space)) : SlabInv g (k.setSpace space) :=
  h.elsewhere rfl (fun _ _ _ => rfl) (fun _ _ => rfl) ⟨rfl, rfl, rfl, rfl, rfl, rfl, rfl⟩ rfl
    rfl (Nat.le_refl _) id fun _ => hvm

/-- Page tables with the same lists. -/
theorem SlabInv.sameLists (h : SlabInv g k) {space : KernelSpace}
    (hcptds : space.cptds = k.space.cptds) (hcpts : space.cpts = k.space.cpts) :
    SlabInv g (k.setSpace space) := by
  have hvm := h.vm
  refine h.setSpace ⟨?_, ?_, ?_, ?_⟩
  · show ∀ e ∈ space.cptds, _
    rw [hcptds]
    exact hvm.cptds
  · show ∀ e ∈ space.cpts, _
    rw [hcpts]
    exact hvm.cpts
  · show ∀ e ∈ space.cpts, _
    rw [hcpts]
    exact hvm.tables
  · show (vmObjects space).Nodup
    unfold vmObjects
    rw [hcptds, hcpts]
    exact hvm.nodup

/-! ## Moves -/

/-- Links of slabs with `P` and heads of the lists of `c` are all that differs. -/
structure Relinked (c : Nat) (P : Nat → Prop) (k k' : Kernel) : Prop where
  slab : ∀ s, SameSlab (k.slab s) (k'.slab s)
  links : ∀ s, ¬ P s → k'.slab s = k.slab s
  cache : SameCache (k.cache c) (k'.cache c)
  next : (k'.cache c).next = (k.cache c).next
  others : ∀ c', c' ≠ c → k'.cache c' = k.cache c'
  rest : k' = { k with slab := k'.slab, cache := k'.cache }

namespace Relinked

variable {c s : Nat} {P : Nat → Prop} {k'' : Kernel}

theorem trans (h : Relinked c P k k') (h' : Relinked c P k' k'') : Relinked c P k k'' where
  slab s := (h.slab s).trans (h'.slab s)
  links s hs := (h'.links s hs).trans (h.links s hs)
  cache := h.cache.trans h'.cache
  next := h'.next.trans h.next
  others c' hc := (h'.others c' hc).trans (h.others c' hc)
  rest := by
    rw [h'.rest, h.rest]

theorem setNext (k : Kernel) (c : Nat) (hs : P s) (next : Nat) :
    Relinked c P k (k.setNext s next) where
  slab x := by
    show SameSlab (k.slab x) (Function.update k.slab s { k.slab s with next := next } x)
    by_cases hx : x = s
    · rw [hx, Function.update_self]
      exact ⟨rfl, rfl, rfl⟩
    · rw [Function.update_of_ne hx]
      exact .refl _
  links x hx := Function.update_of_ne (fun he => hx (by rw [he]; exact hs)) _ _
  cache := .refl _
  next := rfl
  others _ _ := rfl
  rest := rfl

theorem setHead (k : Kernel) (c : Nat) (w : SlabList) (s : Nat) :
    Relinked c P k (k.setHead c w s) where
  slab _ := .refl _
  links _ _ := rfl
  cache := by
    show SameCache (k.cache c) (Function.update k.cache c ((k.cache c).setHead w s) c)
    rw [Function.update_self]
    cases w <;> exact ⟨rfl, rfl, rfl⟩
  next := by
    show (Function.update k.cache c ((k.cache c).setHead w s) c).next = _
    rw [Function.update_self]
    cases w <;> rfl
  others _ hc := Function.update_of_ne hc _ _
  rest := rfl

theorem push (k : Kernel) (c : Nat) (w : SlabList) (hs : P s) : Relinked c P k (k.push c w s) :=
  (setNext k c hs _).trans (setHead _ c w s)

theorem move (k : Kernel) (c : Nat) (a b : SlabList) (hs : P s) {prev : Nat}
    (hprev : prev ≠ 0 → P prev) : Relinked c P k (k.move c a b s prev) := by
  refine Relinked.trans ?_ (push _ c b hs)
  unfold Kernel.unlink
  by_cases h : prev = 0
  · rw [if_pos h]
    exact setHead k c a _
  · rw [if_neg h]
    exact setNext k c (hprev h) _

theorem cacheOf (h : Relinked c P k k') (c' : Nat) : SameCache (k.cache c') (k'.cache c') := by
  by_cases hc : c' = c
  · rw [hc]
    exact h.cache
  · rw [h.others c' hc]
    exact .refl _

theorem sameLayout (h : Relinked c P k k') (g : Shape) : SameLayout g k k' :=
  ⟨fun _ s _ => h.slab s, fun c' _ => h.cacheOf c'⟩

theorem mem (h : Relinked c P k k') : k'.mem = k.mem := by rw [h.rest]
theorem space (h : Relinked c P k k') : k'.space = k.space := by rw [h.rest]
theorem added (h : Relinked c P k k') : k'.added = k.added := by rw [h.rest]
theorem arrays (h : Relinked c P k k') : k'.arrays = k.arrays := by rw [h.rest]
theorem grown (h : Relinked c P k k') : k'.grown = k.grown := by rw [h.rest]
theorem heap (h : Relinked c P k k') : k'.kernelHeapNextPage = k.kernelHeapNextPage := by
  rw [h.rest]

theorem clean (h : Relinked c P k k') : k'.Clean ↔ k.Clean := by
  unfold Kernel.Clean
  rw [h.arrays]

theorem statics (h : Relinked c P k k') : SameStatics k k' := by
  rw [h.rest]
  exact ⟨rfl, rfl, rfl, rfl, rfl, rfl, rfl⟩

end Relinked

def Shape.setOn (g : Shape) (c : Nat) (on : SlabList → List Nat) : Shape :=
  { g with on := Function.update g.on c on }

@[simp] theorem Shape.setOn_self (g : Shape) (c : Nat) (on : SlabList → List Nat) :
    (g.setOn c on).on c = on := Function.update_self ..

theorem Shape.setOn_other (g : Shape) {c c' : Nat} (on : SlabList → List Nat) (h : c' ≠ c) :
    (g.setOn c on).on c' = g.on c' := Function.update_of_ne h ..

theorem Shape.has_setOn {c : Nat} {on : SlabList → List Nat}
    (h : ∀ s, (∃ w, s ∈ on w) ↔ ∃ w, s ∈ g.on c w) (c' s : Nat) :
    (g.setOn c on).Has c' s ↔ g.Has c' s := by
  unfold Shape.Has
  by_cases hc : c' = c
  · subst hc
    rw [g.setOn_self, h]
    rfl
  · rw [g.setOn_other on hc]
    rfl

/-- The lists of the other caches do not notice. -/
theorem Relinked.onLists {c c' : Nat} (hk : Relinked c (fun s => ∃ w, s ∈ g.on c w) k k')
    (h : ListsOk g k) (hc : c ∈ g.caches) (hc' : c' ∈ g.caches) (hne : c' ≠ c) :
    OnLists k' c' (g.on c') where
  links w := by
    rw [hk.others c' hne]
    refine ((h.on c' hc').links w).congr fun s hs => ?_
    unfold Kernel.nextSlab
    rw [hk.links s fun hs' => hne (h.owner c' c s ⟨hc', w, hs⟩ ⟨hc, hs'⟩)]
  nodup := (h.on c' hc').nodup
  once := (h.on c' hc').once

theorem Relinked.caches {c : Nat} {P : Nat → Prop} (hk : Relinked c P k k') (h : ListsOk g k) :
    IsList (fun c => (k'.cache c).next) 0 k'.caches g.caches := by
  rw [hk.statics.caches]
  refine h.caches.congr fun c' _ => ?_
  by_cases hc : c' = c
  · rw [hc]
    exact hk.next
  · rw [hk.others c' hc]

/-- **New links** for the slabs of one cache. -/
theorem SlabInv.relink (h : SlabInv g k) {c : Nat} {on : SlabList → List Nat} (hc : c ∈ g.caches)
    (hk : Relinked c (fun s => ∃ w, s ∈ g.on c w) k k') (hon : OnLists k' c on)
    (hsame : ∀ s, (∃ w, s ∈ on w) ↔ ∃ w, s ∈ g.on c w)
    (hfull : ∀ s ∈ on .full, ∀ i < k.count c s, k.IsUsed c s i)
    (hstock : k.Clean → ∀ s ∈ on .free, ∃ i < k.count c s, ¬ k.IsUsed c s i) :
    SlabInv (g.setOn c on) k' := by
  have hl := hk.sameLayout g
  have hhas := Shape.has_setOn hsame
  have hbit : ∀ c s i, g.Has c s → (k'.IsUsed c s i ↔ k.IsUsed c s i) :=
    fun c s i hs => hl.isUsed hs (by rw [hk.mem])
  have hcaches := hk.caches h.lists
  refine ⟨⟨hcaches, h.lists.cachesNodup, ?_, ?_⟩,
    h.layout.carry (fun c s hs => (hhas c s).mp hs) hl hk.heap.symm.le, ?_,
    h.caches.carry rfl hhas hl hk.statics hk.added hk.grown hk.clean.mp,
    h.vm.carry (fun c s hs => (hhas c s).mpr hs) (fun _ _ hr => hr) hl hk.space⟩
  · intro c' hc'
    by_cases hcc : c' = c
    · subst hcc
      rw [g.setOn_self]
      exact hon
    · rw [g.setOn_other on hcc]
      exact hk.onLists h.lists hc hc' hcc
  · intro c1 c2 s h1 h2
    exact h.lists.owner c1 c2 s ((hhas c1 s).mp h1) ((hhas c2 s).mp h2)
  · -- which objects are used is said by the bitmaps, which are as they were
    refine h.uses.carry rfl hhas (fun _ _ _ hr _ _ => hr) hl ?_ ?_ ?_
    · intro s i r hr
      obtain ⟨c', hs, hi, hu⟩ := h.uses.used s i r hr
      exact ⟨c', hs, hi, (hbit c' s i hs).mpr hu⟩
    · intro c' hc' s hs i hi
      have hs' : g.Has c' s := (hhas c' s).mp ⟨hc', .full, hs⟩
      refine (hbit c' s i hs').mpr ?_
      by_cases hcc : c' = c
      · subst hcc
        rw [g.setOn_self] at hs
        exact hfull s hs i hi
      · rw [g.setOn_other on hcc] at hs
        exact h.uses.full c' hc' s hs i hi
    · intro hclean c' hc' s hs
      have hs' : g.Has c' s := (hhas c' s).mp ⟨hc', .free, hs⟩
      have hclear : ∃ i < k.count c' s, ¬ k.IsUsed c' s i := by
        by_cases hcc : c' = c
        · subst hcc
          rw [g.setOn_self] at hs
          exact hstock (hk.clean.mp hclean) s hs
        · rw [g.setOn_other on hcc] at hs
          exact h.uses.stock (hk.clean.mp hclean) c' hc' s hs
      obtain ⟨i, hi, hu⟩ := hclear
      exact ⟨i, hi, fun hu' => hu ((hbit c' s i hs').mp hu')⟩

/-- The slab before `s` is one of the list. -/
theorem prevOf_mem {pre : List Nat} (h : prevOf pre ≠ 0) : prevOf pre ∈ pre := by
  rcases List.eq_nil_or_concat pre with rfl | ⟨pre', p, rfl⟩
  · exact absurd rfl h
  · rw [List.concat_eq_append, prevOf_concat]
    simp

/-- **A slab moves** to another list of its cache. -/
theorem SlabInv.move (h : SlabInv g k) {c s : Nat} {a b : SlabList} {pre post : List Nat}
    (hc : c ∈ g.caches) (ha : g.on c a = pre ++ s :: post)
    (hfull : b = .full → ∀ i < k.count c s, k.IsUsed c s i)
    (hstock : b = .free → k.Clean → ∃ i < k.count c s, ¬ k.IsUsed c s i) :
    SlabInv (g.setOn c (movedOn (g.on c) a b s pre post)) (k.move c a b s (prevOf pre)) := by
  have hs : s ∈ g.on c a := by simp [ha]
  refine h.relink hc (Relinked.move k c a b ⟨a, hs⟩ fun hp => ⟨a, ?_⟩)
    ((h.lists.on c hc).move b ha) (fun x => exists_mem_movedOn ha) ?_ ?_
  · rw [ha]
    exact List.mem_append_left _ (prevOf_mem hp)
  · intro x hx i hi
    rcases mem_movedOn ha hx with ⟨rfl, hb⟩ | hx
    · exact hfull hb.symm i hi
    · exact h.uses.full c hc x hx i hi
  · intro hclean x hx
    rcases mem_movedOn ha hx with ⟨rfl, hb⟩ | hx
    · exact hstock hb.symm hclean
    · exact h.uses.stock hclean c hc x hx

/-! ## New slabs -/

/-- The shape with a new slab on the free list of `c`. -/
def Shape.addSlab (g : Shape) (c s : Nat) : Shape :=
  g.setOn c (Function.update (g.on c) .free (s :: g.on c .free))

theorem Shape.has_addSlab {c : Nat} (hc : c ∈ g.caches) (s c' s' : Nat) :
    (g.addSlab c s).Has c' s' ↔ (c' = c ∧ s' = s) ∨ g.Has c' s' := by
  unfold Shape.addSlab Shape.Has
  by_cases hcc : c' = c
  · subst hcc
    rw [g.setOn_self]
    constructor
    · intro ⟨hc', w, hs⟩
      by_cases hw : w = .free
      · subst hw
        rw [Function.update_self] at hs
        rcases List.mem_cons.mp hs with hs | hs
        · exact .inl ⟨rfl, hs⟩
        · exact .inr ⟨hc', _, hs⟩
      · rw [Function.update_of_ne hw] at hs
        exact .inr ⟨hc', w, hs⟩
    · intro hs
      rcases hs with ⟨_, rfl⟩ | ⟨hc', w, hs⟩
      · refine ⟨hc, .free, ?_⟩
        rw [Function.update_self]
        exact List.mem_cons_self ..
      · refine ⟨hc', w, ?_⟩
        by_cases hw : w = .free
        · subst hw
          rw [Function.update_self]
          exact List.mem_cons_of_mem _ hs
        · rwa [Function.update_of_ne hw]
  · rw [g.setOn_other _ hcc]
    constructor
    · exact fun hs => .inr hs
    · intro hs
      exact hs.resolve_left fun he => hcc he.1

/-- The state `addFreeSlab` leaves. -/
def Kernel.addSlab (k : Kernel) (c s page : Nat) : Kernel :=
  { k.push c .free s with
    added := (c, s) :: k.added
    grown := ⟨c, s, page, k.mem⟩ :: k.grown }

theorem addFreeSlab_eq (k : Kernel) (c s page : Nat) :
    addFreeSlab c s page k = (.ok (), k.addSlab c s page) := rfl

/-- What a descriptor has to meet to become one of a slab of `c`, on the pages from `page` on. -/
structure SlabReady (g : Shape) (k : Kernel) (c s page : Nat) : Prop where
  cache : c ∈ g.caches
  new : ∀ c', ¬ g.Has c' s
  ne_zero : s ≠ 0
  fits : Fits (k.cache c) (k.slab s)
  low : kernelHeapStart ≤ (k.slab s).start
  high : (k.slab s).pagesEnd ≤ k.kernelHeapNextPage
  apart : ∀ c' s', g.Has c' s' →
    (k.slab s).pagesEnd ≤ (k.slab s').start ∨ (k.slab s').pagesEnd ≤ (k.slab s).start
  onSlab : (k.cache c).descOnSlab = true → s = (k.slab s).start
  slabDesc : (k.cache c).descOnSlab = false → Holds g k (.slabDesc s) s sizeofSlabDesc
  bitmap : (k.cache c).descOnSlab = false →
    Holds g k (.bitmap s) (k.slab s).used (k.count c s / 8 + 1)
  stock : k.Clean → ∀ i < k.count c s, usedBit k.mem (k.bitmap c s) i = 0
  place : smallPageSize ∣ (k.slab s).start ∧ (k.slab s).size = (k.cache c).slabPages
  page : k.PageFor c page

/-- **A new slab** joins the free list of its cache. -/
theorem SlabInv.addSlab (h : SlabInv g k) {c s page : Nat} (hr : SlabReady g k c s page) :
    SlabInv (g.addSlab c s) (k.addSlab c s page) := by
  have hc := hr.cache
  have hhas := Shape.has_addSlab hc s
  have hk : Relinked c (fun x => x = s) k (k.push c .free s) := Relinked.push k c .free rfl
  -- the layout is the old one, for the new slab too
  have hl : SameLayout (g.addSlab c s) k (k.addSlab c s page) :=
    ⟨fun _ s' _ => hk.slab s', fun c' _ => hk.cacheOf c'⟩
  have hl' : SameLayout g k (k.addSlab c s page) :=
    ⟨fun _ s' _ => hk.slab s', fun c' _ => hk.cacheOf c'⟩
  have hbit : ∀ c' s' i, (g.addSlab c s).Has c' s' →
      ((k.addSlab c s page).IsUsed c' s' i ↔ k.IsUsed c' s' i) :=
    fun c' s' i hs' => hl.isUsed hs' (by rw [show (k.addSlab c s page).mem = k.mem from hk.mem])
  have hmono : ∀ r p n, Holds g k r p n → Holds (g.addSlab c s) (k.addSlab c s page) r p n :=
    fun r p n hp => hp.mono (fun c' s' hs' => (hhas c' s').mpr (.inr hs')) (fun _ _ hr => hr) hl'
  have hst : SameStatics k (k.addSlab c s page) :=
    ⟨hk.statics.caches, hk.statics.slabCache, hk.statics.cacheCache, hk.statics.linkedlistCache,
      hk.statics.cptCache, hk.statics.blocks, hk.statics.heap⟩
  have hcaches := hk.caches h.lists
  refine ⟨⟨?_, h.lists.cachesNodup, ?_, ?_⟩, ⟨hk.heap ▸ h.layout.heap, ?_, ?_, ?_, ?_, ?_⟩,
    ⟨?_, ?_, ?_, ?_, ?_, ?_⟩, ⟨?_, ?_, ?_, ?_, ?_, ?_, ?_, ?_, ?_, ?_, ?_⟩, ?_⟩
  · exact hcaches
  · intro c' hc'
    by_cases hcc : c' = c
    · subst hcc
      unfold Shape.addSlab
      rw [g.setOn_self]
      have hon := (h.lists.on c' hc').push .free (fun w hw => hr.new c' ⟨hc', w, hw⟩) hr.ne_zero
      exact ⟨hon.links, hon.nodup, hon.once⟩
    · unfold Shape.addSlab
      rw [g.setOn_other _ hcc]
      refine ⟨fun w => ?_, (h.lists.on c' hc').nodup, (h.lists.on c' hc').once⟩
      show IsList (k.push c .free s).nextSlab 0 (((k.push c .free s).cache c').head w) _
      rw [hk.others c' hcc]
      refine ((h.lists.on c' hc').links w).congr fun s' hs' => ?_
      unfold Kernel.nextSlab
      rw [hk.links s' fun he => hr.new c' (he ▸ ⟨hc', w, hs'⟩)]
  · intro c1 c2 s' h1 h2
    rcases (hhas c1 s').mp h1 with ⟨rfl, rfl⟩ | hs1
    · rcases (hhas c2 s').mp h2 with ⟨rfl, _⟩ | hs2
      · rfl
      · exact absurd hs2 (hr.new c2)
    · rcases (hhas c2 s').mp h2 with ⟨rfl, rfl⟩ | hs2
      · exact absurd hs1 (hr.new c1)
      · exact h.lists.owner c1 c2 s' hs1 hs2
  · intro c' s' hs'
    have hf : Fits (k.cache c') (k.slab s') := by
      rcases (hhas c' s').mp hs' with ⟨rfl, rfl⟩ | hs'
      · exact hr.fits
      · exact h.layout.fits c' s' hs'
    have hd := hl.slab c' s' hs'
    have hca := hl.cache c' hs'.1
    exact ⟨by rw [hca.objSize]; exact hf.objSize, by rw [hd.size]; exact hf.size,
      by rw [hca.objSize, hd.size]; exact hf.fits⟩
  · intro c' s' hs'
    rw [(hl.slab c' s' hs').start]
    rcases (hhas c' s').mp hs' with ⟨rfl, rfl⟩ | hs'
    · exact hr.low
    · exact h.layout.low c' s' hs'
  · intro c' s' hs'
    rw [(hl.slab c' s' hs').pagesEnd, show (k.addSlab c s page).kernelHeapNextPage = _ from hk.heap]
    rcases (hhas c' s').mp hs' with ⟨rfl, rfl⟩ | hs'
    · exact hr.high
    · exact h.layout.high c' s' hs'
  · intro c1 s1 c2 s2 h1 h2 hne
    rw [(hl.slab c1 s1 h1).pagesEnd, (hl.slab c2 s2 h2).pagesEnd, (hl.slab c1 s1 h1).start,
      (hl.slab c2 s2 h2).start]
    rcases (hhas c1 s1).mp h1 with ⟨rfl, rfl⟩ | hs1
    · rcases (hhas c2 s2).mp h2 with ⟨_, rfl⟩ | hs2
      · exact absurd rfl hne
      · exact hr.apart c2 s2 hs2
    · rcases (hhas c2 s2).mp h2 with ⟨rfl, rfl⟩ | hs2
      · exact (hr.apart c1 s1 hs1).symm
      · exact h.layout.apart c1 s1 c2 s2 hs1 hs2 hne
  · intro c' s' hs' hon
    rw [descOnSlab_congr (hl.cache c' hs'.1)] at hon
    rw [(hl.slab c' s' hs').start]
    rcases (hhas c' s').mp hs' with ⟨rfl, rfl⟩ | hs'
    · exact hr.onSlab hon
    · exact h.layout.onSlab c' s' hs' hon
  · intro s' i r hr'
    obtain ⟨c', hs', hi, hu⟩ := h.uses.used s' i r hr'
    have hs2 := (hhas c' s').mpr (.inr hs')
    refine ⟨c', hs2, ?_, (hbit c' s' i hs2).mpr hu⟩
    rw [hl.count hs2]
    exact hi
  · intro c' hc' s' hs' i hi
    have hs2 : (g.addSlab c s).Has c' s' := ⟨hc', .full, hs'⟩
    rw [hl.count hs2] at hi
    refine (hbit c' s' i hs2).mpr (h.uses.full c' hc' s' ?_ i hi)
    by_cases hcc : c' = c
    · subst hcc
      unfold Shape.addSlab at hs'
      rw [g.setOn_self, Function.update_of_ne (by decide)] at hs'
      exact hs'
    · unfold Shape.addSlab at hs'
      rw [g.setOn_other _ hcc] at hs'
      exact hs'
  · intro hclean c' hc' s' hs'
    have hs2 : (g.addSlab c s).Has c' s' := ⟨hc', .free, hs'⟩
    have hcl : k.Clean := hk.clean.mp hclean
    have hclear : ∃ i < k.count c' s', ¬ k.IsUsed c' s' i := by
      by_cases hcc : c' = c
      · subst hcc
        unfold Shape.addSlab at hs'
        rw [g.setOn_self, Function.update_self] at hs'
        rcases List.mem_cons.mp hs' with rfl | hs'
        · exact ⟨0, count_pos hr.fits, fun hu => hu (hr.stock hcl 0 (count_pos hr.fits))⟩
        · exact h.uses.stock hcl c' hc' s' hs'
      · unfold Shape.addSlab at hs'
        rw [g.setOn_other _ hcc] at hs'
        exact h.uses.stock hcl c' hc' s' hs'
    obtain ⟨i, hi, hu⟩ := hclear
    rw [hl.count hs2]
    exact ⟨i, hi, fun hu' => hu ((hbit c' s' i hs2).mp hu')⟩
  · intro c' s' hs' hoff
    rw [descOnSlab_congr (hl.cache c' hs'.1)] at hoff
    rcases (hhas c' s').mp hs' with ⟨rfl, rfl⟩ | hs'
    · exact hmono _ _ _ (hr.slabDesc hoff)
    · exact hmono _ _ _ (h.uses.slabDesc c' s' hs' hoff)
  · intro c' s' hs' hoff
    rw [descOnSlab_congr (hl.cache c' hs'.1)] at hoff
    rw [(hl.slab c' s' hs').used, hl.count hs']
    rcases (hhas c' s').mp hs' with ⟨rfl, rfl⟩ | hs'
    · exact hmono _ _ _ (hr.bitmap hoff)
    · exact hmono _ _ _ (h.uses.bitmap c' s' hs' hoff)
  · exact fun c' hc' => hmono _ _ _ (h.uses.cacheDesc c' hc')
  · intro c' hc'
    rw [hl.objSize hc']
    exact h.caches.objSize c' hc'
  · rw [hst.slabCache, hl.objSize h.caches.slabCache.1]
    exact h.caches.slabCache
  · rw [hst.cacheCache, hl.objSize h.caches.cacheCache.1]
    exact h.caches.cacheCache
  · rw [hst.linkedlistCache, hl.objSize h.caches.linkedlistCache.1]
    exact h.caches.linkedlistCache
  · rw [hst.cptCache, hl.objSize h.caches.cptCache.1]
    exact h.caches.cptCache
  · intro c' s'
    show (c', s') ∈ (c, s) :: k.added ↔ _
    rw [List.mem_cons, Prod.mk.injEq, h.caches.added, hhas]
  · intro hclean x hx
    have hcl : k.Clean := hk.clean.mp hclean
    have hx' : x ∈ (⟨c, s, page, k.mem⟩ : Grown) :: k.grown := hk.grown ▸ hx
    rcases List.mem_cons.mp hx' with rfl | hx'
    · have hs2 := (hhas c s).mpr (.inl ⟨rfl, rfl⟩)
      rw [hl.count hs2, hl.bitmap hs2]
      exact ⟨hs2, hr.stock hcl⟩
    · obtain ⟨hs, hbits⟩ := h.caches.grown hcl x hx'
      have hs2 := (hhas x.cache x.slab).mpr (.inr hs)
      rw [hl.count hs2, hl.bitmap hs2]
      exact ⟨hs2, hbits⟩
  · exact hst.heap_dvd.mpr h.caches.heap
  · intro c' s' hs'
    rw [(hl.slab c' s' hs').start, (hl.slab c' s' hs').size, slabPages_congr (hl.cache c' hs'.1)]
    rcases (hhas c' s').mp hs' with ⟨rfl, rfl⟩ | hs'
    · exact hr.place
    · exact h.caches.places c' s' hs'
  · intro x hx
    have hx' : x ∈ (⟨c, s, page, k.mem⟩ : Grown) :: k.grown := hk.grown ▸ hx
    rcases List.mem_cons.mp hx' with rfl | hx'
    · exact ⟨(hhas c s).mpr (.inl ⟨rfl, rfl⟩), hr.page.carry (hl.cache c hc) hst.blocksAligned.mp⟩
    · obtain ⟨hs, hpage⟩ := h.caches.logged x hx'
      exact ⟨(hhas x.cache x.slab).mpr (.inr hs), hpage.carry (hl.cache _ hs.1) hst.blocksAligned.mp⟩
  · intro c' s' hs'
    rw [(hl.cache c' hs'.1).alignment, hl.objSize hs'.1]
    rcases (hhas c' s').mp hs' with ⟨rfl, rfl⟩ | hs'
    · exact .inl ⟨_, List.mem_cons_self .., rfl, rfl⟩
    · refine (h.caches.backed c' s' hs').imp_left fun hlog => ?_
      obtain ⟨x, hx, hxs⟩ := hlog
      exact ⟨x, List.mem_cons_of_mem _ hx, hxs⟩
  · exact h.vm.carry (fun c' s' hs' => (hhas c' s').mpr (.inr hs')) (fun _ _ hr => hr) hl' hk.space

/-! ## Roles -/

/-- **New roles** for objects nothing relies on. -/
theorem SlabInv.reassign (h : SlabInv g k) {role : Nat → Nat → Option Role}
    (hused : ∀ s i r, role s i = some r → ∃ r', g.role s i = some r')
    (hkeep : ∀ c s i, g.Has c s → k.Owned (k.objAddr c s i) → role s i = g.role s i) :
    SlabInv { g with role := role } k := by
  have hholds : ∀ r p n, k.Owned p → Holds g k r p n → Holds { g with role := role } k r p n := by
    intro r p n hp hr
    obtain ⟨c, s, i, hs, hr, haddr, hn⟩ := hr
    subst haddr
    exact ⟨c, s, i, hs, (hkeep c s i hs hp).trans hr, rfl, hn⟩
  have hl := h.lists
  have hu := h.uses
  have hc := h.caches
  refine ⟨⟨hl.caches, hl.cachesNodup, hl.on, hl.owner⟩,
    ⟨h.layout.heap, h.layout.fits, h.layout.low, h.layout.high, h.layout.apart, h.layout.onSlab⟩,
    ⟨?_, hu.full, hu.stock, ?_, ?_, ?_⟩,
    ⟨hc.objSize, hc.slabCache, hc.cacheCache, hc.linkedlistCache, hc.cptCache, hc.added,
      hc.grown, hc.heap, hc.places, hc.logged, hc.backed⟩,
    ⟨?_, ?_, ?_, h.vm.nodup⟩⟩
  · intro s i r hr
    obtain ⟨r', hr'⟩ := hused s i r hr
    exact hu.used s i r' hr'
  · intro c s hs hoff
    exact hholds _ _ _ (.inl ⟨c, s, (hc.added c s).mpr hs, hoff, .inl rfl⟩) (hu.slabDesc c s hs hoff)
  · intro c s hs hoff
    exact hholds _ _ _ (.inl ⟨c, s, (hc.added c s).mpr hs, hoff, .inr rfl⟩) (hu.bitmap c s hs hoff)
  · intro c hc
    exact hholds _ _ _ (.inr (.inl ((linked_iff hl.caches).mpr hc))) (hu.cacheDesc c hc)
  · intro e he
    exact hholds _ _ _ (.inr (.inr (by simp [vmObjects]; exact .inl ⟨_, he⟩))) (h.vm.cptds e he)
  · intro e he
    exact hholds _ _ _ (.inr (.inr (by simp [vmObjects]; exact .inr (.inl ⟨_, he⟩))))
      (h.vm.cpts e he)
  · intro e he
    exact hholds _ _ _ (.inr (.inr (by simp [vmObjects]; exact .inr (.inr ⟨_, he⟩))))
      (h.vm.tables e he)

/-- One object gets another role, or none. -/
theorem SlabInv.setRole (h : SlabInv g k) {c s i : Nat} {r r' : Option Role} (hs : g.Has c s)
    (hr : g.role s i = r') (hr' : r.isSome → r'.isSome) (hfree : ¬ k.Owned (k.objAddr c s i)) :
    SlabInv (g.setRole s i r) k := by
  refine h.reassign ?_ ?_
  · intro s' i' r1 hr1
    by_cases hsame : s' = s ∧ i' = i
    · obtain ⟨rfl, rfl⟩ := hsame
      have hsome : r = some r1 := (g.setRole_self s' i' r).symm.trans hr1
      rw [hr]
      exact Option.isSome_iff_exists.mp (hr' (by rw [hsome]; rfl))
    · exact ⟨r1, (g.setRole_other r hsame).symm.trans hr1⟩
  · intro c' s' i' hs' hown
    refine g.setRole_other r ?_
    intro hgiven
    obtain ⟨rfl, rfl⟩ := hgiven
    obtain rfl := h.lists.owner c c' s' hs hs'
    exact hfree hown

end OSExt.Memory
