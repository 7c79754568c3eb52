import OSExt.Memory.SlabGrowth

/-!
# New caches, and setting up

`createCache` takes an object for the cache and puts it in front of the list of
caches. `initSlabAllocator` sets up the first four caches by hand, on four heap
pages that hold each other's descriptors, and creates the rest.
-/

namespace OSExt.Memory

open Lib

variable {g g1 : Shape} {k k1 : Kernel}

/-! ## New caches -/

/-- The shape with a new cache, without slabs. -/
def Shape.addCache (g : Shape) (p : Nat) : Shape :=
  { g with caches := p :: g.caches, on := Function.update g.on p fun _ => [] }

/-- The state with the record `ca` at `p` in front of the list of caches. -/
def Kernel.addCache (k : Kernel) (p : Nat) (ca : Cache) : Kernel :=
  { k.setCache p ca with caches := p }

theorem Shape.has_addCache {p : Nat} (hp : p ∉ g.caches) (c s : Nat) :
    (g.addCache p).Has c s ↔ g.Has c s := by
  by_cases hc : c = p
  · subst hc
    refine iff_of_false ?_ fun h => hp h.1
    intro hgiven
    obtain ⟨_, w, hs⟩ := hgiven
    have hon : (g.addCache c).on c = fun _ => [] := Function.update_self ..
    rw [hon] at hs
    exact absurd hs (by simp)
  · have hon : (g.addCache p).on c = g.on c := Function.update_of_ne hc _ _
    have hmem : c ∈ (g.addCache p).caches ↔ c ∈ g.caches :=
      List.mem_cons.trans (or_iff_right hc)
    unfold Shape.Has
    rw [hon, hmem]

/-- **A new cache** joins the list. -/
theorem SlabInv.addCache (h : SlabInv g k) {p : Nat} {ca : Cache} (hp : p ∉ g.caches)
    (hdesc : Holds g k .cacheDesc p sizeofCache) (hne : p ≠ 0) (hsize : 0 < ca.objSize)
    (hheads : ∀ w, ca.head w = 0) (hnext : ca.next = k.caches) :
    SlabInv (g.addCache p) (k.addCache p ca) := by
  have hhas := Shape.has_addCache (g := g) hp
  have hcache : ∀ c, c ≠ p → (k.addCache p ca).cache c = k.cache c :=
    fun c hc => Function.update_of_ne hc _ _
  have hself : (k.addCache p ca).cache p = ca := Function.update_self ..
  have hne' : ∀ c ∈ g.caches, c ≠ p := by
    intro c hc heq
    subst heq
    exact hp hc
  have hl : SameLayout g k (k.addCache p ca) :=
    ⟨fun _ _ _ => .refl _, fun c hc => by rw [hcache c (hne' c hc)]; exact .refl _⟩
  have hmono : ∀ r q n, Holds g k r q n → Holds (g.addCache p) (k.addCache p ca) r q n :=
    fun r q n hq => hq.mono (fun c s hs => (hhas c s).mpr hs) (fun _ _ hr => hr) hl
  have hbit : ∀ c s i, g.Has c s → ((k.addCache p ca).IsUsed c s i ↔ k.IsUsed c s i) :=
    fun c s i hs => hl.isUsed hs rfl
  -- the other caches are carried over; the new one has no slabs, so of it most holds vacuously
  refine ⟨⟨?_, List.nodup_cons.mpr ⟨hp, h.lists.cachesNodup⟩, ?_, ?_⟩,
    h.layout.carry (fun c s hs => (hhas c s).mp hs) hl (Nat.le_refl _),
    ⟨?_, ?_, ?_, ?_, ?_, ?_⟩, ⟨?_, ?_, ?_, ?_, ?_, ?_, ?_, h.caches.heap, ?_, ?_, ?_⟩,
    h.vm.carry (fun c s hs => (hhas c s).mpr hs) (fun _ _ hr => hr) hl rfl⟩
  · -- the new cache is in front of the chain
    have hlinks : (fun c => ((k.addCache p ca).cache c).next)
        = Function.update (fun c => (k.cache c).next) p k.caches := by
      funext c
      by_cases hc : c = p
      · subst hc
        rw [hself, Function.update_self, hnext]
      · rw [hcache c hc, Function.update_of_ne hc]
    rw [hlinks]
    exact h.lists.caches.push hp hne
  · intro c hc
    rcases List.mem_cons.mp hc with rfl | hc
    · have hon : (g.addCache c).on c = fun _ => [] := Function.update_self ..
      rw [hon]
      refine ⟨fun w => ?_, fun w => List.nodup_nil, fun w w' s hs => absurd hs (by simp)⟩
      rw [hself]
      exact hheads w
    · have hon : (g.addCache p).on c = g.on c := Function.update_of_ne (hne' c hc) _ _
      rw [hon]
      refine ⟨fun w => ?_, (h.lists.on c hc).nodup, (h.lists.on c hc).once⟩
      rw [hcache c (hne' c hc)]
      exact (h.lists.on c hc).links w
  · intro c c' s hs hs'
    exact h.lists.owner c c' s ((hhas c s).mp hs) ((hhas c' s).mp hs')
  · intro s i r hr
    obtain ⟨c, hs, hi, hu⟩ := h.uses.used s i r hr
    exact ⟨c, (hhas c s).mpr hs, by rw [hl.count hs]; exact hi, (hbit c s i hs).mpr hu⟩
  · intro c hc s hs i hi
    have hs' : g.Has c s := (hhas c s).mp ⟨hc, .full, hs⟩
    have hon : (g.addCache p).on c = g.on c := Function.update_of_ne (hne' c hs'.1) _ _
    rw [hl.count hs'] at hi
    exact (hbit c s i hs').mpr (h.uses.full c hs'.1 s (hon ▸ hs) i hi)
  · intro hclean c hc s hs
    have hs' : g.Has c s := (hhas c s).mp ⟨hc, .free, hs⟩
    have hon : (g.addCache p).on c = g.on c := Function.update_of_ne (hne' c hs'.1) _ _
    obtain ⟨i, hi, hu⟩ := h.uses.stock hclean c hs'.1 s (hon ▸ hs)
    exact ⟨i, by rw [hl.count hs']; exact hi, fun hu' => hu ((hbit c s i hs').mp hu')⟩
  · intro c s hs hoff
    have hs' := (hhas c s).mp hs
    rw [descOnSlab_congr (hl.cache c hs'.1)] at hoff
    exact hmono _ _ _ (h.uses.slabDesc c s hs' hoff)
  · intro c s hs hoff
    have hs' := (hhas c s).mp hs
    rw [descOnSlab_congr (hl.cache c hs'.1)] at hoff
    rw [(hl.slab c s hs').used, hl.count hs']
    exact hmono _ _ _ (h.uses.bitmap c s hs' hoff)
  · intro c hc
    rcases List.mem_cons.mp hc with rfl | hc
    · exact hmono _ _ _ hdesc
    · exact hmono _ _ _ (h.uses.cacheDesc c hc)
  · intro c hc
    rcases List.mem_cons.mp hc with rfl | hc
    · show 0 < ((k.addCache c ca).cache c).objSize
      rw [hself]
      exact hsize
    · rw [hl.objSize hc]
      exact h.caches.objSize c hc
  · exact ⟨List.mem_cons_of_mem _ h.caches.slabCache.1,
      (hl.objSize h.caches.slabCache.1).trans h.caches.slabCache.2⟩
  · exact ⟨List.mem_cons_of_mem _ h.caches.cacheCache.1,
      (hl.objSize h.caches.cacheCache.1).trans h.caches.cacheCache.2⟩
  · exact ⟨List.mem_cons_of_mem _ h.caches.linkedlistCache.1,
      (hl.objSize h.caches.linkedlistCache.1).trans h.caches.linkedlistCache.2⟩
  · exact ⟨List.mem_cons_of_mem _ h.caches.cptCache.1,
      (hl.objSize h.caches.cptCache.1).trans h.caches.cptCache.2⟩
  · intro c s
    rw [hhas]
    exact h.caches.added c s
  · intro hclean x hx
    obtain ⟨hs, hbits⟩ := h.caches.grown hclean x hx
    refine ⟨(hhas _ _).mpr hs, ?_⟩
    rw [hl.count hs, hl.bitmap hs]
    exact hbits
  · intro c s hs
    have hs' := (hhas c s).mp hs
    rw [slabPages_congr (hl.cache c hs'.1)]
    exact h.caches.places c s hs'
  · intro x hx
    obtain ⟨hs, hpage⟩ := h.caches.logged x hx
    exact ⟨(hhas _ _).mpr hs, hpage.carry (hl.cache _ hs.1) id⟩
  · intro c s hs
    have hs' := (hhas c s).mp hs
    rw [(hl.cache c hs'.1).alignment, hl.objSize hs'.1]
    exact h.caches.backed c s hs'

/-- Nothing a client relies on changes. -/
structure KeepsClients (g : Shape) (k : Kernel) (g' : Shape) (k' : Kernel) : Prop where
  has : ∀ c s, g.Has c s → g'.Has c s
  role : ∀ s i, g.role s i = some .client → g'.role s i = some .client
  layout : SameLayout g k k'
  caches : ∀ c ∈ g.caches, c ∈ g'.caches

theorem Later.keepsClients {q : Option Nat} (h : Later g k g1 k1 q) : KeepsClients g k g1 k1 :=
  ⟨h.has, fun s i hr => h.role s i _ hr (by decide), h.layout, fun c hc => h.caches ▸ hc⟩

/-- A client's object is no cache. -/
theorem SlabInv.not_cache (h : SlabInv g k) {p n : Nat} (hp : Holds g k .client p n) :
    p ∉ g.caches := by
  intro hc
  obtain ⟨c, s, i, hs, hr, rfl, _⟩ := hp
  exact absurd (h.role_unique hs hr (by decide) (h.uses.cacheDesc _ hc)) (by simp)

/-- The cache was created with this object size, alignment and flags. -/
def Cache.CreatedWith (ca : Cache) (x : Nat × Nat × BitVec 16) : Prop :=
  ca.objSize = x.1 ∧ ca.alignment = x.2.1 ∧ ca.flags = x.2.2

theorem Cache.CreatedWith.carry {ca ca' : Cache} {x : Nat × Nat × BitVec 16}
    (h : ca.CreatedWith x) (hc : SameCache ca ca') : ca'.CreatedWith x :=
  ⟨hc.objSize.trans h.1, hc.alignment.trans h.2.1, hc.flags.trans h.2.2⟩

/-- **`createCache` keeps the invariant and what clients hold.** -/
theorem createCache_spec {calls : SlabCalls} (hcalls : calls.Ok) (h : SlabInv g k)
    {objSize : Nat} (hsize : 0 < objSize) (alignment : Nat) (flags : BitVec 16) :
    Ensures (createCache calls objSize alignment flags)
      (fun p k' => ∃ g', SlabInv g' k' ∧ KeepsClients g k g' k' ∧ p ∈ g'.caches ∧
        (k'.cache p).CreatedWith (objSize, alignment, flags)) NoEmptySlab k := by
  rw [createCache, ensures_bind, ensures_gets, ensures_bind]
  have hcc := h.caches.cacheCache
  refine (hcalls.alloc g k _ h hcc.1).imp fun p k1 hk1 => ?_
  obtain ⟨g1, hg⟩ := hk1
  -- the object is new, so nobody holds it, and it may become a descriptor
  have hnew : New g g1 k1 p sizeofCache := by
    refine hg.toNew (.refl g k) ?_
    rw [hg.later.layout.objSize hcc.1, hcc.2]
  have hp := hg.inv.not_cache hnew.holds
  obtain ⟨g2, h2, hlater2, hdesc, _, _, hcaches, _⟩ := hnew.retag hg.inv hg.later .cacheDesc
  rw [ensures_bind, ensures_update, ensures_bind, ensures_update]
  have hp2 : p ∉ g2.caches := hcaches ▸ hp
  let ca : Cache :=
    { fullSlabs := 0, partialSlabs := 0, freeSlabs := 0
      objSize := objSize, alignment := alignment, flags := flags, next := k1.caches }
  have hheads : ∀ w, ca.head w = 0 := fun w => by cases w <;> rfl
  have h3 := h2.addCache hp2 hdesc hg.ne_zero hsize hheads rfl
  have hk := hlater2.keepsClients
  have hhas := Shape.has_addCache (g := g2) hp2
  refine ⟨_, h3, ⟨fun c s hs => (hhas c s).mpr (hk.has c s hs), hk.role, ?_,
    fun c hc => List.mem_cons_of_mem _ (hk.caches c hc)⟩, List.mem_cons_self .., ?_⟩
  swap
  · show (Function.update k1.cache p ca p).CreatedWith _
    rw [Function.update_self]
    exact ⟨rfl, rfl, rfl⟩
  refine ⟨hk.layout.slab, fun c hc => ?_⟩
  refine (hk.layout.cache c hc).trans ?_
  have hne : c ≠ p := by
    intro heq
    subst heq
    exact hp2 (hk.caches c hc)
  show SameCache (k1.cache c) (Function.update k1.cache p _ c)
  rw [Function.update_of_ne hne]
  exact .refl _

theorem KeepsClients.trans {g2 : Shape} {k2 : Kernel} (h : KeepsClients g k g1 k1)
    (h' : KeepsClients g1 k1 g2 k2) : KeepsClients g k g2 k2 :=
  ⟨fun c s hs => h'.has c s (h.has c s hs), fun s i hr => h'.role s i (h.role s i hr),
    ⟨fun c s hs => (h.layout.slab c s hs).trans (h'.layout.slab c s (h.has c s hs)),
      fun c hc => (h.layout.cache c hc).trans (h'.layout.cache c (h.caches c hc))⟩,
    fun c hc => h'.caches c (h.caches c hc)⟩

/-- Each of the caches is there afterwards. -/
theorem createCaches_spec {calls : SlabCalls} (hcalls : calls.Ok) :
    ∀ {l : List (Nat × Nat × BitVec 16)} {g : Shape} {k : Kernel}, (∀ x ∈ l, 0 < x.1) →
      SlabInv g k → Ensures (createCaches calls l) (fun _ k' => ∃ g', SlabInv g' k' ∧
        KeepsClients g k g' k' ∧ ∀ x ∈ l, ∃ c ∈ g'.caches, (k'.cache c).CreatedWith x)
        NoEmptySlab k := by
  intro l
  induction l with
  | nil =>
      intro g k _ h
      exact ⟨g, h, (Later.refl g k).keepsClients, fun x hx => absurd hx List.not_mem_nil⟩
  | cons x l ih =>
      intro g k hl h
      obtain ⟨objSize, alignment, flags⟩ := x
      rw [createCaches, ensures_bind]
      refine (createCache_spec hcalls h (hl _ (List.mem_cons_self ..)) alignment flags).imp
        fun p k1 hk1 => ?_
      obtain ⟨g1, h1, hkeep1, hp, hwith⟩ := hk1
      refine (ih (fun x hx => hl x (List.mem_cons_of_mem _ hx)) h1).imp fun _ k2 hk2 => ?_
      obtain ⟨g2, h2, hkeep2, hall⟩ := hk2
      refine ⟨g2, h2, hkeep1.trans hkeep2, fun x hx => ?_⟩
      rcases List.mem_cons.mp hx with rfl | hx
      · exact ⟨p, hkeep2.caches p hp, hwith.carry (hkeep2.layout.cache p hp)⟩
      · exact hall x hx

end OSExt.Memory
