import OSExt.Memory.FreshSlabs
import OSExt.Memory.SlabFreeTest

/-!
# What a free undoes

A live object is given back to the slab it is from exactly if that slab is the first, of
those the call asks, whose test accepts the address. Its own slab may not be among them: a
slab that `isSlabFree` has taken for free is not asked. And another slab may come first: each
accepts the place behind its last slot, which may be the first place of the next page.
-/

namespace OSExt.Memory

open Lib

/-- The links spell out the caches and the lists of each. -/
structure Spelled (k : Kernel) (caches : List Nat) (on : Nat → SlabList → List Nat) : Prop where
  cacheList : IsList (fun c => (k.cache c).next) 0 k.caches caches
  lists : ∀ c ∈ caches, OnLists k c (on c)

/-- Slot `i` of the slab `s` of `c` has been given back: its used bit is clear, all other used bits
are as before, no other slab has moved, and `s` is where allocations look for a slot. -/
structure Undone (k k' : Kernel) (caches : List Nat) (on : Nat → SlabList → List Nat)
    (c s i : Nat) : Prop where
  cleared : ¬ k'.IsUsed c s i
  slots : ∀ j < k.count c s, j ≠ i → (k'.IsUsed c s j ↔ k.IsUsed c s j)
  bitmaps : ∀ c' s' x, (c', s') ∈ k.added → s' ≠ s → k.InBitmap c' s' x → k'.mem x = k.mem x
  lists : ∃ on', Spelled k' caches on' ∧
    (∀ c' ∈ caches, ∀ w, (on' c' w).filter (· ≠ s) = (on c' w).filter (· ≠ s)) ∧
    s ∈ on' c .part ++ on' c .free

/-- The call returns, and gives that slot back. -/
def Undoes {α : Type} (free : Nat → KernelM α) (k : Kernel) (caches : List Nat)
    (on : Nat → SlabList → List Nat) (c s i : Nat) : Prop :=
  ∃ enough, ∀ fuel ≥ enough, ∃ r k', free fuel k = (.ok r, k') ∧ Undone k k' caches on c s i

section

variable {g g' : Shape} {k k' : Kernel} {c s i p : Nat}

/-! ## Who takes the address -/

theorem slotOf_objAddr (hpos : 0 < k.objSize c) (s i : Nat) :
    k.slotOf c s (k.objAddr c s i) = i := by
  unfold Kernel.slotOf Kernel.objAddr
  rw [Nat.add_sub_cancel_left, Nat.mul_div_cancel _ hpos]

/-- **Its own slab** gives the slot back. -/
theorem Took.undone (h : SlabInv g k) (hs : g.Has c s) (hi : i < k.count c s)
    (ht : Took g k c s (k.objAddr c s i) g' k') : Undone k k' g.caches g.on c s i := by
  have hmem := ht.mem
  rw [slotOf_objAddr (h.layout.fits c s hs).objSize] at hmem
  have hbitmap := ht.later.layout.bitmap hs
  refine ⟨?_, fun j _ hne => ?_, fun c' s' x hadd hne hx => ?_, g'.on, ?_, ?_, ?_⟩
  · unfold Kernel.IsUsed
    rw [hbitmap, hmem, not_not]
    exact usedBit_clear_self _ _ _
  · unfold Kernel.IsUsed
    rw [hbitmap, hmem, usedBit_clear_other _ _ hne.symm]
  · rw [hmem]
    refine clearUsedBit_other fun heq => hne ?_
    have hx' : k.InBitmap c s x := heq ▸ inBitmap_of_le (Nat.le_of_lt hi)
    exact h.bitmaps_unique ((h.caches.added c' s').mp hadd) hs hx hx'
  · rw [← ht.later.caches]
    exact ⟨ht.inv.lists.caches, ht.inv.lists.on⟩
  · exact fun c' _ w => ht.others c' w
  · obtain ⟨-, w, hw⟩ := ht.later.has c s hs
    cases w with
    | full => exact absurd hw ht.notFull
    | part => exact List.mem_append_left _ hw
    | free => exact List.mem_append_right _ hw

/-- **Another slab** leaves the object in use. -/
theorem Took.isUsed_other {c' s' : Nat} (h : SlabInv g k) (hs : g.Has c s)
    (hi : i < k.count c s) (hused : k.IsUsed c s i) (hs' : g.Has c' s') (hne : s' ≠ s)
    (ht : Took g k c' s' p g' k') : k'.IsUsed c s i := by
  refine (ht.later.layout.isUsed hs ?_).mpr hused
  rw [ht.mem]
  refine clearUsedBit_other fun heq => hne ?_
  have hx : k.InBitmap c' s' (k.bitmap c s + i / 8) := heq ▸ inBitmap_of_le ht.accepts.2
  exact h.bitmaps_unique hs' hs hx (inBitmap_of_le (Nat.le_of_lt hi))

/-- **The slot is given back** exactly if the first slab that accepts the address is its own. -/
theorem undoes_iff {α : Type} {free : Nat → KernelM α} {l : List (Nat × Nat)} (h : SlabInv g k)
    (hs : g.Has c s) (hi : i < k.count c s) (hused : k.IsUsed c s i)
    (hl : ∀ x ∈ l, g.Has x.1 x.2) (hreturns : ∃ enough, ∀ fuel ≥ enough, Returns (free fuel) k)
    (hfreed : ∀ fuel, Ensures (free fuel)
      (fun _ k' => Freed g k (k.objAddr c s i) l k') NoEmptySlab k) :
    Undoes free k g.caches g.on c s i ↔ k.taker (k.objAddr c s i) l = some (c, s) := by
  constructor
  · intro hgiven
    obtain ⟨enough, hcalls⟩ := hgiven
    obtain ⟨r, k', hcall, hundone⟩ := hcalls enough (Nat.le_refl _)
    rcases (hfreed enough).ok hcall with ⟨-, rfl⟩ | ⟨c', s', g', htaker, htook⟩
    · exact absurd hused hundone.cleared
    · have hs' := hl _ (List.mem_of_find?_eq_some htaker)
      by_cases hne : s' = s
      · subst hne
        rw [htaker, h.lists.owner c' c s' hs' hs]
      · exact absurd (htook.isUsed_other h hs hi hused hs' hne) hundone.cleared
  · intro hown
    obtain ⟨enough, hreturns⟩ := hreturns
    refine ⟨enough, fun fuel hfuel => ?_⟩
    obtain ⟨r, k', hcall⟩ := hreturns fuel hfuel
    refine ⟨r, k', hcall, ?_⟩
    rcases (hfreed fuel).ok hcall with ⟨hnone, -⟩ | ⟨c', s', g', htaker, htook⟩
    · exact absurd (hnone.symm.trans hown) (by simp)
    · obtain ⟨rfl, rfl⟩ := Prod.mk.inj (Option.some.inj (htaker.symm.trans hown))
      exact htook.undone h hs hi

/-! ## Frees return -/

theorem freeObjectFromSlab_returns (h : (k.cache c).descOnSlab = true ∨ (k.slab s).used ≠ 0)
    (p : Nat) : Returns (freeObjectFromSlab s (k.cache c).objSize p (k.cache c).flags) k := by
  have hused : (!onSlab (k.cache c).objSize (k.cache c).flags && (k.slab s).used == 0) = false := by
    rcases h with honslab | hne
    · rw [show onSlab (k.cache c).objSize (k.cache c).flags = true from honslab]
      rfl
    · rw [beq_false_of_ne hne, Bool.and_false]
  refine Returns.bind ⟨_, _, rfl⟩ fun d k1 hd => ?_
  obtain ⟨rfl, rfl⟩ := gets_ok.mp hd
  dsimp only
  split
  · exact ⟨_, _, rfl⟩
  split
  · exact ⟨_, _, rfl⟩
  rw [if_neg (by rw [hused]; exact Bool.false_ne_true)]
  exact ⟨_, _, rfl⟩

theorem freeScan_returns : ∀ {l : List Nat} {fuel cslab prev : Nat},
    IsList k.nextSlab 0 cslab l →
    (∀ s ∈ l, (k.cache c).descOnSlab = true ∨ (k.slab s).used ≠ 0) → l.length < fuel →
    Returns (freeScan c p fuel cslab prev) k := by
  intro l
  induction l with
  | nil =>
      intro fuel cslab prev hl _ hfuel
      obtain ⟨fuel, rfl⟩ := Nat.exists_add_one_eq.mpr (Nat.zero_lt_of_lt hfuel)
      rw [freeScan, if_pos (show cslab = 0 from hl)]
      exact ⟨_, _, rfl⟩
  | cons a l ih =>
      intro fuel cslab prev hl hbits hfuel
      obtain ⟨fuel, rfl⟩ := Nat.exists_add_one_eq.mpr (Nat.zero_lt_of_lt hfuel)
      obtain ⟨rfl, hne, hrest⟩ := hl
      rw [freeScan, if_neg hne]
      refine Returns.bind ⟨_, _, rfl⟩ fun ca k1 hca => ?_
      obtain ⟨rfl, rfl⟩ := gets_ok.mp hca
      have hslab := freeObjectFromSlab_returns (hbits cslab (by simp)) p
      refine Returns.bind hslab fun freed k2 hfreed => ?_
      rcases (freeObjectFromSlab_spec k c cslab p).ok hfreed with ⟨rfl, rfl, -⟩ | ⟨rfl, -⟩
      · rw [if_neg Bool.false_ne_true]
        refine Returns.bind ⟨_, _, rfl⟩ fun next k3 hnext => ?_
        obtain ⟨rfl, rfl⟩ := gets_ok.mp hnext
        refine ih hrest (fun s hs => hbits s (List.mem_cons_of_mem _ hs)) ?_
        rw [List.length_cons] at hfuel
        omega
      · rw [if_pos rfl]
        exact ⟨_, _, rfl⟩

theorem freeObjectFromCache_returns (h : SlabInv g k) (hc : c ∈ g.caches) {fuel : Nat}
    (hfuel : ∀ w, (g.on c w).length < fuel) : Returns (freeObjectFromCache fuel c p) k := by
  have hon := h.lists.on c hc
  have hbits : ∀ w, ∀ s ∈ g.on c w, (k.cache c).descOnSlab = true ∨ (k.slab s).used ≠ 0 :=
    fun w s hs => h.hasBits ⟨hc, w, hs⟩
  refine Returns.bind ⟨_, _, rfl⟩ fun ca k1 hca => ?_
  obtain ⟨rfl, rfl⟩ := gets_ok.mp hca
  refine Returns.bind (freeScan_returns (hon.links .full) (hbits .full) (hfuel .full))
    fun r k2 hr => ?_
  rcases (freeScan_spec (hon.links .full)).ok hr with ⟨rfl, rfl, -⟩ | ⟨_, s, _, -, rfl, -⟩
  · refine Returns.ite (fun _ => ⟨_, _, rfl⟩) fun _ => ?_
    refine Returns.bind (freeScan_returns (hon.links .part) (hbits .part) (hfuel .part))
      fun r k3 hr => ?_
    rcases (freeScan_spec (hon.links .part)).ok hr with ⟨rfl, rfl, -⟩ | ⟨_, s, _, hl, rfl, -, -, rfl⟩
    · exact ⟨_, _, rfl⟩
    · have hs := hbits .part s (by simp [hl])
      obtain ⟨b, hcall, -⟩ := isSlabFree_eq (k := k2.setMem
        (clearUsedBit k2.mem (k2.bitmap c s) (k2.slotOf c s p))) (s := s) hs
      refine Returns.bind ⟨b, _, hcall⟩ fun empty k4 _ => ?_
      dsimp only
      refine Returns.ite (fun _ => ?_) fun _ => ⟨_, _, rfl⟩
      exact Returns.bind ⟨_, _, partialToFree_eq _ _ _ _⟩ fun _ _ _ => ⟨_, _, rfl⟩
  · exact Returns.bind ⟨_, _, fullToPartial_eq _ _ _ _⟩ fun _ _ _ => ⟨_, _, rfl⟩

theorem freeInCaches_returns (h : SlabInv g k) (hp : g.Unheld k p) (searched : Cache → Bool)
    {fuel : Nat} : ∀ {l : List Nat} {n head : Nat}, IsList (fun c => (k.cache c).next) 0 head l →
    (∀ c ∈ l, c ∈ g.caches ∧ ∀ w, (g.on c w).length < fuel) → l.length < n →
    Returns (freeInCaches searched fuel p n head) k := by
  intro l
  induction l with
  | nil =>
      intro n head hl _ hn
      obtain ⟨n, rfl⟩ := Nat.exists_add_one_eq.mpr (Nat.zero_lt_of_lt hn)
      rw [freeInCaches, if_pos (show head = 0 from hl)]
      exact ⟨_, _, rfl⟩
  | cons a l ih =>
      intro n head hl hsub hn
      obtain ⟨n, rfl⟩ := Nat.exists_add_one_eq.mpr (Nat.zero_lt_of_lt hn)
      obtain ⟨rfl, hne, hrest⟩ := hl
      obtain ⟨hc, hfuel⟩ := hsub head (by simp)
      rw [List.length_cons] at hn
      have hgoOn := ih hrest (fun c hc => hsub c (List.mem_cons_of_mem _ hc))
        (Nat.lt_of_succ_lt_succ hn)
      rw [freeInCaches, if_neg hne]
      refine Returns.bind ⟨_, _, rfl⟩ fun ca k1 hca => ?_
      obtain ⟨rfl, rfl⟩ := gets_ok.mp hca
      by_cases hsearched : searched (k.cache head)
      · rw [if_pos hsearched]
        refine Returns.bind (freeObjectFromCache_returns h hc hfuel) fun freed k2 hfreed => ?_
        cases freed with
        | true => exact ⟨_, _, rfl⟩
        | false =>
            obtain rfl := ((freeObjectFromCache_spec h hc (hp head) fuel).ok hfreed).1 rfl
            exact Returns.bind ⟨_, _, rfl⟩ fun next k3 hnext => by
              obtain ⟨rfl, rfl⟩ := gets_ok.mp hnext
              exact hgoOn
      · rw [if_neg hsearched]
        refine Returns.bind ⟨_, _, rfl⟩ fun freed k2 hfreed => ?_
        obtain ⟨rfl, rfl⟩ := pure_ok.mp hfreed
        beta_reduce
        rw [if_neg Bool.false_ne_true]
        refine Returns.bind ⟨_, _, rfl⟩ fun next k3 hnext => ?_
        obtain ⟨rfl, rfl⟩ := gets_ok.mp hnext
        exact hgoOn

/-- So much fuel is enough for all lists. -/
theorem exists_enough (caches : List Nat) (on : Nat → SlabList → List Nat) :
    ∃ enough, ∀ fuel ≥ enough, caches.length < fuel ∧
      ∀ c ∈ caches, ∀ w, (on c w).length < fuel := by
  refine ⟨caches.length + (caches.toFinset.sup fun c =>
    (on c .full).length + (on c .part).length + (on c .free).length) + 1, fun fuel hfuel => ?_⟩
  refine ⟨by omega, fun c hc w => ?_⟩
  have hle := Finset.le_sup (f := fun c =>
    (on c .full).length + (on c .part).length + (on c .free).length) (List.mem_toFinset.mpr hc)
  cases w <;> omega

end

/-! ## Live objects -/

namespace Clients

/-- The object is in slot `i` of the slab `s` of its cache. -/
structure InSlot (k : Kernel) (x : Live) (caches : List Nat) (on : Nat → SlabList → List Nat)
    (s i : Nat) : Prop where
  spelled : Spelled k caches on
  added : (x.cache, s) ∈ k.added
  slot : i < k.count x.cache s
  addr : k.objAddr x.cache s i = x.addr

/-- The frees that go with how the object was got give it back exactly if, of the slabs each asks,
the object's own is the first that accepts the address. -/
def UndoneIff (k : Kernel) (x : Live) : Prop :=
  ∃ caches on s i, InSlot k x caches on s i ∧
    (x.origin = .allocObjectFromCache →
      (Undoes (fun fuel => freeObjectFromCache fuel x.cache x.addr) k caches on x.cache s i ↔
        k.taker x.addr (askedIn x.cache (on x.cache)) = some (x.cache, s))) ∧
    ∀ n, x.origin = .kmalloc n →
      (Undoes (fun fuel => kfree fuel x.addr) k caches on x.cache s i ↔
        k.taker x.addr (asked k Cache.kmallocs caches on) = some (x.cache, s)) ∧
      (Undoes (fun fuel => kfreeHint fuel x.addr n) k caches on x.cache s i ↔
        k.taker x.addr (asked k (fun ca => n ≤ ca.objSize) caches on) = some (x.cache, s))

section

variable {env : Env} {g : Shape} {w : World} {x : Live}

/-- Where a live object is, with a shape in which nothing relies on it any more. -/
theorem exists_slot (hw : Run env Legal w) (hx : x ∈ w.live) :
    ∃ g s i, SlabInv g w.kernel ∧ g.Has x.cache s ∧ i < w.kernel.count x.cache s ∧
      w.kernel.IsUsed x.cache s i ∧ w.kernel.objAddr x.cache s i = x.addr ∧
      g.Unheld w.kernel x.addr := by
  obtain ⟨g, h⟩ := holding_of_run hw
  obtain ⟨s, i, hs, hr, haddr⟩ := h.held x hx
  obtain ⟨c, hs', hi, hused⟩ := h.inv.uses.used s i _ hr
  obtain rfl := h.inv.lists.owner c x.cache s hs' hs
  obtain ⟨g1, h1, hun⟩ := h.without hx
  have hs1 : g1.Has x.cache s := (h1.inv.caches.added _ s).mp ((h.inv.caches.added _ s).mpr hs)
  exact ⟨g1, s, i, h1.inv, hs1, hi, hused, haddr, hun⟩

/-- All slabs that are asked are slabs of the caches. -/
theorem has_of_askedIn {c : Nat} (hc : c ∈ g.caches) {y : Nat × Nat}
    (hy : y ∈ askedIn c (g.on c)) : g.Has y.1 y.2 := by
  obtain ⟨s, hs, rfl⟩ := List.mem_map.mp hy
  rcases List.mem_append.mp hs with hs | hs
  · exact ⟨hc, .full, hs⟩
  · exact ⟨hc, .part, hs⟩

theorem has_of_asked {k : Kernel} {searched : Cache → Bool} {y : Nat × Nat}
    (hy : y ∈ asked k searched g.caches g.on) : g.Has y.1 y.2 := by
  obtain ⟨c, hc, hy⟩ := List.mem_flatMap.mp hy
  exact has_of_askedIn (List.mem_of_mem_filter hc) hy

/-- **Free undoes alloc** exactly if the object's own slab takes the address, in every legal run. -/
theorem free_undoes_iff (hw : Run env Legal w) (hx : x ∈ w.live) : UndoneIff w.kernel x := by
  obtain ⟨g, s, i, h, hs, hi, hused, haddr, hun⟩ := exists_slot hw hx
  obtain ⟨enough, hfuel⟩ := exists_enough g.caches g.on
  refine ⟨g.caches, g.on, s, i, ⟨⟨h.lists.caches, h.lists.on⟩, (h.caches.added _ s).mpr hs, hi,
    haddr⟩, fun _ => ?_, fun n _ => ⟨?_, ?_⟩⟩
  all_goals rw [← haddr] at hun ⊢
  · refine undoes_iff h hs hi hused (fun y hy => has_of_askedIn hs.1 hy) ?_ fun fuel => ?_
    · exact ⟨enough, fun fuel hge =>
        freeObjectFromCache_returns h hs.1 ((hfuel fuel hge).2 _ hs.1)⟩
    · exact (freeObjectFromCache_freed h hs.1 (hun _) fuel).imp fun _ _ hk => hk.1
  · refine undoes_iff h hs hi hused (fun y hy => has_of_asked hy) ?_ fun fuel =>
      kfree_freed h hun fuel
    refine ⟨enough, fun fuel hge => Returns.bind ⟨_, _, rfl⟩ fun head k1 hhead => ?_⟩
    obtain ⟨rfl, rfl⟩ := gets_ok.mp hhead
    exact freeInCaches_returns h hun _ h.lists.caches
      (fun c hc => ⟨hc, (hfuel fuel hge).2 c hc⟩) (hfuel fuel hge).1
  · refine undoes_iff h hs hi hused (fun y hy => has_of_asked hy) ?_ fun fuel =>
      kfreeHint_freed h hun fuel n
    refine ⟨enough, fun fuel hge => Returns.bind ⟨_, _, rfl⟩ fun head k1 hhead => ?_⟩
    obtain ⟨rfl, rfl⟩ := gets_ok.mp hhead
    exact freeInCaches_returns h hun _ h.lists.caches
      (fun c hc => ⟨hc, (hfuel fuel hge).2 c hc⟩) (hfuel fuel hge).1

end

/-- Eight bytes from `kmalloc`. -/
theorem free_undoes_iff_bytes : ∃ w x, Run quietEnv Legal w ∧ x ∈ w.live ∧ UndoneIff w.kernel x := by
  obtain ⟨w, hrun, -, hl⟩ := run_bytesGiven
  have hx : ⟨0xe4004054, 0xe400013c, .kmalloc 8⟩ ∈ w.live := by simp [hl]
  exact ⟨w, _, hrun, hx, free_undoes_iff hrun hx⟩

/-! ## The place behind the last slot -/

/-- Two bytes, 512 and 256 from `kmalloc`: the last object starts the page behind the slab of the
one before. -/
def pairGiven : Kernel := ((Op.kmalloc 2).run quietEnv 200 startedKernel).2
def halfGiven : Kernel := ((Op.kmalloc 512).run quietEnv 200 pairGiven).2
def quarterGiven : Kernel := ((Op.kmalloc 256).run quietEnv 200 halfGiven).2

theorem run_quarterGiven : ∃ w, Run quietEnv Legal w ∧ w.kernel = quarterGiven ∧
    ⟨0xe4006000, 0xe4000254, .kmalloc 256⟩ ∈ w.live := by
  obtain ⟨w, hrun, hw, -⟩ := reached_started Legal
  have hcall1 : ((Op.kmalloc 2).run quietEnv 200 startedKernel).1 = .ok 0xe4004114 := by
    decide +kernel
  have hop1 : Legal w (.kmalloc 2) := trivial
  obtain ⟨w1, hrun1, hw1, -⟩ := hrun.reaches hw hop1 hcall1
  have hcall2 : ((Op.kmalloc 512).run quietEnv 200 pairGiven).1 = .ok 0xe4005000 := by
    decide +kernel
  have hop2 : Legal w1 (.kmalloc 512) := trivial
  obtain ⟨w2, hrun2, hw2, -⟩ := hrun1.reaches hw1 hop2 hcall2
  have hcall3 : ((Op.kmalloc 256).run quietEnv 200 halfGiven).1 = .ok 0xe4006000 := by
    decide +kernel
  have hop3 : Legal w2 (.kmalloc 256) := trivial
  obtain ⟨w3, hrun3, hw3, hl3⟩ := hrun2.reaches hw2 hop3 hcall3
  have hcache : bestFitCache halfGiven 256 200 halfGiven.caches 0 = some 0xe4000254 := by
    decide +kernel
  have hw2' : w2.kernel = halfGiven := hw2
  refine ⟨w3, hrun3, hw3, ?_⟩
  rw [hl3, Op.held, World.with, if_neg (by omega), hw2', hcache]
  exact List.mem_cons_self

/-- The slab of 512 byte objects is asked first, and accepts the address. -/
theorem taker_quarterGiven {g : Shape} (h : SlabInv g quarterGiven) :
    quarterGiven.taker 0xe4006000 (asked quarterGiven Cache.kmallocs g.caches g.on) =
      some (0xe4000270, 0xe4001044) := by
  have hhead : quarterGiven.caches = 0xe4000270 := by decide +kernel
  have hkmallocs : (quarterGiven.cache 0xe4000270).kmallocs = true := by decide +kernel
  have hfull : (quarterGiven.cache 0xe4000270).fullSlabs = 0 := by decide +kernel
  have hpart : (quarterGiven.cache 0xe4000270).partialSlabs = 0xe4001044 := by decide +kernel
  have haccepts : quarterGiven.Accepts 0xe4000270 0xe4001044 0xe4006000 := by decide +kernel
  have hcaches := h.lists.caches
  rw [hhead] at hcaches
  cases hl : g.caches with
  | nil =>
      rw [hl] at hcaches
      exact absurd hcaches (show ¬ 0xe4000270 = 0 by omega)
  | cons c l =>
      rw [hl] at hcaches
      obtain rfl : 0xe4000270 = c := hcaches.1
      have hon := h.lists.on 0xe4000270 (by simp [hl])
      have hnil : g.on 0xe4000270 .full = [] := (hon.links .full).eq_nil_iff.mpr hfull
      have hlinks := hon.links .part
      rw [show (quarterGiven.cache 0xe4000270).head .part = 0xe4001044 from hpart] at hlinks
      rw [asked_cons, if_pos hkmallocs, taker_append]
      cases hp : g.on 0xe4000270 .part with
      | nil =>
          rw [hp] at hlinks
          exact absurd hlinks (show ¬ 0xe4001044 = 0 by omega)
      | cons s rest =>
          rw [hp] at hlinks
          obtain rfl : 0xe4001044 = s := hlinks.1
          have hfirst : quarterGiven.taker 0xe4006000
              (([] ++ 0xe4001044 :: rest).map (Prod.mk 0xe4000270)) =
                some (0xe4000270, 0xe4001044) :=
            taker_some (fun x hx => absurd hx List.not_mem_nil) haccepts
          unfold askedIn
          rw [hnil, hp, hfirst]
          rfl

/-- **`kfree` misses the slab**, and the object stays in use. -/
theorem kfree_otherSlab : ¬ ∀ (env : Env) (w : World) (x : Live) (n : Nat), Run env Legal w →
    x ∈ w.live → x.origin = .kmalloc n → ∃ caches on s i, InSlot w.kernel x caches on s i ∧
      Undoes (fun fuel => kfree fuel x.addr) w.kernel caches on x.cache s i := by
  intro hall
  obtain ⟨w, hrun, hw, hx⟩ := run_quarterGiven
  obtain ⟨_, _, s', i', hin, hundoes⟩ := hall quietEnv w _ 256 hrun hx rfl
  obtain ⟨enough, hcalls⟩ := hundoes
  obtain ⟨r, k', hcall, hundone⟩ := hcalls enough (Nat.le_refl _)
  obtain ⟨g, s, i, h, hs, hi, hused, haddr, hun⟩ := exists_slot hrun hx
  -- it is the same slot
  have hs' : g.Has 0xe4000254 s' := (h.caches.added _ s').mp hin.added
  have hself := h.layout.inObject_self (i := i) hs
  have hself' := h.layout.inObject_self (i := i') hs'
  rw [haddr] at hself
  rw [hin.addr] at hself'
  obtain ⟨rfl, rfl⟩ := h.objects_unique hs hs' hi hin.slot hself hself'
  have htaker := taker_quarterGiven (hw ▸ h)
  rw [← hw] at htaker
  rcases (kfree_freed h hun enough).ok hcall with ⟨hnone, -⟩ | ⟨c, t, g', hown, htook⟩
  · exact absurd (hnone.symm.trans htaker) (by simp)
  · obtain ⟨rfl, rfl⟩ := Prod.mk.inj (Option.some.inj (hown.symm.trans htaker))
    have ht := has_of_asked (List.mem_of_find?_eq_some hown)
    refine hundone.cleared (htook.isUsed_other h hs hi hused ht fun heq => ?_)
    have howner := h.lists.owner _ _ s hs (heq ▸ ht)
    exact absurd howner (show ¬ 0xe4000254 = 0xe4000270 by omega)

end Clients

end OSExt.Memory
