import OSExt.Memory.SlabStart

/-!
# Runs of the slab allocator

Clients create caches, allocate, free and write, in any order, from the state
`initSlabAllocator` leaves. A world is the kernel's state with the objects the
clients hold. What a client may do is a parameter of the runs: only free what it
holds, or free any address the allocator does not itself depend on.

**Live objects are disjoint**, each on one slab of its cache, and off every used
bit. **Every slab is on one list of its cache**, once, and those on a full list
have no free slot.
-/

namespace OSExt.Memory.Clients

open Lib

/-- How a client got an object. -/
inductive Origin where
  | allocObjectFromCache
  | kmalloc (size : Nat)
deriving DecidableEq

/-- An object a client holds, with the cache it is from. -/
structure Live where
  addr : Nat
  cache : Nat
  origin : Origin

structure World where
  kernel : Kernel
  live : List Live

/-- What clients do. -/
inductive Op where
  | createCache (objSize alignment : Nat) (flags : BitVec 16)
  | allocObjectFromCache (c : Nat)
  | freeObjectFromCache (c p : Nat)
  | kmalloc (size : Nat)
  | kfree (p : Nat)
  | kfreeHint (p size : Nat)
  /-- the memory after a client wrote to it -/
  | write (mem : Nat → Byte)

/-- The objects held once `p` is freed. -/
def World.without (w : World) (p : Nat) : List Live := w.live.filter (fun x => x.addr ≠ p)

/-- The objects held once `p` is got, which may be NULL. -/
def World.with (w : World) (p c : Nat) (origin : Origin) : List Live :=
  if p = 0 then w.live else ⟨p, c, origin⟩ :: w.live

/-- The call; those that return nothing give 0. -/
def Op.run (env : Env) (fuel : Nat) : Op → KernelM Nat
  | .createCache objSize alignment flags =>
    Memory.createCache (slabCalls env fuel) objSize alignment flags
  | .allocObjectFromCache c => (slabCalls env fuel).allocObjectFromCache c
  | .freeObjectFromCache c p => do
    let _ ← (slabCalls env fuel).freeObjectFromCache c p
    pure 0
  | .kmalloc size => Memory.kmalloc (slabCalls env fuel).allocObjectFromCache fuel size
  | .kfree p => do
    Memory.kfree fuel p
    pure 0
  | .kfreeHint p size => do
    Memory.kfreeHint fuel p size
    pure 0
  | .write mem => do
    update (fun k => k.setMem mem)
    pure 0

/-- The objects held once the call has returned `r`. -/
def Op.held (fuel : Nat) (w : World) (r : Nat) : Op → List Live
  | .createCache _ _ _ | .write _ => w.live
  | .allocObjectFromCache c => w.with r c .allocObjectFromCache
  | .kmalloc size =>
    w.with r ((bestFitCache w.kernel size fuel w.kernel.caches 0).getD 0) (.kmalloc size)
  | .freeObjectFromCache _ p | .kfree p | .kfreeHint p _ => w.without p

/--
The worlds reached from `initSlabAllocator` by calls that `P` allows, each with
as much fuel as it needs to return.
-/
inductive Run (env : Env) (P : World → Op → Prop) : World → Prop
  | start {k0 k : Kernel} {fuel : Nat} : Pristine k0 →
      initSlabAllocator env fuel k0 = (.ok true, k) → Run env P ⟨k, []⟩
  | step {w : World} {op : Op} {fuel r : Nat} {k : Kernel} : Run env P w → P w op →
      op.run env fuel w.kernel = (.ok r, k) → Run env P ⟨k, op.held fuel w r⟩

/-! ## What clients may do -/

/-- `c` is on the list of caches. -/
def IsCache (k : Kernel) (c : Nat) : Prop := Linked (fun c => (k.cache c).next) 0 c k.caches

theorem isCache_head {k : Kernel} {c : Nat} (h : k.caches = c) (hc : c ≠ 0) : IsCache k c := by
  subst h
  exact .here hc

theorem isCache_iterate {k : Kernel} {c : Nat} (n : Nat)
    (hwalk : (fun c => (k.cache c).next)^[n] k.caches = c)
    (hne : ∀ i ≤ n, (fun c => (k.cache c).next)^[i] k.caches ≠ 0) : IsCache k c := by
  unfold IsCache
  rw [← hwalk]
  exact linked_iterate hne

/-- The byte `b` is in the object. -/
def Live.Covers (x : Live) (k : Kernel) (b : Nat) : Prop :=
  x.addr ≤ b ∧ b < x.addr + k.objSize x.cache

theorem Live.covers_of {x : Live} {k : Kernel} {b n : Nat} (h : k.objSize x.cache = n)
    (hb : x.addr ≤ b ∧ b < x.addr + n) : x.Covers k b := by
  refine ⟨hb.1, ?_⟩
  rw [h]
  exact hb.2

/-- A client frees what it holds and writes to what it holds. -/
def Legal (w : World) : Op → Prop
  | .createCache objSize _ _ => 0 < objSize
  | .allocObjectFromCache c => IsCache w.kernel c
  | .freeObjectFromCache c p => IsCache w.kernel c ∧ ∃ x ∈ w.live, x.addr = p
  | .kmalloc _ => True
  | .kfree p | .kfreeHint p _ => ∃ x ∈ w.live, x.addr = p
  | .write mem => ∃ x ∈ w.live, ∀ b, ¬ x.Covers w.kernel b → mem b = w.kernel.mem b

/-- The address is in no object of the cache `c` that the allocator itself depends on. -/
def NotOwnedIn (k : Kernel) (c p : Nat) : Prop :=
  ∀ s i, (c, s) ∈ k.added → k.Owned (k.objAddr c s i) → ¬ k.InObject c s i p

/-- A client frees any address but the allocator's own, and writes to no used bits. -/
def Harmless (w : World) : Op → Prop
  | .createCache objSize _ _ => 0 < objSize
  | .allocObjectFromCache c => IsCache w.kernel c
  | .freeObjectFromCache c p => IsCache w.kernel c ∧ NotOwnedIn w.kernel c p
  | .kmalloc _ => True
  | .kfree p | .kfreeHint p _ => ∀ c, NotOwnedIn w.kernel c p
  | .write mem => ∀ c s b, (c, s) ∈ w.kernel.added → w.kernel.InBitmap c s b →
      mem b = w.kernel.mem b

/-! ## Clients hold objects of the shape -/

/-- The clients' objects are different ones, all kept for a client. -/
structure Holding (g : Shape) (w : World) : Prop where
  inv : SlabInv g w.kernel
  held : ∀ x ∈ w.live, ∃ s i, g.Has x.cache s ∧ g.role s i = some .client ∧
    w.kernel.objAddr x.cache s i = x.addr
  nodup : (w.live.map Live.addr).Nodup

section

variable {g g' : Shape} {w : World} {k : Kernel}

theorem isCache_iff (h : SlabInv g k) {c : Nat} : IsCache k c ↔ c ∈ g.caches :=
  linked_iff h.lists.caches

/-- Calls that leave what clients rely on. -/
theorem Holding.keeps (h : Holding g w) (hinv : SlabInv g' k)
    (hk : KeepsClients g w.kernel g' k) : Holding g' { w with kernel := k } := by
  refine ⟨hinv, fun x hx => ?_, h.nodup⟩
  obtain ⟨s, i, hs, hr, haddr⟩ := h.held x hx
  exact ⟨s, i, hk.has _ s hs, hk.role s i hr, (hk.layout.objAddr hs i).trans haddr⟩

/-- **Allocations**: the new object is none that is held. -/
theorem Holding.gives (h : Holding g w) {c p : Nat} (hg : Gives g w.kernel c p g' k)
    (origin : Origin) : Holding g' ⟨k, w.with p c origin⟩ := by
  have hkept := h.keeps hg.inv hg.later.keepsClients
  obtain ⟨s, i, hs, haddr, hr, hnew⟩ := hg.object
  unfold World.with
  rw [if_neg hg.ne_zero]
  refine ⟨hg.inv, fun x hx => ?_, List.nodup_cons.mpr ⟨fun hp => ?_, h.nodup⟩⟩
  · rcases List.mem_cons.mp hx with rfl | hx
    · exact ⟨s, i, hs, hr, haddr⟩
    · exact hkept.held x hx
  · -- at one address there is one object, and this one was no client's before
    obtain ⟨x, hx, hxp⟩ := List.mem_map.mp hp
    obtain ⟨s', i', hs', hr', haddr'⟩ := h.held x hx
    have hs2 := hg.later.has _ s' hs'
    have haddr2 : k.objAddr x.cache s' i' = p := by
      rw [hg.later.layout.objAddr hs', haddr', hxp]
    have hx' : k.InObject x.cache s' i' p := haddr2 ▸ hg.inv.layout.inObject_self hs2
    have hx : k.InObject c s i p := haddr ▸ hg.inv.layout.inObject_self hs
    have hi' := hg.inv.role_count hs2 (hg.later.role s' i' _ hr' (by simp))
    obtain ⟨rfl, rfl⟩ := hg.inv.objects_unique hs hs2 (hg.inv.role_count hs hr) hi' hx hx'
    exact hnew hr'

/-- **Frees**: an object that is given up is in no one's way. -/
theorem Holding.without (h : Holding g w) {x : Live} (hx : x ∈ w.live) :
    ∃ g', Holding g' ⟨w.kernel, w.without x.addr⟩ ∧ g'.Unheld w.kernel x.addr := by
  obtain ⟨s, i, hs, hr, haddr⟩ := h.held x hx
  have hin : w.kernel.InObject x.cache s i x.addr := haddr ▸ h.inv.layout.inObject_self hs
  have hi := h.inv.role_count hs hr
  refine ⟨g.setRole s i none, ⟨h.inv.setRole hs hr (by simp) (h.inv.not_owned hs hr), ?_, ?_⟩, ?_⟩
  · intro y hy
    obtain ⟨hy, hne⟩ := List.mem_filter.mp hy
    obtain ⟨s', i', hs', hr', haddr'⟩ := h.held y hy
    refine ⟨s', i', hs', (g.setRole_other none ?_).trans hr', haddr'⟩
    intro hgiven
    obtain ⟨rfl, rfl⟩ := hgiven
    obtain hc := h.inv.lists.owner _ _ s' hs hs'
    rw [← haddr, ← haddr', hc] at hne
    simp at hne
  · exact h.nodup.sublist (List.filter_sublist.map _)
  · intro c s' i' r hs' hr' hin'
    have hsame : ¬ (s' = s ∧ i' = i) := by
      intro hgiven
      obtain ⟨rfl, rfl⟩ := hgiven
      rw [g.setRole_self] at hr'
      exact absurd hr' (by simp)
    rw [g.setRole_other none hsame] at hr'
    obtain ⟨rfl, rfl⟩ := h.inv.objects_unique hs' hs (h.inv.role_count hs' hr') hi hin' hin
    exact hsame ⟨rfl, rfl⟩

/-- **Writes** into an object that is held. -/
theorem Holding.write (h : Holding g w) {x : Live} (hx : x ∈ w.live) {mem : Nat → Byte}
    (hmem : ∀ b, ¬ x.Covers w.kernel b → mem b = w.kernel.mem b) :
    Holding g { w with kernel := w.kernel.setMem mem } := by
  have hinv : SlabInv g (w.kernel.setMem mem) := by
    refine h.inv.setMem fun c s b hs hb => hmem b fun hcov => ?_
    obtain ⟨s', i', hs', hr', haddr'⟩ := h.held x hx
    have hin : w.kernel.InObject x.cache s' i' b := by
      unfold Kernel.InObject
      rw [haddr']
      exact hcov
    exact absurd (h.inv.role_of_inBitmap hs' hr' hs hin hb) (by simp)
  exact h.keeps hinv (Later.setMem g _ mem rfl rfl fun _ _ _ hr _ => hr).keepsClients

end

/-! ## Runs of legal calls -/

section

variable {env : Env} {g : Shape} {w : World}

/-- A free of an object that is held, by whichever call. -/
theorem Holding.freed (h : Holding g w) {p : Nat} (hp : ∃ x ∈ w.live, x.addr = p)
    {α : Type} {free : KernelM α}
    (hfree : ∀ g, SlabInv g w.kernel → g.Unheld w.kernel p →
      Ensures free (fun _ k' => ∃ g', SlabInv g' k' ∧ Later g w.kernel g' k' ∧ g'.role = g.role)
        NoEmptySlab w.kernel) :
    Ensures free (fun _ k => ∃ g', Holding g' ⟨k, w.without p⟩) NoEmptySlab w.kernel := by
  obtain ⟨x, hx, rfl⟩ := hp
  obtain ⟨g1, h1, hun⟩ := h.without hx
  refine (hfree g1 h1.inv hun).imp fun _ k hk => ?_
  obtain ⟨g2, h2, hlater, _⟩ := hk
  exact ⟨g2, h1.keeps h2 hlater.keepsClients⟩

/-- **One call** keeps what clients hold. -/
theorem Holding.step (h : Holding g w) (fuel : Nat) {op : Op} (hop : Legal w op) :
    Ensures (op.run env fuel) (fun r k => ∃ g', Holding g' ⟨k, op.held fuel w r⟩) NoEmptySlab
      w.kernel := by
  cases op with
  | createCache objSize alignment flags =>
      refine (createCache_spec (slabCalls_ok env fuel) h.inv hop alignment flags).imp
        fun p k hk => ?_
      obtain ⟨g', hinv, hkeep, _⟩ := hk
      exact ⟨g', h.keeps hinv hkeep⟩
  | allocObjectFromCache c =>
      have hc := (isCache_iff h.inv).mp hop
      refine ((slabCalls_ok env fuel).alloc g _ c h.inv hc).imp fun p k hk => ?_
      obtain ⟨g', hg⟩ := hk
      exact ⟨g', h.gives hg _⟩
  | freeObjectFromCache c p =>
      rw [Op.run, ensures_bind]
      refine h.freed hop.2 fun g hinv hun => ?_
      have hc := (isCache_iff hinv).mp hop.1
      exact ((slabCalls_ok env fuel).free g _ c p hinv hc hun).imp fun _ _ hb => hb.2
  | kmalloc size =>
      refine (kmalloc_spec (slabCalls_ok env fuel).alloc h.inv fuel size).imp fun p k hk => ?_
      rcases hk with ⟨rfl, rfl⟩ | ⟨c, g', hbest, _, _, hg⟩
      · exact ⟨g, h⟩
      · rw [Op.held, hbest]
        exact ⟨g', h.gives hg _⟩
  | kfree p =>
      rw [Op.run, ensures_bind]
      exact h.freed hop fun _ hinv hun => kfree_spec hinv hun fuel
  | kfreeHint p size =>
      rw [Op.run, ensures_bind]
      exact h.freed hop fun _ hinv hun => kfreeHint_spec hinv hun fuel size
  | write mem =>
      obtain ⟨x, hx, hmem⟩ := hop
      rw [Op.run, ensures_bind, ensures_update]
      exact ⟨g, h.write hx hmem⟩

/-- **Every legal run** keeps it. -/
theorem holding_of_run (hw : Run env Legal w) : ∃ g, Holding g w := by
  induction hw with
  | start hk hboot =>
      obtain ⟨g, hinv, _⟩ := (initSlabAllocator_spec env _ hk).ok hboot rfl
      exact ⟨g, hinv, fun x hx => absurd hx List.not_mem_nil, List.nodup_nil⟩
  | step _ hop hr ih =>
      obtain ⟨g, h⟩ := ih
      exact (h.step _ hop).ok hr

/-! ## Live objects are disjoint -/

/-- What holds of the clients' objects. -/
structure Exclusive (w : World) : Prop where
  /-- no two share a byte -/
  apart : w.live.Pairwise fun x y => ∀ b, ¬ (x.Covers w.kernel b ∧ y.Covers w.kernel b)
  /-- each is in the pages of one slab of its cache, off an on-slab descriptor -/
  inSlab : ∀ x ∈ w.live, ∃ s, (x.cache, s) ∈ w.kernel.added ∧
    ∀ b, x.Covers w.kernel b → w.kernel.InSlab s b ∧
      ((w.kernel.cache x.cache).descOnSlab = true → ¬ (s ≤ b ∧ b < s + sizeofSlabDesc))
  /-- and off all used bits -/
  bitmaps : ∀ x ∈ w.live, ∀ c s, (c, s) ∈ w.kernel.added →
    ∀ b, x.Covers w.kernel b → ¬ w.kernel.InBitmap c s b

theorem Holding.exclusive (h : Holding g w) : Exclusive w := by
  have hcov : ∀ x ∈ w.live, ∃ s i, g.Has x.cache s ∧ g.role s i = some .client ∧
      w.kernel.objAddr x.cache s i = x.addr ∧
      ∀ b, x.Covers w.kernel b → w.kernel.InObject x.cache s i b := by
    intro x hx
    obtain ⟨s, i, hs, hr, haddr⟩ := h.held x hx
    refine ⟨s, i, hs, hr, haddr, fun b hb => ?_⟩
    unfold Kernel.InObject
    rw [haddr]
    exact hb
  refine ⟨?_, fun x hx => ?_, fun x hx c s hadd b hb hbits => ?_⟩
  · -- different addresses, so different slots
    have hne : w.live.Pairwise fun x y => x.addr ≠ y.addr := List.pairwise_map.mp h.nodup
    refine hne.imp_of_mem fun hx hy hxy b hb => hxy ?_
    obtain ⟨s, i, hs, hr, haddr, hin⟩ := hcov _ hx
    obtain ⟨s', i', hs', hr', haddr', hin'⟩ := hcov _ hy
    obtain ⟨rfl, rfl⟩ := h.inv.objects_unique hs hs' (h.inv.role_count hs hr)
      (h.inv.role_count hs' hr') (hin b hb.1) (hin' b hb.2)
    rw [← haddr, ← haddr', h.inv.lists.owner _ _ s hs hs']
  · obtain ⟨s, i, hs, hr, _, hin⟩ := hcov x hx
    refine ⟨s, (h.inv.caches.added _ s).mpr hs, fun b hb => ?_⟩
    obtain ⟨hbase, hpages⟩ := h.inv.layout.object_inSlab hs (h.inv.role_count hs hr) (hin b hb)
    refine ⟨hpages, fun hon hdesc => ?_⟩
    have hstart := h.inv.layout.onSlab _ s hs hon
    have hhead := bitmap_le_base (d := w.kernel.slab s) hon
    unfold Kernel.base at hbase
    unfold sizeofSlabDesc at hdesc
    omega
  · obtain ⟨s', i, hs', hr, _, hin⟩ := hcov x hx
    have hs := (h.inv.caches.added c s).mp hadd
    exact absurd (h.inv.role_of_inBitmap hs' hr hs (hin b hb) hbits) (by simp)

/-- **Slab exclusivity**, in every legal run. -/
theorem live_exclusive (hw : Run env Legal w) : Exclusive w := by
  obtain ⟨g, h⟩ := holding_of_run hw
  exact h.exclusive

/-- Nothing answers past the translation table, and `ti_malloc` has one region to give. -/
def quietEnv : Env := ⟨fun _ _ => .other, fun _ => 0x1000⟩

/-- A machine with one block of pages and nothing on the heap. -/
def bareKernel : Kernel where
  cpsr := 0
  mem _ := 0
  slab _ := default
  cache _ := default
  caches := 0
  slabCache := 0
  cacheCache := 0
  linkedlistCache := 0
  cptCache := 0
  kernelHeapNextPage := 0
  pages := [⟨0x10000, 0x10000, 100, 0, 0, 0, 0, 0, 0⟩]
  space := ⟨fun _ => 0, [], [], fun _ => 0, []⟩
  strays := []
  added := []
  arrays := []
  grown := []
  scanned := []

/-- What a call leaves, once it is known to return. -/
theorem run_eq {α : Type} {x : KernelM α} {k : Kernel} {a : α} (h : (x k).1 = .ok a) :
    x k = (.ok a, (x k).2) := Prod.ext h rfl

/-- One more call that returns. -/
theorem Run.call {env : Env} {P : World → Op → Prop} {w : World} (hw : Run env P w) (op : Op)
    (fuel : Nat) {r : Nat} (hop : P w op) (h : (op.run env fuel w.kernel).1 = .ok r) :
    Run env P ⟨(op.run env fuel w.kernel).2, op.held fuel w r⟩ := hw.step hop (run_eq h)

/-- The same by the state the call leaves. -/
theorem Run.reaches {env : Env} {P : World → Op → Prop} {w : World} {k : Kernel} {op : Op}
    {fuel r : Nat} (hw : Run env P w) (hk : w.kernel = k) (hop : P w op)
    (h : (op.run env fuel k).1 = .ok r) :
    ∃ w', Run env P w' ∧ w'.kernel = (op.run env fuel k).2 ∧ w'.live = op.held fuel w r := by
  subst hk
  exact ⟨_, hw.call op fuel hop h, rfl, rfl⟩

/-- The state after `initSlabAllocator`, on the bare machine. -/
def startedKernel : Kernel := (initSlabAllocator quietEnv 200 bareKernel).2

theorem run_started (P : World → Op → Prop) : Run quietEnv P ⟨startedKernel, []⟩ :=
  .start ⟨rfl, rfl, rfl, rfl⟩ (run_eq (by decide +kernel))

theorem reached_started (P : World → Op → Prop) :
    ∃ w, Run quietEnv P w ∧ w.kernel = startedKernel ∧ w.live = [] :=
  ⟨⟨startedKernel, []⟩, run_started P, by dsimp only, by dsimp only⟩

/-- Two bytes from `kmalloc`, side by side. -/
theorem live_exclusive_two : ∃ w, Run quietEnv Legal w ∧
    w.live.map Live.addr = [0xe4004215, 0xe4004214] ∧ Exclusive w := by
  have hw1 := (run_started Legal).call (.kmalloc 1) 200 (r := 0xe4004214) trivial (by decide +kernel)
  have hw2 := hw1.call (.kmalloc 1) 200 (r := 0xe4004215) trivial (by decide +kernel)
  refine ⟨_, hw2, ?_, live_exclusive hw2⟩
  simp [Op.held, World.with]

/-! ## Runs of harmless calls -/

open scoped Classical in
/-- The shape without the roles nothing depends on. -/
noncomputable def ownedShape (g : Shape) (k : Kernel) : Shape where
  caches := g.caches
  on := g.on
  role s i := if ∃ c, g.Has c s ∧ k.Owned (k.objAddr c s i) then g.role s i else none

theorem ownedShape_role {k : Kernel} {s i : Nat} {r : Role}
    (hr : (ownedShape g k).role s i = some r) :
    (∃ c, g.Has c s ∧ k.Owned (k.objAddr c s i)) ∧ g.role s i = some r := by
  by_cases hown : ∃ c, g.Has c s ∧ k.Owned (k.objAddr c s i)
  · exact ⟨hown, (if_pos hown).symm.trans hr⟩
  · exact absurd ((if_neg hown).symm.trans hr) (by simp)

theorem ownedShape_inv {k : Kernel} (h : SlabInv g k) : SlabInv (ownedShape g k) k :=
  h.reassign (fun _ _ r hr => ⟨r, (ownedShape_role hr).2⟩) fun c _ _ hs hown => if_pos ⟨c, hs, hown⟩

theorem ownedShape_unheldIn {k : Kernel} (h : SlabInv g k) {c p : Nat} (hp : NotOwnedIn k c p) :
    (ownedShape g k).UnheldIn k c p := by
  intro s i r hs hr
  obtain ⟨⟨c', hs', hown⟩, _⟩ := ownedShape_role hr
  obtain rfl := h.lists.owner c c' s hs hs'
  exact hp s i ((h.caches.added c s).mpr hs) hown

/-- A cache stays one, with its parameters. -/
def CachesStay (k k' : Kernel) : Prop :=
  ∀ c, IsCache k c → IsCache k' c ∧ SameCache (k.cache c) (k'.cache c)

theorem CachesStay.refl (k : Kernel) : CachesStay k k := fun _ hc => ⟨hc, .refl _⟩

theorem CachesStay.of {g g' : Shape} {k k' : Kernel} (h : SlabInv g k) (h' : SlabInv g' k')
    (hcaches : ∀ c ∈ g.caches, c ∈ g'.caches) (hl : SameLayout g k k') : CachesStay k k' := by
  intro c hc
  have hmem := (isCache_iff h).mp hc
  exact ⟨(isCache_iff h').mpr (hcaches c hmem), hl.cache c hmem⟩

/-- **One call** keeps the invariant. -/
theorem slabInv_step (h : SlabInv g w.kernel) (fuel : Nat) {op : Op} (hop : Harmless w op) :
    Ensures (op.run env fuel) (fun _ k => (∃ g', SlabInv g' k) ∧ CachesStay w.kernel k)
      NoEmptySlab w.kernel := by
  have hown := ownedShape_inv h
  -- what every allocating or freeing call gives is stated once
  have hlater : ∀ {g1 g' : Shape} {k : Kernel}, SlabInv g1 w.kernel → SlabInv g' k →
      Later g1 w.kernel g' k → (∃ g', SlabInv g' k) ∧ CachesStay w.kernel k := by
    intro g1 g' k h1 h' hl
    exact ⟨⟨g', h'⟩, .of h1 h' (fun c hc => hl.caches ▸ hc) hl.layout⟩
  cases op with
  | createCache objSize alignment flags =>
      refine (createCache_spec (slabCalls_ok env fuel) h hop alignment flags).imp fun p k hk => ?_
      obtain ⟨g', hinv, hkeep, _⟩ := hk
      exact ⟨⟨g', hinv⟩, .of h hinv hkeep.caches hkeep.layout⟩
  | allocObjectFromCache c =>
      have hc := (isCache_iff h).mp hop
      refine ((slabCalls_ok env fuel).alloc g _ c h hc).imp fun p k hk => ?_
      obtain ⟨g', hg⟩ := hk
      exact hlater h hg.inv hg.later
  | freeObjectFromCache c p =>
      rw [Op.run, ensures_bind]
      refine (freeObjectFromCache_spec hown ((isCache_iff hown).mp hop.1)
        (ownedShape_unheldIn h hop.2) fuel).imp fun b k hk => ?_
      obtain ⟨_, g', hinv, hl, _⟩ := hk
      exact hlater hown hinv hl
  | kmalloc size =>
      refine (kmalloc_spec (slabCalls_ok env fuel).alloc h fuel size).imp fun p k hk => ?_
      rcases hk with ⟨_, rfl⟩ | ⟨_, g', _, _, _, hg⟩
      · exact ⟨⟨g, h⟩, .refl _⟩
      · exact hlater h hg.inv hg.later
  | kfree p =>
      rw [Op.run, ensures_bind]
      refine (kfree_spec hown (fun c => ownedShape_unheldIn h (hop c)) fuel).imp fun _ k hk => ?_
      obtain ⟨g', hinv, hl, _⟩ := hk
      exact hlater hown hinv hl
  | kfreeHint p size =>
      rw [Op.run, ensures_bind]
      refine (kfreeHint_spec hown (fun c => ownedShape_unheldIn h (hop c)) fuel size).imp
        fun _ k hk => ?_
      obtain ⟨g', hinv, hl, _⟩ := hk
      exact hlater hown hinv hl
  | write mem =>
      rw [Op.run, ensures_bind, ensures_update]
      have hinv := h.setMem fun c s b hs hb => hop c s b ((h.caches.added c s).mpr hs) hb
      exact ⟨⟨g, hinv⟩, .of h hinv (fun _ hc => hc) (sameLayout_setMem g _ mem)⟩

theorem slabInv_of_run (hw : Run env Harmless w) : ∃ g, SlabInv g w.kernel := by
  induction hw with
  | start hk hboot =>
      obtain ⟨g, hinv, _⟩ := (initSlabAllocator_spec env _ hk).ok hboot rfl
      exact ⟨g, hinv⟩
  | step _ hop hr ih =>
      obtain ⟨g, h⟩ := ih
      exact ((slabInv_step h _ hop).ok hr).1

/-- **The caches `initSlabAllocator` creates** are there in every run. -/
theorem created_of_run (hw : Run env Harmless w) {x : Nat × Nat × BitVec 16}
    (hx : x ∈ createdCaches) : ∃ c, IsCache w.kernel c ∧ (w.kernel.cache c).CreatedWith x := by
  induction hw with
  | start hk hboot =>
      obtain ⟨g, hinv, hall⟩ := (initSlabAllocator_spec env _ hk).ok hboot rfl
      obtain ⟨c, hc, hwith⟩ := hall x hx
      exact ⟨c, (isCache_iff hinv).mpr hc, hwith⟩
  | step hrun hop hr ih =>
      obtain ⟨g, h⟩ := slabInv_of_run hrun
      obtain ⟨c, hc, hwith⟩ := ih
      obtain ⟨hc', hsame⟩ := ((slabInv_step h _ hop).ok hr).2 c hc
      exact ⟨c, hc', hwith.carry hsame⟩

/-- The lists of one cache are whole. -/
structure ListsIntact (k : Kernel) (c : Nat) (on : SlabList → List Nat) : Prop where
  /-- NULL-terminated lists, without a slab twice on them -/
  lists : OnLists k c on
  /-- of all the slabs the cache was given -/
  added : ∀ s, (c, s) ∈ k.added ↔ ∃ l, s ∈ on l
  full : ∀ s ∈ on .full, ∀ i < k.count c s, k.IsUsed c s i

/-- **Slab list integrity**, in every run, for every cache. -/
theorem lists_intact (hw : Run env Harmless w) {c : Nat} (hc : IsCache w.kernel c) :
    ∃ on, ListsIntact w.kernel c on := by
  obtain ⟨g, h⟩ := slabInv_of_run hw
  have hmem := (isCache_iff h).mp hc
  refine ⟨g.on c, h.lists.on c hmem, fun s => ?_, h.uses.full c hmem⟩
  rw [h.caches.added]
  exact ⟨fun hs => hs.2, fun hs => ⟨hmem, hs⟩⟩

/-- Once the newest cache has given an object. -/
theorem lists_intact_newest : ∃ w, Run quietEnv Harmless w ∧
    ∃ on, ListsIntact w.kernel 0xe4000270 on := by
  have hhead : startedKernel.caches = 0xe4000270 := by decide +kernel
  have hw := (run_started Harmless).call (.allocObjectFromCache 0xe4000270) 200 (r := 0xe4004000)
    (isCache_head hhead (by omega)) (by decide +kernel)
  exact ⟨_, hw, lists_intact hw (isCache_head (by decide +kernel) (by omega))⟩

end

end OSExt.Memory.Clients
