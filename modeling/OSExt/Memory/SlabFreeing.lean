import OSExt.Memory.SlabSteps

/-!
# What the calls on slabs do, and freeing

One slab first: what it gives and what it takes back. A slab takes back any
address that falls on one of its slots or on the place behind the last one,
whoever the address belongs to. Then the searches over the lists of a cache and
over all caches. **A free keeps the invariant** as long as the address is in no
object someone relies on, whichever slab ends up taking it.
-/

namespace OSExt.Memory

open Lib

/-- What every call here promises when it stops: it is not for a new slab without a free slot. -/
def NoEmptySlab (s : Stop) (k : Kernel) : Prop :=
  k.Clean → s ≠ .panicked "could not get object from empty slab!\n"

/-! ## From one shape to a later one -/

/--
What stays over a call: slabs are never given up, nor what has a role outside the
page tables. The record of a slab that is being set up, `q`, may change.
-/
structure Later (g : Shape) (k : Kernel) (g' : Shape) (k' : Kernel) (q : Option Nat := none) :
    Prop where
  caches : g'.caches = g.caches
  statics : SameStatics k k'
  has : ∀ c s, g.Has c s → g'.Has c s
  role : ∀ s i r, g.role s i = some r → r ≠ .vm → g'.role s i = some r
  layout : SameLayout g k k'
  heap : k.kernelHeapNextPage ≤ k'.kernelHeapNextPage
  /-- New slabs are on new pages. -/
  fresh : ∀ c s, g'.Has c s → ¬ g.Has c s → k.kernelHeapNextPage ≤ (k'.slab s).start
  /-- Records of what is no slab stay. -/
  records : ∀ s, some s ≠ q → (∀ c, ¬ g'.Has c s) → k'.slab s = k.slab s
  clean : k'.Clean → k.Clean

theorem SameLayout.trans {g g' : Shape} {k k' k'' : Kernel} (h : SameLayout g k k')
    (h' : SameLayout g' k' k'') (hcaches : g'.caches = g.caches)
    (hhas : ∀ c s, g.Has c s → g'.Has c s) : SameLayout g k k'' :=
  ⟨fun c s hs => (h.slab c s hs).trans (h'.slab c s (hhas c s hs)),
    fun c hc => (h.cache c hc).trans (h'.cache c (hcaches ▸ hc))⟩

theorem Later.refl (g : Shape) (k : Kernel) : Later g k g k :=
  ⟨rfl, .refl k, fun _ _ hs => hs, fun _ _ _ hr _ => hr, .refl g k, Nat.le_refl _,
    fun _ _ hs hno => absurd hs hno, fun _ _ _ => rfl, id⟩

theorem Later.trans {g g' g'' : Shape} {k k' k'' : Kernel} {q : Option Nat}
    (h : Later g k g' k' q) (h' : Later g' k' g'' k'' q) : Later g k g'' k'' q where
  caches := h'.caches.trans h.caches
  statics := h.statics.trans h'.statics
  has c s hs := h'.has c s (h.has c s hs)
  role s i r hr hne := h'.role s i r (h.role s i r hr hne) hne
  layout := h.layout.trans h'.layout h.caches h.has
  heap := Nat.le_trans h.heap h'.heap
  fresh c s hs hno := by
    by_cases hs' : g'.Has c s
    · rw [(h'.layout.slab c s hs').start]
      exact h.fresh c s hs' hno
    · exact Nat.le_trans h.heap (h'.fresh c s hs hs')
  records s hq hs := by
    rw [h'.records s hq hs]
    exact h.records s hq fun c hs' => hs c (h'.has c s hs')
  clean hcl := h.clean (h'.clean hcl)

/-- Bytes are written, and roles given. -/
theorem Later.setMem (g : Shape) (k : Kernel) (mem : Nat → Byte) {g' : Shape}
    (hcaches : g'.caches = g.caches) (hon : g'.on = g.on)
    (hrole : ∀ s i r, g.role s i = some r → r ≠ .vm → g'.role s i = some r) :
    Later g k g' (k.setMem mem) := by
  have hhas : ∀ c s, g'.Has c s ↔ g.Has c s := by
    intro c s
    unfold Shape.Has
    rw [hcaches, hon]
  exact ⟨hcaches, ⟨rfl, rfl, rfl, rfl, rfl, rfl, rfl⟩, fun c s hs => (hhas c s).mpr hs, hrole,
    sameLayout_setMem g k mem, Nat.le_refl _, fun c s hs hno => absurd ((hhas c s).mp hs) hno,
    fun _ _ _ => rfl, id⟩

/-- A slab moves. -/
theorem Later.move (g : Shape) (k : Kernel) {c s : Nat} {a b : SlabList} {pre post : List Nat}
    (hc : c ∈ g.caches) (ha : g.on c a = pre ++ s :: post) :
    Later g k (g.setOn c (movedOn (g.on c) a b s pre post)) (k.move c a b s (prevOf pre)) := by
  have hhas := Shape.has_setOn (g := g) (c := c) fun x => exists_mem_movedOn (b := b) (x := x) ha
  have hk : Relinked c (fun s => ∃ w, s ∈ g.on c w) k (k.move c a b s (prevOf pre)) := by
    refine Relinked.move k c a b ⟨a, by simp [ha]⟩ fun hp => ⟨a, ?_⟩
    rw [ha]
    exact List.mem_append_left _ (prevOf_mem hp)
  refine ⟨rfl, hk.statics, fun c s hs => (hhas c s).mpr hs, fun _ _ _ hr _ => hr,
    hk.sameLayout g, hk.heap.symm.le, fun c s hs hno => absurd ((hhas c s).mp hs) hno, ?_,
    hk.clean.mp⟩
  intro x _ hx
  exact hk.links x fun hx' => hx c ((hhas c x).mpr ⟨hc, hx'⟩)

/-! ## One slab -/

/-- The slab takes the address for one of its own: the first place behind the slots counts. -/
def Kernel.Accepts (k : Kernel) (c s p : Nat) : Prop :=
  k.base c s ≤ p ∧ (p - k.base c s) / k.objSize c ≤ k.count c s

instance (k : Kernel) (c s p : Nat) : Decidable (k.Accepts c s p) :=
  inferInstanceAs (Decidable (_ ∧ _))

/-- The slot an accepted address is taken to be in. -/
def Kernel.slotOf (k : Kernel) (c s p : Nat) : Nat := (p - k.base c s) / k.objSize c

/-- Of slabs, each with its cache, the first one that takes the address. -/
def Kernel.taker (k : Kernel) (p : Nat) (l : List (Nat × Nat)) : Option (Nat × Nat) :=
  l.find? fun x => k.Accepts x.1 x.2 p

/-- The slabs `free_object_from_cache` asks, in its order. -/
def askedIn (c : Nat) (on : SlabList → List Nat) : List (Nat × Nat) :=
  (on .full ++ on .part).map (Prod.mk c)

/-- The slabs `kfree` and `kfree_hint` ask, in the caches they search. -/
def asked (k : Kernel) (searched : Cache → Bool) (caches : List Nat)
    (on : Nat → SlabList → List Nat) : List (Nat × Nat) :=
  (caches.filter fun c => searched (k.cache c)).flatMap fun c => askedIn c (on c)

theorem allocObjectFromSlab_spec (k : Kernel) (c s : Nat) :
    Ensures (allocObjectFromSlab s (k.cache c).objSize (k.cache c).flags)
      (fun p k' => (p = 0 ∧ k' = k ∧ ∀ i < k.count c s, k.IsUsed c s i) ∨
        ∃ i < k.count c s, ¬ k.IsUsed c s i ∧ p = k.objAddr c s i ∧
          k' = k.setMem (setUsedBit k.mem (k.bitmap c s) i)) NoEmptySlab k := by
  rw [allocObjectFromSlab, ensures_bind, ensures_gets]
  refine ensures_ite (fun _ _ => by simp) fun _ => ?_
  rw [ensures_bind, ensures_gets]
  cases hfind : findClear k.mem ((k.slab s).bits (k.cache c).objSize (k.cache c).flags) 0
    ((k.slab s).objs (k.cache c).objSize (k.cache c).flags) with
  | none =>
      refine .inl ⟨rfl, rfl, fun i hi => findClear_none.mp hfind i (Nat.zero_le i) ?_⟩
      rw [Nat.zero_add]
      exact hi
  | some i =>
      obtain ⟨_, hi, hclear, _⟩ := findClear_some hfind
      rw [Nat.zero_add] at hi
      exact .inr ⟨i, hi, not_not.mpr hclear, rfl, rfl⟩

theorem freeObjectFromSlab_spec (k : Kernel) (c s p : Nat) :
    Ensures (freeObjectFromSlab s (k.cache c).objSize p (k.cache c).flags)
      (fun b k' => (b = false ∧ k' = k ∧ ¬ k.Accepts c s p) ∨ (b = true ∧ k.Accepts c s p ∧
        k' = k.setMem (clearUsedBit k.mem (k.bitmap c s) (k.slotOf c s p)))) NoEmptySlab k := by
  rw [freeObjectFromSlab, ensures_bind, ensures_gets]
  refine ensures_ite (fun hlt => .inl ⟨rfl, rfl, fun ha => ?_⟩) fun hbase => ?_
  · exact absurd ha.1 (Nat.not_le.mpr hlt)
  refine ensures_ite (fun hgt => .inl ⟨rfl, rfl, fun ha => ?_⟩) fun hcount => ?_
  · exact absurd ha.2 (Nat.not_le.mpr hgt)
  refine ensures_ite (fun _ _ => by simp) fun _ => ?_
  exact .inr ⟨rfl, ⟨Nat.not_lt.mp hbase, Nat.not_lt.mp hcount⟩, rfl⟩

theorem isSlabFree_spec (k : Kernel) (c s : Nat) :
    Ensures (isSlabFree s (k.cache c).objSize (k.cache c).flags)
      (fun b k' => k' = k ∧
        b = bytesZero k.mem (k.bitmap c s) (k.count c s / k.objSize c + 1)) NoEmptySlab k := by
  rw [isSlabFree, ensures_bind, ensures_gets]
  refine ensures_ite (fun _ _ => by simp) fun _ => ?_
  exact ⟨rfl, rfl⟩

/-- A slab that passes for free has its first slot free. -/
theorem not_isUsed_zero {k : Kernel} {c s n : Nat}
    (h : bytesZero k.mem (k.bitmap c s) (n + 1) = true) : ¬ k.IsUsed c s 0 := by
  have hbyte := bytesZero_iff.mp h 0 (Nat.succ_pos n)
  have hbit : usedBit k.mem (k.bitmap c s) 0 = 0 := by
    rw [usedBit_eq_zero]
    show (k.mem (k.bitmap c s + 0)).getLsbD 0 = false
    rw [hbyte]
    rfl
  exact not_not.mpr hbit

/-! ## The lists of one cache -/

/-- **The walk** of `free_object_from_cache`: the first slab that accepts takes the address. -/
theorem freeScan_spec {k : Kernel} {c p : Nat} : ∀ {l : List Nat} {fuel cslab prev : Nat},
    IsList k.nextSlab 0 cslab l →
    Ensures (freeScan c p fuel cslab prev)
      (fun r k' => (r = none ∧ k' = k ∧ ∀ s ∈ l, ¬ k.Accepts c s p) ∨
        ∃ pre s post, l = pre ++ s :: post ∧ r = some (s, pre.getLast?.getD prev) ∧
          (∀ x ∈ pre, ¬ k.Accepts c x p) ∧ k.Accepts c s p ∧
          k' = k.setMem (clearUsedBit k.mem (k.bitmap c s) (k.slotOf c s p))) NoEmptySlab k := by
  intro l
  induction l with
  | nil =>
      intro fuel cslab prev hl
      cases fuel with
      | zero => exact fun _ => by simp
      | succ fuel =>
          rw [freeScan, if_pos (show cslab = 0 from hl)]
          exact .inl ⟨rfl, rfl, fun s hs => absurd hs (by simp)⟩
  | cons a l ih =>
      intro fuel cslab prev hl
      obtain ⟨rfl, hne, hrest⟩ := hl
      cases fuel with
      | zero => exact fun _ => by simp
      | succ fuel =>
          rw [freeScan, if_neg hne, ensures_bind, ensures_gets, ensures_bind]
          refine (freeObjectFromSlab_spec k c cslab p).imp fun b k' hb => ?_
          rcases hb with ⟨rfl, rfl, hno⟩ | ⟨rfl, hacc, rfl⟩
          · -- not this one: the walk goes on behind it
            rw [if_neg (by simp), ensures_bind, ensures_gets]
            refine (ih hrest).imp fun r k'' hr => ?_
            rcases hr with ⟨rfl, rfl, hnone⟩ | ⟨pre, s, post, rfl, rfl, hbefore, hacc, rfl⟩
            · refine .inl ⟨rfl, rfl, fun s hs => ?_⟩
              rcases List.mem_cons.mp hs with rfl | hs
              · exact hno
              · exact hnone s hs
            · refine .inr ⟨cslab :: pre, s, post, rfl, ?_, ?_, hacc, rfl⟩
              · rw [List.getLast?_cons]
                rfl
              · intro x hx
                rcases List.mem_cons.mp hx with rfl | hx
                · exact hno
                · exact hbefore x hx
          · rw [if_pos rfl]
            exact .inr ⟨[], cslab, l, rfl, rfl, fun x hx => absurd hx (by simp), hacc, rfl⟩

/-- The address is in no object with a role, as far as those of the cache `c` go. -/
def Shape.UnheldIn (g : Shape) (k : Kernel) (c p : Nat) : Prop :=
  ∀ s i r, g.Has c s → g.role s i = some r → ¬ k.InObject c s i p

def Shape.Unheld (g : Shape) (k : Kernel) (p : Nat) : Prop := ∀ c, g.UnheldIn k c p

/-- The slot such an address is taken to be in has no role. -/
theorem SlabInv.role_of_accepts {g : Shape} {k : Kernel} (h : SlabInv g k) {c s p : Nat}
    (hs : g.Has c s) (hp : g.UnheldIn k c p) (ha : k.Accepts c s p) :
    g.role s (k.slotOf c s p) = none := by
  cases hr : g.role s (k.slotOf c s p) with
  | none => rfl
  | some r =>
      have hx := slot_of_address (h.layout.fits c s hs).objSize ha.1 rfl
      exact absurd hx (hp s _ r hs hr)

theorem move_setMem (k : Kernel) (c : Nat) (a b : SlabList) (s prev : Nat) (mem : Nat → Byte) :
    (k.setMem mem).move c a b s prev = (k.move c a b s prev).setMem mem := by
  unfold Kernel.move Kernel.unlink
  by_cases h : prev = 0
  · rw [if_pos h, if_pos h]
    rfl
  · rw [if_neg h, if_neg h]
    rfl

/-- The list without the slab that moves is as it was. -/
theorem filter_movedOn {on : SlabList → List Nat} {a b : SlabList} {s : Nat} {pre post : List Nat}
    (ha : on a = pre ++ s :: post) (w : SlabList) :
    (movedOn on a b s pre post w).filter (· ≠ s) = (on w).filter (· ≠ s) := by
  have hrest : (Function.update on a (pre ++ post) w).filter (· ≠ s) = (on w).filter (· ≠ s) := by
    by_cases hw : w = a
    · rw [hw, Function.update_self, ha]
      simp
    · rw [Function.update_of_ne hw]
  by_cases hw : w = b
  · subst hw
    unfold movedOn
    rw [Function.update_self, List.filter_cons_of_neg (by simp), hrest]
  · unfold movedOn
    rw [Function.update_of_ne hw, hrest]

theorem filter_setOn {g : Shape} {c s : Nat} {on : SlabList → List Nat}
    (h : ∀ w, (on w).filter (· ≠ s) = (g.on c w).filter (· ≠ s)) (c' : Nat) (w : SlabList) :
    ((g.setOn c on).on c' w).filter (· ≠ s) = (g.on c' w).filter (· ≠ s) := by
  by_cases hc : c' = c
  · subst hc
    rw [g.setOn_self]
    exact h w
  · rw [g.setOn_other on hc]

/-- **The slab `s` has taken the address**: the bit of that slot is clear, the slab is off the full
list, and no other slab has moved. -/
structure Took (g : Shape) (k : Kernel) (c s p : Nat) (g' : Shape) (k' : Kernel) : Prop where
  accepts : k.Accepts c s p
  inv : SlabInv g' k'
  later : Later g k g' k'
  role : g'.role = g.role
  mem : k'.mem = clearUsedBit k.mem (k.bitmap c s) (k.slotOf c s p)
  others : ∀ c' w, (g'.on c' w).filter (· ≠ s) = (g.on c' w).filter (· ≠ s)
  notFull : s ∉ g'.on c .full

/-- The first of the slabs that accepts the address has taken it, if there is one. -/
def Freed (g : Shape) (k : Kernel) (p : Nat) (l : List (Nat × Nat)) (k' : Kernel) : Prop :=
  (k.taker p l = none ∧ k' = k) ∨
    ∃ c s g', k.taker p l = some (c, s) ∧ Took g k c s p g' k'

section

variable {g : Shape} {k k' : Kernel} {c s p : Nat} {l l' : List (Nat × Nat)}

theorem taker_none {l : List Nat} (h : ∀ s ∈ l, ¬ k.Accepts c s p) :
    k.taker p (l.map (Prod.mk c)) = none := by
  refine List.find?_eq_none.mpr fun x hx => ?_
  obtain ⟨s, hs, rfl⟩ := List.mem_map.mp hx
  simpa using h s hs

theorem taker_some {pre post : List Nat} (hpre : ∀ x ∈ pre, ¬ k.Accepts c x p)
    (hacc : k.Accepts c s p) :
    k.taker p ((pre ++ s :: post).map (Prod.mk c)) = some (c, s) := by
  have hnone := taker_none hpre
  unfold Kernel.taker at hnone ⊢
  rw [List.map_append, List.find?_append, hnone, List.map_cons,
    List.find?_cons_of_pos (by simpa using hacc)]
  rfl

theorem taker_append : k.taker p (l ++ l') = (k.taker p l).or (k.taker p l') :=
  List.find?_append

/-- Who takes the address before the others are asked. -/
theorem Freed.before (h : Freed g k p l k') (hsome : k.taker p l ≠ none) :
    Freed g k p (l ++ l') k' := by
  rcases h with ⟨hnone, -⟩ | ⟨c, s, g', htaker, htook⟩
  · exact absurd hnone hsome
  · refine .inr ⟨c, s, g', ?_, htook⟩
    rw [taker_append, htaker]
    rfl

/-- Who takes it after none of these has. -/
theorem Freed.after (h : Freed g k p l' k') (hnone : k.taker p l = none) :
    Freed g k p (l ++ l') k' := by
  unfold Freed
  rw [taker_append, hnone, Option.none_or]
  exact h

theorem Freed.keeps (h : SlabInv g k) (hf : Freed g k p l k') :
    ∃ g', SlabInv g' k' ∧ Later g k g' k' ∧ g'.role = g.role := by
  rcases hf with ⟨-, rfl⟩ | ⟨_, _, g', -, htook⟩
  · exact ⟨g, h, .refl g _, rfl⟩
  · exact ⟨g', htook.inv, htook.later, htook.role⟩

end

/-- **`free_object_from_cache`**: the first slab of the full list that accepts the address takes
it, or else the first one of the partial list. -/
theorem freeObjectFromCache_freed {g : Shape} {k : Kernel} (h : SlabInv g k) {c p : Nat}
    (hc : c ∈ g.caches) (hp : g.UnheldIn k c p) (fuel : Nat) :
    Ensures (freeObjectFromCache fuel c p)
      (fun b k' => Freed g k p (askedIn c (g.on c)) k' ∧
        (b = false ↔ k.taker p (askedIn c (g.on c)) = none)) NoEmptySlab k := by
  have hon := h.lists.on c hc
  have hsplit : askedIn c (g.on c) =
      (g.on c .full).map (Prod.mk c) ++ (g.on c .part).map (Prod.mk c) := List.map_append
  rw [freeObjectFromCache, ensures_bind, ensures_gets, ensures_bind, hsplit]
  refine (freeScan_spec (hon.links .full)).imp fun r k' hr => ?_
  rcases hr with ⟨rfl, rfl, hfull⟩ | ⟨pre, s, post, hl, rfl, hbefore, hacc, rfl⟩
  · have hnone := taker_none hfull
    refine ensures_ite (fun hzero => ?_) fun _ => ?_
    · -- there is no partial slab to ask
      have hnil : g.on c .part = [] := (hon.links .part).eq_nil_iff.mpr hzero
      rw [hnil, List.map_nil, List.append_nil]
      exact ⟨.inl ⟨hnone, rfl⟩, iff_of_true rfl hnone⟩
    rw [ensures_bind]
    refine (freeScan_spec (hon.links .part)).imp fun r k'' hr => ?_
    rcases hr with ⟨rfl, rfl, hpart⟩ | ⟨pre, s, post, hl, rfl, hbefore, hacc, rfl⟩
    · have hall : k''.taker p ((g.on c .full).map (Prod.mk c) ++ (g.on c .part).map (Prod.mk c)) =
          none := by
        rw [taker_append, hnone, taker_none hpart]
        rfl
      exact ⟨.inl ⟨hall, rfl⟩, iff_of_true rfl hall⟩
    · -- the bit is cleared on the partial list, and the slab may move on
      have hs : s ∈ g.on c .part := by simp [hl]
      have hfull' : s ∉ g.on c .full := fun hs' => absurd (hon.once _ _ s hs hs') (by decide)
      have h1 := h.clear ⟨hc, _, hs⟩ hacc.2 (h.role_of_accepts ⟨hc, _, hs⟩ hp hacc) hfull'
      have hlater := Later.setMem g k'
        (clearUsedBit k'.mem (k'.bitmap c s) (k'.slotOf c s p)) rfl rfl fun _ _ _ hr _ => hr
      have htaker : k'.taker p ((g.on c .full).map (Prod.mk c) ++ (g.on c .part).map (Prod.mk c)) =
          some (c, s) := by
        rw [taker_append, hnone, Option.none_or, hl]
        exact taker_some hbefore hacc
      have hfalse : true = false ↔ k'.taker p ((g.on c .full).map (Prod.mk c) ++
          (g.on c .part).map (Prod.mk c)) = none := by
        rw [htaker]
        simp
      rw [ensures_bind]
      refine (isSlabFree_spec (k'.setMem
        (clearUsedBit k'.mem (k'.bitmap c s) (k'.slotOf c s p))) c s).imp fun b k'' hb => ?_
      obtain ⟨rfl, hb⟩ := hb
      refine ensures_ite (fun hfree => ?_) fun _ => ?_
      · rw [hb] at hfree
        rw [ensures_bind, ensures_of_ok (partialToFree_eq _ _ _ _)]
        have hk : Relinked c (fun _ => True)
            (k'.setMem (clearUsedBit k'.mem (k'.bitmap c s) (k'.slotOf c s p)))
            ((k'.setMem (clearUsedBit k'.mem (k'.bitmap c s) (k'.slotOf c s p))).move c .part .free
              s (prevOf pre)) := Relinked.move _ c .part .free trivial fun _ => trivial
        refine ⟨.inr ⟨c, s, _, htaker, hacc, h1.move hc hl (fun hb => by cases hb) fun _ _ => ?_,
          hlater.trans (Later.move g _ hc hl), rfl, hk.mem, filter_setOn (filter_movedOn hl), ?_⟩,
          hfalse⟩
        · exact ⟨0, count_pos (h1.layout.fits c s ⟨hc, _, hs⟩), not_isUsed_zero hfree⟩
        · rw [g.setOn_self]
          intro hs'
          rcases mem_movedOn hl hs' with ⟨-, hb⟩ | hs'
          · exact nomatch hb
          · exact hfull' hs'
      · exact ⟨.inr ⟨c, s, g, htaker, hacc, h1, hlater, rfl, rfl, fun _ _ => rfl, hfull'⟩, hfalse⟩
  · -- the slab leaves the full list; then its bit may go
    have hs : s ∈ g.on c .full := by simp [hl]
    have h1 := h.move (b := .part) hc hl (fun hb => by cases hb) fun hb => by cases hb
    have hlater := Later.move (b := .part) g k hc hl
    have hs1 : (g.setOn c (movedOn (g.on c) .full .part s pre post)).Has c s :=
      hlater.has c s ⟨hc, _, hs⟩
    have hlist : s ∉ (g.setOn c (movedOn (g.on c) .full .part s pre post)).on c .full := by
      rw [g.setOn_self]
      unfold movedOn
      rw [Function.update_of_ne (by decide)]
      exact (hon.unlink hl).2 .full
    have hbm := hlater.layout.bitmap (c := c) (s := s) ⟨hc, _, hs⟩
    have hcount := hlater.layout.count (c := c) (s := s) ⟨hc, _, hs⟩
    have h2 := h1.clear hs1 (hcount.symm ▸ hacc.2) (h.role_of_accepts ⟨hc, _, hs⟩ hp hacc) hlist
    have hmem : (k.move c .full .part s (prevOf pre)).mem = k.mem := by
      unfold Kernel.move Kernel.unlink
      split <;> rfl
    have htaker : k.taker p ((g.on c .full).map (Prod.mk c) ++ (g.on c .part).map (Prod.mk c)) =
        some (c, s) := by
      rw [taker_append, hl, taker_some hbefore hacc]
      rfl
    rw [hbm, hmem] at h2
    rw [ensures_bind, ensures_of_ok (fullToPartial_eq _ _ _ _), move_setMem]
    refine ⟨.inr ⟨c, s, _, htaker, hacc, h2,
      hlater.trans (Later.setMem _ _ _ rfl rfl fun _ _ _ hr _ => hr), rfl, rfl,
      filter_setOn (filter_movedOn hl), hlist⟩, ?_⟩
    rw [htaker]
    simp

/-- **`free_object_from_cache` keeps the invariant.** -/
theorem freeObjectFromCache_spec {g : Shape} {k : Kernel} (h : SlabInv g k) {c p : Nat}
    (hc : c ∈ g.caches) (hp : g.UnheldIn k c p) (fuel : Nat) :
    Ensures (freeObjectFromCache fuel c p)
      (fun b k' => (b = false → k' = k) ∧
        ∃ g', SlabInv g' k' ∧ Later g k g' k' ∧ g'.role = g.role) NoEmptySlab k := by
  refine (freeObjectFromCache_freed h hc hp fuel).imp fun b k' hb => ⟨fun hfalse => ?_, hb.1.keeps h⟩
  rcases hb.1 with ⟨-, rfl⟩ | ⟨c, s, _, htaker, -⟩
  · rfl
  · exact absurd ((hb.2.mp hfalse).symm.trans htaker) (by simp)

def FreeSpec (free : Nat → Nat → KernelM Bool) : Prop :=
  ∀ g k c p, SlabInv g k → c ∈ g.caches → g.Unheld k p →
    Ensures (free c p) (fun b k' => (b = false → k' = k) ∧
      ∃ g', SlabInv g' k' ∧ Later g k g' k' ∧ g'.role = g.role) NoEmptySlab k

theorem freeSpec (fuel : Nat) : FreeSpec (freeObjectFromCache fuel) :=
  fun _ _ c _ h hc hp => freeObjectFromCache_spec h hc (hp c) fuel

/-! ## All caches -/

theorem asked_cons {k : Kernel} {searched : Cache → Bool} {c : Nat} {l : List Nat}
    {on : Nat → SlabList → List Nat} : asked k searched (c :: l) on =
      (if searched (k.cache c) then askedIn c (on c) else []) ++ asked k searched l on := by
  unfold asked
  rw [List.filter_cons]
  by_cases h : searched (k.cache c)
  · rw [if_pos h, if_pos h, List.flatMap_cons]
  · rw [if_neg h, if_neg h, List.nil_append]

/-- **The loop of `kfree` and `kfree_hint`** asks cache after cache. -/
theorem freeInCaches_freed {g : Shape} {k : Kernel} (h : SlabInv g k) {p : Nat}
    (hp : g.Unheld k p) (searched : Cache → Bool) (fuel : Nat) : ∀ (n : Nat) {head : Nat}
    {l : List Nat}, IsList (fun c => (k.cache c).next) 0 head l → (∀ c ∈ l, c ∈ g.caches) →
    Ensures (freeInCaches searched fuel p n head)
      (fun _ k' => Freed g k p (asked k searched l g.on) k') NoEmptySlab k := by
  intro n
  induction n with
  | zero =>
      intro head l hl hsub
      exact fun _ => by simp
  | succ n ih =>
      intro head l hl hsub
      rw [freeInCaches]
      cases l with
      | nil =>
          rw [if_pos (show head = 0 from hl)]
          exact .inl ⟨rfl, rfl⟩
      | cons c l =>
          obtain ⟨rfl, hne, hrest⟩ := hl
          have hc := hsub head (List.mem_cons_self ..)
          have hgoOn := ih hrest fun c hc => hsub c (List.mem_cons_of_mem _ hc)
          rw [if_neg hne, ensures_bind, ensures_gets, asked_cons]
          refine ensures_ite (fun hsearched => ?_) fun hsearched => ?_
          · rw [ensures_bind, if_pos hsearched]
            refine (freeObjectFromCache_freed h hc (hp head) fuel).imp fun b k' hb => ?_
            obtain ⟨hfreed, hfalse⟩ := hb
            beta_reduce
            cases b with
            | true =>
                rw [if_pos rfl]
                exact hfreed.before fun hnone => nomatch hfalse.mpr hnone
            | false =>
                -- this cache does not have the object
                have hnone := hfalse.mp rfl
                obtain rfl : k' = k := by
                  rcases hfreed with ⟨-, rfl⟩ | ⟨_, _, _, htaker, -⟩
                  · rfl
                  · exact absurd (hnone.symm.trans htaker) (by simp)
                rw [if_neg (by simp), ensures_bind, ensures_gets]
                exact hgoOn.imp fun _ _ hk => hk.after hnone
          · rw [ensures_bind, ensures_pure, if_neg hsearched, List.nil_append]
            beta_reduce
            rw [if_neg (by simp), ensures_bind, ensures_gets]
            exact hgoOn

theorem kfree_freed {g : Shape} {k : Kernel} (h : SlabInv g k) {p : Nat} (hp : g.Unheld k p)
    (fuel : Nat) : Ensures (kfree fuel p)
      (fun _ k' => Freed g k p (asked k Cache.kmallocs g.caches g.on) k') NoEmptySlab k := by
  rw [kfree, ensures_bind, ensures_gets]
  exact freeInCaches_freed h hp _ fuel fuel h.lists.caches fun _ hc => hc

theorem kfreeHint_freed {g : Shape} {k : Kernel} (h : SlabInv g k) {p : Nat} (hp : g.Unheld k p)
    (fuel size : Nat) : Ensures (kfreeHint fuel p size)
      (fun _ k' => Freed g k p (asked k (fun ca => size ≤ ca.objSize) g.caches g.on) k')
      NoEmptySlab k := by
  rw [kfreeHint, ensures_bind, ensures_gets]
  exact freeInCaches_freed h hp _ fuel fuel h.lists.caches fun _ hc => hc

/-- **`kfree` and `kfree_hint` keep the invariant.** -/
theorem kfree_spec {g : Shape} {k : Kernel} (h : SlabInv g k) {p : Nat} (hp : g.Unheld k p)
    (fuel : Nat) :
    Ensures (kfree fuel p) (fun _ k' => ∃ g', SlabInv g' k' ∧ Later g k g' k' ∧ g'.role = g.role)
      NoEmptySlab k :=
  (kfree_freed h hp fuel).imp fun _ _ hk => hk.keeps h

theorem kfreeHint_spec {g : Shape} {k : Kernel} (h : SlabInv g k) {p : Nat} (hp : g.Unheld k p)
    (fuel size : Nat) :
    Ensures (kfreeHint fuel p size)
      (fun _ k' => ∃ g', SlabInv g' k' ∧ Later g k g' k' ∧ g'.role = g.role) NoEmptySlab k :=
  (kfreeHint_freed h hp fuel size).imp fun _ _ hk => hk.keeps h

end OSExt.Memory
