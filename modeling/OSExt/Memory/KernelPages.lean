import OSExt.Memory.SlabAllocating

/-!
# Page tables made of slab objects

The functions of `virtual_MM.c` take list entries and page tables from the slab
allocator while a cache of it grows. What they write lies in objects they hold,
and the objects on the lists are theirs: **mapping a kernel page keeps the
invariant**, as long as the calls they make to the allocator do.
-/

namespace OSExt.Memory

open Lib

/-- The calls to the allocator keep the invariant. -/
structure SlabCalls.Ok (calls : SlabCalls) : Prop where
  alloc : AllocSpec calls.allocObjectFromCache
  free : FreeSpec calls.freeObjectFromCache

/-- The invariant holds, of a shape later than `g`. -/
def Keeps (g : Shape) (k k' : Kernel) : Prop := ∃ g', SlabInv g' k' ∧ Later g k g' k'

/-- The object at `p` is a client's, and was no client's in the shape `g`. -/
def New (g g' : Shape) (k' : Kernel) (p n : Nat) : Prop :=
  ∃ c s i, g'.Has c s ∧ g'.role s i = some .client ∧ g.role s i ≠ some .client
    ∧ k'.objAddr c s i = p ∧ n ≤ k'.objSize c

section

variable {g g1 g2 : Shape} {k k' k1 k2 : Kernel} {q : Option Nat}

/-- What leaves slabs and caches alone. -/
structure Quiet (k k' : Kernel) : Prop where
  slab : k'.slab = k.slab
  cache : k'.cache = k.cache
  statics : SameStatics k k'
  heap : k'.kernelHeapNextPage = k.kernelHeapNextPage
  clean : k'.Clean → k.Clean

theorem Quiet.refl (k : Kernel) : Quiet k k := ⟨rfl, rfl, .refl k, rfl, id⟩

theorem Quiet.trans (h : Quiet k k1) (h' : Quiet k1 k2) : Quiet k k2 :=
  ⟨h'.slab.trans h.slab, h'.cache.trans h.cache, h.statics.trans h'.statics,
    h'.heap.trans h.heap, fun hcl => h.clean (h'.clean hcl)⟩

theorem Quiet.setMem (k : Kernel) (mem : Nat → Byte) : Quiet k (k.setMem mem) :=
  ⟨rfl, rfl, ⟨rfl, rfl, rfl, rfl, rfl, rfl, rfl⟩, rfl, id⟩

theorem Quiet.setSpace (k : Kernel) (space : KernelSpace) : Quiet k (k.setSpace space) :=
  ⟨rfl, rfl, ⟨rfl, rfl, rfl, rfl, rfl, rfl, rfl⟩, rfl, id⟩

theorem Quiet.later (h : Quiet k k') (g : Shape) : Later g k g k' q :=
  ⟨rfl, h.statics, fun _ _ hs => hs, fun _ _ _ hr _ => hr,
    ⟨fun _ s _ => by rw [h.slab]; exact .refl _, fun c _ => by rw [h.cache]; exact .refl _⟩,
    h.heap.symm.le, fun _ _ hs hno => absurd hs hno, fun s _ _ => by rw [h.slab], h.clean⟩

theorem Later.but (h : Later g k g1 k1) : Later g k g1 k1 q :=
  ⟨h.caches, h.statics, h.has, h.role, h.layout, h.heap, h.fresh,
    fun s _ hs => h.records s (by simp) hs, h.clean⟩

theorem Keeps.trans (hlater : Later g k g1 k1) (h : Keeps g1 k1 k2) : Keeps g k k2 := by
  obtain ⟨g', hinv, hl⟩ := h
  exact ⟨g', hinv, hlater.trans hl⟩

/-! ## New objects -/

theorem Gives.toNew {c p n : Nat} (h : Gives g1 k1 c p g2 k2) (hlater : Later g k g1 k1 q)
    (hn : n ≤ k2.objSize c) : New g g2 k2 p n := by
  obtain ⟨s, i, hs, haddr, hr, hr'⟩ := h.object
  exact ⟨c, s, i, hs, hr, fun hr0 => hr' (hlater.role s i _ hr0 (by decide)), haddr, hn⟩

theorem New.later {p n : Nat} (h : New g g1 k1 p n) (hlater : Later g1 k1 g2 k2 q) :
    New g g2 k2 p n := by
  obtain ⟨c, s, i, hs, hr, hr', haddr, hn⟩ := h
  refine ⟨c, s, i, hlater.has c s hs, hlater.role s i _ hr (by decide), hr', ?_, ?_⟩
  · rw [hlater.layout.objAddr hs, haddr]
  · rw [hlater.layout.objSize hs.1]
    exact hn

/-- What is new since a later shape is new since the earlier one. -/
theorem New.since {p n : Nat} (h : New g1 g2 k2 p n) (hlater : Later g k g1 k1 q) :
    New g g2 k2 p n := by
  obtain ⟨c, s, i, hs, hr, hr', haddr, hn⟩ := h
  exact ⟨c, s, i, hs, hr, fun hr0 => hr' (hlater.role s i _ hr0 (by decide)), haddr, hn⟩

theorem New.holds {p n : Nat} (h : New g g1 k1 p n) : Holds g1 k1 .client p n := by
  obtain ⟨c, s, i, hs, hr, _, haddr, hn⟩ := h
  exact ⟨c, s, i, hs, hr, haddr, hn⟩

/-- A new object is none that was a client's before. -/
theorem New.ne {p n p' n' : Nat} (h : New g1 g2 k2 p n) (hinv : SlabInv g2 k2)
    (hp' : New g g1 k1 p' n') (hlater : Later g1 k1 g2 k2 q) : p ≠ p' := by
  intro heq
  subst heq
  obtain ⟨c, s, i, hs, hr, hr', haddr, _⟩ := h
  obtain ⟨c', s', i', hs', hr2, _, haddr', _⟩ := hp'
  have hx : k2.InObject c s i p := haddr ▸ hinv.layout.inObject_self hs
  have hs2 := hlater.has c' s' hs'
  have hx' : k2.InObject c' s' i' p := by
    rw [← haddr', ← hlater.layout.objAddr hs' i']
    exact hinv.layout.inObject_self hs2
  have hr3 := hlater.role s' i' _ hr2 (by decide)
  obtain ⟨rfl, rfl⟩ := hinv.objects_unique hs hs2 (hinv.role_count hs hr)
    (hinv.role_count hs2 hr3) hx hx'
  exact hr' hr2

theorem New.not_vm {p n : Nat} (h : New g g1 k1 p n) (hinv : SlabInv g1 k1) :
    p ∉ vmObjects k1.space := by
  intro hvm
  obtain ⟨c, s, i, hs, hr, _, rfl, _⟩ := h
  exact hinv.not_owned hs hr (.inr (.inr hvm))

/-- **A new object is put to use**: its role changes, the others keep theirs. -/
theorem New.retag {p n : Nat} (h : New g g1 k1 p n) (hinv : SlabInv g1 k1)
    (hlater : Later g k g1 k1 q) (r : Role) : ∃ g2, SlabInv g2 k1 ∧ Later g k g2 k1 q ∧
      Holds g2 k1 r p n ∧ (∀ p' n', p' ≠ p → New g g1 k1 p' n' → New g g2 k1 p' n') ∧
      (∀ r' p' n', p' ≠ p → Holds g1 k1 r' p' n' → Holds g2 k1 r' p' n') ∧
      g2.caches = g1.caches ∧ g2.on = g1.on := by
  obtain ⟨c, s, i, hs, hr, hr', rfl, hn⟩ := h
  have hfree := hinv.not_owned hs hr
  have hother : ∀ c' s' i', g1.Has c' s' → k1.objAddr c' s' i' ≠ k1.objAddr c s i →
      (g1.setRole s i (some r)).role s' i' = g1.role s' i' := by
    intro c' s' i' hs' hne
    refine g1.setRole_other _ ?_
    intro hgiven
    obtain ⟨rfl, rfl⟩ := hgiven
    obtain rfl := hinv.lists.owner c c' s' hs hs'
    exact hne rfl
  refine ⟨g1.setRole s i (some r), hinv.setRole hs hr (by simp) hfree, ?_, ?_, ?_, ?_, rfl, rfl⟩
  · refine ⟨hlater.caches, hlater.statics, hlater.has, ?_, hlater.layout, hlater.heap,
      hlater.fresh, hlater.records, hlater.clean⟩
    intro s' i' r0 hr0 hne
    have hr1 := hlater.role s' i' r0 hr0 hne
    refine (g1.setRole_other _ ?_).trans hr1
    intro hgiven
    obtain ⟨rfl, rfl⟩ := hgiven
    rw [hr] at hr1
    exact hr' (hr0.trans hr1.symm)
  · exact ⟨c, s, i, hs, g1.setRole_self s i _, rfl, hn⟩
  · intro p' n' hne h'
    obtain ⟨c', s', i', hs', hr1, hr1', rfl, hn'⟩ := h'
    exact ⟨c', s', i', hs', (hother c' s' i' hs' hne).trans hr1, hr1', rfl, hn'⟩
  · intro r' p' n' hne h'
    obtain ⟨c', s', i', hs', hr1, rfl, hn'⟩ := h'
    exact ⟨c', s', i', hs', (hother c' s' i' hs' hne).trans hr1, rfl, hn'⟩

/-! ## Writes into what is held -/

/-- **An object without used bits** may be written to. -/
theorem SlabInv.writeHeld (h : SlabInv g k) {r : Role} {p n : Nat} (hp : Holds g k r p n)
    (hr : ∀ s, r ≠ .bitmap s) (mem : Nat → Byte)
    (hmem : ∀ x, ¬ (p ≤ x ∧ x < p + n) → mem x = k.mem x) : SlabInv g (k.setMem mem) := by
  refine h.setMem fun c s x hs hx => hmem x fun hin => ?_
  obtain ⟨c', s', i', hs', hr', rfl, hn⟩ := hp
  exact hr s (h.role_of_inBitmap hs' hr' hs ⟨hin.1, by omega⟩ hx)

theorem storeWord_other (mem : Nat → Byte) {a x : Nat} (w : Word) (h : ¬ (a ≤ x ∧ x < a + 4)) :
    storeWord mem a w x = mem x := if_neg h

theorem fill_other (mem : Nat → Byte) {a n x : Nat} (v : Byte) (h : ¬ (a ≤ x ∧ x < a + n)) :
    fill mem a n v x = mem x := if_neg h

theorem SlabInv.writeTable (h : SlabInv g k) {table i : Nat} (ht : Holds g k .vm table 1024)
    (hi : i < 256) (w : Word) : SlabInv g (k.writeTable table i w) := by
  have h1 := h.writeHeld ht (by simp) (storeWord k.mem (table + 4 * i) w)
    fun x hx => storeWord_other _ _ (by omega)
  exact h1.sameLists rfl rfl

theorem Quiet.writeTable (k : Kernel) (table i : Nat) (w : Word) :
    Quiet k (k.writeTable table i w) :=
  (Quiet.setMem k _).trans (Quiet.setSpace _ _)

theorem Holds.later {r : Role} {p n : Nat} (h : Holds g k r p n) (hlater : Later g k g k1 q) :
    Holds g k1 r p n :=
  h.mono (fun _ _ hs => hs) (fun _ _ hr => hr) hlater.layout

theorem Holds.quiet {r : Role} {p n : Nat} (h : Holds g k r p n) (hq : Quiet k k1) :
    Holds g k1 r p n :=
  h.later (hq.later g (q := none))

/-- **Copying a page table**, an entry at a time. -/
theorem SlabInv.copyTable (h : SlabInv g k) {table : Nat} (ht : Holds g k .vm table 1024)
    (source : Nat → Word) {n : Nat} (hn : n ≤ 256) :
    SlabInv g (Kernel.copyTable source table n k) ∧
      Quiet k (Kernel.copyTable source table n k) := by
  induction n with
  | zero => exact ⟨h, .refl k⟩
  | succ n ih =>
      obtain ⟨h1, hq⟩ := ih (by omega)
      exact ⟨h1.writeTable (ht.quiet hq) (by omega) _, hq.trans (Quiet.writeTable _ table n _)⟩

/-! ## Requests -/

theorem requestLinkedListEntry_spec {calls : SlabCalls} (hcalls : calls.Ok) (h : SlabInv g k) :
    Ensures calls.requestLinkedListEntry (fun p k' => ∃ g', SlabInv g' k' ∧ Later g k g' k' ∧
      New g g' k' p sizeofLinkedList) NoEmptySlab k := by
  rw [SlabCalls.requestLinkedListEntry, ensures_bind, ensures_gets]
  have hc := h.caches.linkedlistCache
  refine (hcalls.alloc g k _ h hc.1).imp fun p k' hp => ?_
  obtain ⟨g', hg⟩ := hp
  refine ⟨g', hg.inv, hg.later, hg.toNew (.refl g k) ?_⟩
  rw [hg.later.layout.objSize hc.1, hc.2]

theorem requestCPT_spec {calls : SlabCalls} (hcalls : calls.Ok) (h : SlabInv g k) :
    Ensures calls.requestCPT (fun p k' => ∃ g', SlabInv g' k' ∧ Later g k g' k' ∧
      New g g' k' p 1024) NoEmptySlab k := by
  rw [SlabCalls.requestCPT, ensures_bind, ensures_gets]
  have hc := h.caches.cptCache
  refine (hcalls.alloc g k _ h hc.1).imp fun p k' hp => ?_
  obtain ⟨g', hg⟩ := hp
  refine ⟨g', hg.inv, hg.later, hg.toNew (.refl g k) ?_⟩
  rw [hg.later.layout.objSize hc.1, hc.2]

/-! ## A new page table -/

theorem SlabInv.writeEntry (h : SlabInv g k) {e : Nat} (he : Holds g k .vm e sizeofLinkedList)
    (list : Entries) (data : Nat) :
    SlabInv g (k.setMem (addLinkedListEntry k.mem list e data).1) := by
  refine h.writeHeld he (by simp) _ fun x hx => storeWord_other _ _ ?_
  unfold sizeofLinkedList at hx
  omega

/-- **An entry with its page table** joins `cpts`. -/
theorem SlabInv.addCpt (h : SlabInv g k) {e t : Nat} (he : Holds g k .vm e sizeofLinkedList)
    (ht : Holds g k .vm t 1024) (hne : t ≠ e) (he' : e ∉ vmObjects k.space)
    (ht' : t ∉ vmObjects k.space) :
    let k' := (k.setMem (addLinkedListEntry k.mem k.space.cpts e t).1).setSpace
      { k.space with cpts := (e, t) :: k.space.cpts }
    SlabInv g k' ∧ Quiet k k' := by
  have hvm := h.vm
  have hq := (Quiet.setMem k (addLinkedListEntry k.mem k.space.cpts e t).1).trans
    (Quiet.setSpace _ { k.space with cpts := (e, t) :: k.space.cpts })
  refine ⟨(h.writeEntry he k.space.cpts t).setSpace
    ⟨fun x hx => (hvm.cptds x hx).quiet hq, ?_, ?_, ?_⟩, hq⟩
  · intro x hx
    rcases List.mem_cons.mp hx with rfl | hx
    · exact he.quiet hq
    · exact (hvm.cpts x hx).quiet hq
  · intro x hx
    rcases List.mem_cons.mp hx with rfl | hx
    · exact ht.quiet hq
    · exact (hvm.tables x hx).quiet hq
  · have hnd := hvm.nodup
    unfold vmObjects at hnd he' ht'
    show (k.space.cptds.map Prod.fst
      ++ (e :: k.space.cpts.map Prod.fst ++ t :: k.space.cpts.map Prod.snd)).Nodup
    simp only [List.mem_append, not_or] at he' ht'
    rw [List.cons_append, List.nodup_middle, List.nodup_cons]
    refine ⟨?_, ?_⟩
    · simp only [List.mem_append, List.mem_cons, not_or]
      exact ⟨he'.1, he'.2.1, hne.symm, he'.2.2⟩
    · rw [← List.append_assoc, List.nodup_middle, List.nodup_cons, List.append_assoc]
      refine ⟨?_, hnd⟩
      simp only [List.mem_append, not_or]
      exact ⟨ht'.1, ht'.2.1, ht'.2.2⟩

/-- **An entry with its section** joins `cptds`. -/
theorem SlabInv.addCptd (h : SlabInv g k) {e : Nat} (sect : Nat)
    (he : Holds g k .vm e sizeofLinkedList) (he' : e ∉ vmObjects k.space) :
    let k' := (k.setMem (addLinkedListEntry k.mem k.space.cptds e sect).1).setSpace
      { k.space with cptds := (e, sect) :: k.space.cptds }
    SlabInv g k' ∧ Quiet k k' := by
  have hvm := h.vm
  have hq := (Quiet.setMem k (addLinkedListEntry k.mem k.space.cptds e sect).1).trans
    (Quiet.setSpace _ { k.space with cptds := (e, sect) :: k.space.cptds })
  refine ⟨(h.writeEntry he k.space.cptds sect).setSpace
    ⟨?_, fun x hx => (hvm.cpts x hx).quiet hq, fun x hx => (hvm.tables x hx).quiet hq,
      List.nodup_cons.mpr ⟨he', hvm.nodup⟩⟩, hq⟩
  intro x hx
  rcases List.mem_cons.mp hx with rfl | hx
  · exact he.quiet hq
  · exact (hvm.cptds x hx).quiet hq

/-- The second half of `addKernelCPT`: three objects in hand become a page table on the lists. -/
theorem listTable_spec {cptd cpt table : Nat} (h : SlabInv g k) (sect : Nat)
    (hcptd : Holds g k .vm cptd sizeofLinkedList) (hcpt : Holds g k .vm cpt sizeofLinkedList)
    (htable : Holds g k .vm table 1024) (hne : table ≠ cpt) (hne' : cptd ≠ cpt)
    (hne'' : cptd ≠ table) (hcptd' : cptd ∉ vmObjects k.space) (hcpt' : cpt ∉ vmObjects k.space)
    (htable' : table ∉ vmObjects k.space) :
    Ensures (do
      update (fun k => k.setMem (storeData k.mem cpt table))
      update (fun k => k.clearTable table)
      update (fun k =>
        let added := addLinkedListEntry k.mem k.space.cpts cpt table
        (k.setMem added.1).setSpace { k.space with cpts := added.2 })
      update (fun k =>
        let added := addLinkedListEntry k.mem k.space.cptds cptd sect
        (k.setMem added.1).setSpace { k.space with cptds := added.2 })
      pure table) (fun t k' => t = table ∧ SlabInv g k' ∧ Quiet k k') NoEmptySlab k := by
  simp only [ensures_bind, ensures_update, ensures_pure]
  -- the entry's data, then the cleared table
  have h1 := h.writeHeld hcpt (by simp) (storeData k.mem cpt table) fun x hx =>
    storeWord_other _ _ (by unfold sizeofLinkedList at hx; omega)
  have hq1 := Quiet.setMem k (storeData k.mem cpt table)
  have h2 : SlabInv g ((k.setMem (storeData k.mem cpt table)).clearTable table) :=
    (h1.writeHeld (htable.quiet hq1) (by simp) _ fun x hx => fill_other _ _ hx).sameLists rfl rfl
  have hq2 : Quiet k ((k.setMem (storeData k.mem cpt table)).clearTable table) :=
    hq1.trans ((Quiet.setMem _ _).trans (Quiet.setSpace _ _))
  -- the entry and the table join `cpts`, and the other entry `cptds`
  obtain ⟨h3, hq3⟩ := h2.addCpt (hcpt.quiet hq2) (htable.quiet hq2) hne hcpt' htable'
  have hcptd3 := hcptd.quiet (hq2.trans hq3)
  have hoff : cptd ∉ k.space.cptds.map Prod.fst
      ++ (cpt :: k.space.cpts.map Prod.fst ++ table :: k.space.cpts.map Prod.snd) := by
    simp only [vmObjects, List.mem_append, not_or] at hcptd'
    simp only [List.mem_append, List.mem_cons, not_or]
    exact ⟨hcptd'.1, ⟨hne', hcptd'.2.1⟩, hne'', hcptd'.2.2⟩
  obtain ⟨h4, hq4⟩ := h3.addCptd sect hcptd3 hoff
  exact ⟨trivial, h4, (hq2.trans hq3).trans hq4⟩

/-- **`addKernelCPT`**: the table it returns is one of the page tables. -/
theorem addKernelCPT_spec {calls : SlabCalls} (hcalls : calls.Ok) (h : SlabInv g k) (sect : Nat) :
    Ensures (addKernelCPT calls sect) (fun table k' => ∃ g', SlabInv g' k' ∧ Later g k g' k' ∧
      Holds g' k' .vm table 1024) NoEmptySlab k := by
  rw [addKernelCPT, ensures_bind]
  refine (requestLinkedListEntry_spec hcalls h).imp fun cptd k1 hk1 => ?_
  obtain ⟨g1, h1, hlater1, hcptd1⟩ := hk1
  rw [ensures_bind, ensures_update, ensures_bind]
  -- the entry is written before the others are requested
  have h1' := h1.writeHeld hcptd1.holds (by simp) (storeData k1.mem cptd sect) fun x hx =>
    storeWord_other _ _ (by unfold sizeofLinkedList at hx; omega)
  have hlater1' : Later g1 k1 g1 _ := (Quiet.setMem k1 (storeData k1.mem cptd sect)).later g1
  refine (requestLinkedListEntry_spec hcalls h1').imp fun cpt k2 hk2 => ?_
  obtain ⟨g2, h2, hlater2, hcpt2⟩ := hk2
  have hcptd2 := (hcptd1.later hlater1').later hlater2
  have hne2 : cpt ≠ cptd := hcpt2.ne h2 (hcptd1.later hlater1') hlater2
  rw [ensures_bind]
  refine (requestCPT_spec hcalls h2).imp fun table k3 hk3 => ?_
  obtain ⟨g3, h3, hlater3, htable3⟩ := hk3
  have hlater12 := (hlater1.trans hlater1').trans hlater2
  have hcptd3 := hcptd2.later hlater3
  have hcpt3 := (hcpt2.since (hlater1.trans hlater1')).later hlater3
  have hne3 : table ≠ cpt := htable3.ne h3 hcpt2 hlater3
  have hne3' : table ≠ cptd := htable3.ne h3 hcptd2 hlater3
  -- the three objects are the page tables' from here on
  obtain ⟨g4, h4, hlater4, htable4, hnew4, _, _⟩ :=
    (htable3.since hlater12).retag h3 (hlater12.trans hlater3) .vm
  obtain ⟨g5, h5, hlater5, hcpt5, hnew5, hheld5, _⟩ :=
    (hnew4 cpt _ hne3.symm hcpt3).retag h4 hlater4 .vm
  obtain ⟨g6, h6, hlater6, hcptd6, _, hheld6, _⟩ :=
    (hnew5 cptd _ hne2.symm (hnew4 cptd _ hne3'.symm hcptd3)).retag h5 hlater5 .vm
  refine (listTable_spec h6 sect hcptd6 (hheld6 _ _ _ hne2 hcpt5)
    (hheld6 _ _ _ hne3' (hheld5 _ _ _ hne3 htable4)) hne3 hne2.symm hne3'.symm
    (hcptd3.not_vm h3) (hcpt3.not_vm h3) (htable3.not_vm h3)).imp fun t k' hk' => ?_
  obtain ⟨rfl, h', hq⟩ := hk'
  exact ⟨g6, h', hlater6.trans (hq.later g6),
    (hheld6 _ _ _ hne3' (hheld5 _ _ _ hne3 htable4)).quiet hq⟩

/-! ## A page table given up -/

/-- The entries left are the others, in their order. -/
theorem removeLinkedListEntry_list {e : Nat} {m : Nat → Byte} : ∀ {list : Entries},
    (list.map Prod.fst).Nodup →
    (removeLinkedListEntry e m list).2 = list.filter (fun x => x.1 ≠ e)
  | [], _ => rfl
  | [x], _ => by
      rw [removeLinkedListEntry]
      by_cases hx : x.1 = e
      · simp [hx]
      · simp [hx]
  | x :: y :: rest, hnd => by
      rw [removeLinkedListEntry]
      have hnd' : ((y :: rest).map Prod.fst).Nodup := (List.nodup_cons.mp hnd).2
      have hxs : x.1 ∉ (y :: rest).map Prod.fst := (List.nodup_cons.mp hnd).1
      have hkeep : ∀ l : Entries, e ∉ l.map Prod.fst → l.filter (fun z => z.1 ≠ e) = l := by
        intro l hl
        refine List.filter_eq_self.mpr fun z hz => ?_
        simp only [ne_eq, decide_eq_true_eq]
        intro heq
        subst heq
        exact hl (List.mem_map_of_mem hz)
      by_cases hx : x.1 = e
      · rw [if_pos hx, List.filter_cons_of_neg (by simp [hx]), hkeep _ (hx ▸ hxs)]
      · rw [if_neg hx, List.filter_cons_of_pos (by simp [hx])]
        by_cases hy : y.1 = e
        · rw [if_pos hy, List.filter_cons_of_neg (by simp [hy]),
            hkeep _ (hy ▸ (List.nodup_cons.mp hnd').1)]
        · rw [if_neg hy, ← removeLinkedListEntry_list hnd']

/-- Only entries are written to. -/
theorem removeLinkedListEntry_mem {e x : Nat} : ∀ {mem : Nat → Byte} {list : Entries},
    (∀ y ∈ list, ¬ (y.1 ≤ x ∧ x < y.1 + sizeofLinkedList)) →
    (removeLinkedListEntry e mem list).1 x = mem x
  | _, [], _ => rfl
  | mem, [y], _ => by
      rw [removeLinkedListEntry]
      split <;> rfl
  | mem, y :: z :: rest, hx => by
      rw [removeLinkedListEntry]
      split
      · rfl
      · split
        · refine storeWord_other _ _ ?_
          have hy := hx y (List.mem_cons_self ..)
          unfold sizeofLinkedList at hy
          omega
        · exact removeLinkedListEntry_mem fun w hw => hx w (List.mem_cons_of_mem _ hw)

theorem VmOk.sublists (h : VmOk g k) (hq : Quiet k k')
    (hcptds : k'.space.cptds.Sublist k.space.cptds) (hcpts : k'.space.cpts.Sublist k.space.cpts) :
    VmOk g k' where
  cptds e he := (h.cptds e (hcptds.subset he)).quiet hq
  cpts e he := (h.cpts e (hcpts.subset he)).quiet hq
  tables e he := (h.tables e (hcpts.subset he)).quiet hq
  nodup := h.nodup.sublist ((hcptds.map _).append ((hcpts.map _).append (hcpts.map _)))

/-- Bytes of list entries are no used bits. -/
theorem SlabInv.writeEntries (h : SlabInv g k) {list : Entries}
    (hl : ∀ e ∈ list, Holds g k .vm e.1 sizeofLinkedList) (e : Nat) :
    SlabInv g (k.setMem (removeLinkedListEntry e k.mem list).1) := by
  refine h.setMem fun c s x hs hx => removeLinkedListEntry_mem fun y hy hin => ?_
  obtain ⟨c', s', i', hs', hr', haddr, hn⟩ := hl y hy
  have hrole := h.role_of_inBitmap hs' hr' hs ⟨by omega, by omega⟩ hx
  exact absurd hrole (by simp)

theorem removeCptd_spec (h : SlabInv g k) (e : Nat) :
    Ensures (update fun k =>
      let removed := removeLinkedListEntry e k.mem k.space.cptds
      (k.setMem removed.1).setSpace { k.space with cptds := removed.2 })
    (fun _ k' => SlabInv g k' ∧ Quiet k k' ∧ k'.space.cpts = k.space.cpts ∧
      k'.space.cptds = k.space.cptds.filter (fun x => x.1 ≠ e)) NoEmptySlab k := by
  have hlist := removeLinkedListEntry_list (e := e) (m := k.mem) h.vm.nodup.of_append_left
  have hq := (Quiet.setMem k (removeLinkedListEntry e k.mem k.space.cptds).1).trans
    (Quiet.setSpace _ { k.space with cptds := (removeLinkedListEntry e k.mem k.space.cptds).2 })
  refine ⟨(h.writeEntries h.vm.cptds e).setSpace (h.vm.sublists hq ?_ (.refl _)), hq, rfl, hlist⟩
  show (removeLinkedListEntry e k.mem k.space.cptds).2.Sublist _
  rw [hlist]
  exact List.filter_sublist

theorem removeCpt_spec (h : SlabInv g k) (e : Nat) :
    Ensures (update fun k =>
      let removed := removeLinkedListEntry e k.mem k.space.cpts
      (k.setMem removed.1).setSpace { k.space with cpts := removed.2 })
    (fun _ k' => SlabInv g k' ∧ Quiet k k' ∧ k'.space.cptds = k.space.cptds ∧
      k'.space.cpts = k.space.cpts.filter (fun x => x.1 ≠ e)) NoEmptySlab k := by
  have hlist := removeLinkedListEntry_list (e := e) (m := k.mem)
    h.vm.nodup.of_append_right.of_append_left
  have hq := (Quiet.setMem k (removeLinkedListEntry e k.mem k.space.cpts).1).trans
    (Quiet.setSpace _ { k.space with cpts := (removeLinkedListEntry e k.mem k.space.cpts).2 })
  refine ⟨(h.writeEntries h.vm.cpts e).setSpace (h.vm.sublists hq (.refl _) ?_), hq, rfl, hlist⟩
  show (removeLinkedListEntry e k.mem k.space.cpts).2.Sublist _
  rw [hlist]
  exact List.filter_sublist

theorem filter_map_notMem {list : Entries} {e d : Nat} (hmem : (e, d) ∈ list)
    (hnd : (list.map Prod.snd).Nodup) : d ∉ (list.filter (fun x => x.1 ≠ e)).map Prod.snd := by
  intro hd
  obtain ⟨y, hy, hyd⟩ := List.mem_map.mp hd
  obtain ⟨hy, hne⟩ := List.mem_filter.mp hy
  have hye : y = (e, d) := List.inj_on_of_nodup_map hnd hy hmem hyd
  rw [hye] at hne
  simp at hne

theorem filter_map_fst_notMem (list : Entries) (e : Nat) :
    e ∉ (list.filter (fun x => x.1 ≠ e)).map Prod.fst := by
  intro he
  obtain ⟨y, hy, rfl⟩ := List.mem_map.mp he
  have hne := (List.mem_filter.mp hy).2
  simp at hne

/-- What is off one part of the lists stays off when entries are taken out. -/
theorem notMem_filter_map {list : Entries} {e x : Nat} {f : Nat × Nat → Nat}
    (hx : x ∉ list.map f) : x ∉ (list.filter (fun y => y.1 ≠ e)).map f :=
  fun hx' => hx ((List.filter_sublist.map f).subset hx')

/-- **A page table off the lists is forgotten**: it is in no object with a role any more. -/
theorem SlabInv.forget (h : SlabInv g k) {p n : Nat} (hp : Holds g k .vm p n)
    (hoff : p ∉ vmObjects k.space) : ∃ g1, SlabInv g1 k ∧ Later g k g1 k ∧ g1.Unheld k p ∧
      (∀ p', g.Unheld k p' → g1.Unheld k p') ∧
      (∀ r p' n', p' ≠ p → Holds g k r p' n' → Holds g1 k r p' n') := by
  obtain ⟨c, s, i, hs, hr, rfl, _⟩ := hp
  have hother : ∀ s' i', ¬ (s' = s ∧ i' = i) → (g.setRole s i none).role s' i' = g.role s' i' :=
    fun s' i' hne => g.setRole_other _ hne
  -- every other object keeps its role
  have hslot : ∀ c' s' i' r, g.Has c' s' → (g.setRole s i none).role s' i' = some r →
      g.role s' i' = some r ∧ ¬ (s' = s ∧ i' = i) := by
    intro c' s' i' r hs' hr'
    by_cases hsame : s' = s ∧ i' = i
    · obtain ⟨rfl, rfl⟩ := hsame
      rw [g.setRole_self] at hr'
      exact absurd hr' (by simp)
    · exact ⟨(hother s' i' hsame).symm.trans hr', hsame⟩
  have h1 := h.setRole hs hr (r := none) (by simp) (h.not_owned_vm hs hr hoff)
  refine ⟨g.setRole s i none, h1, ?_, ?_, ?_, ?_⟩
  · refine ⟨rfl, .refl k, fun _ _ hs => hs, ?_, .refl g k, Nat.le_refl _,
      fun _ _ hs hno => absurd hs hno, fun _ _ _ => rfl, id⟩
    intro s' i' r hr' hne
    refine (hother s' i' ?_).trans hr'
    intro hgiven
    obtain ⟨rfl, rfl⟩ := hgiven
    rw [hr] at hr'
    exact hne (Option.some.inj hr').symm
  · intro c' s' i' r hs' hr' hx
    obtain ⟨hr2, hne⟩ := hslot c' s' i' r hs' hr'
    exact hne (h.objects_unique hs' hs (h.role_count hs' hr2) (h.role_count hs hr) hx
      (h.layout.inObject_self hs))
  · intro p' hp' c' s' i' r hs' hr'
    exact hp' c' s' i' r hs' (hslot c' s' i' r hs' hr').1
  · intro r p' n' hne hp'
    obtain ⟨c', s', i', hs', hr', rfl, hn'⟩ := hp'
    refine ⟨c', s', i', hs', (hother s' i' ?_).trans hr', rfl, hn'⟩
    intro hgiven
    obtain ⟨rfl, rfl⟩ := hgiven
    obtain rfl := h.lists.owner c c' s' hs hs'
    exact hne rfl

theorem Shape.Unheld.later {p : Nat} (hp : g.Unheld k p) (h : SlabInv g k) (h1 : SlabInv g1 k1)
    (hlater : Later g k g1 k1) (hrole : g1.role = g.role) : g1.Unheld k1 p := by
  intro c s i r hs hr hx
  rw [hrole] at hr
  obtain ⟨c', hs', _, _⟩ := h.uses.used s i r hr
  obtain rfl := h1.lists.owner c' c s (hlater.has c' s hs') hs
  exact hp c' s i r hs' hr ((hlater.layout.inObject hs').mp hx)

theorem freeCPT_spec {calls : SlabCalls} (hcalls : calls.Ok) (h : SlabInv g k) {p : Nat}
    (hp : g.Unheld k p) :
    Ensures (calls.freeCPT p) (fun _ k' => ∃ g', SlabInv g' k' ∧ Later g k g' k' ∧
      g'.role = g.role) NoEmptySlab k := by
  rw [SlabCalls.freeCPT, ensures_bind, ensures_gets, ensures_bind]
  exact (hcalls.free g k _ p h h.caches.cptCache.1 hp).imp fun _ _ hk => hk.2

theorem freeLinkedListEntry_spec {calls : SlabCalls} (hcalls : calls.Ok) (h : SlabInv g k)
    {p : Nat} (hp : g.Unheld k p) :
    Ensures (calls.freeLinkedListEntry p) (fun _ k' => ∃ g', SlabInv g' k' ∧ Later g k g' k' ∧
      g'.role = g.role) NoEmptySlab k := by
  rw [SlabCalls.freeLinkedListEntry, ensures_bind, ensures_gets, ensures_bind]
  exact (hcalls.free g k _ p h h.caches.linkedlistCache.1 hp).imp fun _ _ hk => hk.2

theorem searchLinkedListEntry_some {list : Entries} {data e i : Nat}
    (h : searchLinkedListEntry list data = some (e, i)) : list[i]? = some (e, data) := by
  unfold searchLinkedListEntry at h
  cases hi : list.findIdx? (fun e => e.2 == data) with
  | none => simp [hi] at h
  | some j =>
      rw [hi] at h
      obtain ⟨x, hx, hxe⟩ := Option.map_eq_some_iff.mp h
      obtain ⟨rfl, rfl⟩ := Prod.mk.inj hxe
      obtain ⟨hj, hdata, _⟩ := List.findIdx?_eq_some_iff_getElem.mp hi
      rw [List.getElem?_eq_getElem hj] at hx
      rw [Option.some.inj hx] at hdata
      rw [List.getElem?_eq_getElem hj, Option.some.inj hx, ← beq_iff_eq.mp hdata]

/-- **`dropKernelCPT`** takes the table off the lists before it frees the objects. -/
theorem dropKernelCPT_spec {calls : SlabCalls} (hcalls : calls.Ok) (h : SlabInv g k) (sect : Nat) :
    Ensures (dropKernelCPT calls sect) (fun _ => Keeps g k) NoEmptySlab k := by
  rw [dropKernelCPT, ensures_bind, ensures_gets]
  cases hsearch : searchLinkedListEntry k.space.cptds sect with
  | none => exact ⟨g, h, .refl g k⟩
  | some found =>
      obtain ⟨cptd, index⟩ := found
      have hcptd : (cptd, sect) ∈ k.space.cptds :=
        List.mem_of_getElem? (searchLinkedListEntry_some hsearch)
      cases hcpts : k.space.cpts[index]? with
      | none =>
          simp only [hcpts]
          exact fun _ => by simp
      | some cpt =>
          obtain ⟨cpt, table⟩ := cpt
          have hcpt : (cpt, table) ∈ k.space.cpts := List.mem_of_getElem? hcpts
          simp only [hcpts]
          rw [ensures_bind]
          refine (removeCptd_spec h cptd).imp fun _ k1 hk1 => ?_
          obtain ⟨h1, hq1, hcpts1, hcptds1⟩ := hk1
          rw [ensures_bind]
          refine (removeCpt_spec h1 cpt).imp fun _ k2 hk2 => ?_
          obtain ⟨h2, hq2, hcptds2, hcpts2⟩ := hk2
          rw [hcpts1] at hcpts2
          rw [hcptds1] at hcptds2
          -- none of the three is on the lists any more
          have hnd := h.vm.nodup
          unfold vmObjects at hnd
          obtain ⟨_, hrest, hdisj⟩ := List.nodup_append'.mp hnd
          obtain ⟨_, htables, hdisj'⟩ := List.nodup_append'.mp hrest
          have hcptdA : cptd ∈ k.space.cptds.map Prod.fst := List.mem_map_of_mem hcptd
          have hcptB : cpt ∈ k.space.cpts.map Prod.fst := List.mem_map_of_mem hcpt
          have htableC : table ∈ k.space.cpts.map Prod.snd := List.mem_map_of_mem hcpt
          have hvm2 : ∀ p, (p ∉ (k.space.cptds.filter (fun x => x.1 ≠ cptd)).map Prod.fst) →
              (p ∉ (k.space.cpts.filter (fun x => x.1 ≠ cpt)).map Prod.fst) →
              (p ∉ (k.space.cpts.filter (fun x => x.1 ≠ cpt)).map Prod.snd) →
              p ∉ vmObjects k2.space := by
            intro p hA hB hC
            unfold vmObjects
            rw [hcpts2, hcptds2]
            simp only [List.mem_append, not_or]
            exact ⟨hA, hB, hC⟩
          have htable2 := hvm2 table
            (notMem_filter_map fun hA => hdisj hA (List.mem_append_right _ htableC))
            (notMem_filter_map fun hB => hdisj' hB htableC) (filter_map_notMem hcpt htables)
          have hcpt2 := hvm2 cpt
            (notMem_filter_map fun hA => hdisj hA (List.mem_append_left _ hcptB))
            (filter_map_fst_notMem _ cpt) (notMem_filter_map fun hC => hdisj' hcptB hC)
          have hcptd2 := hvm2 cptd (filter_map_fst_notMem _ cptd)
            (notMem_filter_map fun hB => hdisj hcptdA (List.mem_append_left _ hB))
            (notMem_filter_map fun hC => hdisj hcptdA (List.mem_append_right _ hC))
          have hq := hq1.trans hq2
          obtain ⟨g3, h3, hl3, hun3, _, hheld3⟩ :=
            h2.forget ((h.vm.tables _ hcpt).quiet hq) htable2
          obtain ⟨g4, h4, hl4, hun4, hkeep4, hheld4⟩ := h3.forget
            (hheld3 _ cpt _ (fun he => hdisj' hcptB (he ▸ htableC)) ((h.vm.cpts _ hcpt).quiet hq))
            hcpt2
          obtain ⟨g5, h5, hl5, hun5, hkeep5, _⟩ := h4.forget
            (hheld4 _ cptd _ (fun he => hdisj hcptdA (List.mem_append_left _ (he ▸ hcptB)))
              (hheld3 _ cptd _ (fun he => hdisj hcptdA (List.mem_append_right _ (he ▸ htableC)))
                ((h.vm.cptds _ hcptd).quiet hq))) hcptd2
          have hlater : Later g k g5 k2 := (((hq.later g).trans hl3).trans hl4).trans hl5
          -- three frees, none of which touches an object with a role
          rw [ensures_bind]
          refine (freeCPT_spec hcalls h5 (hkeep5 _ (hkeep4 _ hun3))).imp fun _ k6 hk6 => ?_
          obtain ⟨g6, h6, hl6, hrole6⟩ := hk6
          rw [ensures_bind]
          refine (freeLinkedListEntry_spec hcalls h6
            ((hkeep5 _ hun4).later h5 h6 hl6 hrole6)).imp fun _ k7 hk7 => ?_
          obtain ⟨g7, h7, hl7, hrole7⟩ := hk7
          refine (freeLinkedListEntry_spec hcalls h7
            ((hun5.later h5 h6 hl6 hrole6).later h6 h7 hl7 hrole7)).imp fun _ k8 hk8 => ?_
          obtain ⟨g8, h8, hl8, _⟩ := hk8
          exact ⟨g8, h8, ((hlater.trans hl6).trans hl7).trans hl8⟩

/-! ## Mapping -/

theorem SlabInv.writeTt (h : SlabInv g k) (index : Nat) (w : Word) :
    SlabInv g (k.writeTt index w) := h.sameLists rfl rfl

theorem Quiet.writeTt (k : Kernel) (index : Nat) (w : Word) : Quiet k (k.writeTt index w) :=
  Quiet.setSpace k _

/-- **`migrateKernelCPT` keeps the invariant.** -/
theorem migrateKernelCPT_spec {calls : SlabCalls} (hcalls : calls.Ok) (h : SlabInv g k)
    (sect : Nat) (source : Nat → Word) (pages : Nat) :
    Ensures (migrateKernelCPT calls sect source pages) (fun _ => Keeps g k) NoEmptySlab k := by
  have hpages : (if pages > 256 then 256 else pages) ≤ 256 := by
    split
    · exact Nat.le_refl _
    · omega
  rw [migrateKernelCPT, ensures_bind]
  refine (dropKernelCPT_spec hcalls h _).imp fun _ k1 hk1 => ?_
  obtain ⟨g1, h1, hlater1⟩ := hk1
  rw [ensures_bind]
  refine (addKernelCPT_spec hcalls h1 _).imp fun table k2 hk2 => ?_
  obtain ⟨g2, h2, hlater2, htable⟩ := hk2
  obtain ⟨h3, hq3⟩ := h2.copyTable htable source hpages
  rw [ensures_bind, ensures_update, ensures_update]
  exact ⟨g2, h3.writeTt _ _,
    (hlater1.trans hlater2).trans ((hq3.trans (Quiet.setSpace _ _)).later g2)⟩

/-- A page's entry is one of the 256 of its section's table. -/
theorem tableIndex_lt (address : Nat) : (address - sectionOf address) / smallPageSize < 256 := by
  unfold sectionOf smallPageSize
  omega

/-- **`addVirtualKernelPage` keeps the invariant.** -/
theorem addVirtualKernelPage_spec {calls : SlabCalls} (hcalls : calls.Ok) (h : SlabInv g k)
    (c b : Byte) (page address : Nat) :
    Ensures (addVirtualKernelPage calls c b page address) (fun _ => Keeps g k) NoEmptySlab k := by
  have hindex := tableIndex_lt address
  rw [addVirtualKernelPage, ensures_bind, ensures_gets]
  cases hsearch : searchLinkedListEntry k.space.cptds (sectionOf address) with
  | none =>
      simp only [ensures_bind, ensures_update]
      refine (addKernelCPT_spec hcalls h _).imp fun table k1 hk1 => ?_
      obtain ⟨g1, h1, hlater1, htable⟩ := hk1
      have h2 := h1.writeTt (sectionOf address / 0x100000)
        (newCPTD 0 (BitVec.ofNat 32 (k1.physical table)))
      have hq2 := Quiet.writeTt k1 (sectionOf address / 0x100000)
        (newCPTD 0 (BitVec.ofNat 32 (k1.physical table)))
      have h3 := h2.writeTable (htable.quiet hq2) hindex
        (newSPD c b 0b01010101#8 (BitVec.ofNat 32 page))
      refine ⟨g1, h3.sameLists rfl rfl, hlater1.trans ?_⟩
      exact ((hq2.trans (Quiet.writeTable _ _ _ _)).trans (Quiet.setSpace _ _)).later g1
  | some found =>
      obtain ⟨e, i⟩ := found
      cases hcpts : k.space.cpts[i]? with
      | none =>
          simp only [hcpts]
          exact fun _ => by simp
      | some cpt =>
          simp only [hcpts]
          rw [ensures_update]
          have htable := h.vm.tables cpt (List.mem_of_getElem? hcpts)
          exact ⟨g, h.writeTable htable hindex _, (Quiet.writeTable _ _ _ _).later g⟩

/-- A table that `getKernelCPT` finds is one of the page tables. -/
theorem getKernelCPT_spec (h : SlabInv g k) (address : Nat) :
    Ensures (getKernelCPT address)
      (fun table k' => k' = k ∧ (table ≠ 0 → Holds g k .vm table 1024)) NoEmptySlab k := by
  rw [getKernelCPT, ensures_bind, ensures_gets]
  cases hsearch : searchLinkedListEntry k.space.cptds (sectionOf address) with
  | none => exact ⟨rfl, fun hne => absurd rfl hne⟩
  | some found =>
      obtain ⟨e, i⟩ := found
      cases hcpts : k.space.cpts[i]? with
      | none =>
          simp only [hcpts]
          exact fun _ => by simp
      | some cpt =>
          simp only [hcpts]
          exact ⟨rfl, fun _ => h.vm.tables cpt (List.mem_of_getElem? hcpts)⟩

/-- What the functions that map a page before it is tracked leave as it is. -/
def Unlisted (g : Shape) (k k' : Kernel) : Prop := SlabInv g k' ∧ Quiet k k'

theorem Unlisted.refl (h : SlabInv g k) : Unlisted g k k := ⟨h, .refl k⟩

theorem Unlisted.trans (h : Unlisted g k k1) (h' : Unlisted g k1 k2) : Unlisted g k k2 :=
  ⟨h'.1, h.2.trans h'.2⟩

/-- A stray read is only logged. -/
theorem readUnshifted_spec (env : Env) (h : SlabInv g k) (va sect : Nat) :
    Ensures (readUnshifted env va sect) (fun _ => Unlisted g k) NoEmptySlab k := by
  rw [readUnshifted]
  refine ensures_ite (fun _ => Unlisted.refl h) fun _ => ?_
  rw [ensures_bind, ensures_update, ensures_bind, ensures_gets]
  have h1 : Unlisted g k { k with strays := va :: k.strays } :=
    ⟨h.elsewhere rfl (fun _ _ _ => rfl) (fun _ _ => rfl) ⟨rfl, rfl, rfl, rfl, rfl, rfl, rfl⟩ rfl rfl
      (Nat.le_refl _) id fun hl => h.vm.carry (fun _ _ hs => hs) (fun _ _ hr => hr) hl rfl,
      ⟨rfl, rfl, ⟨rfl, rfl, rfl, rfl, rfl, rfl, rfl⟩, rfl, id⟩⟩
  split
  · exact fun _ => by simp
  · exact h1
  · exact h1

/-- **`addUnlistedKernelPage`** writes to page tables only. -/
theorem addUnlistedKernelPage_spec (env : Env) (h : SlabInv g k) (cb : Byte) (page va : Nat) :
    Ensures (addUnlistedKernelPage env cb page va) (fun _ => Unlisted g k) NoEmptySlab k := by
  rw [addUnlistedKernelPage, ensures_bind]
  refine (getKernelCPT_spec h va).imp fun table k1 hk1 => ?_
  obtain ⟨rfl, htable⟩ := hk1
  refine ensures_ite (fun hne => ?_) fun _ => ?_
  · rw [ensures_bind, ensures_update]
    exact ⟨h.writeTable (htable hne) (tableIndex_lt va) _, Quiet.writeTable _ _ _ _⟩
  · rw [ensures_bind]
    refine (readUnshifted_spec env h va _).imp fun coarse k2 hk2 => ?_
    refine ensures_ite (fun _ => hk2) fun _ => ?_
    rw [ensures_bind, ensures_gets]
    refine ensures_ite (fun _ _ => by simp) fun _ => ?_
    refine ensures_ite (fun _ => ?_) fun _ => hk2
    rw [ensures_bind, ensures_update]
    exact hk2.trans ⟨hk2.1.writeTt _ _, Quiet.writeTt _ _ _⟩

theorem addUnlistedKernelPages_spec (env : Env) (cb : Byte) (page va : Nat) (n : Nat) :
    ∀ {k : Kernel} (i : Nat), SlabInv g k →
      Ensures (addUnlistedKernelPages env cb page va i n) (fun _ => Unlisted g k) NoEmptySlab k := by
  induction n with
  | zero =>
      intro k i h
      exact Unlisted.refl h
  | succ n ih =>
      intro k i h
      rw [addUnlistedKernelPages, ensures_bind]
      refine (addUnlistedKernelPage_spec env h cb _ _).imp fun cpt k1 hk1 => ?_
      rw [ensures_bind]
      refine (ih (i + 1) hk1.1).imp fun cpts k2 hk2 => ?_
      exact hk1.trans hk2

theorem trackKernelPage_spec {calls : SlabCalls} (hcalls : calls.Ok) (h : SlabInv g k) (cb : Byte)
    (cpt : Option (Nat → Word)) (sect page va : Nat) :
    Ensures (trackKernelPage calls cb cpt sect page va) (fun _ => Keeps g k) NoEmptySlab k := by
  cases cpt with
  | some cpt => exact migrateKernelCPT_spec hcalls h sect cpt 256
  | none => exact addVirtualKernelPage_spec hcalls h cb cb page va

end

end OSExt.Memory
