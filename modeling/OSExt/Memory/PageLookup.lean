import OSExt.Memory.SharedMappings

/-!
# What mapping a page does to lookups

The tables on an address space's lists are its own: each is named by the entry of
one section and by no other. A page mapped into one of them, or into a fresh table
that gets the entry of an empty section, is found at its address, and **every other
lookup is what it was** when the call had made its requests.

A request can make a cache grow, and growing maps heap pages; that is the only way
in which a call changes the lookup of another address.
-/

namespace OSExt.Memory

open Lib

namespace Spaces

/-- `getPhysicalAddress(space, address)` -/
def lookup (s : Spaces) (space : AddressSpace) (address : Word) : Word :=
  getPhysicalAddress space.tt s.pageTable address

/-- The translation table of an address space over the page tables in memory. -/
def walk (s : Spaces) (space : AddressSpace) : TwoLevel Nat Nat (Fin 256) Word Word :=
  pageWalk space.tt s.pageTable

/-- The block of physical memory a page table is in. -/
def block (s : Spaces) (table : Nat) : Nat := (s.physical table).toNat / 1024

/-- A page table as it is in the translation table of `space`: under `sect` only. -/
structure IsTable (s : Spaces) (space : AddressSpace) (sect table : Nat) : Prop where
  aligned : (s.physical table).toNat % 1024 = 0
  entry : space.tt (sect / sectionSize) = newCPTD 0 (s.physical table)
  only : (s.walk space).Only (sect / sectionSize) (s.block table)

/-- **The two lists of an address space are parallel**: at each place of the one is a section, at
the same place of the other the page table that the section's entry names. -/
structure Parallel (s : Spaces) (space : AddressSpace) : Prop where
  length : space.cptds.length = space.cpts.length
  aligned : ∀ d ∈ space.cptds, d.2 % sectionSize = 0
  distinct : (space.cptds.map Prod.snd).Nodup
  entries : ∀ (i : Nat) (cptd cpt : Nat × Nat), space.cptds[i]? = some cptd →
    space.cpts[i]? = some cpt → space.tt (cptd.2 / sectionSize) = newCPTD 0 (s.physical cpt.2)

/-- The lists of an address space agree with its translation table: each table is that of one
section. -/
structure Agrees (s : Spaces) (space : AddressSpace) : Prop extends s.Parallel space where
  tables : ∀ c ∈ space.cpts, (s.physical c.2).toNat % 1024 = 0
  only : ∀ (i : Nat) (cptd cpt : Nat × Nat), space.cptds[i]? = some cptd →
    space.cpts[i]? = some cpt → (s.walk space).Only (cptd.2 / sectionSize) (s.block cpt.2)

/-- A page table just requested: it is mapped, and no translation table names it. -/
structure FreshTable (s : Spaces) (space : AddressSpace) (table : Nat) : Prop where
  mapped : s.physical table ≠ 0
  aligned : (s.physical table).toNat % 1024 = 0
  kernel : (s.walk s.kernel).Fresh (s.block table)
  own : (s.walk space).Fresh (s.block table)

/-! ## Writes as writes of the walk -/

section

variable {s : Spaces} {space : AddressSpace} {table : Nat} {new : NewTable}

theorem lookup_eq (s : Spaces) (space : AddressSpace) (x : Word) :
    s.lookup space x = resolve x ((s.walk space).lookup (sectionIndex x) (pageIndex x)) :=
  getPhysicalAddress_eq _ _ x

theorem physical_eq (s : Spaces) (table : Nat) :
    s.physical table = s.lookup s.kernel (BitVec.ofNat 32 table) := rfl

theorem block_mul (h : (s.physical table).toNat % 1024 = 0) :
    1024 * s.block table = (s.physical table).toNat := by
  unfold block
  omega

theorem walk_writeTable (h : (s.physical table).toNat % 1024 = 0) (tt : Nat → Word) (j : Fin 256)
    (w : Word) : pageWalk tt (s.writeTable table j.val w).pageTable =
      (pageWalk tt s.pageTable).write (s.block table) j w := by
  rw [← pageWalk_update, block_mul h]
  rfl

theorem walk_clearTable (h : (s.physical table).toNat % 1024 = 0) (tt : Nat → Word) :
    pageWalk tt (s.clearTable table).pageTable =
      (pageWalk tt s.pageTable).fill (s.block table) fun _ => 0 := by
  have hmul := block_mul h
  refine pageWalk_fill _ _ (fun j => ?_) fun a ha => ?_
  · have hj := j.isLt
    exact if_pos ⟨by omega, by omega⟩
  · rw [hmul] at ha
    exact if_neg ha

/-- The index into the table, as the writer computes it. -/
theorem tableIndex_eq (va : Word) :
    (va.toNat - sectionOf va.toNat) / smallPageSize = (pageIndex va).val := by
  show (va.toNat - va.toNat / 0x100000 * 0x100000) / 4096 = va.toNat / 4096 % 256
  omega

/-- The two indices name a page. -/
theorem samePage_iff (x va : Word) : x.toNat / smallPageSize = va.toNat / smallPageSize ↔
    sectionIndex x = sectionOf va.toNat / sectionSize ∧ pageIndex x = pageIndex va := by
  rw [sectionOf_div, Fin.ext_iff]
  show x.toNat / 4096 = va.toNat / 4096 ↔ x.toNat / 0x100000 = va.toNat / 0x100000 ∧
    x.toNat / 4096 % 256 = va.toNat / 4096 % 256
  omega

theorem IsTable.owned {sect : Nat} (h : s.IsTable space sect table) :
    (s.walk space).Owned (sect / sectionSize) (s.block table) where
  dir := by
    have hlow := newCPTD_low 0 (s.physical table)
    have hcoarse := (and_three (newCPTD 0 (s.physical table)) 1 (by omega)).mpr hlow
    show (if space.tt _ &&& 0b11#32 = 0b01#32 then _ else _) = _
    rw [h.entry, if_pos hcoarse, newCPTD_table]
    rfl
  only := h.only

/-- Writes into memory that the kernel's table does not name move no object. -/
theorem physical_clearTable (h : s.FreshTable space table) (x : Nat) :
    (s.clearTable table).physical x = s.physical x := by
  have hwalk := walk_clearTable h.aligned s.kernel.tt
  have hfresh := TwoLevel.lookup_fill_fresh h.kernel fun _ => (0 : Word)
  rw [physical_eq, physical_eq, lookup_eq, lookup_eq]
  show resolve _ ((pageWalk s.kernel.tt (s.clearTable table).pageTable).lookup _ _) = _
  rw [hwalk]
  exact congrArg (resolve _) (congrFun (congrFun hfresh _) _)

/-! ## Lookups afterwards -/

/-- Lookups `f` with the page at `va`'s page. -/
def mapped (f : Word → Word) (page va x : Word) : Word :=
  if x.toNat / smallPageSize = va.toNat / smallPageSize then
    page + BitVec.ofNat 32 (x.toNat % smallPageSize)
  else f x

theorem offset_eq (x : Word) : x &&& 0xfff#32 = BitVec.ofNat 32 (x.toNat % smallPageSize) := by
  rw [← BitVec.toNat_inj, show (0xfff#32 : Word) = BitVec.ofNat 32 (2 ^ 12 - 1) from rfl,
    toNat_and_mask x (by omega), BitVec.toNat_ofNat]
  unfold smallPageSize
  omega

/-- An entry written into a listed table: the lookup of its page is what the entry says. -/
theorem lookup_writeEntry {va : Word} (h : s.IsTable space (sectionOf va.toNat) table) (w x : Word) :
    (s.writeTable table ((va.toNat - sectionOf va.toNat) / smallPageSize) w).lookup space x =
      if x.toNat / smallPageSize = va.toNat / smallPageSize then resolve x (.inr w)
      else s.lookup space x := by
  rw [tableIndex_eq, lookup_eq]
  show resolve x ((pageWalk space.tt _).lookup _ _) = _
  rw [walk_writeTable h.aligned]
  have howned := TwoLevel.lookup_write_owned h.owned (sectionIndex x) (pageIndex va)
    (pageIndex x) w
  refine (congrArg (resolve x) howned).trans ?_
  by_cases hx : x.toNat / smallPageSize = va.toNat / smallPageSize
  · rw [if_pos hx, if_pos ((samePage_iff x va).mp hx)]
  · rw [if_neg hx, if_neg (fun hc => hx ((samePage_iff x va).mpr hc)), lookup_eq]

/-- **A page mapped in a listed table**: the lookup of its page, and no other, changes. -/
theorem lookup_writeTable {va page : Word} (c b ap : Byte)
    (h : s.IsTable space (sectionOf va.toNat) table) (hpage : page.toNat % smallPageSize = 0)
    (x : Word) : (s.writeTable table ((va.toNat - sectionOf va.toNat) / smallPageSize)
        (newSPD c b ap page)).lookup space x = mapped (s.lookup space) page va x := by
  rw [lookup_writeEntry h, mapped, resolve_newSPD c b ap hpage, offset_eq]

/-- The section of `va` has no descriptor. -/
def NoDescriptor (space : AddressSpace) (va : Word) : Prop :=
  space.tt (sectionOf va.toNat / sectionSize) &&& 0b11#32 = 0b0#32

/-- All of an empty section is unmapped. -/
theorem lookup_noDescriptor {va : Word} (h : NoDescriptor space va) {x : Word}
    (hx : sectionIndex x = sectionOf va.toNat / sectionSize) : s.lookup space x = 0 := by
  have hdir : (s.walk space).dir (sectionIndex x) =
      .inl (space.tt (sectionOf va.toNat / sectionSize)) := by
    show (if space.tt (sectionIndex x) &&& 0b11#32 = 0b01#32 then _ else _) = _
    rw [hx, if_neg (by rw [show _ = (0b0#32 : Word) from h]; decide)]
  rw [lookup_eq, TwoLevel.lookup, hdir]
  show (if space.tt (sectionOf va.toNat / sectionSize) &&& 0b11#32 = 0b10#32 then _ else (0 : Word)) = 0
  rw [if_neg (by rw [show _ = (0b0#32 : Word) from h]; decide)]

/-- **A section given a new table**: the lookups in the section are what is in the table, all
others what they were. -/
theorem lookup_newTable {n : Nat} {pageTable' : Nat → Word} {f : Fin 256 → Word}
    (honly : (s.walk space).Only n (s.block table))
    (hfill : pageWalk space.tt pageTable' = (s.walk space).fill (s.block table) f) (x : Word) :
    getPhysicalAddress (Function.update space.tt n (newCPTD 0 (s.physical table))) pageTable' x =
      if sectionIndex x = n then resolve x (.inr (f (pageIndex x))) else s.lookup space x := by
  rw [getPhysicalAddress_eq, pageWalk_attach, hfill]
  have hattach := TwoLevel.lookup_attach_fill honly (sectionIndex x) f (pageIndex x)
  refine (congrArg (resolve x) hattach).trans ?_
  by_cases hx : sectionIndex x = n
  · rw [if_pos hx, if_pos hx]
  · rw [if_neg hx, if_neg hx, lookup_eq]

/-- The table `addVirtualPage` fills for a new section. -/
def onePage (va descriptor : Word) : Fin 256 → Word :=
  Function.update (fun _ => 0) (pageIndex va) descriptor

theorem walk_onePage (h : (s.physical table).toNat % 1024 = 0) (tt : Nat → Word)
    (va descriptor : Word) : pageWalk tt (Function.update (s.clearTable table).pageTable
        ((s.physical table).toNat + 4 * ((va.toNat - sectionOf va.toNat) / smallPageSize))
        descriptor) =
      (pageWalk tt s.pageTable).fill (s.block table) (onePage va descriptor) := by
  rw [tableIndex_eq, ← block_mul h, pageWalk_update, walk_clearTable h, TwoLevel.write_fill]
  rfl

theorem resolve_onePage (c b ap : Byte) {va page x : Word} (hpage : page.toNat % smallPageSize = 0)
    (hx : sectionIndex x = sectionOf va.toNat / sectionSize) :
    resolve x (.inr (onePage va (newSPD c b ap page) (pageIndex x))) =
      mapped (fun _ => 0) page va x := by
  unfold onePage mapped
  by_cases hj : pageIndex x = pageIndex va
  · rw [hj, Function.update_self, if_pos ((samePage_iff x va).mpr ⟨hx, hj⟩),
      resolve_newSPD c b ap hpage, offset_eq]
  · rw [Function.update_of_ne hj, if_neg (fun hc => hj ((samePage_iff x va).mp hc).2), resolve_zero]

/-- **A page mapped in a fresh table** for an empty section: nothing else is mapped by it. -/
theorem lookup_freshTable {va page : Word} (c b ap : Byte) (h : s.FreshTable space table)
    (hempty : NoDescriptor space va) (hpage : page.toNat % smallPageSize = 0) (x : Word) :
    getPhysicalAddress
        (Function.update space.tt (sectionOf va.toNat / sectionSize) (newCPTD 0 (s.physical table)))
        (Function.update (s.clearTable table).pageTable
          ((s.physical table).toNat + 4 * ((va.toNat - sectionOf va.toNat) / smallPageSize))
          (newSPD c b ap page)) x = mapped (s.lookup space) page va x := by
  rw [lookup_newTable (h.own.only _) (walk_onePage h.aligned space.tt va _)]
  by_cases hs : sectionIndex x = sectionOf va.toNat / sectionSize
  · rw [if_pos hs, resolve_onePage c b ap hpage hs, mapped, mapped]
    by_cases hx : x.toNat / smallPageSize = va.toNat / smallPageSize
    · rw [if_pos hx, if_pos hx]
    · rw [if_neg hx, if_neg hx, lookup_noDescriptor hempty hs]
  · rw [if_neg hs, mapped, if_neg (fun hc => hs ((samePage_iff x va).mp hc).1)]

/-! ## The calls -/

/-- A listed section has its table at the same place of the other list. -/
theorem Agrees.listed {sect : Nat} (h : s.Agrees space) (hsect : sect ∈ space.cptds.map Prod.snd) :
    ∃ (e i : Nat) (cpt : Nat × Nat), searchLinkedListEntry space.cptds sect = some (e, i) ∧
      space.cpts[i]? = some cpt ∧ s.IsTable space sect cpt.2 := by
  cases hsearch : searchLinkedListEntry space.cptds sect with
  | none => exact absurd hsect (searchLinkedListEntry_none.mp hsearch)
  | some found =>
      obtain ⟨e, i⟩ := found
      have hcptd := searchLinkedListEntry_some hsearch
      have hi : i < space.cpts.length := by
        rw [← h.length]
        exact (List.getElem?_eq_some_iff.mp hcptd).1
      have hcpt := List.getElem?_eq_getElem hi
      exact ⟨e, i, space.cpts.get ⟨i, hi⟩, rfl, hcpt,
        ⟨h.tables _ (List.getElem_mem hi), h.entries i _ _ hcptd hcpt, h.only i _ _ hcptd hcpt⟩⟩

/-- A section without descriptor and a fresh table for it. -/
structure Empty (s : Spaces) (space : AddressSpace) (va : Word) (table : Nat) : Prop where
  noDescriptor : NoDescriptor space va
  fresh : s.FreshTable space table

/-- The state in which `addVirtualPage` has the objects it needs. -/
def requested (s : Spaces) (a : Nat) (va : Word) (new : NewTable) : Spaces :=
  if sectionOf va.toNat ∈ (s.space a).cptds.map Prod.snd then s
  else s.requestPageTable a (sectionOf va.toNat) new

/-- The same for `addVirtualKernelPage`. -/
def requestedKernel (s : Spaces) (va : Word) (new : NewTable) : Spaces :=
  if sectionOf va.toNat ∈ s.kernel.cptds.map Prod.snd then s else new.grow s

/-- **`addVirtualPage`**, then a lookup. -/
theorem addVirtualPage_lookup (a : Nat) {page va : Word} (new : NewTable)
    (hpage : page.toNat % smallPageSize = 0) (hagree : s.Agrees (s.space a))
    (hsect : sectionOf va.toNat ∈ (s.space a).cptds.map Prod.snd ∨
      (s.requested a va new).Empty ((s.requested a va new).space a) va new.table.object) :
    ∃ s', s.addVirtualPage a page va new = .ok s' ∧ ∀ x, s'.lookup (s'.space a) x =
      mapped ((s.requested a va new).lookup ((s.requested a va new).space a)) page va x := by
  by_cases hlisted : sectionOf va.toNat ∈ (s.space a).cptds.map Prod.snd
  · obtain ⟨e, i, cpt, hsearch, hcpt, htable⟩ := hagree.listed hlisted
    refine ⟨s.writeTable cpt.2 ((va.toNat - sectionOf va.toNat) / smallPageSize)
      (newSPD 1 1 0b11111111#8 page), ?_, fun x => ?_⟩
    · simp only [addVirtualPage, hsearch, hcpt]
    · rw [requested, if_pos hlisted]
      exact lookup_writeTable 1 1 0b11111111#8 htable hpage x
  · have hempty := hsect.resolve_left hlisted
    rw [requested, if_neg hlisted] at hempty ⊢
    have hadd := addSection_spec a (sectionOf va.toNat)
      ((va.toNat - sectionOf va.toNat) / smallPageSize) (newSPD 1 1 0b11111111#8 page) new s
    refine ⟨s.addSection a (sectionOf va.toNat) ((va.toNat - sectionOf va.toNat) / smallPageSize)
      (newSPD 1 1 0b11111111#8 page) new, ?_, fun x => ?_⟩
    · simp only [addVirtualPage, searchLinkedListEntry_none.mpr hlisted]
    · have hlookup := lookup_freshTable 1 1 0b11111111#8 hempty.fresh hempty.noDescriptor hpage x
      rw [lookup, hadd.space, hadd.pageTable, writeTable, physical_clearTable hempty.fresh]
      exact hlookup

/-- A fresh table of the kernel is not in the section that has no descriptor. -/
theorem FreshTable.not_in_section {va : Word} (h : s.FreshTable s.kernel table)
    (hempty : NoDescriptor s.kernel va) :
    sectionIndex (BitVec.ofNat 32 table) ≠ sectionOf va.toNat / sectionSize := fun hsect =>
  h.mapped ((physical_eq s table).trans (lookup_noDescriptor hempty hsect))

/-- An entry of the kernel's table moves only what is in its section. -/
theorem physical_setKernelTt (x n : Nat) (w : Word)
    (h : sectionIndex (BitVec.ofNat 32 x) ≠ n) : (s.setKernelTt n w).physical x = s.physical x := by
  have hsect : (BitVec.ofNat 32 x >>> 20).toNat = sectionIndex (BitVec.ofNat 32 x) := by
    rw [BitVec.toNat_ushiftRight, Nat.shiftRight_eq_div_pow]
    rfl
  unfold physical getPhysicalAddress setKernelTt
  simp only [hsect, Function.update_of_ne h]

/-- **`addVirtualKernelPage`**, cached or not, then a lookup. -/
theorem addKernelPage_lookup (c b : Byte) {page va : Word} (new : NewTable)
    (hpage : page.toNat % smallPageSize = 0) (hagree : s.Agrees s.kernel)
    (hsect : sectionOf va.toNat ∈ s.kernel.cptds.map Prod.snd ∨
      (s.requestedKernel va new).Empty (s.requestedKernel va new).kernel va new.table.object) :
    ∃ s', s.addKernelPage c b page va new = .ok s' ∧ ∀ x, s'.lookup s'.kernel x =
      mapped ((s.requestedKernel va new).lookup (s.requestedKernel va new).kernel) page va x := by
  by_cases hlisted : sectionOf va.toNat ∈ s.kernel.cptds.map Prod.snd
  · obtain ⟨e, i, cpt, hsearch, hcpt, htable⟩ := hagree.listed hlisted
    refine ⟨s.writeTable cpt.2 ((va.toNat - sectionOf va.toNat) / smallPageSize)
      (newSPD c b 0b01010101#8 page), ?_, fun x => ?_⟩
    · simp only [addKernelPage, hsearch, hcpt]
    · rw [requestedKernel, if_pos hlisted]
      exact lookup_writeTable c b 0b01010101#8 htable hpage x
  · have hempty := hsect.resolve_left hlisted
    rw [requestedKernel, if_neg hlisted] at hempty ⊢
    have hadd := addKernelSection_spec (sectionOf va.toNat)
      ((va.toNat - sectionOf va.toNat) / smallPageSize) (newSPD c b 0b01010101#8 page) new s
    refine ⟨s.addKernelSection (sectionOf va.toNat)
      ((va.toNat - sectionOf va.toNat) / smallPageSize) (newSPD c b 0b01010101#8 page) new,
      ?_, fun x => ?_⟩
    · simp only [addKernelPage, searchLinkedListEntry_none.mpr hlisted]
    · have hlookup := lookup_freshTable c b 0b01010101#8 hempty.fresh hempty.noDescriptor hpage x
      have hne := hempty.fresh.not_in_section hempty.noDescriptor
      rw [lookup, hadd.kernel, hadd.pageTable, writeTable, physical_setKernelTt _ _ _ hne,
        physical_clearTable hempty.fresh]
      exact hlookup

/-- Without growth the requests change no lookup. -/
theorem requested_lookup (h : new.Quiet) (a : Nat) (va : Word) :
    (s.requested a va new).lookup ((s.requested a va new).space a) = s.lookup (s.space a) := by
  rw [requested]
  split
  · rfl
  · rw [requestPageTable, h.cptd, h.cpt, h.table]
    funext x
    show getPhysicalAddress ((s.setSpace a _).space a).tt _ x = _
    rw [space_setSpace_self]
    rfl

theorem requestedKernel_lookup (h : new.Quiet) (va : Word) :
    (s.requestedKernel va new).lookup (s.requestedKernel va new).kernel = s.lookup s.kernel := by
  rw [requestedKernel]
  split
  · rfl
  · rw [NewTable.grow, h.cptd, h.cpt, h.table]
    rfl

/--
**Lookup after map**, for each of the three functions: the page is found at every
address of `va`'s page, and at every other address the lookup is what it was when
the call had its objects, which is what it was before when no cache grew for them.
-/
theorem map_lookup (s : Spaces) (page va : Word) (new : NewTable)
    (hpage : page.toNat % smallPageSize = 0) :
    (∀ a, s.Agrees (s.space a) →
      (sectionOf va.toNat ∈ (s.space a).cptds.map Prod.snd ∨
        (s.requested a va new).Empty ((s.requested a va new).space a) va new.table.object) →
      ∃ s', s.addVirtualPage a page va new = .ok s' ∧
        (∀ x, s'.lookup (s'.space a) x =
          mapped ((s.requested a va new).lookup ((s.requested a va new).space a)) page va x) ∧
        (new.Quiet → ∀ x, s'.lookup (s'.space a) x = mapped (s.lookup (s.space a)) page va x)) ∧
    (s.Agrees s.kernel →
      (sectionOf va.toNat ∈ s.kernel.cptds.map Prod.snd ∨
        (s.requestedKernel va new).Empty (s.requestedKernel va new).kernel va
          new.table.object) →
      ∀ call ∈ [addVirtualKernelPage, addVirtualKernelPageNoncached],
      ∃ s', call page va new s = .ok s' ∧
        (∀ x, s'.lookup s'.kernel x =
          mapped ((s.requestedKernel va new).lookup (s.requestedKernel va new).kernel) page va x) ∧
        (new.Quiet → ∀ x, s'.lookup s'.kernel x = mapped (s.lookup s.kernel) page va x)) := by
  constructor
  · intro a hagree hsect
    obtain ⟨s', hop, hlookup⟩ := addVirtualPage_lookup a new hpage hagree hsect
    refine ⟨s', hop, hlookup, fun hquiet x => ?_⟩
    rw [hlookup, requested_lookup hquiet]
  · intro hagree hsect call hcall
    have hcalls : ∃ c b, call = addKernelPage c b := by
      rcases List.mem_cons.mp hcall with rfl | hcall
      · exact ⟨1, 1, rfl⟩
      · rcases List.mem_singleton.mp hcall with rfl
        exact ⟨0, 0, rfl⟩
    obtain ⟨c, b, rfl⟩ := hcalls
    obtain ⟨s', hop, hlookup⟩ := addKernelPage_lookup c b new hpage hagree hsect
    refine ⟨s', hop, hlookup, fun hquiet x => ?_⟩
    rw [hlookup, requestedKernel_lookup hquiet]

end

/-! ## The migrated heap -/

theorem heapMigrated_entry : heapMigrated.kernel.tt 0xe40 = newCPTD 0 0x13003000#32 := by
  decide +kernel

theorem heapMigrated_physical : heapMigrated.physical 0xe4003000 = 0x13003000#32 := by
  decide +kernel

theorem heapMigrated_none {n : Nat} (hn : n ≠ 0xe40) : heapMigrated.kernel.tt n = 0 := by
  have hmig := addMigrated_spec 0xe4000000 heapPds 4 (.quiet 0xe400205c 0xe4002064 0xe4003000)
    heapStarted
  have hstarted : heapStarted.kernel.tt n = 0 := by simp [heapStarted, hn]
  rw [heapMigrated, hmig.kernel]
  exact (Function.update_of_ne hn _ _).trans hstarted

theorem heapMigrated_space : heapMigrated.space = heapStarted.space :=
  (addMigrated_spec 0xe4000000 heapPds 4 (.quiet 0xe400205c 0xe4002064 0xe4003000)
    heapStarted).space

/-- One section of the kernel has a table. -/
theorem heapMigrated_dir {n block : Nat} (h : (heapMigrated.walk heapMigrated.kernel).dir n =
    .inr block) : n = 0xe40 ∧ block = 0x13003000 / 1024 := by
  by_cases hn : n = 0xe40
  · subst hn
    refine ⟨rfl, ?_⟩
    have hdir : (heapMigrated.walk heapMigrated.kernel).dir 0xe40 = .inr (0x13003000 / 1024) := by
      decide +kernel
    rw [hdir] at h
    exact (Sum.inr.inj h).symm
  · have hdir : (heapMigrated.walk heapMigrated.kernel).dir n = .inl 0 := by
      show (if heapMigrated.kernel.tt n &&& 0b11#32 = 0b01#32 then _ else _) = _
      rw [heapMigrated_none hn]
      rfl
    rw [hdir] at h
    exact absurd h (by simp)

theorem agrees_heapMigrated : heapMigrated.Agrees heapMigrated.kernel where
  length := rfl
  aligned := by
    intro d hd
    rcases List.mem_singleton.mp hd with rfl
    rfl
  distinct := List.nodup_singleton _
  entries := by
    intro i cptd cpt hcptd hcpt
    obtain rfl : i = 0 := Nat.lt_one_iff.mp (List.getElem?_eq_some_iff.mp hcptd).1
    obtain rfl : (0xe400205c, 0xe4000000) = cptd := Option.some.inj hcptd
    obtain rfl : (0xe4002064, 0xe4003000) = cpt := Option.some.inj hcpt
    rw [heapMigrated_physical]
    exact heapMigrated_entry
  tables := by
    intro c hc
    rcases List.mem_singleton.mp hc with rfl
    show (heapMigrated.physical 0xe4003000).toNat % 1024 = 0
    rw [heapMigrated_physical]
    rfl
  only := by
    intro i cptd cpt hcptd hcpt n hn
    obtain rfl : i = 0 := Nat.lt_one_iff.mp (List.getElem?_eq_some_iff.mp hcptd).1
    obtain rfl : (0xe400205c, 0xe4000000) = cptd := Option.some.inj hcptd
    exact (heapMigrated_dir hn).1

/-- The next table in the heap is fresh, for the kernel and for an empty address space. -/
theorem fresh_heapMigrated (a : Nat) :
    heapMigrated.FreshTable heapMigrated.kernel 0xe4003400 ∧
      heapMigrated.FreshTable (heapMigrated.space a) 0xe4003400 := by
  have hphys : heapMigrated.physical 0xe4003400 = 0x13003400#32 := by decide +kernel
  have hmapped : heapMigrated.physical 0xe4003400 ≠ 0 := by rw [hphys]; decide
  have haligned : (heapMigrated.physical 0xe4003400).toNat % 1024 = 0 := by rw [hphys]; rfl
  have hkernel : (heapMigrated.walk heapMigrated.kernel).Fresh (heapMigrated.block 0xe4003400) := by
    intro n hn
    have hblock := (heapMigrated_dir hn).2
    rw [block, hphys] at hblock
    exact absurd hblock (by decide)
  refine ⟨⟨hmapped, haligned, hkernel, hkernel⟩, ⟨hmapped, haligned, hkernel, fun n hn => ?_⟩⟩
  rw [heapMigrated_space] at hn
  exact absurd hn (by simp [walk, pageWalk, heapStarted])

theorem FreshTable.congr {s s' : Spaces} {space space' : AddressSpace} {table : Nat}
    (h : s.FreshTable space table) (hkernel : s'.kernel.tt = s.kernel.tt)
    (htables : s'.pageTable = s.pageTable) (hspace : space'.tt = space.tt) :
    s'.FreshTable space' table := by
  have hphys : s'.physical table = s.physical table := by
    unfold physical
    rw [hkernel, htables]
  refine ⟨by rw [hphys]; exact h.mapped, by rw [hphys]; exact h.aligned, ?_, ?_⟩
  · rw [block, hphys, walk, hkernel, htables]
    exact h.kernel
  · rw [block, hphys, walk, hspace, htables]
    exact h.own

theorem agrees_empty (s : Spaces) (tt : Nat → Word) : s.Agrees ⟨tt, [], []⟩ where
  length := rfl
  aligned _ hd := absurd hd List.not_mem_nil
  distinct := List.nodup_nil
  entries _ _ _ hcptd := absurd hcptd (by simp)
  tables _ hc := absurd hc List.not_mem_nil
  only _ _ _ hcptd := absurd hcptd (by simp)

theorem map_lookup_heap :
    (∃ s', heapMigrated.addVirtualPage 0xe4004000 0x13010000#32 0x500000#32
        (.quiet 0xe400206c 0xe4002074 0xe4003400) = .ok s' ∧
      s'.lookup (s'.space 0xe4004000) 0x500123#32 = 0x13010123#32 ∧
      s'.lookup (s'.space 0xe4004000) 0x501123#32 = 0) ∧
    ∃ s', heapMigrated.addVirtualKernelPage 0x13004000#32 0xe4004000#32
        (.quiet 0xe400206c 0xe4002074 0xe4003400) = .ok s' ∧
      s'.lookup s'.kernel 0xe4004123#32 = 0x13004123#32 := by
  constructor
  · have hempty : heapMigrated.space 0xe4004000 = ⟨fun _ => 0, [], []⟩ := by
      rw [heapMigrated_space]
      rfl
    have hrequest : heapMigrated.requested 0xe4004000 0x500000#32
        (.quiet 0xe400206c 0xe4002074 0xe4003400) =
        heapMigrated.requestPageTable 0xe4004000 0x500000
          (.quiet 0xe400206c 0xe4002074 0xe4003400) := by
      rw [requested, hempty]
      rfl
    have htt : ((heapMigrated.requestPageTable 0xe4004000 0x500000
        (.quiet 0xe400206c 0xe4002074 0xe4003400)).space 0xe4004000).tt =
        (heapMigrated.space 0xe4004000).tt := by
      show ((heapMigrated.setSpace 0xe4004000 _).space 0xe4004000).tt = _
      rw [space_setSpace_self]
      rfl
    have hfresh := (fresh_heapMigrated 0xe4004000).2
    have hready : (heapMigrated.requested 0xe4004000 0x500000#32
        (.quiet 0xe400206c 0xe4002074 0xe4003400)).Empty ((heapMigrated.requested 0xe4004000
          0x500000#32 (.quiet 0xe400206c 0xe4002074 0xe4003400)).space 0xe4004000) 0x500000#32
          0xe4003400 := by
      rw [hrequest]
      refine ⟨?_, hfresh.congr rfl rfl htt⟩
      rw [NoDescriptor, htt, hempty]
      rfl
    obtain ⟨s', hop, _, hlookup⟩ := (map_lookup heapMigrated 0x13010000#32 0x500000#32
      (.quiet 0xe400206c 0xe4002074 0xe4003400) rfl).1 0xe4004000
      (hempty ▸ agrees_empty _ _) (.inr hready)
    have hquiet := hlookup (NewTable.quiet_quiet _ _ _)
    refine ⟨s', hop, ?_, ?_⟩
    · rw [hquiet]
      decide +kernel
    · rw [hquiet]
      decide +kernel
  · obtain ⟨s', hop, _, hlookup⟩ := (map_lookup heapMigrated 0x13004000#32 0xe4004000#32
      (.quiet 0xe400206c 0xe4002074 0xe4003400) rfl).2 agrees_heapMigrated
      (.inl (List.mem_cons_self ..)) addVirtualKernelPage (List.mem_cons_self ..)
    refine ⟨s', hop, ?_⟩
    rw [hlookup (NewTable.quiet_quiet _ _ _)]
    decide +kernel

/-- A request that takes a new page into the heap on the way. -/
def growingRequest : Request where
  object := 0xe400206c
  grow s :=
    match s.addVirtualKernelPage 0x13004000#32 0xe4004000#32
      (.quiet 0xe400206c 0xe4002074 0xe4003400) with
    | .ok s' => s'
    | .error _ => s

theorem grows_growingRequest (s : Spaces) : Grows (fun _ => True) s (growingRequest.grow s) := by
  unfold growingRequest
  cases hop : s.addVirtualKernelPage 0x13004000#32 0xe4004000#32
    (.quiet 0xe400206c 0xe4002074 0xe4003400) with
  | error e => simp only [hop]; exact .none s
  | ok s' =>
      simp only [hop]
      have hquiet := grows_quiet (fun _ => True) 0xe400206c 0xe4002074 0xe4003400
      exact .kernelPage (.none s) hquiet.cptd hquiet.cpt hquiet.table hop

/--
**Growing is seen elsewhere**: a page mapped in a new section, by a call whose first
request grows a cache, leaves the new heap page mapped too.
-/
theorem map_changes_heap : heapMigrated.Agrees heapMigrated.kernel ∧
    NoDescriptor heapMigrated.kernel 0xe8000000#32 ∧
    ∃ new : NewTable, new.All (Grows fun _ => True) ∧
    ∃ s', heapMigrated.addVirtualKernelPage 0x13010000#32 0xe8000000#32 new = .ok s' ∧
      s'.lookup s'.kernel 0xe8000000#32 = 0x13010000#32 ∧
      heapMigrated.lookup heapMigrated.kernel 0xe4004000#32 = 0 ∧
      s'.lookup s'.kernel 0xe4004000#32 = 0x13004000#32 := by
  refine ⟨agrees_heapMigrated, by rw [NoDescriptor]; decide +kernel, ⟨growingRequest, .quiet 0xe4002074, .quiet 0xe4003400⟩,
    ⟨grows_growingRequest, fun s => .none s, fun s => .none s⟩, _, rfl, ?_, ?_, ?_⟩
  · decide +kernel
  · decide +kernel
  · decide +kernel

end Spaces

end OSExt.Memory
