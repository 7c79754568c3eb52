import OSExt.Memory.PageWalk

/-!
# The kernel mappings that all address spaces share

A section on the kernel's list has an entry in every translation table. Three
functions write such entries: `addVirtualKernelPage` and `createAddressSpace` copy
them to where they are missing, `migrateKernelCPT` does not. While no call of
`migrateKernelCPT` meets an address space in use, **all address spaces share the
kernel mappings** in every state reached.

Any call that requests an object may make caches grow, and growing makes kernel
mappings of its own, to any depth. A request is met here with all that growing may
have done by the time it returns.
-/

namespace OSExt.Memory

open Lib

namespace Spaces

/-- **All address spaces share the kernel mappings.** -/
def Shared (s : Spaces) : Prop :=
  ∀ e ∈ s.addressSpaces, ∀ d ∈ s.kernel.cptds,
    (s.space e.2).tt (d.2 / sectionSize) = s.kernel.tt (d.2 / sectionSize)

/-! ## What a request may do -/

/--
What growing caches leaves: kernel pages mapped by `addVirtualKernelPage` or its
noncached variant, sections migrated in states that meet `P`, and page tables
written to by `addUnlistedKernelPage`.
-/
inductive Grows (P : Spaces → Prop) : Spaces → Spaces → Prop where
  | none (s : Spaces) : Grows P s s
  | unlisted {s s1 : Spaces} (pageTable : Nat → Word) :
      Grows P s s1 → Grows P s { s1 with pageTable := pageTable }
  | kernelPage {s s1 s2 : Spaces} {c b : Byte} {page va : Word} {new : NewTable} :
      Grows P s s1 → (∀ s, Grows P s (new.cptd.grow s)) → (∀ s, Grows P s (new.cpt.grow s)) →
      (∀ s, Grows P s (new.table.grow s)) → s1.addKernelPage c b page va new = .ok s2 →
      Grows P s s2
  | migrate {s s1 s2 : Spaces} {sect : Word} {migrateCpt : Nat → Word} {pages : Nat}
      {new : NewTable} :
      Grows P s s1 → P s1 → (∀ s, Grows P s (new.cptd.grow s)) →
      (∀ s, Grows P s (new.cpt.grow s)) → (∀ s, Grows P s (new.table.grow s)) →
      s1.migrateKernelCPT sect migrateCpt pages new = .ok s2 → Grows P s s2

end Spaces

/-- Each of the requests relates the states before and after it by `R`. -/
structure NewTable.All (R : Spaces → Spaces → Prop) (new : NewTable) : Prop where
  cptd : ∀ s, R s (new.cptd.grow s)
  cpt : ∀ s, R s (new.cpt.grow s)
  table : ∀ s, R s (new.table.grow s)

structure NewSpace.All (R : Spaces → Spaces → Prop) (new : NewSpace) : Prop where
  space : ∀ s, R s (new.space.grow s)
  translationTable : ∀ s, R s (new.translationTable.grow s)
  entry : ∀ s, R s (new.entry.grow s)

namespace Spaces

/-- The calls of a sequence: requests grow caches, and `addVirtualPage` is called on addresses
outside kernel sections. -/
def Op.Within (P : Spaces → Prop) (s : Spaces) : Op → Prop
  | .createAddressSpace new => new.All (Grows P)
  | .addVirtualKernelPage _ _ new => new.All (Grows P)
  | .addVirtualKernelPageNoncached _ _ new => new.All (Grows P)
  | .migrateKernelCPT _ _ _ new => new.All (Grows P)
  | .addVirtualPage _ _ va new =>
    new.All (Grows P) ∧ sectionOf va.toNat ∉ s.kernel.cptds.map Prod.snd
  | .destroyAddressSpace _ => True

/-- No address space is in use. -/
def NoneInUse (s : Spaces) : Prop := s.addressSpaces = []

/--
What keeps the mappings shared: `migrateKernelCPT` meets no address space in use;
the last request of `createAddressSpace`, made when the kernel's sections are
already copied, changes none; and the section `addVirtualPage` is about is not made
a kernel section by its own requests.
-/
def Op.Careful (s : Spaces) : Op → Prop
  | .createAddressSpace new =>
    (new.entry.grow (s.fillAddressSpace new)).kernel = (s.fillAddressSpace new).kernel
  | .migrateKernelCPT _ _ _ _ => s.NoneInUse
  | .addVirtualPage a _ va new =>
    sectionOf va.toNat ∉
      (s.requestPageTable a (sectionOf va.toNat) new).kernel.cptds.map Prod.snd
  | _ => True

/-! ## The invariant -/

structure KernelShared (s : Spaces) : Prop where
  aligned : ∀ d ∈ s.kernel.cptds, d.2 % sectionSize = 0
  shared : s.Shared

/-- A request keeps the invariant, the list of address spaces in use and the others' tables. -/
structure After (s s' : Spaces) : Prop where
  inv : s'.KernelShared
  addressSpaces : s'.addressSpaces = s.addressSpaces
  unused : ∀ a, a ∉ s.addressSpaces.map Prod.snd → (s'.space a).tt = (s.space a).tt

def Kept (s s' : Spaces) : Prop := s.KernelShared → After s s'

theorem Kept.refl (s : Spaces) : Kept s s := fun h => ⟨h, rfl, fun _ _ => rfl⟩

theorem Kept.trans {s s1 s2 : Spaces} (h : Kept s s1) (h' : Kept s1 s2) : Kept s s2 := by
  intro hs
  have h1 := h hs
  have h2 := h' h1.inv
  refine ⟨h2.inv, h2.addressSpaces.trans h1.addressSpaces, fun a ha => ?_⟩
  rw [h2.unused a (by rw [h1.addressSpaces]; exact ha), h1.unused a ha]

/-- Nothing here depends on what is in the page tables. -/
theorem Kept.pageTable (s : Spaces) (pageTable : Nat → Word) :
    Kept s { s with pageTable := pageTable } :=
  fun h => ⟨⟨h.aligned, h.shared⟩, rfl, fun _ _ => rfl⟩

/-- A section that gets a kernel table, with its entry in all address spaces in use. -/
theorem KernelShared.addSection {s s' : Spaces} {sect cptd : Nat} {w : Word}
    (h : s.KernelShared) (hsect : sect % sectionSize = 0)
    (hcptds : s'.kernel.cptds = (cptd, sect) :: s.kernel.cptds)
    (htt : s'.kernel.tt = Function.update s.kernel.tt (sect / sectionSize) w)
    (hlive : s'.addressSpaces = s.addressSpaces)
    (hspace : ∀ e ∈ s.addressSpaces, ∀ n, (s'.space e.2).tt n =
      if n = sect / sectionSize then w else (s.space e.2).tt n) : s'.KernelShared := by
  refine ⟨fun d hd => ?_, fun e he d hd => ?_⟩
  · rw [hcptds] at hd
    rcases List.mem_cons.mp hd with rfl | hd
    · exact hsect
    · exact h.aligned d hd
  · rw [hlive] at he
    rw [hcptds] at hd
    rw [hspace e he, htt]
    by_cases hn : d.2 / sectionSize = sect / sectionSize
    · simp [hn]
    · rcases List.mem_cons.mp hd with rfl | hd
      · exact absurd rfl hn
      · simp [hn, h.shared e he d hd]

theorem kept_grow {new : NewTable} (hnew : new.All Kept) (s : Spaces) : Kept s (new.grow s) :=
  ((hnew.cptd s).trans (hnew.cpt _)).trans (hnew.table _)

/-- **`addVirtualKernelPage`** adds a new page table to all address spaces. -/
theorem kept_addKernelPage {c b : Byte} {page va : Word} {new : NewTable} (hnew : new.All Kept)
    {s s' : Spaces} (hop : s.addKernelPage c b page va new = .ok s') : Kept s s' := by
  rcases addKernelPage_cases hop with ⟨_, _, cpt, _, _, rfl⟩ | ⟨_, rfl⟩
  · exact Kept.pageTable s _
  · refine (kept_grow hnew s).trans fun h => ?_
    have hadd := addKernelSection_spec (sectionOf va.toNat)
      ((va.toNat - sectionOf va.toNat) / smallPageSize) (newSPD c b 0b01010101#8 page) new s
    refine ⟨h.addSection (sectionOf_mod va.toNat) (by rw [hadd.kernel]) (by rw [hadd.kernel])
      hadd.addressSpaces fun e he n => ?_, hadd.addressSpaces, fun a ha => ?_⟩
    · have hmem : e.2 ∈ (new.grow s).addressSpaces.map Prod.snd := List.mem_map_of_mem he
      rw [hadd.tt]
      by_cases hn : n = sectionOf va.toNat / sectionSize
      · rw [if_pos ⟨hn, hmem⟩, if_pos hn, hadd.kernel, hn]
        exact Function.update_self ..
      · rw [if_neg (fun hc => hn hc.1), if_neg hn]
    · funext n
      rw [hadd.tt, if_neg (fun hc => ha hc.2)]

/-- `migrateKernelCPT` keeps the mappings shared when nobody shares them. -/
theorem kept_migrateKernelCPT {sect : Word} {migrateCpt : Nat → Word} {pages : Nat}
    {new : NewTable} (hnew : new.All Kept) {s s' : Spaces} (hnone : s.NoneInUse)
    (hop : s.migrateKernelCPT sect migrateCpt pages new = .ok s') : Kept s s' := by
  obtain ⟨s1, hdrop, rfl⟩ := migrateKernelCPT_cases hop
  -- what is left on the lists was on them
  have h1 : Kept s s1 := by
    rcases dropKernelCPT_cases hdrop with ⟨_, rfl⟩ | ⟨_, cptd, cpt, _, _, rfl⟩
    · exact Kept.refl _
    · intro h
      exact ⟨⟨fun d hd => h.aligned d ((removeEntry_sublist cptd _).subset hd),
        fun e he d hd => h.shared e he d ((removeEntry_sublist cptd _).subset hd)⟩, rfl,
        fun _ _ => rfl⟩
  intro h
  have h2 := (h1.trans (kept_grow hnew s1)) h
  have hmig := addMigrated_spec (sectionOf sect.toNat) migrateCpt (min pages 256) new s1
  refine ⟨h2.inv.addSection (sectionOf_mod sect.toNat) (by rw [hmig.kernel]) (by rw [hmig.kernel])
    hmig.addressSpaces ?_, hmig.addressSpaces.trans h2.addressSpaces, fun a ha => ?_⟩
  rotate_left
  · rw [hmig.space]
    exact h2.unused a ha
  intro e he
  rw [h2.addressSpaces, hnone] at he
  exact absurd he (by simp)

/-- **Growing caches** keeps the mappings shared while nothing is migrated under an address
space in use. -/
theorem Grows.kept {s s' : Spaces} (h : Grows NoneInUse s s') : Kept s s' := by
  induction h with
  | none => exact Kept.refl _
  | unlisted pageTable _ ih => exact ih.trans (Kept.pageTable _ pageTable)
  | kernelPage _ _ _ _ hop ih ihcptd ihcpt ihtable =>
      exact ih.trans (kept_addKernelPage ⟨ihcptd, ihcpt, ihtable⟩ hop)
  | migrate _ hnone _ _ _ hop ih ihcptd ihcpt ihtable =>
      exact ih.trans (kept_migrateKernelCPT ⟨ihcptd, ihcpt, ihtable⟩ hnone hop)

theorem kept_of_grows {new : NewTable} (h : new.All (Grows NoneInUse)) : new.All Kept :=
  ⟨fun s => (h.cptd s).kept, fun s => (h.cpt s).kept, fun s => (h.table s).kept⟩

/-! ## The address spaces themselves -/

/-- The kernel's sections have the kernel's entries. -/
theorem mapKernelSections_eq (kernel : AddressSpace) (tt : Nat → Word) (n : Nat) :
    mapKernelSections kernel tt n =
      if n ∈ kernel.cptds.map (fun d => d.2 / sectionSize) then kernel.tt n else tt n := by
  unfold mapKernelSections
  induction kernel.cptds generalizing tt with
  | nil => simp
  | cons d rest ih =>
      rw [List.foldl_cons, ih]
      by_cases hn : n = d.2 / sectionSize
      · subst hn
        simp
      · simp only [List.map_cons, List.mem_cons, hn, false_or, Function.update_of_ne hn]

theorem shared_createAddressSpace {new : NewSpace} (hnew : new.All (Grows NoneInUse))
    {s : Spaces} (h : s.KernelShared)
    (hlast : (new.entry.grow (s.fillAddressSpace new)).kernel = (s.fillAddressSpace new).kernel) :
    (s.createAddressSpace new).KernelShared := by
  have h1 := (((hnew.space s).kept.trans (hnew.translationTable _).kept) h).inv
  generalize hs1 : new.translationTable.grow (new.space.grow s) = s1 at h1
  have hfill : s.fillAddressSpace new = s1.setSpace new.space.object
      { tt := mapKernelSections s1.kernel (mapIoSections (mapRAM fun _ => 0))
        cptds := [], cpts := [] } := by
    unfold fillAddressSpace
    rw [hs1]
  obtain ⟨s2, hs2⟩ : ∃ s2, s2 = s.fillAddressSpace new := ⟨_, rfl⟩
  have hkernel2 : s2.kernel = s1.kernel := by rw [hs2, hfill]; rfl
  have hlive2 : s2.addressSpaces = s1.addressSpaces := by rw [hs2, hfill]; rfl
  -- the new address space is not in use yet, and already has the kernel's sections
  have hnewtt : ∀ d ∈ s2.kernel.cptds, (s2.space new.space.object).tt (d.2 / sectionSize) =
      s2.kernel.tt (d.2 / sectionSize) := by
    intro d hd
    rw [hkernel2] at hd ⊢
    have hmem := List.mem_map_of_mem (f := fun d : Nat × Nat => d.2 / sectionSize) hd
    rw [hs2, hfill, space_setSpace_self]
    show mapKernelSections s1.kernel _ _ = _
    rw [mapKernelSections_eq, if_pos hmem]
  have h2 : s2.KernelShared := by
    refine ⟨by rw [hkernel2]; exact h1.aligned, fun e he d hd => ?_⟩
    by_cases ha : e.2 = new.space.object
    · rw [ha]
      exact hnewtt d hd
    · rw [hkernel2] at hd ⊢
      rw [hlive2] at he
      rw [hs2, hfill, space_setSpace_other _ _ _ ha]
      exact h1.shared e he d hd
  -- the last request changes neither the kernel's sections nor the new address space
  have h3 := (hnew.entry s2).kept h2
  rw [← hs2] at hlast
  have hcreate : s.createAddressSpace new = { new.entry.grow s2 with
      addressSpaces := (new.entry.object, new.space.object) ::
        (new.entry.grow s2).addressSpaces } := by
    unfold createAddressSpace
    rw [← hs2]
  rw [hcreate]
  refine ⟨h3.inv.aligned, fun e he d hd => ?_⟩
  rcases List.mem_cons.mp he with rfl | he
  · by_cases ha : new.space.object ∈ s2.addressSpaces.map Prod.snd
    · obtain ⟨e, he, ha⟩ := List.mem_map.mp ha
      rw [← h3.addressSpaces] at he
      have hshared := h3.inv.shared e he d hd
      rw [ha] at hshared
      exact hshared
    · show ((new.entry.grow s2).space new.space.object).tt _ = (new.entry.grow s2).kernel.tt _
      have hd2 : d ∈ s2.kernel.cptds := hlast ▸ hd
      rw [h3.unused _ ha, hlast]
      exact hnewtt d hd2
  · exact h3.inv.shared e he d hd

theorem shared_destroyAddressSpace (a : Nat) {s : Spaces} (h : s.KernelShared) :
    (s.destroyAddressSpace a).KernelShared := by
  unfold destroyAddressSpace
  cases searchLinkedListEntry s.addressSpaces a with
  | none => exact h
  | some found =>
      exact ⟨h.aligned, fun e he d hd =>
        h.shared e ((removeEntry_sublist found.1 _).subset he) d hd⟩

/-- **`addVirtualPage`** writes no entry of a kernel section. -/
theorem shared_addVirtualPage {a : Nat} {page va : Word} {new : NewTable}
    (hnew : new.All (Grows NoneInUse)) {s s' : Spaces} (h : s.KernelShared)
    (hout : sectionOf va.toNat ∉
      (s.requestPageTable a (sectionOf va.toNat) new).kernel.cptds.map Prod.snd)
    (hop : s.addVirtualPage a page va new = .ok s') : s'.KernelShared := by
  rcases addVirtualPage_cases hop with ⟨_, _, cpt, _, _, rfl⟩ | ⟨_, rfl⟩
  · exact (Kept.pageTable s _ h).inv
  · -- the requests, around the listing of the section
    have hlisted : Kept (new.cptd.grow s) ((new.cptd.grow s).setSpace a
        { (new.cptd.grow s).space a with
          cptds := (new.cptd.object, sectionOf va.toNat) :: ((new.cptd.grow s).space a).cptds }) := by
      have htt : ∀ a', (((new.cptd.grow s).setSpace a
          { (new.cptd.grow s).space a with
            cptds := (new.cptd.object, sectionOf va.toNat) ::
              ((new.cptd.grow s).space a).cptds }).space a').tt =
          ((new.cptd.grow s).space a').tt := by
        intro a'
        by_cases ha : a' = a
        · subst ha
          rw [space_setSpace_self]
        · rw [space_setSpace_other _ _ _ ha]
      intro h
      exact ⟨⟨h.aligned, fun e he d hd => by rw [htt]; exact h.shared e he d hd⟩, rfl,
        fun a' _ => htt a'⟩
    have h1 : (s.requestPageTable a (sectionOf va.toNat) new).KernelShared :=
      (((((hnew.cptd s).kept.trans hlisted).trans (hnew.cpt _).kept).trans
        (hnew.table _).kept) h).inv
    have hadd := addSection_spec a (sectionOf va.toNat)
      ((va.toNat - sectionOf va.toNat) / smallPageSize) (newSPD 1 1 0b11111111#8 page) new s
    refine ⟨by rw [hadd.kernel]; exact h1.aligned, fun e he d hd => ?_⟩
    rw [hadd.kernel] at hd ⊢
    rw [hadd.addressSpaces] at he
    have hne : d.2 / sectionSize ≠ sectionOf va.toNat / sectionSize := by
      intro heq
      refine hout (List.mem_map.mpr ⟨d, hd, ?_⟩)
      exact section_eq_of_div (h1.aligned d hd) (sectionOf_mod _) heq
    have hshared := h1.shared e he d hd
    by_cases ha : e.2 = a
    · rw [ha] at hshared ⊢
      rw [hadd.space]
      exact (Function.update_of_ne hne _ _).trans hshared
    · rw [hadd.others _ ha]
      exact hshared

/-! ## Every run -/

/-- **One call** that is careful keeps the mappings shared. -/
theorem shared_step {s s' : Spaces} (op : Op) (h : s.KernelShared) (hwithin : op.Within NoneInUse s)
    (hcareful : op.Careful s) (hop : op.run s = .ok s') : s'.KernelShared := by
  cases op with
  | createAddressSpace new =>
      obtain rfl := Except.ok.inj hop
      exact shared_createAddressSpace hwithin h hcareful
  | addVirtualKernelPage page va new =>
      exact (kept_addKernelPage (kept_of_grows hwithin) hop h).inv
  | addVirtualKernelPageNoncached page va new =>
      exact (kept_addKernelPage (kept_of_grows hwithin) hop h).inv
  | migrateKernelCPT sect migrateCpt pages new =>
      exact (kept_migrateKernelCPT (kept_of_grows hwithin) hcareful hop h).inv
  | addVirtualPage a page va new =>
      exact shared_addVirtualPage hwithin.1 h hcareful hop
  | destroyAddressSpace a =>
      obtain rfl := Except.ok.inj hop
      exact shared_destroyAddressSpace a h

/--
**The kernel mappings are shared** in every state that careful calls reach: a
section on the kernel's list has the kernel's entry in every address space in use.
-/
theorem kernelMappings_shared {s0 s : Spaces} (h0 : s0.Initial)
    (hrun : Run (fun s op => op.Within NoneInUse s ∧ op.Careful s) s0 s) : s.Shared := by
  have hinit : s0.KernelShared := by
    refine ⟨?_, ?_⟩
    · rw [h0.cptds]
      intro d hd
      exact absurd hd (by simp)
    · intro e he
      rw [h0.addressSpaces] at he
      exact absurd he (by simp)
  exact (hrun.keeps (fun _ op _ h hc hop => shared_step op h hc.1 hc.2 hop) hinit).shared

/-- A migrated section has a page table. -/
theorem Migrated.entry_low {sect : Nat} {migrateCpt : Nat → Word} {pages : Nat} {new : NewTable}
    {s s' : Spaces} (h : Migrated sect migrateCpt pages new s s') :
    (s'.kernel.tt (sect / sectionSize)).toNat % 4 = 1 := by
  rw [h.kernel]
  simp only [Function.update_self]
  exact newCPTD_low _ _

theorem grows_quiet (P : Spaces → Prop) (cptd cpt table : Nat) :
    (NewTable.quiet cptd cpt table).All (Grows P) :=
  ⟨fun s => .none s, fun s => .none s, fun s => .none s⟩

theorem grows_quietSpace (P : Spaces → Prop) (space translationTable entry : Nat) :
    (NewSpace.quiet space translationTable entry).All (Grows P) :=
  ⟨fun s => .none s, fun s => .none s, fun s => .none s⟩

/-- The heap's section is migrated and an address space created. -/
def oneSpace : Spaces := heapMigrated.createAddressSpace (.quiet 0xe4004000 0xe4008000 0xe400206c)

/-- Then a kernel page is mapped in a new section. -/
def oneSpaceStack : Spaces :=
  oneSpace.addKernelSection 0xe8000000 0 (newSPD 1 1 0b01010101#8 0x13010000#32)
    (.quiet 0xe4002074 0xe400207c 0xe4003400)

theorem kernelMappings_shared_stack :
    oneSpaceStack.kernel.cptds.map Prod.snd = [0xe8000000, 0xe4000000] ∧
      oneSpaceStack.addressSpaces.map Prod.snd = [0xe4004000] ∧ oneSpaceStack.Shared := by
  refine ⟨rfl, rfl, kernelMappings_shared initial_heapStarted ?_⟩
  have hmigrated : Run (fun s op => op.Within NoneInUse s ∧ op.Careful s) heapStarted
      heapMigrated :=
    .step (.migrateKernelCPT 0xe4000000#32 heapPds 4 (.quiet 0xe400205c 0xe4002064 0xe4003000))
      .start ⟨grows_quiet _ _ _ _, rfl⟩ heapStarted_migrate
  have hcreated : Run (fun s op => op.Within NoneInUse s ∧ op.Careful s) heapStarted oneSpace :=
    .step (.createAddressSpace (.quiet 0xe4004000 0xe4008000 0xe400206c)) hmigrated
      ⟨grows_quietSpace _ _ _ _, rfl⟩ rfl
  exact .step (.addVirtualKernelPage 0x13010000#32 0xe8000000#32
    (.quiet 0xe4002074 0xe400207c 0xe4003400)) hcreated ⟨grows_quiet _ _ _ _, trivial⟩ rfl

/--
**A migration is not seen by an address space in use**: `growCache` migrates the
section of the page it has mapped, and the entry of an address space created
before stays empty.
-/
theorem migrate_not_shared : heapStarted.Initial ∧ ∃ s,
    Run (fun s op => op.Within (fun _ => True) s) heapStarted s ∧ ¬ s.Shared := by
  have hmigrated : Run (fun s op => op.Within (fun _ => True) s) heapStarted heapMigrated :=
    .step (.migrateKernelCPT 0xe4000000#32 heapPds 4 (.quiet 0xe400205c 0xe4002064 0xe4003000))
      .start (grows_quiet _ _ _ _) heapStarted_migrate
  have hcreated : Run (fun s op => op.Within (fun _ => True) s) heapStarted oneSpace :=
    .step (.createAddressSpace (.quiet 0xe4004000 0xe4008000 0xe400206c)) hmigrated
      (grows_quietSpace _ _ _ _) rfl
  obtain ⟨s, hs⟩ : ∃ s, s = oneSpace.addMigrated 0x13000000 (fun _ => 0) 256
    (.quiet 0xe4002074 0xe400207c 0xe4003400) := ⟨_, rfl⟩
  have hmig := addMigrated_spec 0x13000000 (fun _ => 0) 256
    (.quiet 0xe4002074 0xe400207c 0xe4003400) oneSpace
  rw [← hs] at hmig
  refine ⟨initial_heapStarted, s, .step (.migrateKernelCPT 0x13004000#32 (fun _ => 0) 256
    (.quiet 0xe4002074 0xe400207c 0xe4003400)) hcreated (grows_quiet _ _ _ _)
    (hs ▸ migrateKernelCPT_unlisted _ _ (by decide)), fun h => ?_⟩
  have hentry := h (0xe400206c, 0xe4004000) (by rw [hmig.addressSpaces]; exact List.mem_cons_self ..)
    (0xe4002074, 0x13000000) (by rw [hmig.kernel]; exact List.mem_cons_self ..)
  have hempty : (s.space 0xe4004000).tt 0x130 = 0 := by
    rw [hmig.space]
    decide +kernel
  have hlow := hmig.entry_low
  have hentry' : s.kernel.tt (0x13000000 / sectionSize) = 0 := hentry.symm.trans hempty
  rw [hentry'] at hlow
  exact absurd hlow (by decide)

end Spaces

end OSExt.Memory
