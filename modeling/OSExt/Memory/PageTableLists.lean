import OSExt.Memory.PageLookup

/-!
# The parallel lists of sections and page tables

Which page table belongs to which section is only said by equal positions in two
lists. Page tables live in pages that the kernel itself maps, so the invariant is
about the walk as well: no entry of the kernel's translation table but a table's own
names it, and a table in use stays at its physical address. **The lists stay parallel**
in the kernel space and in every address space in use, in every run that moves no
table and keeps kernel and user sections apart.

The requests give fresh objects and touch none of these lists.
-/

namespace OSExt.Memory

open Lib

/-- No request of `createAddressSpace` makes a cache grow. -/
structure NewSpace.Quiet (new : NewSpace) : Prop where
  space : new.space.grow = id
  translationTable : new.translationTable.grow = id
  entry : new.entry.grow = id

namespace Spaces

/-! ## What a call writes, as one table -/

section

variable {s : Spaces} {table : Nat}

/-- The section an object of the kernel lies in. -/
def sectionOfObject (x : Nat) : Nat := sectionIndex (BitVec.ofNat 32 x)

/-- What the kernel's walk does not read may be written. -/
theorem physical_fill {pageTable' : Nat → Word} {f : Fin 256 → Word} {b x : Nat}
    (hfill : pageWalk s.kernel.tt pageTable' = (s.walk s.kernel).fill b f)
    (hx : (s.walk s.kernel).dir (sectionOfObject x) ≠ .inr b) :
    getPhysicalAddress s.kernel.tt pageTable' (BitVec.ofNat 32 x) = s.physical x := by
  rw [getPhysicalAddress_eq, hfill, physical_eq, lookup_eq]
  exact congrArg (resolve _) (TwoLevel.lookup_fill_of_dir f _ hx)

/-- The first `n` entries of a table copied into a cleared one. -/
def copied (source : Nat → Word) (n : Nat) : Fin 256 → Word :=
  fun j => if j.val < n then source j.val else 0

theorem copied_update (source : Nat → Word) (i : Fin 256) :
    Function.update (copied source i.val) i (source i.val) = copied source (i.val + 1) := by
  funext j
  by_cases hj : j = i
  · subst hj
    simp [copied]
  · have hne : j.val ≠ i.val := fun h => hj (Fin.ext h)
    have hlt : j.val < i.val ↔ j.val < i.val + 1 := by omega
    simp only [Function.update_of_ne hj, copied, hlt]

/-- **Copying into a cleared table**: the entries copied, then zeros. -/
theorem copyTable_spec (source : Nat → Word) (haligned : (s.physical table).toNat % 1024 = 0)
    (hnot : (s.walk s.kernel).dir (sectionOfObject table) ≠ .inr (s.block table)) {n : Nat}
    (hn : n ≤ 256) :
    (copyTable source table n (s.clearTable table)).physical table = s.physical table ∧
      ∀ tt, pageWalk tt (copyTable source table n (s.clearTable table)).pageTable =
        (pageWalk tt s.pageTable).fill (s.block table) (copied source n) := by
  induction n with
  | zero =>
      have hclear := walk_clearTable haligned
      refine ⟨physical_fill (hclear s.kernel.tt) hnot, fun tt => (hclear tt).trans ?_⟩
      rw [show copied source 0 = fun _ => 0 from funext fun j => if_neg (by omega)]
  | succ n ih =>
      obtain ⟨hphys, hwalk⟩ := ih (by omega)
      obtain ⟨s2, hs2⟩ : ∃ s2, s2 = copyTable source table n (s.clearTable table) := ⟨_, rfl⟩
      have hkernel : s2.kernel = s.kernel := by
        obtain ⟨pageTable, hcopy⟩ := copyTable_eq (s.clearTable table) table n source
        rw [hs2, hcopy]
        rfl
      rw [← hs2] at hphys hwalk
      -- the entry written next is in the block as well
      have hnext : ∀ tt, pageWalk tt (s2.writeTable table n (source n)).pageTable =
          (pageWalk tt s.pageTable).fill (s.block table) (copied source (n + 1)) := by
        intro tt
        have hwrite := walk_writeTable (by rw [hphys]; exact haligned) tt ⟨n, by omega⟩ (source n)
        have hblock : s2.block table = s.block table := by rw [block, hphys, block]
        have hupdate := copied_update source ⟨n, by omega⟩
        rw [hwrite, hwalk, hblock, TwoLevel.write_fill, hupdate]
      rw [copyTable, ← hs2]
      refine ⟨?_, hnext⟩
      show getPhysicalAddress (s2.writeTable table n (source n)).kernel.tt _ _ = _
      rw [kernel_writeTable, hkernel]
      exact physical_fill (hnext s.kernel.tt) hnot

end

/-! ## Parallel lists -/

section

variable {s s' : Spaces} {space space' : AddressSpace}

/-- The same lists, entries and tables. -/
theorem Parallel.congr (h : s.Parallel space) (hcptds : space'.cptds = space.cptds)
    (hcpts : space'.cpts = space.cpts)
    (htt : ∀ d ∈ space.cptds, space'.tt (d.2 / sectionSize) = space.tt (d.2 / sectionSize))
    (hphys : ∀ c ∈ space.cpts, s'.physical c.2 = s.physical c.2) : s'.Parallel space' where
  length := by rw [hcptds, hcpts, h.length]
  aligned := by
    rw [hcptds]
    exact h.aligned
  distinct := by
    rw [hcptds]
    exact h.distinct
  entries i cptd cpt hcptd hcpt := by
    rw [hcptds] at hcptd
    rw [hcpts] at hcpt
    rw [htt _ (List.mem_of_getElem? hcptd), h.entries i cptd cpt hcptd hcpt,
      hphys _ (List.mem_of_getElem? hcpt)]

/-- **A section and its table at the head** of the two lists. -/
theorem Parallel.cons (h : s.Parallel space) {sect cptd cpt table : Nat}
    (hsect : sect % sectionSize = 0) (hnew : sect ∉ space.cptds.map Prod.snd)
    (hcptds : space'.cptds = (cptd, sect) :: space.cptds)
    (hcpts : space'.cpts = (cpt, table) :: space.cpts)
    (hentry : space'.tt (sect / sectionSize) = newCPTD 0 (s.physical table))
    (htt : ∀ n, n ≠ sect / sectionSize → space'.tt n = space.tt n) : s.Parallel space' where
  length := by
    rw [hcptds, hcpts]
    exact congrArg (· + 1) h.length
  aligned := by
    rw [hcptds]
    intro d hd
    rcases List.mem_cons.mp hd with rfl | hd
    · exact hsect
    · exact h.aligned d hd
  distinct := by
    rw [hcptds]
    exact List.nodup_cons.mpr ⟨hnew, h.distinct⟩
  entries i cptd' cpt' hcptd hcpt := by
    rw [hcptds] at hcptd
    rw [hcpts] at hcpt
    cases i with
    | zero =>
        obtain rfl := Option.some.inj hcptd
        obtain rfl := Option.some.inj hcpt
        exact hentry
    | succ i =>
        have hmem := List.mem_of_getElem? hcptd
        have hne : cptd'.2 / sectionSize ≠ sect / sectionSize := by
          intro heq
          have hmem' : cptd' ∈ space.cptds := List.mem_of_getElem? (i := i) hcptd
          have hsame := section_eq_of_div (h.aligned _ hmem') hsect heq
          exact hnew (hsame ▸ List.mem_map_of_mem hmem')
        rw [htt _ hne]
        exact h.entries i cptd' cpt' hcptd hcpt

/-- The place of an entry in the list without it: `removeLinkedListEntry` by address. -/
theorem removeEntry_eq_eraseIdx {list : Entries} {i : Nat} {e : Nat × Nat}
    (hnd : (list.map Prod.fst).Nodup) (he : list[i]? = some e) :
    removeEntry e.1 list = list.eraseIdx i := by
  induction list generalizing i with
  | nil => simp at he
  | cons x rest ih =>
      obtain ⟨hx, hrest⟩ := List.nodup_cons.mp hnd
      cases i with
      | zero =>
          obtain rfl := Option.some.inj he
          simp [removeEntry]
      | succ i =>
          have hmem : e ∈ rest := List.mem_of_getElem? (i := i) he
          have hne : x.1 ≠ e.1 := by
            intro heq
            exact hx (heq ▸ List.mem_map_of_mem hmem)
          have htail : removeEntry e.1 rest = rest.eraseIdx i := ih hrest he
          show List.eraseP _ (x :: rest) = x :: rest.eraseIdx i
          rw [List.eraseP_cons_of_neg (by simpa using hne), ← htail]
          rfl

/-- **One place taken off both lists.** -/
theorem Parallel.eraseIdx (h : s.Parallel space) (i : Nat)
    (hcptds : space'.cptds = space.cptds.eraseIdx i)
    (hcpts : space'.cpts = space.cpts.eraseIdx i) (htt : space'.tt = space.tt) :
    s.Parallel space' where
  length := by rw [hcptds, hcpts, List.length_eraseIdx, List.length_eraseIdx, h.length]
  aligned := by
    rw [hcptds]
    exact fun d hd => h.aligned d (List.mem_of_mem_eraseIdx hd)
  distinct := by
    rw [hcptds]
    exact h.distinct.sublist ((List.eraseIdx_sublist _ i).map _)
  entries j cptd cpt hcptd hcpt := by
    rw [hcptds, List.getElem?_eraseIdx] at hcptd
    rw [hcpts, List.getElem?_eraseIdx] at hcpt
    rw [htt]
    by_cases hj : j < i
    · rw [if_pos hj] at hcptd hcpt
      exact h.entries j cptd cpt hcptd hcpt
    · rw [if_neg hj] at hcptd hcpt
      exact h.entries (j + 1) cptd cpt hcptd hcpt

/-- Without its entry the section is on the list no more. -/
theorem Parallel.notMem_eraseIdx (h : s.Parallel space) {i : Nat} {d : Nat × Nat}
    (hi : space.cptds[i]? = some d) : d.2 ∉ (space.cptds.eraseIdx i).map Prod.snd := by
  intro hmem
  obtain ⟨d', hd', heq⟩ := List.mem_map.mp hmem
  obtain ⟨j, hj⟩ := List.mem_iff_getElem?.mp hd'
  rw [List.getElem?_eraseIdx] at hj
  have hij : ∀ k, (space.cptds.map Prod.snd)[k]? = some d.2 → k = i := by
    intro k hk
    have hik : (space.cptds.map Prod.snd)[i]? = some d.2 := by
      rw [List.getElem?_map, hi]
      rfl
    have hlt := (List.getElem?_eq_some_iff.mp hk).1
    exact (List.getElem?_inj hlt h.distinct).mp (hk.trans hik.symm)
  by_cases hlt : j < i
  · rw [if_pos hlt] at hj
    have hji := hij j (by rw [List.getElem?_map, hj, ← heq]; rfl)
    omega
  · rw [if_neg hlt] at hj
    have hji := hij (j + 1) (by rw [List.getElem?_map, hj, ← heq]; rfl)
    omega

end

/-! ## The invariant -/

/-- The page tables on the lists of the kernel and of the address spaces in use. -/
def tables (s : Spaces) : List Nat :=
  s.kernel.cpts.map Prod.snd ++
    s.addressSpaces.flatMap fun e => (s.space e.2).cpts.map Prod.snd

structure Consistent (s : Spaces) : Prop where
  kernel : s.Agrees s.kernel
  cptdEntries : (s.kernel.cptds.map Prod.fst).Nodup
  cptEntries : (s.kernel.cpts.map Prod.fst).Nodup
  spaces : ∀ e ∈ s.addressSpaces, s.Parallel (s.space e.2)
  aligned : ∀ e ∈ s.addressSpaces, ∀ c ∈ (s.space e.2).cpts, (s.physical c.2).toNat % 1024 = 0
  apart : ∀ e ∈ s.addressSpaces, ∀ c ∈ (s.space e.2).cpts, (s.walk s.kernel).Fresh (s.block c.2)

/--
The objects requested for a page table are fresh: no request grows a cache, the
entries are on neither list of the kernel, and the table is no table in use. The
kernel's translation table may still name it for the section it is requested for,
which has just given it up, but not as the table it is mapped through.
-/
structure FreshObjects (s : Spaces) (sect : Option Nat) (new : NewTable) : Prop where
  quiet : new.Quiet
  cptd : new.cptd.object ∉ s.kernel.cptds.map Prod.fst
  cpt : new.cpt.object ∉ s.kernel.cpts.map Prod.fst
  aligned : (s.physical new.table.object).toNat % 1024 = 0
  unlisted : ∀ t ∈ s.tables, s.block t ≠ s.block new.table.object
  named : ∀ n, (s.walk s.kernel).dir n = .inr (s.block new.table.object) →
    some n = sect.map (· / sectionSize) ∧ sectionOfObject new.table.object ≠ n

section

variable {s s' : Spaces} {sect : Nat} {new : NewTable}

theorem mem_tables_kernel {c : Nat × Nat} (hc : c ∈ s.kernel.cpts) : c.2 ∈ s.tables :=
  List.mem_append_left _ (List.mem_map_of_mem hc)

theorem mem_tables_space {e c : Nat × Nat} (he : e ∈ s.addressSpaces)
    (hc : c ∈ (s.space e.2).cpts) : c.2 ∈ s.tables :=
  List.mem_append_right _ (List.mem_flatMap.mpr ⟨e, he, List.mem_map_of_mem hc⟩)

theorem block_congr {t : Nat} (h : s'.physical t = s.physical t) : s'.block t = s.block t := by
  rw [block, h, block]

theorem grow_of_quiet (h : new.Quiet) (s : Spaces) : new.grow s = s := by
  rw [NewTable.grow, h.cptd, h.cpt, h.table]
  rfl

theorem FreshObjects.only (h : s.FreshObjects (some sect) new) :
    (s.walk s.kernel).Only (sect / sectionSize) (s.block new.table.object) :=
  fun n hn => Option.some.inj (h.named n hn).1

theorem FreshObjects.fresh (h : s.FreshObjects none new) :
    (s.walk s.kernel).Fresh (s.block new.table.object) :=
  fun n hn => absurd (h.named n hn).1 (by simp)

theorem FreshObjects.not_through (h : s.FreshObjects o new) :
    (s.walk s.kernel).dir (sectionOfObject new.table.object) ≠ .inr (s.block new.table.object) :=
  fun hd => (h.named _ hd).2 rfl

/-- **Nothing moves**: no list and no translation table changes, and every table in use stays at
its physical address. -/
theorem Consistent.still (h : s.Consistent) (hkernel : s'.kernel = s.kernel)
    (hspace : s'.space = s.space) (hlive : s'.addressSpaces = s.addressSpaces)
    (hphys : ∀ t ∈ s.tables, s'.physical t = s.physical t) : s'.Consistent := by
  have hdir : (s'.walk s'.kernel).dir = (s.walk s.kernel).dir := by
    rw [walk, walk, hkernel]
    rfl
  refine ⟨⟨?_, ?_, ?_⟩, ?_, ?_, ?_, ?_, ?_⟩
  · exact h.kernel.toParallel.congr (by rw [hkernel]) (by rw [hkernel])
      (fun d _ => by rw [hkernel]) fun c hc => hphys _ (mem_tables_kernel hc)
  · rw [hkernel]
    intro c hc
    rw [hphys _ (mem_tables_kernel hc)]
    exact h.kernel.tables c hc
  · intro i cptd cpt hcptd hcpt
    rw [hkernel] at hcptd hcpt
    rw [block_congr (hphys _ (mem_tables_kernel (List.mem_of_getElem? hcpt)))]
    exact (h.kernel.only i cptd cpt hcptd hcpt).congr hdir
  · rw [hkernel]
    exact h.cptdEntries
  · rw [hkernel]
    exact h.cptEntries
  · intro e he
    rw [hlive] at he
    rw [hspace]
    exact (h.spaces e he).congr rfl rfl (fun _ _ => rfl) fun c hc =>
      hphys _ (mem_tables_space he hc)
  · intro e he c hc
    rw [hlive] at he
    rw [hspace] at hc
    rw [hphys _ (mem_tables_space he hc)]
    exact h.aligned e he c hc
  · intro e he c hc
    rw [hlive] at he
    rw [hspace] at hc
    rw [block_congr (hphys _ (mem_tables_space he hc))]
    exact (h.apart e he c hc).congr hdir

/-! ## A new table of the kernel -/

/-- `s'` is `s` with a page table for the kernel's section, `f` its contents. -/
structure KernelAdded (sect : Nat) (new : NewTable) (f : Fin 256 → Word) (s s' : Spaces) :
    Prop where
  kernel : s'.kernel =
    { tt := Function.update s.kernel.tt (sect / sectionSize)
        (newCPTD 0 (s.physical new.table.object))
      cptds := (new.cptd.object, sect) :: s.kernel.cptds
      cpts := (new.cpt.object, new.table.object) :: s.kernel.cpts }
  fill : ∀ tt, pageWalk tt s'.pageTable =
    (pageWalk tt s.pageTable).fill (s.block new.table.object) f
  addressSpaces : s'.addressSpaces = s.addressSpaces
  cptds : ∀ a, (s'.space a).cptds = (s.space a).cptds
  cpts : ∀ a, (s'.space a).cpts = (s.space a).cpts
  tt : ∀ e ∈ s.addressSpaces, ∀ d ∈ (s.space e.2).cptds,
    (s'.space e.2).tt (d.2 / sectionSize) = (s.space e.2).tt (d.2 / sectionSize)

variable {f : Fin 256 → Word}

theorem KernelAdded.lookup (h : KernelAdded sect new f s s')
    (honly : (s.walk s.kernel).Only (sect / sectionSize) (s.block new.table.object)) (x : Word) :
    s'.lookup s'.kernel x = if sectionIndex x = sect / sectionSize then
      resolve x (.inr (f (pageIndex x))) else s.lookup s.kernel x := by
  rw [Spaces.lookup, h.kernel]
  exact lookup_newTable honly (h.fill _) x

/-- An object that the section's new contents leave where it is. -/
theorem KernelAdded.physical (h : KernelAdded sect new f s s')
    (honly : (s.walk s.kernel).Only (sect / sectionSize) (s.block new.table.object)) {t : Nat}
    (hstill : sectionOfObject t = sect / sectionSize →
      resolve (BitVec.ofNat 32 t) (.inr (f (pageIndex (BitVec.ofNat 32 t)))) = s.physical t) :
    s'.physical t = s.physical t := by
  rw [physical_eq, h.lookup honly]
  by_cases hn : sectionIndex (BitVec.ofNat 32 t) = sect / sectionSize
  · rw [if_pos hn, hstill hn]
  · rw [if_neg hn]
    rfl

/-- **A new kernel table** is put in parallel on the lists, if the section's new contents leave
every table in use, the new one included, where it is. -/
theorem Consistent.added (h : s.Consistent) (hadd : KernelAdded sect new f s s')
    (hfresh : s.FreshObjects (some sect) new) (hsect : sect % sectionSize = 0)
    (hnew : sect ∉ s.kernel.cptds.map Prod.snd)
    (hstill : ∀ t ∈ new.table.object :: s.tables, sectionOfObject t = sect / sectionSize →
      resolve (BitVec.ofNat 32 t) (.inr (f (pageIndex (BitVec.ofNat 32 t)))) = s.physical t) :
    s'.Consistent := by
  have hphys : ∀ t ∈ new.table.object :: s.tables, s'.physical t = s.physical t := fun t ht =>
    hadd.physical hfresh.only (hstill t ht)
  have hkernelPhys : ∀ c ∈ s.kernel.cpts, s'.physical c.2 = s.physical c.2 := fun c hc =>
    hphys _ (List.mem_cons_of_mem _ (mem_tables_kernel hc))
  have hspacePhys : ∀ e ∈ s.addressSpaces, ∀ c ∈ (s.space e.2).cpts,
      s'.physical c.2 = s.physical c.2 := fun e he c hc =>
    hphys _ (List.mem_cons_of_mem _ (mem_tables_space he hc))
  have hnewPhys := hphys _ (List.mem_cons_self ..)
  -- in the directory the section's entry is the new table
  have hdir : (s'.walk s'.kernel).dir =
      ((s.walk s.kernel).attach (sect / sectionSize) (s.block new.table.object)).dir := by
    rw [walk, hadd.kernel]
    show (pageWalk (Function.update s.kernel.tt _ _) s'.pageTable).dir = _
    rw [pageWalk_attach]
    rfl
  have hparallel : s.Parallel s'.kernel :=
    h.kernel.toParallel.cons hsect hnew (by rw [hadd.kernel]) (by rw [hadd.kernel])
      (by rw [hadd.kernel]; exact Function.update_self ..) fun n hn => by
        rw [hadd.kernel]
        exact Function.update_of_ne hn _ _
  have hcpts : s'.kernel.cpts = (new.cpt.object, new.table.object) :: s.kernel.cpts := by
    rw [hadd.kernel]
  have hcptds : s'.kernel.cptds = (new.cptd.object, sect) :: s.kernel.cptds := by
    rw [hadd.kernel]
  refine ⟨⟨?_, ?_, ?_⟩, ?_, ?_, ?_, ?_, ?_⟩
  · refine hparallel.congr rfl rfl (fun _ _ => rfl) fun c hc => ?_
    rw [hcpts] at hc
    rcases List.mem_cons.mp hc with rfl | hc
    · exact hnewPhys
    · exact hkernelPhys c hc
  · intro c hc
    rw [hcpts] at hc
    rcases List.mem_cons.mp hc with rfl | hc
    · rw [hnewPhys]
      exact hfresh.aligned
    · rw [hkernelPhys c hc]
      exact h.kernel.tables c hc
  · intro i cptd cpt hcptd hcpt
    rw [hcptds] at hcptd
    rw [hcpts] at hcpt
    cases i with
    | zero =>
        obtain rfl := Option.some.inj hcptd
        obtain rfl := Option.some.inj hcpt
        rw [block_congr hnewPhys]
        exact (hfresh.only.owned_attach).only.congr hdir
    | succ i =>
        have hmem : cpt ∈ s.kernel.cpts := List.mem_of_getElem? (i := i) hcpt
        rw [block_congr (hkernelPhys cpt hmem)]
        exact ((h.kernel.only i cptd cpt hcptd hcpt).attach
          (hfresh.unlisted _ (mem_tables_kernel hmem)).symm _).congr hdir
  · rw [hcptds]
    exact List.nodup_cons.mpr ⟨hfresh.cptd, h.cptdEntries⟩
  · rw [hcpts]
    exact List.nodup_cons.mpr ⟨hfresh.cpt, h.cptEntries⟩
  · intro e he
    rw [hadd.addressSpaces] at he
    exact (h.spaces e he).congr (hadd.cptds _) (hadd.cpts _) (hadd.tt e he) (hspacePhys e he)
  · intro e he c hc
    rw [hadd.addressSpaces] at he
    rw [hadd.cpts] at hc
    rw [hspacePhys e he c hc]
    exact h.aligned e he c hc
  · intro e he c hc
    rw [hadd.addressSpaces] at he
    rw [hadd.cpts] at hc
    rw [block_congr (hspacePhys e he c hc)]
    exact ((h.apart e he c hc).attach (hfresh.unlisted _ (mem_tables_space he hc)).symm _).congr hdir

/-- A migration adds the table with what was copied. -/
theorem kernelAdded_migrated (hfresh : s.FreshObjects (some sect) new) (migrateCpt : Nat → Word)
    {pages : Nat} (hpages : pages ≤ 256) :
    KernelAdded sect new (copied migrateCpt pages) s (s.addMigrated sect migrateCpt pages new) := by
  have hspec := addMigrated_spec sect migrateCpt pages new s
  rw [grow_of_quiet hfresh.quiet] at hspec
  obtain ⟨hphys, hwalk⟩ := copyTable_spec migrateCpt hfresh.aligned hfresh.not_through hpages
  refine ⟨?_, fun tt => ?_, hspec.addressSpaces, fun a => ?_, fun a => ?_, fun e _ d _ => ?_⟩
  · rw [hspec.kernel, hphys]
  · rw [hspec.pageTable, hwalk]
  · rw [hspec.space]
  · rw [hspec.space]
  · rw [hspec.space]

/-- `addVirtualKernelPage` adds the table with one page, for a section that no address space has
on its own lists. -/
theorem kernelAdded_section (hfresh : s.FreshObjects (some sect) new) {va : Word}
    (descriptor : Word) (hsect : sect = sectionOf va.toNat)
    (hout : sectionOfObject new.table.object ≠ sect / sectionSize)
    (hapart : ∀ e ∈ s.addressSpaces, sect ∉ (s.space e.2).cptds.map Prod.snd)
    (haligned : ∀ e ∈ s.addressSpaces, ∀ d ∈ (s.space e.2).cptds, d.2 % sectionSize = 0) :
    KernelAdded sect new (onePage va descriptor) s
      (s.addKernelSection sect ((va.toNat - sect) / smallPageSize) descriptor new) := by
  have hspec := addKernelSection_spec sect ((va.toNat - sect) / smallPageSize) descriptor new s
  rw [grow_of_quiet hfresh.quiet] at hspec
  have hclear := walk_clearTable hfresh.aligned
  have hphys : (s.clearTable new.table.object).physical new.table.object =
      s.physical new.table.object := physical_fill (hclear s.kernel.tt) hfresh.not_through
  refine ⟨?_, fun tt => ?_, hspec.addressSpaces, hspec.cptds, hspec.cpts, fun e he d hd => ?_⟩
  · rw [hspec.kernel, hphys]
  · rw [hspec.pageTable, writeTable, physical_setKernelTt _ _ _ hout, hphys, hsect]
    exact walk_onePage hfresh.aligned tt va descriptor
  · rw [hspec.tt]
    refine if_neg fun hc => hapart e he (List.mem_map.mpr ⟨d, hd, ?_⟩)
    exact section_eq_of_div (haligned e he d hd) (hsect ▸ sectionOf_mod _) hc.1

/-! ## A new table of an address space -/

/-- `s'` is `s` with a page table for a section of the address space at `a`. -/
structure UserAdded (a sect : Nat) (new : NewTable) (f : Fin 256 → Word) (s s' : Spaces) :
    Prop where
  kernel : s'.kernel = s.kernel
  addressSpaces : s'.addressSpaces = s.addressSpaces
  space : s'.space a =
    { tt := Function.update (s.space a).tt (sect / sectionSize)
        (newCPTD 0 (s.physical new.table.object))
      cptds := (new.cptd.object, sect) :: (s.space a).cptds
      cpts := (new.cpt.object, new.table.object) :: (s.space a).cpts }
  others : ∀ a', a' ≠ a → s'.space a' = s.space a'
  fill : ∀ tt, pageWalk tt s'.pageTable =
    (pageWalk tt s.pageTable).fill (s.block new.table.object) f

/-- The kernel does not see what is put in a table that none of its entries names. -/
theorem UserAdded.physical {a : Nat} (h : UserAdded a sect new f s s')
    (hfresh : (s.walk s.kernel).Fresh (s.block new.table.object)) (t : Nat) :
    s'.physical t = s.physical t := by
  rw [Spaces.physical, h.kernel]
  exact physical_fill (h.fill _) (hfresh _)

/-- **A new table of an address space** is put in parallel on its lists. -/
theorem Consistent.addedUser {a : Nat} (h : s.Consistent) (hadd : UserAdded a sect new f s s')
    (hfresh : s.FreshObjects none new) (hsect : sect % sectionSize = 0)
    (hnew : sect ∉ (s.space a).cptds.map Prod.snd) : s'.Consistent := by
  have hphys := hadd.physical hfresh.fresh
  have hstill : ({ s' with space := s.space } : Spaces).Consistent :=
    h.still hadd.kernel rfl hadd.addressSpaces fun t _ => hphys t
  have hparallel : ∀ e ∈ s'.addressSpaces, s'.Parallel (s.space e.2) := fun e he =>
    (hstill.spaces e he).congr rfl rfl (fun _ _ => rfl) fun _ _ => rfl
  -- what is new is the head of the two lists at `a`
  have hcpts : ∀ (b : Nat) (c : Nat × Nat), c ∈ (s'.space b).cpts →
      c ∈ (s.space b).cpts ∨ c.2 = new.table.object := by
    intro b c hc
    by_cases hb : b = a
    · subst hb
      rw [hadd.space] at hc
      rcases List.mem_cons.mp hc with rfl | hc
      · exact .inr rfl
      · exact .inl hc
    · rw [hadd.others b hb] at hc
      exact .inl hc
  refine ⟨⟨hstill.kernel.toParallel.congr rfl rfl (fun _ _ => rfl) fun _ _ => rfl,
    hstill.kernel.tables, hstill.kernel.only⟩, hstill.cptdEntries, hstill.cptEntries, ?_, ?_, ?_⟩
  · intro e he
    by_cases ha : e.2 = a
    · rw [ha]
      have hold : s'.Parallel (s.space a) := ha ▸ hparallel e he
      refine hold.cons hsect hnew (by rw [hadd.space]) (by rw [hadd.space]) ?_ fun n hn => ?_
      · rw [hadd.space, hphys]
        exact Function.update_self ..
      · rw [hadd.space]
        exact Function.update_of_ne hn _ _
    · rw [hadd.others _ ha]
      exact hparallel e he
  · intro e he c hc
    rcases hcpts _ c hc with hc | hc
    · exact hstill.aligned e he c hc
    · rw [hc, hphys]
      exact hfresh.aligned
  · intro e he c hc
    rcases hcpts _ c hc with hc | hc
    · exact hstill.apart e he c hc
    · have hdir : (s'.walk s'.kernel).dir = (s.walk s.kernel).dir := by
        rw [walk, walk, hadd.kernel]
        rfl
      rw [hc, block_congr (hphys _)]
      exact hfresh.fresh.congr hdir

/-- `addVirtualPage` adds the table with one page. -/
theorem userAdded_section {a : Nat} (hfresh : s.FreshObjects none new) (va descriptor : Word) :
    UserAdded a (sectionOf va.toNat) new (onePage va descriptor) s
      (s.addSection a (sectionOf va.toNat) ((va.toNat - sectionOf va.toNat) / smallPageSize)
        descriptor new) := by
  have hspec := addSection_spec a (sectionOf va.toNat)
    ((va.toNat - sectionOf va.toNat) / smallPageSize) descriptor new s
  have hrequest : s.requestPageTable a (sectionOf va.toNat) new = s.setSpace a
      { s.space a with cptds := (new.cptd.object, sectionOf va.toNat) :: (s.space a).cptds } := by
    rw [requestPageTable, hfresh.quiet.cptd, hfresh.quiet.cpt, hfresh.quiet.table]
    rfl
  rw [hrequest] at hspec
  have hclear := walk_clearTable hfresh.aligned
  have hphys : (s.clearTable new.table.object).physical new.table.object =
      s.physical new.table.object := physical_fill (hclear s.kernel.tt) hfresh.not_through
  refine ⟨hspec.kernel, hspec.addressSpaces, ?_, fun a' ha => ?_, fun tt => ?_⟩
  · rw [hspec.space, space_setSpace_self]
    exact congrArg (fun w => AddressSpace.mk (Function.update _ _ (newCPTD 0 w)) _ _) hphys
  · rw [hspec.others a' ha, space_setSpace_other _ _ _ ha]
  · have hwalk := walk_onePage hfresh.aligned tt va descriptor
    rw [← hphys] at hwalk
    rw [hspec.pageTable]
    exact hwalk

/-- **Giving up a section** takes its two entries off the lists. -/
theorem Consistent.drop (h : s.Consistent) (hdrop : s.dropKernelCPT sect = .ok s') :
    s'.Consistent ∧ sect ∉ s'.kernel.cptds.map Prod.snd := by
  rcases dropKernelCPT_cases hdrop with ⟨hnot, rfl⟩ | ⟨i, cptd, cpt, hcptd, hcpt, rfl⟩
  · exact ⟨h, hnot⟩
  · have hcptds := removeEntry_eq_eraseIdx h.cptdEntries hcptd
    have hcpts := removeEntry_eq_eraseIdx h.cptEntries hcpt
    have hsub : ∀ c ∈ s.kernel.cpts.eraseIdx i, c ∈ s.kernel.cpts := fun c hc =>
      List.mem_of_mem_eraseIdx hc
    have hparallel : s.Parallel
        ⟨s.kernel.tt, s.kernel.cptds.eraseIdx i, s.kernel.cpts.eraseIdx i⟩ :=
      h.kernel.toParallel.eraseIdx i rfl rfl rfl
    simp only [hcptds, hcpts]
    refine ⟨⟨⟨hparallel.congr rfl rfl (fun _ _ => rfl) fun _ _ => rfl,
      fun c hc => h.kernel.tables c (hsub c hc), ?_⟩, ?_, ?_,
      fun e he => (h.spaces e he).congr rfl rfl (fun _ _ => rfl) fun _ _ => rfl,
      h.aligned, h.apart⟩, h.kernel.toParallel.notMem_eraseIdx hcptd⟩
    · intro j cptd' cpt' hcptd' hcpt'
      rw [List.getElem?_eraseIdx] at hcptd' hcpt'
      by_cases hj : j < i
      · rw [if_pos hj] at hcptd' hcpt'
        exact h.kernel.only j cptd' cpt' hcptd' hcpt'
      · rw [if_neg hj] at hcptd' hcpt'
        exact h.kernel.only (j + 1) cptd' cpt' hcptd' hcpt'
    · exact h.cptdEntries.sublist ((List.eraseIdx_sublist _ i).map _)
    · exact h.cptEntries.sublist ((List.eraseIdx_sublist _ i).map _)

/-! ## The calls -/

/-- The address `t` of the kernel is where it was when its section has the page table `f`. -/
def Stays (s : Spaces) (n : Nat) (f : Fin 256 → Word) (t : Nat) : Prop :=
  sectionOfObject t = n →
    resolve (BitVec.ofNat 32 t) (.inr (f (pageIndex (BitVec.ofNat 32 t)))) = s.physical t

/-- Mapping a kernel page moves no table in use, and a new section is on no list of an address
space. -/
structure KernelPageApart (s : Spaces) (va descriptor : Word) (new : NewTable) : Prop where
  listed : sectionOf va.toNat ∈ s.kernel.cptds.map Prod.snd → ∀ t ∈ s.tables,
    (BitVec.ofNat 32 t).toNat / smallPageSize = va.toNat / smallPageSize →
    resolve (BitVec.ofNat 32 t) (.inr descriptor) = s.physical t
  unlisted : sectionOf va.toNat ∉ s.kernel.cptds.map Prod.snd → ∀ t ∈ s.tables,
    s.Stays (sectionOf va.toNat / sectionSize) (onePage va descriptor) t
  outside : sectionOf va.toNat ∉ s.kernel.cptds.map Prod.snd →
    sectionOfObject new.table.object ≠ sectionOf va.toNat / sectionSize
  user : sectionOf va.toNat ∉ s.kernel.cptds.map Prod.snd →
    ∀ e ∈ s.addressSpaces, sectionOf va.toNat ∉ (s.space e.2).cptds.map Prod.snd

/-- A page mapped in a listed section leaves every table in use where it is. -/
theorem KernelPageApart.physical {va descriptor : Word} (hapart : s.KernelPageApart va descriptor new)
    (h : s.Consistent) {i cptd : Nat} {cpt : Nat × Nat}
    (hcptd : s.kernel.cptds[i]? = some (cptd, sectionOf va.toNat))
    (hcpt : s.kernel.cpts[i]? = some cpt) {t : Nat} (ht : t ∈ s.tables) :
    (s.writeTable cpt.2 ((va.toNat - sectionOf va.toNat) / smallPageSize) descriptor).physical t =
      s.physical t := by
  have htable : s.IsTable s.kernel (sectionOf va.toNat) cpt.2 :=
    ⟨h.kernel.tables _ (List.mem_of_getElem? hcpt), h.kernel.entries i _ _ hcptd hcpt,
      h.kernel.only i _ _ hcptd hcpt⟩
  have hlisted : sectionOf va.toNat ∈ s.kernel.cptds.map Prod.snd :=
    List.mem_map.mpr ⟨_, List.mem_of_getElem? hcptd, rfl⟩
  have hlookup := lookup_writeEntry htable descriptor (BitVec.ofNat 32 t)
  rw [physical_eq]
  refine hlookup.trans ?_
  by_cases hpage : (BitVec.ofNat 32 t).toNat / smallPageSize = va.toNat / smallPageSize
  · rw [if_pos hpage, hapart.listed hlisted t ht hpage]
  · rw [if_neg hpage]
    rfl

/-- `addVirtualKernelPage`, cached or not. -/
theorem consistent_addKernelPage {page va : Word} {c b : Byte} (h : s.Consistent)
    (hfresh : sectionOf va.toNat ∉ s.kernel.cptds.map Prod.snd →
      s.FreshObjects (some (sectionOf va.toNat)) new)
    (hapart : s.KernelPageApart va (newSPD c b 0b01010101#8 page) new)
    (hop : s.addKernelPage c b page va new = .ok s') : s'.Consistent := by
  rcases addKernelPage_cases hop with ⟨i, cptd, cpt, hcptd, hcpt, rfl⟩ | ⟨hnot, rfl⟩
  · exact h.still rfl rfl rfl fun t ht => hapart.physical h hcptd hcpt ht
  · have hadd := kernelAdded_section (hfresh hnot) (newSPD c b 0b01010101#8 page) rfl
      (hapart.outside hnot) (hapart.user hnot) fun e he => (h.spaces e he).aligned
    refine h.added hadd (hfresh hnot) (sectionOf_mod _) hnot fun t ht => ?_
    rcases List.mem_cons.mp ht with rfl | ht
    · exact fun hsect => absurd hsect (hapart.outside hnot)
    · exact hapart.unlisted hnot t ht

/-- `migrateKernelCPT`, whose new table may be mapped by what it copies. -/
theorem consistent_migrateKernelCPT {sectWord : Word} {migrateCpt : Nat → Word} {pages : Nat}
    (h : s.Consistent)
    (hfresh : ∀ s1, s.dropKernelCPT (sectionOf sectWord.toNat) = .ok s1 →
      s1.FreshObjects (some (sectionOf sectWord.toNat)) new)
    (hapart : ∀ s1, s.dropKernelCPT (sectionOf sectWord.toNat) = .ok s1 →
      ∀ t ∈ new.table.object :: s1.tables, s1.Stays (sectionOf sectWord.toNat / sectionSize)
        (copied migrateCpt (min pages 256)) t)
    (hop : s.migrateKernelCPT sectWord migrateCpt pages new = .ok s') : s'.Consistent := by
  obtain ⟨s1, hdrop, rfl⟩ := migrateKernelCPT_cases hop
  obtain ⟨h1, hnot⟩ := h.drop hdrop
  have hadd := kernelAdded_migrated (hfresh s1 hdrop) migrateCpt (Nat.min_le_right pages 256)
  exact h1.added hadd (hfresh s1 hdrop) (sectionOf_mod _) hnot (hapart s1 hdrop)

/-- `addVirtualPage` for an address space in use. -/
theorem consistent_addVirtualPage {a : Nat} {page va : Word} (h : s.Consistent)
    (ha : a ∈ s.addressSpaces.map Prod.snd)
    (hfresh : sectionOf va.toNat ∉ (s.space a).cptds.map Prod.snd → s.FreshObjects none new)
    (hop : s.addVirtualPage a page va new = .ok s') : s'.Consistent := by
  rcases addVirtualPage_cases hop with ⟨i, cptd, cpt, hcptd, hcpt, rfl⟩ | ⟨hnot, rfl⟩
  · obtain ⟨e, he, rfl⟩ := List.mem_map.mp ha
    have hmem : cpt ∈ (s.space e.2).cpts := List.mem_of_getElem? hcpt
    refine h.still rfl rfl rfl fun t _ => ?_
    rw [tableIndex_eq]
    exact physical_fill (walk_writeTable (h.aligned e he cpt hmem) s.kernel.tt _ _)
      (h.apart e he cpt hmem _)
  · exact h.addedUser (userAdded_section (hfresh hnot) va _) (hfresh hnot) (sectionOf_mod _) hnot

/-- A new address space has empty lists. -/
theorem consistent_createAddressSpace {newSpace : NewSpace} (h : s.Consistent)
    (hquiet : newSpace.Quiet) : (s.createAddressSpace newSpace).Consistent := by
  obtain ⟨s', hs'⟩ : ∃ s', s' = s.createAddressSpace newSpace := ⟨_, rfl⟩
  have hfilled : ∃ tt, s' = { s with
      space := Function.update s.space newSpace.space.object ⟨tt, [], []⟩
      addressSpaces := (newSpace.entry.object, newSpace.space.object) :: s.addressSpaces } := by
    rw [hs', createAddressSpace, fillAddressSpace, hquiet.space, hquiet.translationTable,
      hquiet.entry]
    exact ⟨_, rfl⟩
  rw [← hs']
  obtain ⟨tt, hfilled⟩ := hfilled
  -- a space on the list is the empty new one, or one from before
  have hold : ∀ e ∈ s'.addressSpaces, s'.space e.2 = ⟨tt, [], []⟩ ∨
      e ∈ s.addressSpaces ∧ s'.space e.2 = s.space e.2 := by
    rw [hfilled]
    intro e he
    by_cases hobject : e.2 = newSpace.space.object
    · exact .inl (by rw [hobject]; exact Function.update_self ..)
    · refine .inr ⟨?_, Function.update_of_ne hobject _ _⟩
      rcases List.mem_cons.mp he with rfl | he
      · exact absurd rfl hobject
      · exact he
  have hkernel : s'.kernel = s.kernel := by rw [hfilled]
  have hphys : ∀ t, s'.physical t = s.physical t := by
    rw [hfilled]
    exact fun t => rfl
  have hstill : ({ s' with space := s.space, addressSpaces := s.addressSpaces } : Spaces).Consistent :=
    h.still hkernel rfl rfl fun t _ => hphys t
  refine ⟨⟨hstill.kernel.toParallel.congr rfl rfl (fun _ _ => rfl) fun _ _ => rfl,
    hstill.kernel.tables, hstill.kernel.only⟩, hstill.cptdEntries, hstill.cptEntries, ?_, ?_, ?_⟩
  · intro e he
    rcases hold e he with hnil | ⟨he, hsame⟩
    · rw [hnil]
      exact (agrees_empty s' tt).toParallel
    · rw [hsame]
      exact (hstill.spaces e he).congr rfl rfl (fun _ _ => rfl) fun _ _ => rfl
  · intro e he c hc
    rcases hold e he with hnil | ⟨he, hsame⟩
    · rw [hnil] at hc
      exact absurd hc List.not_mem_nil
    · rw [hsame] at hc
      exact hstill.aligned e he c hc
  · intro e he c hc
    rcases hold e he with hnil | ⟨he, hsame⟩
    · rw [hnil] at hc
      exact absurd hc List.not_mem_nil
    · rw [hsame] at hc
      exact hstill.apart e he c hc

/-- `destroyAddressSpace` takes an address space out of use. -/
theorem consistent_destroyAddressSpace (h : s.Consistent) (a : Nat) :
    (s.destroyAddressSpace a).Consistent := by
  unfold destroyAddressSpace
  cases searchLinkedListEntry s.addressSpaces a with
  | none => exact h
  | some found =>
      have hsub : ∀ e ∈ removeEntry found.1 s.addressSpaces, e ∈ s.addressSpaces := fun e he =>
        (removeEntry_sublist found.1 s.addressSpaces).subset he
      refine ⟨⟨h.kernel.toParallel.congr rfl rfl (fun _ _ => rfl) fun _ _ => rfl,
        h.kernel.tables, h.kernel.only⟩, h.cptdEntries, h.cptEntries, fun e he => ?_,
        fun e he => h.aligned e (hsub e he), fun e he => h.apart e (hsub e he)⟩
      exact (h.spaces e (hsub e he)).congr rfl rfl (fun _ _ => rfl) fun _ _ => rfl

end

/-! ## Runs -/

/-- What is requested are fresh objects, and a page is added to an address space in use. -/
def Op.Fresh (s : Spaces) : Op → Prop
  | .createAddressSpace new => new.Quiet
  | .addVirtualKernelPage _ va new => sectionOf va.toNat ∉ s.kernel.cptds.map Prod.snd →
      s.FreshObjects (some (sectionOf va.toNat)) new
  | .addVirtualKernelPageNoncached _ va new => sectionOf va.toNat ∉ s.kernel.cptds.map Prod.snd →
      s.FreshObjects (some (sectionOf va.toNat)) new
  | .migrateKernelCPT sect _ _ new => ∀ s1, s.dropKernelCPT (sectionOf sect.toNat) = .ok s1 →
      s1.FreshObjects (some (sectionOf sect.toNat)) new
  | .addVirtualPage a _ va new => a ∈ s.addressSpaces.map Prod.snd ∧
      (sectionOf va.toNat ∉ (s.space a).cptds.map Prod.snd → s.FreshObjects none new)
  | .destroyAddressSpace _ => True

/-- No table in use is moved, and the kernel adds no section of an address space. -/
def Op.Apart (s : Spaces) : Op → Prop
  | .createAddressSpace _ => True
  | .addVirtualKernelPage page va new =>
      s.KernelPageApart va (newSPD 1 1 0b01010101#8 page) new
  | .addVirtualKernelPageNoncached page va new =>
      s.KernelPageApart va (newSPD 0 0 0b01010101#8 page) new
  | .migrateKernelCPT sect migrateCpt pages new =>
      ∀ s1, s.dropKernelCPT (sectionOf sect.toNat) = .ok s1 →
        ∀ t ∈ new.table.object :: s1.tables, s1.Stays (sectionOf sect.toNat / sectionSize)
          (copied migrateCpt (min pages 256)) t
  | .addVirtualPage _ _ _ _ => True
  | .destroyAddressSpace _ => True

/-- **One call** keeps the lists parallel. -/
theorem consistent_step {s s' : Spaces} (op : Op) (h : s.Consistent) (hfresh : op.Fresh s)
    (hapart : op.Apart s) (hop : op.run s = .ok s') : s'.Consistent := by
  cases op with
  | createAddressSpace new =>
      obtain rfl := Except.ok.inj hop
      exact consistent_createAddressSpace h hfresh
  | addVirtualKernelPage page va new => exact consistent_addKernelPage h hfresh hapart hop
  | addVirtualKernelPageNoncached page va new => exact consistent_addKernelPage h hfresh hapart hop
  | migrateKernelCPT sect migrateCpt pages new =>
      exact consistent_migrateKernelCPT h hfresh hapart hop
  | addVirtualPage a page va new => exact consistent_addVirtualPage h hfresh.1 hfresh.2 hop
  | destroyAddressSpace a =>
      obtain rfl := Except.ok.inj hop
      exact consistent_destroyAddressSpace h a

theorem consistent_initial {s : Spaces} (h0 : s.Initial) : s.Consistent := by
  have hlive : ∀ e, e ∉ s.addressSpaces := by
    rw [h0.addressSpaces]
    exact fun e => List.not_mem_nil
  have hkernel : s.kernel = ⟨s.kernel.tt, s.kernel.cptds, s.kernel.cpts⟩ := rfl
  rw [h0.cptds, h0.cpts] at hkernel
  refine ⟨?_, ?_, ?_, fun e he => absurd he (hlive e), fun e he => absurd he (hlive e),
    fun e he => absurd he (hlive e)⟩
  · rw [hkernel]
    exact agrees_empty s s.kernel.tt
  · rw [h0.cptds]
    exact List.nodup_nil
  · rw [h0.cpts]
    exact List.nodup_nil

/-- What `searchLinkedListEntry` and `getLinkedListEntry` pick: the table that a listed section's
entry names. -/
def PicksTable (s : Spaces) (space : AddressSpace) : Prop :=
  ∀ (sect e i : Nat), searchLinkedListEntry space.cptds sect = some (e, i) →
    ∃ cpt, space.cpts[i]? = some cpt ∧ space.tt (sect / sectionSize) = newCPTD 0 (s.physical cpt.2)

theorem Parallel.picksTable {s : Spaces} {space : AddressSpace} (h : s.Parallel space) :
    s.PicksTable space := by
  intro sect e i hsearch
  have hcptd := searchLinkedListEntry_some hsearch
  have hi : i < space.cpts.length := by
    rw [← h.length]
    exact (List.getElem?_eq_some_iff.mp hcptd).1
  have hcpt := List.getElem?_eq_getElem hi
  exact ⟨space.cpts.get ⟨i, hi⟩, hcpt, h.entries i _ _ hcptd hcpt⟩

/-- `getKernelCPT(address)` -/
def getKernelCPT (s : Spaces) (address : Word) : Except Stop (Option Nat) :=
  match searchLinkedListEntry s.kernel.cptds (sectionOf address.toNat) with
  | none => .ok none
  | some (_, index) =>
    match s.kernel.cpts[index]? with
    | none => .error .dataAbort
    | some cpt => .ok (some cpt.2)

/-- **`getKernelCPT`** returns NULL for a section that is not listed, and the section's table
otherwise. -/
theorem Parallel.getKernelCPT_spec {s : Spaces} (h : s.Parallel s.kernel) (address : Word) :
    (sectionOf address.toNat ∉ s.kernel.cptds.map Prod.snd ∧ s.getKernelCPT address = .ok none) ∨
    ∃ table, s.getKernelCPT address = .ok (some table) ∧
      s.kernel.tt (sectionIndex address) = newCPTD 0 (s.physical table) := by
  unfold getKernelCPT
  cases hsearch : searchLinkedListEntry s.kernel.cptds (sectionOf address.toNat) with
  | none => exact .inl ⟨searchLinkedListEntry_none.mp hsearch, rfl⟩
  | some found =>
      obtain ⟨cpt, hcpt, hentry⟩ := h.picksTable _ _ _ hsearch
      refine .inr ⟨cpt.2, by simp only [hcpt], ?_⟩
      rw [← hentry, sectionOf_div]
      rfl

/--
**The lists of sections and page tables stay parallel**, for the kernel and for
every address space in use, in every state that calls with fresh objects reach
which move no table in use and add no section of an address space to the kernel.
-/
theorem lists_parallel {s0 s : Spaces} (h0 : s0.Initial)
    (hrun : Run (fun s op => op.Fresh s ∧ op.Apart s) s0 s) :
    s.Parallel s.kernel ∧ (∀ e ∈ s.addressSpaces, s.Parallel (s.space e.2)) ∧
      (∀ address, (sectionOf address.toNat ∉ s.kernel.cptds.map Prod.snd ∧
          s.getKernelCPT address = .ok none) ∨
        ∃ table, s.getKernelCPT address = .ok (some table) ∧
          s.kernel.tt (sectionIndex address) = newCPTD 0 (s.physical table)) ∧
      s.PicksTable s.kernel ∧ ∀ e ∈ s.addressSpaces, s.PicksTable (s.space e.2) := by
  have h : s.Consistent :=
    hrun.keeps (fun _ op _ h hc hop => consistent_step op h hc.1 hc.2 hop) (consistent_initial h0)
  have hkernel := h.kernel.toParallel
  exact ⟨hkernel, h.spaces, hkernel.getKernelCPT_spec, hkernel.picksTable,
    fun e he => (h.spaces e he).picksTable⟩

/-! ## The heap, and an address space with a page -/

/-- The kernel heap's section is one of two entries that are no table in use. -/
theorem fresh_heapStarted : heapStarted.FreshObjects (some 0xe4000000)
    (.quiet 0xe400205c 0xe4002064 0xe4003000) where
  quiet := NewTable.quiet_quiet _ _ _
  cptd := List.not_mem_nil
  cpt := List.not_mem_nil
  aligned := by decide +kernel
  unlisted t ht := absurd ht List.not_mem_nil
  named n hn := by
    have hblock : heapStarted.block 0xe4003000 = 0x13003000 / 1024 := by decide +kernel
    exfalso
    by_cases hheap : n = 0xe40
    · subst hheap
      have hdir : (heapStarted.walk heapStarted.kernel).dir 0xe40 = .inr (0x12345400 / 1024) := by
        decide +kernel
      have hsame := Sum.inr.inj (hdir.symm.trans hn)
      exact absurd (hsame.trans hblock) (by omega)
    · have hdir : (heapStarted.walk heapStarted.kernel).dir n = .inl 0 := by
        have hnone : heapStarted.kernel.tt n = 0 := by simp [heapStarted, hheap]
        show (if heapStarted.kernel.tt n &&& 0b11#32 = 0b01#32 then _ else _) = _
        rw [hnone]
        rfl
      exact absurd (hdir.symm.trans hn) (by simp)

/-- Objects of the heap are fresh as long as the kernel has the heap's section only. -/
theorem freshObjects_heap {s : Spaces} (o : Option Nat) {new : NewTable} (hquiet : new.Quiet)
    (hkernel : s.kernel = heapMigrated.kernel)
    (hcptd : new.cptd.object ≠ 0xe400205c) (hcpt : new.cpt.object ≠ 0xe4002064)
    (haligned : (s.physical new.table.object).toNat % 1024 = 0)
    (hunlisted : ∀ t ∈ s.tables, s.block t ≠ s.block new.table.object)
    (hblock : s.block new.table.object ≠ 0x13003000 / 1024) : s.FreshObjects o new where
  quiet := hquiet
  cptd := by
    rw [hkernel]
    exact fun hmem => hcptd (List.mem_singleton.mp hmem)
  cpt := by
    rw [hkernel]
    exact fun hmem => hcpt (List.mem_singleton.mp hmem)
  aligned := haligned
  unlisted := hunlisted
  named n hn := by
    have hdir : (s.walk s.kernel).dir = (heapMigrated.walk heapMigrated.kernel).dir := by
      rw [walk, hkernel]
      rfl
    rw [hdir] at hn
    exact absurd (heapMigrated_dir hn).2 hblock

/-- An address space is created, and a page mapped in a section of its own. -/
def oneSpacePage : Spaces :=
  oneSpace.addSection 0xe4004000 0x500000 0 (newSPD 1 1 0b11111111#8 0x13010000#32)
    (.quiet 0xe4002074 0xe400207c 0xe4003400)

theorem fresh_oneSpace :
    oneSpace.FreshObjects none (.quiet 0xe4002074 0xe400207c 0xe4003400) := by
  refine freshObjects_heap none (NewTable.quiet_quiet _ _ _) rfl (by decide) (by decide)
    (by decide +kernel) (fun t ht => ?_) (by decide +kernel)
  rcases List.mem_singleton.mp ht with rfl
  decide +kernel

theorem heapMigrated_run {C : Spaces → Op → Prop} (hmigrate : C heapStarted
    (.migrateKernelCPT 0xe4000000#32 heapPds 4 (.quiet 0xe400205c 0xe4002064 0xe4003000))) :
    Run C heapStarted heapMigrated :=
  .step _ .start hmigrate heapStarted_migrate

theorem oneSpacePage_run {C : Spaces → Op → Prop} (hheap : Run C heapStarted heapMigrated)
    (hcreate : C heapMigrated (.createAddressSpace (.quiet 0xe4004000 0xe4008000 0xe400206c)))
    (hpage : C oneSpace (.addVirtualPage 0xe4004000 0x13010000#32 0x500000#32
      (.quiet 0xe4002074 0xe400207c 0xe4003400))) : Run C heapStarted oneSpacePage := by
  have hcreated : Run C heapStarted oneSpace := .step _ hheap hcreate rfl
  exact .step _ hcreated hpage rfl

/-- The heap's section is migrated with objects that are fresh. -/
theorem fresh_migrate : Op.Fresh heapStarted
    (.migrateKernelCPT 0xe4000000#32 heapPds 4 (.quiet 0xe400205c 0xe4002064 0xe4003000)) := by
  intro s1 hdrop
  obtain rfl : heapStarted = s1 := Except.ok.inj hdrop
  exact fresh_heapStarted

/-- All of it happens with fresh objects, and moves no table. -/
theorem oneSpacePage_reached :
    Run (fun s op => op.Fresh s ∧ op.Apart s) heapStarted oneSpacePage := by
  have hmigrate : Op.Apart heapStarted
      (.migrateKernelCPT 0xe4000000#32 heapPds 4 (.quiet 0xe400205c 0xe4002064 0xe4003000)) := by
    intro s1 hdrop t ht
    obtain rfl : heapStarted = s1 := Except.ok.inj hdrop
    rcases List.mem_singleton.mp ht with rfl
    intro _
    decide +kernel
  exact oneSpacePage_run (heapMigrated_run ⟨fresh_migrate, hmigrate⟩)
    ⟨⟨rfl, rfl, rfl⟩, trivial⟩ ⟨⟨List.mem_cons_self .., fun _ => fresh_oneSpace⟩, trivial⟩

theorem lists_parallel_page : oneSpacePage.kernel.cptds.map Prod.snd = [0xe4000000] ∧
    oneSpacePage.addressSpaces.map Prod.snd = [0xe4004000] ∧
    (oneSpacePage.space 0xe4004000).cptds.map Prod.snd = [0x500000] ∧
    oneSpacePage.Parallel oneSpacePage.kernel ∧
    oneSpacePage.Parallel (oneSpacePage.space 0xe4004000) := by
  have h := lists_parallel initial_heapStarted oneSpacePage_reached
  exact ⟨rfl, rfl, rfl, h.1, h.2.1 (0xe400206c, 0xe4004000) (List.mem_cons_self ..)⟩

/--
**With fresh objects alone the lists do not stay parallel**: a heap page that holds
a table in use can be mapped anew, and a section that an address space has on its
own list can be added to the kernel, whose entry then takes the place of its own.
-/
theorem lists_not_parallel : heapStarted.Initial ∧
    (∃ s, Run (fun s op => op.Fresh s) heapStarted s ∧ ¬ s.Parallel s.kernel) ∧
    ∃ s, Run (fun s op => op.Fresh s) heapStarted s ∧
      ∃ e ∈ s.addressSpaces, ¬ s.Parallel (s.space e.2) := by
  have hheap : Run (fun s op => op.Fresh s) heapStarted heapMigrated :=
    heapMigrated_run fresh_migrate
  refine ⟨initial_heapStarted, ?_, ?_⟩
  · refine ⟨heapMigrated.writeTable 0xe4003000 3 (newSPD 1 1 0b01010101#8 0x13007000#32),
      .step (.addVirtualKernelPage 0x13007000#32 0xe4003000#32
        (.quiet 0xe4002074 0xe400207c 0xe4003400)) hheap ?_ rfl, fun h => ?_⟩
    · exact fun hnot => absurd (List.mem_cons_self ..) hnot
    · have hentry := h.entries 0 (0xe400205c, 0xe4000000) (0xe4002064, 0xe4003000) rfl rfl
      revert hentry
      decide +kernel
  · have hrun : Run (fun s op => op.Fresh s) heapStarted oneSpacePage :=
      oneSpacePage_run hheap ⟨rfl, rfl, rfl⟩ ⟨List.mem_cons_self .., fun _ => fresh_oneSpace⟩
    have hfresh : oneSpacePage.FreshObjects (some 0x500000)
        (.quiet 0xe4002084 0xe400208c 0xe4003800) := by
      refine freshObjects_heap _ (NewTable.quiet_quiet _ _ _) rfl (by decide) (by decide)
        (by decide +kernel) (fun t ht => ?_) (by decide +kernel)
      rcases List.mem_cons.mp ht with rfl | ht
      · decide +kernel
      · rcases List.mem_singleton.mp ht with rfl
        decide +kernel
    refine ⟨oneSpacePage.addKernelSection 0x500000 0 (newSPD 1 1 0b01010101#8 0x13020000#32)
        (.quiet 0xe4002084 0xe400208c 0xe4003800),
      .step (.addVirtualKernelPage 0x13020000#32 0x500000#32
        (.quiet 0xe4002084 0xe400208c 0xe4003800)) hrun (fun _ => hfresh) rfl,
      (0xe400206c, 0xe4004000), List.mem_cons_self .., fun h => ?_⟩
    have hentry := h.entries 0 (0xe4002074, 0x500000) (0xe400207c, 0xe4003400) rfl rfl
    revert hentry
    decide +kernel

end Spaces

end OSExt.Memory
