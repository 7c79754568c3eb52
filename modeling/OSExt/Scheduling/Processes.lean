import OSExt.Memory.SharedMappings
import OSExt.Memory.SpaceTeardown

/-!
# The life of a process

`createProcess`, pages mapped into its address space, threads and memory descriptors put on
its lists, and `destroyProcess`, with an account of the objects that are taken for the process
and of those given back for it.

Everything is given back once but for the `struct address_space`: `destroyAddressSpace` gives
back what belongs to it, `destroyProcess` what belongs to the process, and neither the
structure itself.
-/

namespace OSExt.Scheduling

open Lib Memory

/-- `struct process`, with its lists, and where the translation table of its space is. -/
structure Process where
  object : Nat
  space : Nat
  translationTable : Nat
  status : BitVec 8
  priviledges : BitVec 8
  pid : BitVec 16
  uid : BitVec 32
  gid : BitVec 32
  threads : List Nat
  mem : List Nat

/-- A process and the address spaces; the objects taken for it, the latest first. -/
structure Life where
  spaces : Spaces
  process : Process
  acquired : List Object

/-- `createProcess(pid, uid, gid)`, with what its requests give. -/
def createProcess (pid : BitVec 16) (uid gid : BitVec 32) (p : Request) (new : NewSpace)
    (s : Spaces) : Life where
  spaces := (p.grow s).createAddressSpace new
  process :=
    { object := p.object, space := new.space.object, translationTable := new.translationTable.object
      status := 0, priviledges := 0, pid := pid, uid := uid, gid := gid, threads := [], mem := [] }
  acquired := [(.listEntry, new.entry.object), (.translationTable, new.translationTable.object),
    (.addressSpace, new.space.object), (.process, p.object)]

/-- The objects `addVirtualPage` takes: those of a page table, for a section without one. -/
def tableObjects (s : Spaces) (a : Nat) (va : Word) (new : NewTable) : List Object :=
  match searchLinkedListEntry (s.space a).cptds (sectionOf va.toNat) with
  | none => [(.coarsePageTable, new.table.object), (.listEntry, new.cpt.object),
      (.listEntry, new.cptd.object)]
  | some _ => []

/-- What is done for a process while it lives. -/
inductive LifeOp where
  | addVirtualPage (page virtualAddress : Word) (new : NewTable)
  /-- `createThread`, put on the list of the process -/
  | createThread (thread : Request)
  /-- a `struct mem_desc` from `kmalloc`, put on the list of the process -/
  | addMemDesc (mem : Request)

def LifeOp.run (l : Life) : LifeOp → Except Stop Life
  | .addVirtualPage page va new => do
      let spaces ← l.spaces.addVirtualPage l.process.space page va new
      pure { l with
        spaces := spaces
        acquired := tableObjects l.spaces l.process.space va new ++ l.acquired }
  | .createThread thread => .ok { l with
      spaces := thread.grow l.spaces
      process := { l.process with threads := thread.object :: l.process.threads }
      acquired := (.thread, thread.object) :: l.acquired }
  | .addMemDesc mem => .ok { l with
      spaces := mem.grow l.spaces
      process := { l.process with mem := mem.object :: l.process.mem }
      acquired := (.kmalloc, mem.object) :: l.acquired }

/-- `destroyProcess(p)`: the objects given back for the process. -/
def destroyProcess (behind : Nat → Nat → Option Word) (pages : Pageblocks) (l : Life) :
    Except Stop Teardown := do
  let p := l.process
  let t ← Teardown.destroyAddressSpace behind p.translationTable p.space ⟨l.spaces, pages, []⟩
  let freed := p.threads.foldl (fun freed t => (.thread, t) :: freed) t.freed
  let freed := p.mem.foldl (fun freed mem => (.kmalloc, mem) :: freed) freed
  pure { t with freed := (.process, p.object) :: freed }

/-- **Balance**: the process is destroyed, and each object given back as often as it was taken. -/
def Balanced (behind : Nat → Nat → Option Word) (pages : Pageblocks) (l : Life) : Prop :=
  ∃ t, destroyProcess behind pages l = .ok t ∧ t.freed.Perm l.acquired

/-- Requests make caches grow. -/
abbrev Growing (r : Request) : Prop := ∀ s, Spaces.Grows (fun _ => True) s (r.grow s)

def LifeOp.Growing : LifeOp → Prop
  | .addVirtualPage _ _ new => new.All (Spaces.Grows fun _ => True)
  | .createThread thread => Scheduling.Growing thread
  | .addMemDesc mem => Scheduling.Growing mem

/-- A life from `createProcess` on. -/
inductive Lives : Life → Prop where
  | created (pid : BitVec 16) (uid gid : BitVec 32) (p : Request) (new : NewSpace) (s : Spaces) :
      Growing p → new.All (Spaces.Grows fun _ => True) →
      Lives (createProcess pid uid gid p new s)
  | step {l l' : Life} (op : LifeOp) : Lives l → op.Growing → op.run l = .ok l' → Lives l'

/-! ## What growing caches leaves alone -/

/-- The lists of the address spaces, and which are in use. -/
structure SameLists (s s' : Spaces) : Prop where
  live : s'.addressSpaces = s.addressSpaces
  cptds : ∀ a, (s'.space a).cptds = (s.space a).cptds
  cpts : ∀ a, (s'.space a).cpts = (s.space a).cpts

theorem SameLists.refl (s : Spaces) : SameLists s s := ⟨rfl, fun _ => rfl, fun _ => rfl⟩

theorem SameLists.trans {s s1 s2 : Spaces} (h : SameLists s s1) (h' : SameLists s1 s2) :
    SameLists s s2 :=
  ⟨h'.live.trans h.live, fun a => (h'.cptds a).trans (h.cptds a),
    fun a => (h'.cpts a).trans (h.cpts a)⟩

theorem sameLists_grow {new : NewTable} (h : new.All SameLists) (s : Spaces) :
    SameLists s (new.grow s) := ((h.cptd s).trans (h.cpt _)).trans (h.table _)

theorem sameLists_addKernelPage {s s' : Spaces} {c b : Byte} {page va : Word} {new : NewTable}
    (h : new.All SameLists) (hop : s.addKernelPage c b page va new = .ok s') : SameLists s s' := by
  rcases Spaces.addKernelPage_cases hop with ⟨i, cptd, cpt, -, -, rfl⟩ | ⟨-, rfl⟩
  · exact ⟨rfl, fun _ => rfl, fun _ => rfl⟩
  · have hadd := Spaces.addKernelSection_spec (sectionOf va.toNat)
      ((va.toNat - sectionOf va.toNat) / smallPageSize) (newSPD c b 0b01010101#8 page) new s
    exact (sameLists_grow h s).trans ⟨hadd.addressSpaces, hadd.cptds, hadd.cpts⟩

theorem sameLists_migrateKernelCPT {s s' : Spaces} {sect : Word} {migrateCpt : Nat → Word}
    {pages : Nat} {new : NewTable} (h : new.All SameLists)
    (hop : s.migrateKernelCPT sect migrateCpt pages new = .ok s') : SameLists s s' := by
  obtain ⟨s1, hdrop, rfl⟩ := Spaces.migrateKernelCPT_cases hop
  have hadd := Spaces.addMigrated_spec (sectionOf sect.toNat) migrateCpt (min pages 256) new s1
  have hdropped : SameLists s s1 := by
    rcases Spaces.dropKernelCPT_cases hdrop with ⟨-, rfl⟩ | ⟨i, cptd, cpt, -, -, rfl⟩
    · exact .refl _
    · exact ⟨rfl, fun _ => rfl, fun _ => rfl⟩
  refine hdropped.trans ((sameLists_grow h s1).trans ?_)
  exact ⟨hadd.addressSpaces, fun a => by rw [hadd.space], fun a => by rw [hadd.space]⟩

/-- **Growing caches** adds to the lists of the kernel only. -/
theorem sameLists_grows {P : Spaces → Prop} {s s' : Spaces} (h : Spaces.Grows P s s') :
    SameLists s s' := by
  induction h with
  | none s => exact .refl s
  | unlisted pageTable _ ih => exact ih.trans ⟨rfl, fun _ => rfl, fun _ => rfl⟩
  | kernelPage _ _ _ _ hop ih hcptd hcpt htable =>
      exact ih.trans (sameLists_addKernelPage ⟨hcptd, hcpt, htable⟩ hop)
  | migrate _ _ _ _ _ hop ih hcptd hcpt htable =>
      exact ih.trans (sameLists_migrateKernelCPT ⟨hcptd, hcpt, htable⟩ hop)

theorem sameLists_all {P : Spaces → Prop} {new : NewTable} (h : new.All (Spaces.Grows P)) :
    new.All SameLists :=
  ⟨fun s => sameLists_grows (h.cptd s), fun s => sameLists_grows (h.cpt s),
    fun s => sameLists_grows (h.table s)⟩

/-! ## The account -/

/-- What belongs to the process besides its address space. -/
def ownObjects (p : Process) : List Object :=
  p.threads.map (.thread, ·) ++ (p.mem.map (.kmalloc, ·) ++ [(.process, p.object)])

/--
**What has been taken** is what `destroyAddressSpace` will give back, what belongs to the
process, and the `struct address_space`.
-/
structure Accounted (l : Life) : Prop where
  length : (l.spaces.space l.process.space).cptds.length =
    (l.spaces.space l.process.space).cpts.length
  acquired : l.acquired.Perm ((.addressSpace, l.process.space) ::
    (Teardown.returned l.spaces l.process.translationTable l.process.space ++
      ownObjects l.process))

/-- The objects that will be given back are a matter of the lists. -/
theorem returned_congr {s s' : Spaces} (h : SameLists s s') (tt a : Nat) :
    Teardown.returned s' tt a = Teardown.returned s tt a := by
  rw [Teardown.returned, Teardown.tables, h.cptds, h.cpts, h.live]
  rfl

theorem Accounted.grow {l : Life} (h : Accounted l) {s : Spaces} (hsame : SameLists l.spaces s) :
    Accounted { l with spaces := s } where
  length := by
    show (s.space _).cptds.length = (s.space _).cpts.length
    rw [hsame.cptds, hsame.cpts]
    exact h.length
  acquired := by
    show l.acquired.Perm (_ :: (Teardown.returned s _ _ ++ _))
    rw [returned_congr hsame]
    exact h.acquired

theorem accounted_createProcess (pid : BitVec 16) (uid gid : BitVec 32) (p : Request)
    {new : NewSpace} (h : ∀ s, SameLists s (new.entry.grow s)) (s : Spaces) :
    Accounted (createProcess pid uid gid p new s) := by
  have hentry := h (Spaces.fillAddressSpace new (p.grow s))
  have hfilled : (((p.grow s).fillAddressSpace new).space new.space.object).cptds = [] ∧
      (((p.grow s).fillAddressSpace new).space new.space.object).cpts = [] := by
    rw [Spaces.fillAddressSpace, Spaces.space_setSpace_self]
    exact ⟨rfl, rfl⟩
  -- the new address space has empty lists, and is the first in use
  have hcptds : ((createProcess pid uid gid p new s).spaces.space new.space.object).cptds = [] :=
    (hentry.cptds _).trans hfilled.1
  have hcpts : ((createProcess pid uid gid p new s).spaces.space new.space.object).cpts = [] :=
    (hentry.cpts _).trans hfilled.2
  have hsearch : searchLinkedListEntry (createProcess pid uid gid p new s).spaces.addressSpaces
      new.space.object = some (new.entry.object, 0) := by
    show searchLinkedListEntry ((new.entry.object, new.space.object) :: _) new.space.object = _
    rw [searchLinkedListEntry, List.findIdx?_cons, if_pos (beq_self_eq_true _)]
    rfl
  refine ⟨?_, ?_⟩
  · show (Spaces.space _ new.space.object).cptds.length = (Spaces.space _ new.space.object).cpts.length
    rw [hcptds, hcpts]
  · show List.Perm _ (_ :: (Teardown.returned _ _ new.space.object ++ _))
    rw [Teardown.returned, Teardown.tables, hcptds, hcpts, hsearch]
    exact (List.reverse_perm [(ObjectKind.listEntry, new.entry.object),
      (.translationTable, new.translationTable.object), (.addressSpace, new.space.object)]).symm.append_right
        [(.process, p.object)]

/-- A section and its table are put on the lists. -/
theorem returned_added {s s' : Spaces} {a : Nat} {d p : Nat × Nat} (tt : Nat)
    (hlive : s'.addressSpaces = s.addressSpaces) (hcptds : (s'.space a).cptds = d :: (s.space a).cptds)
    (hcpts : (s'.space a).cpts = p :: (s.space a).cpts) :
    (Teardown.returned s' tt a).Perm ((.coarsePageTable, p.2) :: (.listEntry, p.1) ::
      (.listEntry, d.1) :: Teardown.returned s tt a) := by
  rw [Teardown.returned, Teardown.returned, Teardown.tables, Teardown.tables, hcptds, hcpts, hlive]
  simp only [List.map_cons, List.length_cons, List.take_succ_cons]
  rw [List.perm_iff_count]
  intro o
  simp only [List.count_cons, List.count_append]
  omega

/-- The requests of `addVirtualPage` put the section on the list. -/
theorem requestPageTable_lists {new : NewTable} (h : new.All SameLists) (a sect : Nat) (s : Spaces) :
    (s.requestPageTable a sect new).addressSpaces = s.addressSpaces ∧
      ((s.requestPageTable a sect new).space a).cptds =
        (new.cptd.object, sect) :: (s.space a).cptds ∧
      ((s.requestPageTable a sect new).space a).cpts = (s.space a).cpts := by
  have hcptd := h.cptd s
  have hrest : ∀ s, SameLists s (new.table.grow (new.cpt.grow s)) := fun s =>
    (h.cpt s).trans (h.table _)
  rw [Spaces.requestPageTable]
  refine ⟨(hrest _).live.trans hcptd.live, ?_, ?_⟩
  · rw [(hrest _).cptds, Spaces.space_setSpace_self, hcptd.cptds]
  · rw [(hrest _).cpts, Spaces.space_setSpace_self, hcptd.cpts]

/-- The pages of a process. -/
theorem Accounted.addVirtualPage {l : Life} (h : Accounted l) {page va : Word} {new : NewTable}
    (hgrow : new.All SameLists) {s : Spaces}
    (hop : l.spaces.addVirtualPage l.process.space page va new = .ok s) :
    Accounted { l with
      spaces := s
      acquired := tableObjects l.spaces l.process.space va new ++ l.acquired } := by
  rcases Spaces.addVirtualPage_cases hop with ⟨i, cptd, cpt, hcptd, -, rfl⟩ | ⟨hnot, rfl⟩
  · -- a section that is listed needs no new table
    have hnone : tableObjects l.spaces l.process.space va new = [] := by
      rw [tableObjects]
      cases hsearch : searchLinkedListEntry (l.spaces.space l.process.space).cptds
          (sectionOf va.toNat) with
      | none =>
          refine absurd ?_ (Spaces.searchLinkedListEntry_none.mp hsearch)
          exact List.mem_map.mpr ⟨_, List.mem_of_getElem? hcptd, rfl⟩
      | some found => rfl
    rw [hnone]
    exact h.grow ⟨rfl, fun _ => rfl, fun _ => rfl⟩
  · have hobjects : tableObjects l.spaces l.process.space va new =
        [(.coarsePageTable, new.table.object), (.listEntry, new.cpt.object),
          (.listEntry, new.cptd.object)] := by
      rw [tableObjects, Spaces.searchLinkedListEntry_none.mpr hnot]
    have hadd := Spaces.addSection_spec l.process.space (sectionOf va.toNat)
      ((va.toNat - sectionOf va.toNat) / smallPageSize) (newSPD 1 1 0b11111111#8 page) new l.spaces
    obtain ⟨hlive, hcptds, hcpts⟩ :=
      requestPageTable_lists hgrow l.process.space (sectionOf va.toNat) l.spaces
    have hcptds' := (congrArg AddressSpace.cptds hadd.space).trans hcptds
    have hcpts' := (congrArg AddressSpace.cpts hadd.space).trans (congrArg (_ :: ·) hcpts)
    refine ⟨?_, ?_⟩
    · show (Spaces.space _ l.process.space).cptds.length =
        (Spaces.space _ l.process.space).cpts.length
      rw [hcptds', hcpts', List.length_cons, List.length_cons, h.length]
    · have hreturned := returned_added l.process.translationTable (hadd.addressSpaces.trans hlive)
        hcptds' hcpts'
      rw [hobjects]
      -- both sides as counts of each object
      have hold := List.perm_iff_count.mp h.acquired
      have hnew := List.perm_iff_count.mp hreturned
      refine List.perm_iff_count.mpr fun o => ?_
      have hold := hold o
      have hnew := hnew o
      simp only [List.count_cons, List.count_append, List.count_nil] at *
      omega

/-- **Each step of a life** keeps the account. -/
theorem accounted_step {l l' : Life} (op : LifeOp) (h : Accounted l) (hgrow : op.Growing)
    (hop : op.run l = .ok l') : Accounted l' := by
  cases op with
  | addVirtualPage page va new =>
      cases hadd : l.spaces.addVirtualPage l.process.space page va new with
      | error e =>
          rw [LifeOp.run, hadd] at hop
          exact nomatch hop
      | ok s =>
          rw [LifeOp.run, hadd] at hop
          obtain rfl := Except.ok.inj hop
          exact h.addVirtualPage (sameLists_all hgrow) hadd
  | createThread thread =>
      obtain rfl := Except.ok.inj hop
      have hgrown := h.grow (sameLists_grows (hgrow l.spaces))
      refine ⟨hgrown.length, ?_⟩
      have hold := List.perm_iff_count.mp hgrown.acquired
      refine List.perm_iff_count.mpr fun o => ?_
      have hold := hold o
      simp only [ownObjects, List.map_cons, List.cons_append, List.count_cons,
        List.count_append] at *
      omega
  | addMemDesc mem =>
      obtain rfl := Except.ok.inj hop
      have hgrown := h.grow (sameLists_grows (hgrow l.spaces))
      refine ⟨hgrown.length, ?_⟩
      have hold := List.perm_iff_count.mp hgrown.acquired
      refine List.perm_iff_count.mpr fun o => ?_
      have hold := hold o
      simp only [ownObjects, List.map_cons, List.cons_append, List.count_cons,
        List.count_append] at *
      omega

theorem Lives.accounted {l : Life} (h : Lives l) : Accounted l := by
  induction h with
  | created pid uid gid p new s _ hnew =>
      exact accounted_createProcess pid uid gid p (fun s => sameLists_grows (hnew.entry s)) s
  | step op _ hgrow hop ih => exact accounted_step op ih hgrow hop

/-! ## The end of a process -/

/-- `destroyProcess` gives back what the address space has, the lists and the process. -/
theorem destroyProcess_freed {behind : Nat → Nat → Option Word} {pages : Pageblocks} {l : Life}
    {t : Teardown} (h : destroyProcess behind pages l = .ok t) :
    t.freed.Perm (Teardown.returned l.spaces l.process.translationTable l.process.space ++
      ownObjects l.process) := by
  rw [destroyProcess] at h
  cases hspace : Teardown.destroyAddressSpace behind l.process.translationTable l.process.space
      ⟨l.spaces, pages, []⟩ with
  | error e =>
      rw [hspace] at h
      exact nomatch h
  | ok t1 =>
      rw [hspace] at h
      obtain rfl := Except.ok.inj h
      have hfreed := (Teardown.destroyed_of_ok hspace).freed
      have hthreads := Teardown.foldl_cons_perm (fun t => ((.thread, t) : Object))
        l.process.threads t1.freed
      have hmem := Teardown.foldl_cons_perm (fun m => ((.kmalloc, m) : Object)) l.process.mem
        (l.process.threads.foldl (fun freed t => (.thread, t) :: freed) t1.freed)
      refine List.perm_iff_count.mpr fun o => ?_
      have hfreed := List.perm_iff_count.mp hfreed o
      have hthreads := List.perm_iff_count.mp hthreads o
      have hmem := List.perm_iff_count.mp hmem o
      simp only [ownObjects, List.count_cons, List.count_append, List.count_nil] at *
      omega

/-- **The address space is what is missing**, once. -/
theorem destroyProcess_misses {behind : Nat → Nat → Option Word} {pages : Pageblocks} {l : Life}
    {t : Teardown} (hl : Lives l) (h : destroyProcess behind pages l = .ok t) :
    ((.addressSpace, l.process.space) :: t.freed).Perm l.acquired :=
  ((destroyProcess_freed h).cons _).trans hl.accounted.acquired.symm

theorem not_balanced {behind : Nat → Nat → Option Word} {pages : Pageblocks} {l : Life}
    (hl : Lives l) : ¬ Balanced behind pages l := by
  intro hgiven
  obtain ⟨t, hrun, hperm⟩ := hgiven
  have hlen := ((destroyProcess_misses hl hrun).trans hperm.symm).length_eq
  rw [List.length_cons] at hlen
  omega

/--
**No process is balanced**: where `destroyProcess` returns, it has given back everything that
was taken for the process, each object once, but not the `struct address_space`.
-/
theorem process_leaks {l : Life} (hl : Lives l) (behind : Nat → Nat → Option Word)
    (pages : Pageblocks) : ¬ Balanced behind pages l ∧
      ∀ t, destroyProcess behind pages l = .ok t →
        ((.addressSpace, l.process.space) :: t.freed).Perm l.acquired :=
  ⟨not_balanced hl, fun _ h => destroyProcess_misses hl h⟩

/-- A process just made. -/
def newLife : Life :=
  createProcess 1 0 0 (.quiet 0xe4005000) (.quiet 0xe4004000 0xe4008000 0xe400206c)
    Spaces.heapMigrated

theorem lives_newLife : Lives newLife :=
  .created 1 0 0 _ _ _ Spaces.Grows.none (Spaces.grows_quietSpace _ _ _ _)

/-- It has a page, a thread and a memory descriptor. -/
def busyLife : Life where
  spaces := Spaces.oneSpacePage
  process := { newLife.process with threads := [0xe4006000], mem := [0xe4007000] }
  acquired := [(.kmalloc, 0xe4007000), (.thread, 0xe4006000), (.coarsePageTable, 0xe4003400),
    (.listEntry, 0xe400207c), (.listEntry, 0xe4002074)] ++ newLife.acquired

theorem lives_busyLife : Lives busyLife := by
  have hpage : LifeOp.run newLife (.addVirtualPage 0x13010000#32 0x500000#32
      (.quiet 0xe4002074 0xe400207c 0xe4003400)) = .ok
      { spaces := Spaces.oneSpacePage
        process := newLife.process
        acquired := [(.coarsePageTable, 0xe4003400), (.listEntry, 0xe400207c),
          (.listEntry, 0xe4002074)] ++ newLife.acquired } := rfl
  have hmapped := Lives.step (.addVirtualPage 0x13010000#32 0x500000#32
    (.quiet 0xe4002074 0xe400207c 0xe4003400)) lives_newLife (Spaces.grows_quiet _ _ _ _) hpage
  have hthread := Lives.step (.createThread (.quiet 0xe4006000)) hmapped Spaces.Grows.none rfl
  exact .step (.addMemDesc (.quiet 0xe4007000)) hthread Spaces.Grows.none rfl

theorem process_leaks_busyLife :
    ∃ t, destroyProcess (fun _ _ => some 0) Teardown.twoPagesUsed busyLife = .ok t ∧
      ((.addressSpace, 0xe4004000) :: t.freed).Perm busyLife.acquired := by
  cases hrun : destroyProcess (fun _ _ => some 0) Teardown.twoPagesUsed busyLife with
  | error e =>
      have hok : (destroyProcess (fun _ _ => some 0) Teardown.twoPagesUsed busyLife).isOk = true := by
        decide +kernel
      rw [hrun] at hok
      exact nomatch hok
  | ok t => exact ⟨t, rfl, (process_leaks lives_busyLife _ _).2 t hrun⟩

theorem life_not_balanced : ¬ ∀ l, Lives l → ∀ behind pages, Balanced behind pages l := fun h =>
  not_balanced lives_newLife (h newLife lives_newLife (fun _ _ => some 0) [])

end OSExt.Scheduling
