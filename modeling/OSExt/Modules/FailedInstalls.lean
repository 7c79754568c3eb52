import OSExt.Modules.RegistryRuns

/-!
# What a failed install leaves behind

A call of `module_install` that fails has given back what it acquired on all paths but
one: the record stays when there is no object for the name. The path is written before it
is known to be there. And a cache of `kmalloc` that has grown keeps its pages, whatever
the call comes to.
-/

namespace OSExt.Modules

open Lib Memory Libk Elf

/-- The list, the objects, the page bitmaps and the open files are what they were. -/
structure AsBefore (l : List Nat) (s s' : System) : Prop where
  modules : s'.modules = s.modules
  records : ∀ a ∈ l, s'.module a = s.module a ∧ s'.name a = s.name a
  live : s'.live = s.live
  pages : s'.machine.pages = s.machine.pages
  files : s'.files = s.files

/-- The caches take nothing for the answer. -/
def Kmalloc.Quiet (a : Kmalloc) (pages : Pageblocks) : Prop := a.taken pages = []

/--
There is an object for the path and, if the record is reached, for the name; and the
caches take nothing for the objects that are reached.
-/
structure CleansUp (ans : Answers) (name : CString) (s : System) : Prop where
  path : ans.path.addr ≠ 0 ∧ ans.path.Quiet s.machine.pages
  desc : ∀ size, Opens ans name size → ans.desc.Quiet s.machine.pages
  newmod : ∀ size elf m, Opens ans name size →
    loadFile ans.desc.addr size ans.file s.machine = some (elf, m) → ans.newmod.Quiet m.pages
  nameCopy : ∀ size elf m, Opens ans name size →
    loadFile ans.desc.addr size ans.file s.machine = some (elf, m) → ans.newmod.addr ≠ 0 →
    ans.nameCopy.addr ≠ 0 ∧ ans.nameCopy.Quiet m.pages

theorem Opens.unique {ans : Answers} {name : CString} {size size' : Nat}
    (h : Opens ans name size) (h' : Opens ans name size') : size = size' :=
  Option.some.inj (h.stat.symm.trans h'.stat)

section

variable {w : PageWorld} {l files : List Nat} {s s' : System} {taken : List (Nat × Nat)}
  {ans : Answers} {name : CString}

/-- With everything given back, only the pages of the caches can differ. -/
theorem asBefore_iff (h : Registered w s l)
    (ha : Acquired w (l.map s.image) s taken [] [] [] s') : AsBefore l s s' ↔ taken = [] := by
  rw [← ha.pages_eq_iff h.accounts]
  constructor
  · exact fun hsame => hsame.pages
  · intro hpages
    refine ⟨ha.modules, fun a hl => ⟨ha.records a (h.live a hl).1,
      h.name_congr ha.records ha.strings hl⟩, ha.live, hpages, ha.files⟩

/-- An object that is kept is one too many. -/
theorem not_asBefore_of_kept {images : List (Nat × Nat)} {x : Nat}
    (ha : Acquired w images s taken [x] [] [] s') : ¬ AsBefore l s s' := by
  intro hsame
  have hlength := congrArg List.length (ha.live.symm.trans hsame.live)
  rw [List.length_append, List.length_singleton] at hlength
  omega

/-- Failing before the file is loaded. -/
theorem openModule_asBefore_iff (h : Registered w s l) {e : Stop}
    (hstopped : (e = .nullAccess ∧ ans.path.addr = 0) ∨
      (e = .failed ∧ ans.path.addr ≠ 0 ∧ (∀ size, ¬ Opens ans name size) ∧
        Acquired w (l.map s.image) s (ans.path.taken s.machine.pages ++ []) [] [] [] s')) :
    (e = .failed ∧ AsBefore l s s') ↔ CleansUp ans name s := by
  rcases hstopped with ⟨he, hnull⟩ | ⟨he, hne, hopens, ha⟩
  · refine iff_of_false (fun hfailed => ?_) fun hclean => hclean.path.1 hnull
    rw [he] at hfailed
    exact nomatch hfailed.1
  · rw [asBefore_iff h ha, List.append_nil, and_iff_right he]
    constructor
    · intro hquiet
      exact ⟨⟨hne, hquiet⟩, fun size ho => absurd ho (hopens size),
        fun size _ _ ho => absurd ho (hopens size), fun size _ _ ho => absurd ho (hopens size)⟩
    · exact fun hclean => hclean.path.2

/-- Without pages for the caches the file loads the same from the state before the call. -/
theorem loadFile_before {s1 s2 : System} {size : Nat} {elf : ElfDesc}
    (hs1 : s1.machine = (s.kmalloc ans.path).machine)
    (hload : loadFile ans.desc.addr size ans.file (s1.kmalloc ans.desc).machine =
      some (elf, s2.machine))
    (hpath : ans.path.Quiet s.machine.pages) (hdesc : ans.desc.Quiet s.machine.pages) :
    loadFile ans.desc.addr size ans.file s.machine = some (elf, s2.machine) := by
  have hsame := hs1.trans (kmalloc_quiet hpath)
  have hdesc' : ans.desc.taken s1.machine.pages = [] := hsame ▸ hdesc
  rwa [kmalloc_quiet hdesc', hsame] at hload

/-- Failing without an object for the name keeps the record. -/
theorem nameCopy_asBefore_iff {s1 s2 : System} {size : Nat} {elf : ElfDesc}
    (ho : Opens ans name size) (hs1 : s1.machine = (s.kmalloc ans.path).machine)
    (hload : loadFile ans.desc.addr size ans.file (s1.kmalloc ans.desc).machine =
      some (elf, s2.machine))
    (hnewmod : ans.newmod.addr ≠ 0) (hnull : ans.nameCopy.addr = 0)
    (ha : Acquired w (l.map s.image) s taken [ans.newmod.addr] [] [] s') :
    AsBefore l s s' ↔ CleansUp ans name s := by
  refine iff_of_false (not_asBefore_of_kept ha) fun hclean => ?_
  have hbefore := loadFile_before hs1 hload hclean.path.2 (hclean.desc size ho)
  exact (hclean.nameCopy size elf _ ho hbefore hnewmod).1 hnull

section Opened

variable {s1 : System} {size : Nat}
  (h : Registered w s l) (hne : ans.path.addr ≠ 0) (ho : Opens ans name size)
  (hs1 : s1.machine = (s.kmalloc ans.path).machine)

include h hne ho hs1

/-- Failing while the file is loaded. -/
theorem loadModule_asBefore_iff
    (hnone : loadFile ans.desc.addr size ans.file (s1.kmalloc ans.desc).machine = none)
    (ha : Acquired w (l.map s.image) s
      (ans.desc.taken s1.machine.pages ++ (ans.path.taken s.machine.pages ++ [])) [] [] [] s') :
    AsBefore l s s' ↔ CleansUp ans name s := by
  rw [asBefore_iff h ha, List.append_nil, List.append_eq_nil_iff]
  constructor
  · intro hgiven
    obtain ⟨hdesc, hpath⟩ := hgiven
    have hsame := hs1.trans (kmalloc_quiet hpath)
    rw [kmalloc_quiet hdesc, hsame] at hnone
    rw [hsame] at hdesc
    refine ⟨⟨hne, hpath⟩, fun _ _ => hdesc, fun size' elf m ho' hl => ?_,
      fun size' elf m ho' hl => ?_⟩ <;>
    · rw [ho'.unique ho, hnone] at hl
      exact nomatch hl
  · intro hclean
    have hsame := hs1.trans (kmalloc_quiet hclean.path.2)
    rw [hsame]
    exact ⟨hclean.desc size ho, hclean.path.2⟩

variable {s2 : System} {elf : ElfDesc}
  (hload : loadFile ans.desc.addr size ans.file (s1.kmalloc ans.desc).machine =
    some (elf, s2.machine))

include hload

/-- Failing without a record. -/
theorem newmod_asBefore_iff (hnull : ans.newmod.addr = 0)
    (ha : Acquired w (l.map s.image) s (ans.newmod.taken s2.machine.pages ++
      (ans.desc.taken s1.machine.pages ++ (ans.path.taken s.machine.pages ++ []))) [] [] [] s') :
    AsBefore l s s' ↔ CleansUp ans name s := by
  rw [asBefore_iff h ha, List.append_nil, List.append_eq_nil_iff, List.append_eq_nil_iff]
  constructor
  · intro hgiven
    obtain ⟨hnewmod, hdesc, hpath⟩ := hgiven
    rw [hs1.trans (kmalloc_quiet hpath)] at hdesc
    have hbefore := loadFile_before hs1 hload hpath hdesc
    refine ⟨⟨hne, hpath⟩, fun _ _ => hdesc, fun size' elf' m ho' hl => ?_,
      fun _ _ _ _ _ hnewmod => absurd hnull hnewmod⟩
    rw [ho'.unique ho, hbefore, Option.some.injEq, Prod.mk.injEq] at hl
    rw [← hl.2]
    exact hnewmod
  · intro hclean
    have hbefore := loadFile_before hs1 hload hclean.path.2 (hclean.desc size ho)
    rw [hs1.trans (kmalloc_quiet hclean.path.2)]
    exact ⟨hclean.newmod size elf _ ho hbefore, hclean.desc size ho, hclean.path.2⟩

/-- Failing in the module's own entry function. -/
theorem entry_asBefore_iff (hnewmod : ans.newmod.addr ≠ 0) (hcopy : ans.nameCopy.addr ≠ 0)
    (ha : Acquired w (l.map s.image) s
      (ans.nameCopy.taken (s2.kmalloc ans.newmod).machine.pages ++
        (ans.newmod.taken s2.machine.pages ++
          (ans.desc.taken s1.machine.pages ++ (ans.path.taken s.machine.pages ++ [])))) [] [] [] s') :
    AsBefore l s s' ↔ CleansUp ans name s := by
  rw [asBefore_iff h ha, List.append_nil, List.append_eq_nil_iff, List.append_eq_nil_iff,
    List.append_eq_nil_iff]
  constructor
  · intro hgiven
    obtain ⟨hname, hrecord, hdesc, hpath⟩ := hgiven
    rw [hs1.trans (kmalloc_quiet hpath)] at hdesc
    rw [kmalloc_quiet hrecord] at hname
    have hbefore := loadFile_before hs1 hload hpath hdesc
    refine ⟨⟨hne, hpath⟩, fun _ _ => hdesc, fun size' elf' m ho' hl => ?_,
      fun size' elf' m ho' hl _ => ⟨hcopy, ?_⟩⟩ <;>
    · rw [ho'.unique ho, hbefore, Option.some.injEq, Prod.mk.injEq] at hl
      rw [← hl.2]
      assumption
  · intro hclean
    have hbefore := loadFile_before hs1 hload hclean.path.2 (hclean.desc size ho)
    have hrecord := hclean.newmod size elf _ ho hbefore
    rw [hs1.trans (kmalloc_quiet hclean.path.2), kmalloc_quiet hrecord]
    exact ⟨(hclean.nameCopy size elf _ ho hbefore hnewmod).2, hrecord, hclean.desc size ho,
      hclean.path.2⟩

end Opened

/-- **A failing install** that does not stop at the name leaves everything as it was exactly if
it cleans up. -/
theorem failing_iff (h : Registered w s l) (hfresh : Fresh ans s) {fuel p : Nat}
    (hp : findModule s name fuel s.modules 0 = some (0, p)) :
    Ensures (moduleInstall fuel name ans) (fun _ _ => True)
      (fun e s' => (e = .failed ∧ AsBefore l s s') ↔ CleansUp ans name s) s := by
  unfold moduleInstall
  rw [ensures_bind, ensures_gets, hp]
  show Ensures (openModule ans name >>= _) _ _ s
  rw [ensures_bind]
  refine (openModule_spec (Acquired.init h.accounts)).conseq (fun r s1 hopened => ?_)
    fun e s1 hstopped => openModule_asBefore_iff h hstopped
  obtain ⟨hne, ho, hs1, ha1⟩ := hopened
  rw [ensures_bind]
  refine (loadModule_spec ha1).conseq (fun elf s2 hloaded => ?_) fun e s2 hstopped => ?_
  · obtain ⟨hload, hstart, himage, ha2⟩ := hloaded
    refine (registerModule_spec ha2 hstart himage hfresh).conseq (fun _ _ _ => trivial)
      fun e s3 hstopped => ?_
    obtain ⟨he, ⟨hnull, ha⟩ | ⟨hnewmod, hnull, ha⟩ | ⟨hnewmod, hcopy, -, ha⟩⟩ := hstopped
    · rw [and_iff_right he]
      exact newmod_asBefore_iff h hne ho hs1 hload hnull ha
    · rw [and_iff_right he]
      exact nameCopy_asBefore_iff ho hs1 hload hnewmod hnull ha
    · rw [and_iff_right he]
      exact entry_asBefore_iff h hne ho hs1 hload hnewmod hcopy ha
  · obtain ⟨he, hnone, ha⟩ := hstopped
    rw [and_iff_right he]
    exact loadModule_asBefore_iff h hne ho hs1 hnone ha

end

/-! ## A path without an object -/

/-- The answers for a file without a header, with objects that are there. -/
def noGrowth : Answers := { noHeader with path := ⟨0xe4000010, []⟩ }

theorem registered_emptySystem : Registered eightPages emptySystem [] :=
  registered_start pageInv_eightPages eightPages_nonnull noModules_emptySystem

end OSExt.Modules
