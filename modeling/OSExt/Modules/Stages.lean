import OSExt.Elf.LoadPages
import OSExt.Modules.Registry

/-!
# What an install has acquired

Between the start of a call and any point in it, objects, open files and page runs have
been acquired that are not given back yet; nothing else of the system has changed but the
pages that the caches of `kmalloc` have taken. Each stage of `module_install` either goes
on with what it should have acquired, or has given back what it had, and says why it
stopped.
-/

namespace OSExt.Modules

open Lib Memory Libk Elf

/-! ## The caches of `kmalloc` -/

/-- The runs that the caches take for an answer. -/
def Kmalloc.taken (a : Kmalloc) (pages : Pageblocks) : List (Nat × Nat) :=
  (serveAll a.requests pages).1

theorem serve_accounts {base : PageWorld} {runs : List (Nat × Nat)} {pages : Pageblocks}
    (h : Accounts base runs pages) (r : Request) :
    Accounts base (((r.serve pages).1.map (·, r.size)).toList ++ runs) (r.serve pages).2 := by
  cases r with
  | page =>
      cases hp : (usePage pages).1 with
      | none =>
          rw [Request.serve, hp, usePage_none pages hp]
          exact h
      | some p =>
          rw [Request.serve, hp]
          exact h.takePage hp
  | run more alignment =>
      cases hp : (useConsecutivePages (more + 1) alignment pages).1 with
      | none =>
          rw [Request.serve, hp, useConsecutivePages_none hp]
          exact h
      | some p =>
          rw [Request.serve, hp]
          exact (h.take (Nat.succ_pos more) hp).1

theorem serveAll_accounts {base : PageWorld} : ∀ (requests : List Request) {pages : Pageblocks}
    {runs : List (Nat × Nat)}, Accounts base runs pages →
    Accounts base ((serveAll requests pages).1 ++ runs) (serveAll requests pages).2 := by
  intro requests
  induction requests with
  | nil => exact fun h => h
  | cons r requests ih =>
      intro pages runs h
      rw [serveAll, List.append_assoc]
      exact ih (serve_accounts h r)

/-- Requests that get nothing leave the bitmaps as they were. -/
theorem serveAll_quiet : ∀ {requests : List Request} {pages : Pageblocks},
    (serveAll requests pages).1 = [] → (serveAll requests pages).2 = pages := by
  intro requests
  induction requests with
  | nil => exact fun _ => rfl
  | cons r requests ih =>
      intro pages h
      rw [serveAll] at h ⊢
      obtain ⟨hrest, hnone⟩ := List.append_eq_nil_iff.mp h
      have hr : (r.serve pages).2 = pages := by
        cases r with
        | page =>
            cases hp : (usePage pages).1 with
            | none => exact usePage_none pages hp
            | some p =>
                rw [Request.serve, hp] at hnone
                exact nomatch hnone
        | run more alignment =>
            cases hp : (useConsecutivePages (more + 1) alignment pages).1 with
            | none => exact useConsecutivePages_none hp
            | some p =>
                rw [Request.serve, hp] at hnone
                exact nomatch hnone
      exact (ih hrest).trans hr

/-- An answer for which the caches take nothing leaves memory as it was. -/
theorem kmalloc_quiet {a : Kmalloc} {s : System} (h : a.taken s.machine.pages = []) :
    (s.kmalloc a).machine = s.machine := by
  show { s.machine with pages := (serveAll a.requests s.machine.pages).2 } = s.machine
  rw [serveAll_quiet h]

/-! ## Acquired and not given back -/

/--
Since `s0` a call has acquired `objs`, `files` and `runs`, and the caches of `kmalloc`
have taken `taken`. The records and names from before are untouched.
-/
structure Acquired (w : PageWorld) (images : List (Nat × Nat)) (s0 : System)
    (taken : List (Nat × Nat)) (objs files : List Nat) (runs : List (Nat × Nat)) (s : System) :
    Prop where
  modules : s.modules = s0.modules
  records : ∀ a ∈ s0.live, s.module a = s0.module a
  strings : ∀ a ∈ s0.live, s.string a = s0.string a
  live : s.live = objs ++ s0.live
  files : s.files = files ++ s0.files
  slabRuns : s.slabRuns = taken ++ s0.slabRuns
  accounts : Accounts w (runs ++ (s.slabRuns ++ images)) s.machine.pages

namespace Acquired

variable {w : PageWorld} {images taken runs : List (Nat × Nat)} {objs files : List Nat}
  {s0 s : System}

theorem init (h : Accounts w (s0.slabRuns ++ images) s0.machine.pages) :
    Acquired w images s0 [] [] [] [] s0 :=
  ⟨rfl, fun _ _ => rfl, fun _ _ => rfl, rfl, rfl, rfl, h⟩

theorem perm {runs' : List (Nat × Nat)} (h : Acquired w images s0 taken objs files runs s)
    (hp : runs.Perm runs') : Acquired w images s0 taken objs files runs' s :=
  { h with accounts := h.accounts.perm (hp.append_right _) }

/-- The pages alone say what the caches have taken. -/
theorem pages_eq_iff (h : Acquired w images s0 taken objs files [] s)
    (h0 : Accounts w (s0.slabRuns ++ images) s0.machine.pages) :
    s.machine.pages = s0.machine.pages ↔ taken = [] := by
  have haccounts : Accounts w (taken ++ (s0.slabRuns ++ images)) s.machine.pages := by
    have haccounts := h.accounts
    rwa [h.slabRuns, List.nil_append, List.append_assoc] at haccounts
  constructor
  · intro hsame
    exact haccounts.eq_nil (hsame.trans h0.marks)
  · intro heq
    subst heq
    exact haccounts.marks.trans h0.marks.symm

theorem kmalloc (h : Acquired w images s0 taken objs files runs s) (a : Kmalloc) :
    Acquired w images s0 (a.taken s.machine.pages ++ taken)
      (if a.addr = 0 then objs else a.addr :: objs) files runs (s.kmalloc a) where
  modules := h.modules
  records := h.records
  strings := h.strings
  live := by
    show (if a.addr = 0 then s.live else a.addr :: s.live) = _
    rw [h.live]
    split <;> rfl
  files := h.files
  slabRuns := by
    show a.taken s.machine.pages ++ s.slabRuns = _
    rw [h.slabRuns, List.append_assoc]
  accounts := by
    have hserved := serveAll_accounts a.requests h.accounts
    refine hserved.perm ?_
    show (a.taken s.machine.pages ++ (runs ++ (s.slabRuns ++ images))).Perm
      (runs ++ (a.taken s.machine.pages ++ s.slabRuns ++ images))
    rw [← List.append_assoc, ← List.append_assoc, ← List.append_assoc, ← List.append_assoc]
    exact (List.perm_append_comm.append_right _).append_right _

theorem kfree (h : Acquired w images s0 taken objs files runs s) {x : Nat} (hx : x ∈ objs) :
    Acquired w images s0 taken (objs.erase x) files runs (s.kfree x) where
  modules := h.modules
  records := h.records
  strings := h.strings
  live := by
    show s.live.erase x = _
    rw [h.live, List.erase_append_left _ hx]
  files := h.files
  slabRuns := h.slabRuns
  accounts := h.accounts

theorem kfree_head {x : Nat} (h : Acquired w images s0 taken (x :: objs) files runs s) :
    Acquired w images s0 taken objs files runs (s.kfree x) := by
  have hfreed := h.kfree (List.mem_cons_self ..)
  rwa [List.erase_cons_head] at hfreed

theorem kfree_second {x y : Nat} (h : Acquired w images s0 taken (y :: x :: objs) files runs s)
    (hne : y ≠ x) : Acquired w images s0 taken (y :: objs) files runs (s.kfree x) := by
  have hfreed := h.kfree (x := x) (by simp)
  rwa [List.erase_cons_tail (by simpa using hne), List.erase_cons_head] at hfreed

theorem fopen (h : Acquired w images s0 taken objs files runs s) (f : Nat) :
    Acquired w images s0 taken objs (f :: files) runs (s.fopen f) :=
  { h with files := congrArg (f :: ·) h.files }

theorem fclose {f : Nat} (h : Acquired w images s0 taken objs (f :: files) runs s) :
    Acquired w images s0 taken objs files runs (s.fclose f) where
  modules := h.modules
  records := h.records
  strings := h.strings
  live := h.live
  files := by
    show s.files.erase f = _
    rw [h.files, List.cons_append, List.erase_cons_head]
  slabRuns := h.slabRuns
  accounts := h.accounts

theorem freePages {start n : Nat}
    (h : Acquired w images s0 taken objs files ((start, n) :: runs) s) :
    Acquired w images s0 taken objs files runs (s.freePages start n) :=
  { h with accounts := h.accounts.release }

theorem setMachine (h : Acquired w images s0 taken objs files runs s)
    {runs' : List (Nat × Nat)} {m : Machine}
    (hm : Accounts w (runs' ++ (s.slabRuns ++ images)) m.pages) :
    Acquired w images s0 taken objs files runs' (s.setMachine m) := { h with accounts := hm }

/-- A record written where no object was. -/
theorem setModule (h : Acquired w images s0 taken objs files runs s) {a : Nat} (ha : a ∉ s0.live)
    (m : Module) : Acquired w images s0 taken objs files runs (s.setModule a m) :=
  { h with
    records := fun b hb =>
      (Function.update_of_ne (fun h : b = a => ha (h ▸ hb)) _ _).trans (h.records b hb) }

theorem setString (h : Acquired w images s0 taken objs files runs s) {a : Nat} (ha : a ∉ s0.live)
    (c : CString) : Acquired w images s0 taken objs files runs (s.setString a c) :=
  { h with
    strings := fun b hb =>
      (Function.update_of_ne (fun h : b = a => ha (h ▸ hb)) _ _).trans (h.strings b hb) }

/-- `elf_destroy` without an image. -/
theorem elfDestroy_file {desc : Nat} {elf : ElfDesc}
    (h : Acquired w images s0 taken objs files [(elf.start, elf.pages)] s) (hdesc : desc ∈ objs)
    (hstart : elf.start ≠ 0) (himage : elf.image = 0) :
    Acquired w images s0 taken (objs.erase desc) files [] (s.elfDestroy desc elf) := by
  simp only [System.elfDestroy, ne_eq, hstart, himage, not_false_eq_true, not_true_eq_false,
    if_true, if_false]
  exact h.freePages.kfree hdesc

/-- `elf_destroy` with one. -/
theorem elfDestroy_image {desc : Nat} {elf : ElfDesc}
    (h : Acquired w images s0 taken objs files
      [(elf.image, elf.imagePages), (elf.start, elf.pages)] s)
    (hdesc : desc ∈ objs) (hstart : elf.start ≠ 0) (himage : elf.image ≠ 0) :
    Acquired w images s0 taken (objs.erase desc) files [] (s.elfDestroy desc elf) := by
  simp only [System.elfDestroy, ne_eq, hstart, himage, not_false_eq_true, if_true]
  exact (h.perm (List.Perm.swap _ _ _)).freePages.freePages.kfree hdesc

/-- `elf_destroy_without_image` leaves the image. -/
theorem elfDestroyWithoutImage {desc : Nat} {elf : ElfDesc}
    (h : Acquired w images s0 taken objs files
      [(elf.image, elf.imagePages), (elf.start, elf.pages)] s)
    (hdesc : desc ∈ objs) (hstart : elf.start ≠ 0) :
    Acquired w images s0 taken (objs.erase desc) files [(elf.image, elf.imagePages)]
      (s.elfDestroyWithoutImage desc elf) := by
  unfold System.elfDestroyWithoutImage
  rw [if_pos hstart]
  exact (h.perm (List.Perm.swap _ _ _)).freePages.kfree hdesc

end Acquired

/-! ## The stages -/

/-- The file is there, can be opened, and its header passes. -/
structure Opens (ans : Answers) (name : CString) (size : Nat) : Prop where
  stat : ans.stat (pathText name) = some size
  fopen : ans.fopen (pathText name) ≠ 0
  check : elfCheckHeader (elfReadHeader ans.file ans.buffer) = true

/-- The passes over a file up to its entry point, if it gets so far. -/
def loadFile (desc size : Nat) (file : List UInt8) (m : Machine) : Option (ElfDesc × Machine) :=
  match (elfLoadFile desc size file m).1 with
  | none => none
  | some elf =>
    let allocated := elfAllocImage elf (elfLoadFile desc size file m).2
    if allocated.1.image = 0 then none
    else
      let m := elfAssembleImage allocated.1 (elfFixGot allocated.1 allocated.2)
      if elfEntry allocated.1 m = 0 then none else some (allocated.1, m)

section Stages

variable {w : PageWorld} {images taken : List (Nat × Nat)} {s0 s : System} {ans : Answers}
  {name : CString}

/-- Opening the file leaves it open, or has failed with nothing acquired. -/
theorem openModule_spec (h : Acquired w images s0 taken [] [] [] s) :
    Ensures (openModule ans name)
      (fun r s' => ans.path.addr ≠ 0 ∧ Opens ans name r.1 ∧
        s'.machine = (s.kmalloc ans.path).machine ∧
        Acquired w images s0 (ans.path.taken s.machine.pages ++ taken) [] [r.2] [] s')
      (fun e s' => (e = .nullAccess ∧ ans.path.addr = 0) ∨
        (e = .failed ∧ ans.path.addr ≠ 0 ∧ (∀ size, ¬ Opens ans name size) ∧
          Acquired w images s0 (ans.path.taken s.machine.pages ++ taken) [] [] [] s')) s := by
  unfold openModule
  rw [ensures_bind, ensures_update]
  have hpath := h.kmalloc ans.path
  refine ensures_ite (fun hnull => Or.inl ⟨rfl, hnull⟩) fun hnull => ?_
  rw [if_neg hnull] at hpath
  cases hstat : ans.stat (pathText name) with
  | none =>
      refine Or.inr ⟨rfl, hnull, fun size hopens => ?_, hpath.kfree_head⟩
      exact nomatch hstat.symm.trans hopens.stat
  | some size =>
      refine ensures_ite (fun hopen => ?_) fun hopen => ?_
      · exact Or.inr ⟨rfl, hnull, fun size hopens => hopens.fopen hopen, hpath.kfree_head⟩
      · rw [ensures_bind, ensures_update, ensures_bind, ensures_update]
        have hopened := (hpath.fopen (ans.fopen (pathText name))).kfree_head
        refine ensures_ite (fun hcheck => ?_) fun hcheck => ?_
        · refine Or.inr ⟨rfl, hnull, fun size hopens => ?_, hopened.fclose⟩
          rw [hopens.check] at hcheck
          exact nomatch hcheck
        · refine ⟨hnull, ⟨hstat, hopen, ?_⟩, rfl, hopened⟩
          rw [Bool.not_eq_true, Bool.not_eq_false'] at hcheck
          exact hcheck

/-- Loading has the descriptor, the file and the image, or has failed with nothing acquired. -/
theorem loadModule_spec {size f : Nat} (h : Acquired w images s0 taken [] [f] [] s) :
    Ensures (loadModule ans size f)
      (fun elf s' => loadFile ans.desc.addr size ans.file (s.kmalloc ans.desc).machine =
          some (elf, s'.machine) ∧ elf.start ≠ 0 ∧ elf.image ≠ 0 ∧
        Acquired w images s0 (ans.desc.taken s.machine.pages ++ taken) [ans.desc.addr] []
          [(elf.image, elf.imagePages), (elf.start, elf.pages)] s')
      (fun e s' => e = .failed ∧
        loadFile ans.desc.addr size ans.file (s.kmalloc ans.desc).machine = none ∧
        Acquired w images s0 (ans.desc.taken s.machine.pages ++ taken) [] [] [] s') s := by
  unfold loadModule
  rw [ensures_bind, ensures_update, ensures_bind, ensures_gets, ensures_bind, ensures_update]
  have hdesc := h.kmalloc ans.desc
  obtain ⟨s1, hs1⟩ : ∃ s1, s1 = s.kmalloc ans.desc := ⟨_, rfl⟩
  rw [← hs1] at hdesc ⊢
  unfold loadFile
  rcases elfLoadFile_accounts hdesc.accounts ans.desc.addr size ans.file with
    ⟨hnone, hsame⟩ | ⟨elf, hsome, hne, hstart, himage, hfile⟩
  · -- no file was loaded; a descriptor there was is freed, and the file is closed
    rw [hnone, hsame]
    refine ⟨rfl, rfl, ?_⟩
    by_cases hnull : ans.desc.addr = 0
    · rw [if_pos hnull] at hdesc
      simp only [if_pos hnull]
      exact (hdesc.setMachine hdesc.accounts).fclose
    · rw [if_neg hnull] at hdesc
      simp only [if_neg hnull]
      exact (hdesc.setMachine hdesc.accounts).kfree_head.fclose
  · rw [if_neg hne] at hdesc
    have hread : Acquired w images s0 _ _ [] [(elf.start, elf.pages)] _ :=
      (hdesc.setMachine hfile).fclose
    obtain ⟨hstart', hpages', halloc⟩ := elfAllocImage_accounts hfile himage
    simp only [hsome, ensures_bind, ensures_update, ensures_gets]
    obtain ⟨m, hm⟩ : ∃ m, m = elfAllocImage elf (elfLoadFile ans.desc.addr size ans.file s1.machine).2 :=
      ⟨_, rfl⟩
    have hs : (System.fclose f (System.setMachine
        (elfLoadFile ans.desc.addr size ans.file s1.machine).2 s1)).machine =
      (elfLoadFile ans.desc.addr size ans.file s1.machine).2 := rfl
    rw [hs, ← hm]
    rw [← hm] at hstart' hpages' halloc
    rcases halloc with ⟨hno, hsame⟩ | ⟨himage', hboth⟩
    · -- no image: the pages of the file go with the descriptor
      have hread' := hread.setMachine
        (show Accounts w ([(m.1.start, m.1.pages)] ++ _) m.2.pages by
          rw [hstart', hpages', hsame]
          exact hread.accounts)
      refine ensures_ite (fun _ => ⟨rfl, if_pos hno, ?_⟩) fun h => absurd hno h
      have hfreed := hread'.elfDestroy_file (List.mem_singleton_self _) (hstart' ▸ hstart) hno
      rwa [List.erase_cons_head] at hfreed
    · rw [← hstart', ← hpages'] at hboth
      refine ensures_ite (fun h => absurd h himage') fun _ => ?_
      rw [if_neg himage']
      simp only [ensures_bind, ensures_update, ensures_gets]
      have himg := hread.setMachine
        (show Accounts w ([(m.1.image, m.1.imagePages), (m.1.start, m.1.pages)] ++ _)
            (elfAssembleImage m.1 (elfFixGot m.1 m.2)).pages by
          rw [elfAssembleImage_pages, elfFixGot_pages]
          exact hboth)
      refine ensures_ite (fun hentry => ⟨rfl, if_pos hentry, ?_⟩) fun hentry => ?_
      · -- no entry: both runs of pages go
        have hfreed := himg.elfDestroy_image (List.mem_singleton_self _) (hstart' ▸ hstart) himage'
        rwa [List.erase_cons_head] at hfreed
      · exact ⟨if_neg hentry, hstart' ▸ hstart, himage', himg⟩

/-- `kmalloc` gives no object that is in use. -/
structure Fresh (ans : Answers) (s : System) : Prop where
  newmod : ans.newmod.addr ≠ 0 → ans.newmod.addr ∉ ans.desc.addr :: s.live
  nameCopy : ans.nameCopy.addr ≠ 0 → ans.nameCopy.addr ∉ ans.newmod.addr :: ans.desc.addr :: s.live

/-- What a call that comes to its end has done since `s0`. -/
structure Installed (w : PageWorld) (images taken : List (Nat × Nat)) (s0 : System) (ans : Answers)
    (name : CString) (s : System) : Prop where
  newmod : ans.newmod.addr ≠ 0
  nameCopy : ans.nameCopy.addr ≠ 0
  modules : s.modules = ans.newmod.addr
  recordName : (s.module ans.newmod.addr).name = ans.nameCopy.addr
  recordNext : (s.module ans.newmod.addr).next = s0.modules
  records : ∀ a ∈ s0.live, s.module a = s0.module a
  string : kStreq (s.string ans.nameCopy.addr) name 100 = true
  strings : ∀ a ∈ s0.live, s.string a = s0.string a
  live : s.live = ans.nameCopy.addr :: ans.newmod.addr :: s0.live
  files : s.files = s0.files
  slabRuns : s.slabRuns = taken ++ s0.slabRuns
  accounts : Accounts w (((s.module ans.newmod.addr).start, (s.module ans.newmod.addr).pages) ::
    (s.slabRuns ++ images)) s.machine.pages

theorem kfree_link (x a : Nat) (s : System) : (s.link a).kfree x = (s.kfree x).link a := by
  unfold System.link
  by_cases hmodules : s.modules = 0
  · rw [if_pos hmodules, if_pos (show (s.kfree x).modules = 0 from hmodules)]
    rfl
  · rw [if_neg hmodules, if_neg (show ¬ (s.kfree x).modules = 0 from hmodules)]
    rfl

theorem freePages_link (start n a : Nat) (s : System) :
    (s.link a).freePages start n = (s.freePages start n).link a := by
  unfold System.link
  by_cases hmodules : s.modules = 0
  · rw [if_pos hmodules, if_pos (show (s.freePages start n).modules = 0 from hmodules)]
    rfl
  · rw [if_neg hmodules, if_neg (show ¬ (s.freePages start n).modules = 0 from hmodules)]
    rfl

/-- Linking a module and giving its file back do not meddle with each other. -/
theorem elfDestroyWithoutImage_link (desc a : Nat) (elf : ElfDesc) (s : System) :
    (s.link a).elfDestroyWithoutImage desc elf = (s.elfDestroyWithoutImage desc elf).link a := by
  unfold System.elfDestroyWithoutImage
  by_cases hstart : elf.start ≠ 0
  · rw [if_pos hstart, if_pos hstart]
    simp only [freePages_link, kfree_link]
  · rw [if_neg hstart, if_neg hstart]
    exact kfree_link _ _ _

/-- Giving the file back does not touch records and names. -/
theorem elfDestroyWithoutImage_module (desc : Nat) (elf : ElfDesc) (s : System) :
    (s.elfDestroyWithoutImage desc elf).module = s.module ∧
      (s.elfDestroyWithoutImage desc elf).string = s.string := by
  unfold System.elfDestroyWithoutImage
  split <;> exact ⟨rfl, rfl⟩

/-- A new record in front of the list points to the old head. -/
theorem link_eq {s : System} {a : Nat} (h : (s.module a).next = 0) : s.link a = { s with
    modules := a
    module := Function.update s.module a { s.module a with next := s.modules } } := by
  unfold System.link
  by_cases hmodules : s.modules = 0
  · rw [if_pos hmodules, hmodules, ← h]
    exact congrArg (fun r => { s with modules := a, module := r })
      (Function.update_eq_self a s.module).symm
  · rw [if_neg hmodules]
    rfl

/-- **Linking** a record that is filled in installs the module. -/
theorem link_installed {elf : ElfDesc}
    (h : Acquired w images s0 taken [ans.nameCopy.addr, ans.newmod.addr] []
      [(elf.image, elf.imagePages)] s)
    (hnewmod : ans.newmod.addr ≠ 0) (hcopy : ans.nameCopy.addr ≠ 0)
    (hfresh : ans.newmod.addr ∉ s0.live) (hmodule : s.module ans.newmod.addr = newRecord ans elf)
    (hstring : s.string ans.nameCopy.addr = copyOfName name) :
    Installed w images taken s0 ans name (s.link ans.newmod.addr) := by
  have hnext : (s.module ans.newmod.addr).next = 0 := congrArg Module.next hmodule
  rw [link_eq hnext]
  have hself : Function.update s.module ans.newmod.addr
      { s.module ans.newmod.addr with next := s.modules } ans.newmod.addr =
      { newRecord ans elf with next := s0.modules } := by
    rw [Function.update_self, hmodule, h.modules]
  have hrun : (elf.image, elf.imagePages) = ((Function.update s.module ans.newmod.addr
      { s.module ans.newmod.addr with next := s.modules } ans.newmod.addr).start,
      (Function.update s.module ans.newmod.addr
        { s.module ans.newmod.addr with next := s.modules } ans.newmod.addr).pages) := by
    rw [hself]
    rfl
  refine ⟨hnewmod, hcopy, rfl, ?_, ?_, fun a ha => ?_, ?_, h.strings, h.live, h.files, h.slabRuns, ?_⟩
  · exact congrArg Module.name hself
  · exact congrArg Module.next hself
  · have hne : a ≠ ans.newmod.addr := fun heq => hfresh (heq ▸ ha)
    exact (Function.update_of_ne hne _ _).trans (h.records a ha)
  · show kStreq (s.string ans.nameCopy.addr) name 100 = true
    rw [hstring]
    exact kStreq_copy name 100
  · have haccounts := h.accounts
    rw [hrun] at haccounts
    exact haccounts

/-- Registering links the module, or has failed; on one path it has kept the record. -/
theorem registerModule_spec {elf : ElfDesc} (h : Acquired w images s0 taken [ans.desc.addr] []
      [(elf.image, elf.imagePages), (elf.start, elf.pages)] s)
    (hstart : elf.start ≠ 0) (himage : elf.image ≠ 0) (hfresh : Fresh ans s0) :
    Ensures (registerModule ans name elf)
      (fun _ s' => Installed w images (ans.nameCopy.taken (s.kmalloc ans.newmod).machine.pages ++
        (ans.newmod.taken s.machine.pages ++ taken)) s0 ans name s')
      (fun e s' => e = .failed ∧
        ((ans.newmod.addr = 0 ∧
            Acquired w images s0 (ans.newmod.taken s.machine.pages ++ taken) [] [] [] s') ∨
          (ans.newmod.addr ≠ 0 ∧ ans.nameCopy.addr = 0 ∧ Acquired w images s0
            (ans.nameCopy.taken (s.kmalloc ans.newmod).machine.pages ++
              (ans.newmod.taken s.machine.pages ++ taken)) [ans.newmod.addr] [] [] s') ∨
          (ans.newmod.addr ≠ 0 ∧ ans.nameCopy.addr ≠ 0 ∧ ans.moduleEnd = 0 ∧ Acquired w images s0
            (ans.nameCopy.taken (s.kmalloc ans.newmod).machine.pages ++
              (ans.newmod.taken s.machine.pages ++ taken)) [] [] [] s'))) s := by
  unfold registerModule
  rw [ensures_bind, ensures_update]
  have hrecord := h.kmalloc ans.newmod
  obtain ⟨s1, hs1⟩ : ∃ s1, s1 = s.kmalloc ans.newmod := ⟨_, rfl⟩
  rw [← hs1] at hrecord ⊢
  refine ensures_ite (fun hnull => ?_) fun hne => ?_
  · rw [if_pos hnull] at hrecord
    refine ⟨rfl, Or.inl ⟨hnull, ?_⟩⟩
    have hfreed := hrecord.elfDestroy_image (List.mem_singleton_self _) hstart himage
    rwa [List.erase_cons_head] at hfreed
  rw [if_neg hne] at hrecord
  obtain ⟨hdesc, hlive⟩ := List.ne_and_not_mem_of_not_mem_cons (hfresh.newmod hne)
  rw [ensures_bind, ensures_update]
  have hcopy := hrecord.kmalloc ans.nameCopy
  obtain ⟨s2, hs2⟩ : ∃ s2, s2 = s1.kmalloc ans.nameCopy := ⟨_, rfl⟩
  rw [← hs2] at hcopy ⊢
  refine ensures_ite (fun hnull => ?_) fun hne' => ?_
  · rw [if_pos hnull] at hcopy
    refine ⟨rfl, Or.inr (Or.inl ⟨hne, hnull, ?_⟩)⟩
    have hmem : ans.desc.addr ∈ [ans.newmod.addr, ans.desc.addr] := by simp
    have hfreed := hcopy.elfDestroy_image hmem hstart himage
    rwa [List.erase_cons_tail (by simpa using hdesc), List.erase_cons_head] at hfreed
  rw [if_neg hne'] at hcopy
  obtain ⟨hnewmod, hrest⟩ := List.ne_and_not_mem_of_not_mem_cons (hfresh.nameCopy hne')
  obtain ⟨hdesc', hlive'⟩ := List.ne_and_not_mem_of_not_mem_cons hrest
  rw [ensures_bind, ensures_update, ensures_bind, ensures_update]
  -- the record and the name are filled in
  obtain ⟨s3, hs3⟩ : ∃ s3, s3 = (s2.setString ans.nameCopy.addr (copyOfName name)).setModule
    ans.newmod.addr (newRecord ans elf) := ⟨_, rfl⟩
  have hfilled := (hcopy.setString hlive' (copyOfName name)).setModule hlive (newRecord ans elf)
  have hstring : s3.string ans.nameCopy.addr = copyOfName name := by
    rw [hs3]
    exact Function.update_self ..
  have hmodule : s3.module ans.newmod.addr = newRecord ans elf := by
    rw [hs3]
    exact Function.update_self ..
  rw [← hs3] at hfilled ⊢
  refine ensures_ite (fun hnull => ?_) fun _ => ?_
  · refine ⟨rfl, Or.inr (Or.inr ⟨hne, hne', hnull, ?_⟩)⟩
    have hfreed := (hfilled.kfree_second hnewmod).kfree_head.elfDestroy_image
      (List.mem_singleton_self _) hstart himage
    rwa [List.erase_cons_head] at hfreed
  · rw [ensures_bind, ensures_update, ensures_update, elfDestroyWithoutImage_link]
    have hmem : ans.desc.addr ∈ [ans.nameCopy.addr, ans.newmod.addr, ans.desc.addr] := by simp
    have hgiven := hfilled.elfDestroyWithoutImage hmem hstart
    rw [List.erase_cons_tail (by simpa using hdesc'), List.erase_cons_tail (by simpa using hdesc),
      List.erase_cons_head] at hgiven
    obtain ⟨hkept, hkept'⟩ := elfDestroyWithoutImage_module ans.desc.addr elf s3
    exact link_installed hgiven hne hne' hlive ((congrFun hkept _).trans hmodule)
      ((congrFun hkept' _).trans hstring)

end Stages

end OSExt.Modules
