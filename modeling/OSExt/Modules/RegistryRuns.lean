import OSExt.Lib.Chain
import OSExt.Modules.Stages

/-!
# The registry over installs and uninstalls

The list of modules holds records with pairwise different names, and the pages taken since
no module was installed are those of the modules' images and those the caches of `kmalloc`
have taken meanwhile. An install that fails changes neither the list nor the images, one
that succeeds adds a module in front, and an uninstall takes the module with the name out,
wherever it stands, and gives back its image.
-/

namespace OSExt.Modules

open Lib Memory Libk Elf

namespace System

/-- The links of the records. -/
def next (s : System) (a : Nat) : Nat := (s.module a).next

/-- The page run of a module's image. -/
def image (s : System) (a : Nat) : Nat × Nat := ((s.module a).start, (s.module a).pages)

/-- Where the name of a module is. -/
def nameAddr (s : System) (a : Nat) : Nat := (s.module a).name

end System

/-- `l` is the list of modules, with pairwise different names. -/
structure Registered (w : PageWorld) (s : System) (l : List Nat) : Prop where
  list : IsList s.next 0 s.modules l
  names : l.Pairwise fun a b => kStreq (s.name a) (s.name b) 100 = false
  /-- No object is used twice. -/
  nodup : (l ++ l.map s.nameAddr).Nodup
  live : ∀ a ∈ l, a ∈ s.live ∧ s.nameAddr a ∈ s.live
  accounts : Accounts w (s.slabRuns ++ l.map s.image) s.machine.pages

/-! ## Looking up a name -/

/-- The search finds the module with the name, and the one before it, unless its fuel ends. -/
theorem findModule_spec (s : System) (name : CString) : ∀ {l : List Nat} {head : Nat},
    IsList s.next 0 head l → ∀ (prev fuel : Nat),
    (fuel ≤ l.length ∧ findModule s name fuel head prev = none) ∨
      ((∀ a ∈ l, kStreq name (s.name a) 100 = false) ∧
        ∃ p, findModule s name fuel head prev = some (0, p)) ∨
      ∃ pre mod post, l = pre ++ mod :: post ∧ kStreq name (s.name mod) 100 = true ∧
        findModule s name fuel head prev = some (mod, pre.getLastD prev) := by
  intro l
  induction l with
  | nil =>
      intro head hlist prev fuel
      cases fuel with
      | zero => exact Or.inl ⟨Nat.le_refl _, rfl⟩
      | succ fuel => exact Or.inr (Or.inl ⟨nofun, prev, if_pos hlist⟩)
  | cons a l ih =>
      intro head hlist prev fuel
      cases fuel with
      | zero => exact Or.inl ⟨Nat.zero_le _, rfl⟩
      | succ fuel =>
          obtain ⟨rfl, hne, hrest⟩ := hlist
          rw [findModule, if_neg hne]
          by_cases hname : kStreq name (s.name head) 100 = true
          · rw [if_pos hname]
            exact Or.inr (Or.inr ⟨[], head, l, rfl, hname, rfl⟩)
          · rw [if_neg hname]
            rcases ih hrest head fuel with
              ⟨hle, hout⟩ | ⟨hnone, p, hp⟩ | ⟨pre, mod, post, rfl, hmod, hfound⟩
            · exact Or.inl ⟨Nat.succ_le_succ hle, hout⟩
            · refine Or.inr (Or.inl ⟨fun b hb => ?_, p, hp⟩)
              rcases List.mem_cons.mp hb with rfl | hb
              · exact Bool.eq_false_iff.mpr hname
              · exact hnone b hb
            · refine Or.inr (Or.inr ⟨head :: pre, mod, post, rfl, hmod, ?_⟩)
              rw [List.getLastD_cons]
              exact hfound

/-! ## Installing -/

namespace Registered

variable {w : PageWorld} {l : List Nat} {s0 s : System} {ans : Answers} {name : CString}
  {taken : List (Nat × Nat)}

/-- A state in which the records and names are those of `s0`. -/
theorem image_congr (h : Registered w s0 l) (hr : ∀ a ∈ s0.live, s.module a = s0.module a) :
    l.map s.image = l.map s0.image := by
  refine List.map_congr_left fun a ha => ?_
  unfold System.image
  rw [hr a (h.live a ha).1]

theorem nameAddr_congr (h : Registered w s0 l) (hr : ∀ a ∈ s0.live, s.module a = s0.module a) :
    l.map s.nameAddr = l.map s0.nameAddr :=
  List.map_congr_left fun a ha => congrArg Module.name (hr a (h.live a ha).1)

theorem name_congr (h : Registered w s0 l) (hr : ∀ a ∈ s0.live, s.module a = s0.module a)
    (hs : ∀ a ∈ s0.live, s.string a = s0.string a) {a : Nat} (ha : a ∈ l) : s.name a = s0.name a := by
  obtain ⟨hlive, hname⟩ := h.live a ha
  unfold System.name
  rw [hr a hlive]
  exact hs _ hname

/-- **A failed install** leaves the registry as it is. -/
theorem of_acquired {objs files : List Nat} (h : Registered w s0 l)
    (ha : Acquired w (l.map s0.image) s0 taken objs files [] s) : Registered w s l where
  list := by
    rw [ha.modules]
    exact h.list.congr fun a hl => congrArg Module.next (ha.records a (h.live a hl).1)
  names := h.names.imp_of_mem fun hx hy hne => by
    rwa [h.name_congr ha.records ha.strings hx, h.name_congr ha.records ha.strings hy]
  nodup := by
    rw [h.nameAddr_congr ha.records]
    exact h.nodup
  live a hl := by
    obtain ⟨hlive, hname⟩ := h.live a hl
    rw [ha.live, System.nameAddr, ha.records a hlive]
    exact ⟨List.mem_append_right _ hlive, List.mem_append_right _ hname⟩
  accounts := by
    rw [h.image_congr ha.records]
    exact ha.accounts

/-- **An install** puts the new module in front. -/
theorem install (h : Registered w s0 l) (hi : Installed w (l.map s0.image) taken s0 ans name s)
    (hfresh : Fresh ans s0) (hno : ∀ a ∈ l, kStreq name (s0.name a) 100 = false) :
    Registered w s (ans.newmod.addr :: l) := by
  obtain ⟨-, hlive⟩ := List.ne_and_not_mem_of_not_mem_cons (hfresh.newmod hi.newmod)
  obtain ⟨hne, hrest⟩ := List.ne_and_not_mem_of_not_mem_cons (hfresh.nameCopy hi.nameCopy)
  obtain ⟨-, hlive'⟩ := List.ne_and_not_mem_of_not_mem_cons hrest
  refine ⟨?_, List.pairwise_cons.mpr ⟨fun a ha => ?_, ?_⟩, ?_, fun a ha => ?_, ?_⟩
  · rw [hi.modules]
    refine ⟨rfl, hi.newmod, ?_⟩
    rw [System.next, hi.recordNext]
    exact h.list.congr fun a ha => congrArg Module.next (hi.records a (h.live a ha).1)
  · -- an equal name would have been found
    refine Bool.eq_false_iff.mpr fun heq => ?_
    rw [h.name_congr hi.records hi.strings ha, System.name, hi.recordName] at heq
    have hname := kStreq_trans (kStreq_symm hi.string) heq
    rw [hno a ha] at hname
    exact Bool.false_ne_true hname
  · exact h.names.imp_of_mem fun hx hy hne => by
      rwa [h.name_congr hi.records hi.strings hx, h.name_congr hi.records hi.strings hy]
  · have hlist : ans.newmod.addr ∉ l := fun hl => hlive (h.live _ hl).1
    have hlist' : ans.nameCopy.addr ∉ l := fun hl => hlive' (h.live _ hl).1
    have haddrs : ∀ x, x ∉ s0.live → x ∉ l.map s0.nameAddr := by
      intro x hx hmem
      obtain ⟨a, ha, rfl⟩ := List.mem_map.mp hmem
      exact hx (h.live a ha).2
    rw [List.map_cons, h.nameAddr_congr hi.records, System.nameAddr, hi.recordName]
    refine (List.perm_middle.nodup_iff).mpr (List.nodup_cons.mpr ⟨?_, List.nodup_cons.mpr ⟨?_, h.nodup⟩⟩)
    · simp only [List.cons_append, List.mem_cons, List.mem_append, not_or]
      exact ⟨hne, hlist', haddrs _ hlive'⟩
    · show ans.newmod.addr ∉ l ++ l.map s0.nameAddr
      rw [List.mem_append, not_or]
      exact ⟨hlist, haddrs _ hlive⟩
  · rw [hi.live]
    rcases List.mem_cons.mp ha with rfl | ha
    · rw [System.nameAddr, hi.recordName]
      simp
    · obtain ⟨hl, hn⟩ := h.live a ha
      rw [System.nameAddr, hi.records a hl]
      exact ⟨List.mem_cons_of_mem _ (List.mem_cons_of_mem _ hl),
        List.mem_cons_of_mem _ (List.mem_cons_of_mem _ hn)⟩
  · rw [List.map_cons, h.image_congr hi.records]
    exact hi.accounts.perm List.perm_middle.symm

/-! ## Uninstalling -/

theorem unlink_frame (s : System) (mod prev : Nat) :
    (∀ a, ((s.unlink mod prev).module a).name = (s.module a).name ∧
      ((s.unlink mod prev).module a).start = (s.module a).start ∧
      ((s.unlink mod prev).module a).pages = (s.module a).pages) ∧
    (s.unlink mod prev).string = s.string ∧ (s.unlink mod prev).live = s.live ∧
    (s.unlink mod prev).machine = s.machine ∧ (s.unlink mod prev).slabRuns = s.slabRuns := by
  unfold System.unlink
  by_cases hprev : prev = 0
  · rw [if_pos hprev]
    exact ⟨fun _ => ⟨rfl, rfl, rfl⟩, rfl, rfl, rfl, rfl⟩
  · rw [if_neg hprev]
    refine ⟨fun a => ?_, rfl, rfl, rfl, rfl⟩
    by_cases ha : a = prev
    · subst ha
      simp only [System.setNext, System.setModule, Function.update_self, and_self]
    · simp only [System.setNext, System.setModule, Function.update_of_ne ha, and_self]

/-- Taking a module out of the list, wherever it stands. -/
theorem unlink_list {pre post : List Nat} {mod : Nat}
    (h : IsList s.next 0 s.modules (pre ++ mod :: post)) (hnd : (pre ++ mod :: post).Nodup) :
    IsList (s.unlink mod (pre.getLastD 0)).next 0 (s.unlink mod (pre.getLastD 0)).modules
      (pre ++ post) := by
  unfold System.unlink
  rcases List.eq_nil_or_concat pre with rfl | ⟨pre, a, rfl⟩
  · obtain ⟨hhead, -, hrest⟩ := h
    rw [List.getLastD_nil, if_pos rfl]
    exact hrest
  · rw [List.concat_eq_append, List.append_assoc] at h hnd ⊢
    have ha : a ≠ 0 := h.ne_null a (by simp)
    rw [List.getLastD_concat, if_neg ha]
    have hnext : (s.setNext a (s.module mod).next).next = Function.update s.next a (s.next mod) :=
      Function.comp_update Module.next s.module a _
    rw [hnext]
    exact IsList.unlink h hnd

/-- The state after the module `mod` has been uninstalled. -/
def uninstalled (s : System) (mod prev : Nat) : System :=
  let s := (s.freePages (s.module mod).start (s.module mod).pages).unlink mod prev
  (s.kfree (s.module mod).name).kfree mod

/-- **An uninstall** takes a module out of the list and gives its image back. -/
theorem uninstall {pre post : List Nat} {mod : Nat} (h : Registered w s (pre ++ mod :: post)) :
    Registered w (uninstalled s mod (pre.getLastD 0)) (pre ++ post) ∧
      (uninstalled s mod (pre.getLastD 0)).machine.pages =
        freeConsecutivePages (s.image mod).1 (s.image mod).2 s.machine.pages ∧
      (uninstalled s mod (pre.getLastD 0)).slabRuns = s.slabRuns := by
  obtain ⟨s1, hs1⟩ : ∃ s1, s1 = s.freePages (s.module mod).start (s.module mod).pages := ⟨_, rfl⟩
  have hlist : IsList s1.next 0 s1.modules (pre ++ mod :: post) := by
    rw [hs1]
    exact h.list
  have hlinked := unlink_list hlist h.nodup.of_append_left
  obtain ⟨hrecord, hstring, hlive, hmachine, hslab⟩ := unlink_frame s1 mod (pre.getLastD 0)
  unfold uninstalled
  rw [← hs1]
  obtain ⟨s2, hs2⟩ : ∃ s2, s2 = s1.unlink mod (pre.getLastD 0) := ⟨_, rfl⟩
  rw [← hs2] at hlinked hrecord hstring hlive hmachine hslab ⊢
  have hname : ∀ a, s2.name a = s.name a := by
    intro a
    unfold System.name
    rw [(hrecord a).1, hstring, hs1]
    rfl
  have haddr : ∀ a, s2.nameAddr a = s.nameAddr a := fun a => (hrecord a).1.trans (by rw [hs1]; rfl)
  have himage : ∀ a, s2.image a = s.image a := fun a =>
    Prod.ext ((hrecord a).2.1.trans (by rw [hs1]; rfl)) ((hrecord a).2.2.trans (by rw [hs1]; rfl))
  have hlive2 : s2.live = s.live := hlive.trans (by rw [hs1]; rfl)
  have hpages : s2.machine.pages =
      freeConsecutivePages (s.image mod).1 (s.image mod).2 s.machine.pages := by
    rw [hmachine, hs1]
    rfl
  have hslab2 : s2.slabRuns = s.slabRuns := hslab.trans (by rw [hs1]; rfl)
  -- the module and its name stand apart from those that stay
  have hmiddle : ((pre ++ mod :: post) ++ (pre ++ mod :: post).map s.nameAddr).Perm
      (mod :: s.nameAddr mod :: ((pre ++ post) ++ (pre ++ post).map s.nameAddr)) := by
    have hfront : (pre ++ mod :: post).Perm (mod :: (pre ++ post)) := List.perm_middle
    refine (hfront.append (hfront.map s.nameAddr)).trans (List.Perm.cons mod ?_)
    exact List.perm_middle
  obtain ⟨hmod, hrest⟩ := List.nodup_cons.mp (hmiddle.nodup_iff.mp h.nodup)
  obtain ⟨hmodName, hkept⟩ := List.nodup_cons.mp hrest
  have hsub : (pre ++ post).Sublist (pre ++ mod :: post) :=
    (List.Sublist.refl pre).append (List.sublist_cons_self mod post)
  have hstays : ∀ x ∈ (pre ++ post) ++ (pre ++ post).map s.nameAddr, x ∈ s.live →
      x ∈ (s2.live.erase (s.nameAddr mod)).erase mod := by
    intro x hx hl
    have hne : x ≠ mod := fun heq => hmod (List.mem_cons_of_mem _ (heq ▸ hx))
    have hne' : x ≠ s.nameAddr mod := fun heq => hmodName (heq ▸ hx)
    rw [List.mem_erase_of_ne hne, List.mem_erase_of_ne hne', hlive2]
    exact hl
  refine ⟨⟨hlinked, ?_, ?_, fun a ha => ?_, ?_⟩, hpages, hslab2⟩
  · refine (h.names.sublist hsub).imp fun {a b} hne => ?_
    show kStreq (s2.name a) (s2.name b) 100 = false
    rw [hname, hname]
    exact hne
  · show ((pre ++ post) ++ (pre ++ post).map s2.nameAddr).Nodup
    rw [List.map_congr_left fun a _ => haddr a]
    exact hkept
  · obtain ⟨hl, hn⟩ := h.live a (hsub.subset ha)
    show a ∈ (s2.live.erase (s2.nameAddr mod)).erase mod ∧
      s2.nameAddr a ∈ (s2.live.erase (s2.nameAddr mod)).erase mod
    rw [haddr, haddr]
    exact ⟨hstays a (List.mem_append_left _ ha) hl,
      hstays _ (List.mem_append_right _ (List.mem_map_of_mem ha)) hn⟩
  · show Accounts w (s2.slabRuns ++ (pre ++ post).map s2.image) s2.machine.pages
    rw [List.map_congr_left fun a _ => himage a, hpages, hslab2]
    refine Accounts.release (h.accounts.perm ?_)
    rw [List.map_append, List.map_append, List.map_cons, ← List.append_assoc, ← List.append_assoc]
    exact List.perm_middle

end Registered

/-! ## The two calls -/

section Calls

variable {w : PageWorld} {s : System} {l : List Nat}

/-- An uninstall takes out the module with the name, if there is one. -/
theorem moduleUninstall_spec (h : Registered w s l) (fuel : Nat) (name : CString) :
    (fuel ≤ l.length ∧ moduleUninstall fuel name s = (.error .outOfFuel, s)) ∨
      ((∀ a ∈ l, kStreq name (s.name a) 100 = false) ∧ moduleUninstall fuel name s = (.ok (), s)) ∨
      ∃ pre mod post, l = pre ++ mod :: post ∧ kStreq name (s.name mod) 100 = true ∧
        moduleUninstall fuel name s =
          (.ok (), Registered.uninstalled s mod (pre.getLastD 0)) := by
  rcases findModule_spec s name h.list 0 fuel with
    ⟨hle, hout⟩ | ⟨hnone, p, hp⟩ | ⟨pre, mod, post, rfl, hmod, hfound⟩
  · refine Or.inl ⟨hle, ?_⟩
    unfold moduleUninstall
    simp only [bind_eq, gets, hout]
    rfl
  · refine Or.inr (Or.inl ⟨hnone, ?_⟩)
    unfold moduleUninstall
    simp only [bind_eq, gets, hp]
    rfl
  · have hne := h.list.ne_null mod (by simp)
    refine Or.inr (Or.inr ⟨pre, mod, post, rfl, hmod, ?_⟩)
    unfold moduleUninstall
    simp only [bind_eq, gets, hfound, if_neg hne, update]
    rfl

/-- **An install** puts a module in front, has failed with everything but objects given back,
or has written through NULL. -/
theorem moduleInstall_spec (h : Registered w s l) {ans : Answers} (hfresh : Fresh ans s)
    (fuel : Nat) (name : CString) :
    Ensures (moduleInstall fuel name ans)
      (fun _ s' => (∀ a ∈ l, kStreq name (s.name a) 100 = false) ∧
        ∃ taken, Installed w (l.map s.image) taken s ans name s')
      (fun e s' => (e = .outOfFuel ∧ fuel ≤ l.length) ∨ e = .nullAccess ∨
        (e = .failed ∧ ∃ taken objs, Acquired w (l.map s.image) s taken objs [] [] s')) s := by
  unfold moduleInstall
  rw [ensures_bind, ensures_gets]
  have hinit := Acquired.init h.accounts
  rcases findModule_spec s name h.list 0 fuel with
    ⟨hle, hout⟩ | ⟨hnone, p, hp⟩ | ⟨pre, mod, post, rfl, hmod, hfound⟩
  · rw [hout]
    exact Or.inl ⟨rfl, hle⟩
  · rw [hp]
    show Ensures (openModule ans name >>= _) _ _ s
    rw [ensures_bind]
    refine (openModule_spec hinit).conseq (fun r s1 hopened => ?_) fun e s1 hstopped => ?_
    · obtain ⟨-, -, -, hs1⟩ := hopened
      rw [ensures_bind]
      refine (loadModule_spec hs1).conseq (fun elf s2 hloaded => ?_) fun e s2 hstopped => ?_
      · obtain ⟨-, hstart, himage, hs2⟩ := hloaded
        refine (registerModule_spec hs2 hstart himage hfresh).conseq
          (fun _ s3 hinstalled => ⟨hnone, _, hinstalled⟩) fun e s3 hstopped => ?_
        obtain ⟨he, ⟨-, ha⟩ | ⟨-, -, ha⟩ | ⟨-, -, -, ha⟩⟩ := hstopped <;>
          exact Or.inr (Or.inr ⟨he, _, _, ha⟩)
      · obtain ⟨he, -, ha⟩ := hstopped
        exact Or.inr (Or.inr ⟨he, _, _, ha⟩)
    · rcases hstopped with ⟨he, -⟩ | ⟨he, -, -, ha⟩
      · exact Or.inr (Or.inl he)
      · exact Or.inr (Or.inr ⟨he, _, _, ha⟩)
  · rw [hfound]
    have hne := h.list.ne_null mod (by simp)
    refine ensures_ite (fun _ => Or.inr (Or.inr ⟨rfl, [], [], hinit⟩)) fun h => absurd hne h

end Calls

/-! ## Runs -/

/-- No module is installed, and the pages taken from here on are counted. -/
structure NoModules (w : PageWorld) (s : System) : Prop where
  modules : s.modules = 0
  slabRuns : s.slabRuns = []
  pages : s.machine.pages = w.pages

/-- Any calls, one after the other. -/
inductive Reaches (s0 : System) : System → Prop
  | start : Reaches s0 s0
  | installed {s s' : System} (fuel : Nat) (name : CString) (ans : Answers) : Reaches s0 s →
      Fresh ans s → moduleInstall fuel name ans s = (.ok (), s') → Reaches s0 s'
  | failed {s s' : System} (fuel : Nat) (name : CString) (ans : Answers) : Reaches s0 s →
      Fresh ans s → moduleInstall fuel name ans s = (.error .failed, s') → Reaches s0 s'
  | uninstalled {s s' : System} (fuel : Nat) (name : CString) : Reaches s0 s →
      moduleUninstall fuel name s = (.ok (), s') → Reaches s0 s'

section Runs

variable {w : PageWorld} {s0 s : System}

theorem registered_start (hw : PageInv w) (hn : ∀ b ∈ w.pages, b.start ≠ 0)
    (h0 : NoModules w s0) : Registered w s0 [] where
  list := h0.modules
  names := List.Pairwise.nil
  nodup := List.nodup_nil
  live := nofun
  accounts := by
    rw [h0.slabRuns, h0.pages]
    exact Accounts.init hw hn

/-- **Every call keeps the registry.** -/
theorem registered_of_reaches (hw : PageInv w) (hn : ∀ b ∈ w.pages, b.start ≠ 0)
    (h0 : NoModules w s0) (h : Reaches s0 s) : ∃ l, Registered w s l := by
  induction h with
  | start => exact ⟨[], registered_start hw hn h0⟩
  | installed fuel name ans _ hfresh hcall ih =>
      obtain ⟨l, hl⟩ := ih
      obtain ⟨hnone, taken, hinstalled⟩ := (moduleInstall_spec hl hfresh fuel name).ok hcall
      exact ⟨_, hl.install hinstalled hfresh hnone⟩
  | failed fuel name ans _ hfresh hcall ih =>
      obtain ⟨l, hl⟩ := ih
      rcases (moduleInstall_spec hl hfresh fuel name).stopped hcall with
        ⟨he, -⟩ | he | ⟨-, taken, objs, ha⟩
      · exact nomatch he
      · exact nomatch he
      · exact ⟨l, hl.of_acquired ha⟩
  | uninstalled fuel name _ hcall ih =>
      obtain ⟨l, hl⟩ := ih
      rcases moduleUninstall_spec hl fuel name with
        ⟨-, hout⟩ | ⟨-, hsame⟩ | ⟨pre, mod, post, rfl, -, hmod⟩
      · rw [hout] at hcall
        exact nomatch hcall
      · rw [hsame, Prod.mk.injEq] at hcall
        exact ⟨l, hcall.2 ▸ hl⟩
      · rw [hmod, Prod.mk.injEq] at hcall
        exact ⟨_, hcall.2 ▸ hl.uninstall.1⟩

/-- The list of modules, and what the next call does to it and to the bitmaps. -/
structure RegistryHolds (w : PageWorld) (s : System) (l : List Nat) : Prop where
  list : IsList s.next 0 s.modules l
  names : l.Pairwise fun a b => kStreq (s.name a) (s.name b) 100 = false
  disjoint : (l.map s.image).Pairwise fun r r' =>
    r.1 + r.2 * smallPageSize ≤ r'.1 ∨ r'.1 + r'.2 * smallPageSize ≤ r.1
  /-- Besides what the caches of `kmalloc` have taken, only images are held, and were free. -/
  pages : s.machine.pages = markAll (s.slabRuns ++ l.map s.image) w.pages
  separate : Separate w.pages (s.slabRuns ++ l.map s.image)
  failed : ∀ fuel name ans s', Fresh ans s →
    moduleInstall fuel name ans s = (.error .failed, s') →
    (IsList s'.next 0 s'.modules l ∧ ∀ a ∈ l, s'.module a = s.module a ∧ s'.name a = s.name a) ∧
      ∃ taken, s'.slabRuns = taken ++ s.slabRuns ∧
        s'.machine.pages = markAll taken s.machine.pages
  uninstalled : ∀ fuel name, l.length < fuel →
    ((∀ a ∈ l, kStreq name (s.name a) 100 = false) ∧ moduleUninstall fuel name s = (.ok (), s)) ∨
      ∃ pre mod post s', l = pre ++ mod :: post ∧ kStreq name (s.name mod) 100 = true ∧
        moduleUninstall fuel name s = (.ok (), s') ∧ IsList s'.next 0 s'.modules (pre ++ post) ∧
        s'.slabRuns = s.slabRuns ∧ s'.machine.pages =
          freeConsecutivePages (s.image mod).1 (s.image mod).2 s.machine.pages
  returns : ∀ fuel name ans, Fresh ans s → l.length < fuel →
    (moduleInstall fuel name ans s).1 ≠ .error .outOfFuel
  emptied : l = [] → s.machine.pages = markAll s.slabRuns w.pages

theorem registryHolds_of_registered {l : List Nat} (h : Registered w s l) : RegistryHolds w s l where
  list := h.list
  names := h.names
  disjoint := (List.pairwise_append.mp h.accounts.disjoint).2.1
  pages := h.accounts.marks
  separate := h.accounts.separate
  failed fuel name ans s' hfresh hcall := by
    rcases (moduleInstall_spec h hfresh fuel name).stopped hcall with
      ⟨he, -⟩ | he | ⟨-, taken, objs, ha⟩
    · exact nomatch he
    · exact nomatch he
    · have h' := h.of_acquired ha
      refine ⟨⟨h'.list, fun a hl => ⟨ha.records a (h.live a hl).1,
        h.name_congr ha.records ha.strings hl⟩⟩, taken, ha.slabRuns, ?_⟩
      rw [h'.accounts.marks, h.accounts.marks, ← markAll_append, ha.slabRuns,
        h.image_congr ha.records, List.append_assoc]
  uninstalled fuel name hfuel := by
    rcases moduleUninstall_spec h fuel name with
      ⟨hle, -⟩ | hnone | ⟨pre, mod, post, rfl, hname, hcall⟩
    · exact absurd hle (Nat.not_le_of_lt hfuel)
    · exact Or.inl hnone
    · obtain ⟨h', hpages, hslab⟩ := h.uninstall
      exact Or.inr ⟨pre, mod, post, _, rfl, hname, hcall, h'.list, hslab, hpages⟩
  returns fuel name ans hfresh hfuel hout := by
    rcases (moduleInstall_spec h hfresh fuel name).stopped (Prod.ext hout rfl) with
      ⟨-, hle⟩ | he | ⟨he, -⟩
    · exact absurd hle (Nat.not_le_of_lt hfuel)
    · exact nomatch he
    · exact nomatch he
  emptied hl := by
    have hmarks := h.accounts.marks
    rwa [hl, List.map_nil, List.append_nil] at hmarks

/-- **The registry**: pairwise different names, and no pages but those of the images. -/
theorem registryHolds (hw : PageInv w) (hn : ∀ b ∈ w.pages, b.start ≠ 0) (h0 : NoModules w s0)
    (h : Reaches s0 s) : ∃ l, RegistryHolds w s l := by
  obtain ⟨l, hl⟩ := registered_of_reaches hw hn h0 h
  exact ⟨l, registryHolds_of_registered hl⟩

end Runs

/-! ## A file that is no module -/

/-- Eight free pages, and no module. -/
def emptySystem : System where
  modules := 0
  module _ := ⟨0, 0, 0, 0, 0⟩
  string _ := fun _ => 0
  live := []
  files := []
  machine := before eightPages fun _ => 0
  slabRuns := []

/-- The answers for a file without a header; the caches take a page for the path. -/
def noHeader : Answers where
  path := ⟨0xe4000010, [.page]⟩
  stat _ := some 0
  fopen _ := 1
  file := []
  buffer _ := 0
  desc := ⟨0xe4000010, []⟩
  newmod := ⟨0xe4000020, []⟩
  nameCopy := ⟨0xe4000040, []⟩
  moduleEnd := 1

theorem noModules_emptySystem : NoModules eightPages emptySystem := ⟨rfl, rfl, rfl⟩

theorem eightPages_nonnull : ∀ b ∈ eightPages.pages, b.start ≠ 0 := by decide

theorem fresh_noHeader : Fresh noHeader emptySystem where
  newmod _ := by simp [noHeader, emptySystem]
  nameCopy _ := by simp [noHeader, emptySystem]

theorem noHeader_fails : moduleInstall 1 (ofBytes [0x6d]) noHeader emptySystem =
    (.error .failed, (moduleInstall 1 (ofBytes [0x6d]) noHeader emptySystem).2) :=
  Prod.ext (by decide +kernel) rfl

/-- After it nothing is installed, and the page is the caches'. -/
theorem registryHolds_noHeader :
    ∃ l, RegistryHolds eightPages (moduleInstall 1 (ofBytes [0x6d]) noHeader emptySystem).2 l :=
  registryHolds pageInv_eightPages eightPages_nonnull noModules_emptySystem
    (.failed 1 (ofBytes [0x6d]) noHeader .start fresh_noHeader noHeader_fails)

/-- The failed install has changed the bitmaps. -/
theorem noHeader_takesPage :
    ¬ ∀ (w : PageWorld) (s s' : System) (fuel : Nat) (name : CString) (ans : Answers), PageInv w →
      (∀ b ∈ w.pages, b.start ≠ 0) → NoModules w s → Fresh ans s →
      moduleInstall fuel name ans s = (.error .failed, s') →
      s'.modules = s.modules ∧ s'.machine.pages = s.machine.pages := by
  intro h
  have hpages := (h eightPages emptySystem _ 1 (ofBytes [0x6d]) noHeader pageInv_eightPages
    eightPages_nonnull noModules_emptySystem fresh_noHeader noHeader_fails).2
  exact absurd hpages (by decide +kernel)

end OSExt.Modules
