import OSExt.Drivers.Keypad
import OSExt.Modules.RegistryRuns
import OSExt.Modules.TimeDialog

/-!
# The module manager

`module_manager_show`: a field for a name, and behind it the list of modules, one of which is
selected. The arrows select, the keys type into the field or delete its last character,
enter installs the module with the name in the field, and π uninstalls the selected one.

`Editor` is what this is for the user: a text, a row, and the names of the modules. **The
manager is an editor in every round**: its buffer of 100 bytes holds a text of at most 30
characters, the selected row is there, enter installs exactly the text, π removes exactly the
selected module. What is drawn is left aside.
-/

namespace OSExt.Modules

open Lib Memory Libk Elf Drivers

/-! ## The loop -/

/-- `selected`, `buffer`, and the modules -/
structure Manager where
  selected : Nat
  buffer : CString
  system : System

/-- What a round reads: the touchpad, the keypad whenever it is asked for, and the answers a
`module_install` gets. -/
structure ManagerInput where
  report : TouchpadReport
  scan : Keycode → KeypadData
  del : KeypadData
  enter : KeypadData
  pi : KeypadData
  answers : Answers

/-- `k_memset(buffer,'\0',100)` -/
def clearBuffer (buffer : CString) : CString := fun i => if i < 100 then 0 else buffer i

/-- The loop that counts the modules. -/
def countModules (s : System) : Nat → Nat → Option Nat
  | 0, _ => none
  | fuel + 1, mod =>
    if mod = 0 then some 0 else (countModules s fuel (s.module mod).next).map (· + 1)

/-- The loop that looks for the selected module, from `mod` on with `selcnt`: 0 for none. -/
def findSelected (s : System) (selected : Nat) : Nat → Nat → Nat → Option Nat
  | 0, _, _ => none
  | fuel + 1, mod, selcnt =>
    if mod = 0 then some 0
    else if selected = selcnt then some mod
    else findSelected s selected fuel (s.module mod).next (selcnt + 1)

/-- A call into `modules.c`. Where it returns early the manager goes on. -/
def callModules (x : Manager → Call System Stop Unit) : Call Manager Stop Unit := fun m =>
  match x m m.system with
  | (.ok (), s) | (.error .failed, s) => (.ok (), { m with system := s })
  | (.error e, s) => (.error e, { m with system := s })

namespace Manager

def arrowUp (rep : TouchpadReport) (m : Manager) : Manager :=
  if touchpadIsArrow .up rep ∧ m.selected ≠ 0 then { m with selected := m.selected - 1 } else m

def arrowDown (rep : TouchpadReport) (modulesNum : Nat) (m : Manager) : Manager :=
  if touchpadIsArrow .down rep ∧ m.selected < modulesNum then
    { m with selected := m.selected + 1 }
  else m

/-- A character goes behind the others. -/
def typeKey (key : UInt8) (m : Manager) : Manager :=
  if key ≠ 0 ∧ m.selected = 0 then
    let len := kStrlen m.buffer 100
    if len < 30 then { m with buffer := Function.update m.buffer len key } else m
  else m

/-- The last character goes. -/
def deleteKey (pressed : Bool) (m : Manager) : Manager :=
  if pressed ∧ m.selected = 0 then
    let len := kStrlen m.buffer 100
    if len > 0 then { m with buffer := Function.update m.buffer (len - 1) 0 } else m
  else m

def clear (m : Manager) : Manager := { m with buffer := clearBuffer m.buffer }

end Manager

def enterKey (fuel : Nat) (pressed : Bool) (ans : Answers) : Call Manager Stop Unit := do
  let selected ← gets Manager.selected
  if pressed ∧ selected = 0 then do
    callModules fun m => moduleInstall fuel m.buffer ans
    update Manager.clear
  else pure ()

def piKey (fuel : Nat) (pressed : Bool) : Call Manager Stop Unit := do
  let selected ← gets Manager.selected
  if pressed ∧ selected ≠ 0 then do
    let found ← gets fun m => findSelected m.system selected fuel m.system.modules 1
    match found with
    | none => stop .outOfFuel
    | some mod => do
      if mod = 0 then pure ()
      else callModules fun m => moduleUninstall fuel (m.system.name mod)
      update fun m => { m with selected := 0 }
  else pure ()

/-- A round of the loop in `module_manager_show`. -/
def managerRound (fuel : Nat) (input : ManagerInput) : Call Manager Stop Unit := do
  let modulesNum ← gets fun m => countModules m.system fuel m.system.modules
  match modulesNum with
  | none => stop .outOfFuel
  | some n => do
    update (Manager.arrowUp input.report)
    update (Manager.arrowDown input.report n)
    update (Manager.typeKey (getAlphanumericKeyPressed input.scan))
    update (Manager.deleteKey (isKeyPressed input.del .del))
    enterKey fuel (isKeyPressed input.enter .enter) input.answers
    piKey fuel (isKeyPressed input.pi .pi)

/-- `module_manager_show` before the first round, on a buffer as it was. -/
def Manager.start (buffer : CString) (s : System) : Manager where
  selected := 0
  buffer := clearBuffer buffer
  system := s

/-! ## The editor -/

structure Editor where
  text : List UInt8
  /-- 0 for the text, and then the modules -/
  row : Nat
  names : List (List UInt8)

/-- What is pressed in a round. -/
structure Pressed where
  up : Bool
  down : Bool
  key : UInt8
  delete : Bool
  enter : Bool
  remove : Bool

namespace Editor

def arrowUp (k : Pressed) (e : Editor) : Editor := if k.up then { e with row := e.row - 1 } else e

def arrowDown (k : Pressed) (e : Editor) : Editor :=
  if k.down then { e with row := min (e.row + 1) e.names.length } else e

def type (k : Pressed) (e : Editor) : Editor :=
  if k.key ≠ 0 ∧ e.row = 0 ∧ e.text.length < 30 then { e with text := e.text ++ [k.key] } else e

def delete (k : Pressed) (e : Editor) : Editor :=
  if k.delete ∧ e.row = 0 then { e with text := e.text.dropLast } else e

/-- The text becomes a module, unless there is one of this name or it cannot be installed. -/
def enter (k : Pressed) (installed : Bool) (e : Editor) : Editor :=
  if k.enter ∧ e.row = 0 then
    { e with
      text := []
      names := if installed ∧ e.text ∉ e.names then e.text :: e.names else e.names }
  else e

def remove (k : Pressed) (e : Editor) : Editor :=
  if k.remove ∧ e.row ≠ 0 then { e with row := 0, names := e.names.eraseIdx (e.row - 1) } else e

/-- One round; `installed` is whether the file of the module can be installed. -/
def round (k : Pressed) (installed : Bool) (e : Editor) : Editor :=
  (((((e.arrowUp k).arrowDown k).type k).delete k).enter k installed).remove k

end Editor

/-- What the input of a round means. -/
def ManagerInput.pressed (input : ManagerInput) : Pressed where
  up := touchpadIsArrow .up input.report
  down := touchpadIsArrow .down input.report
  key := getAlphanumericKeyPressed input.scan
  delete := isKeyPressed input.del .del
  enter := isKeyPressed input.enter .enter
  remove := isKeyPressed input.pi .pi

/-- The characters that are counted. -/
def nameText (name : CString) : List UInt8 := (List.range (kStrlen name 100)).map name

def moduleNames (s : System) (l : List Nat) : List (List UInt8) :=
  l.map fun a => nameText (s.name a)

/-- The manager is the editor, and `l` the list of its modules. -/
structure Shows (w : PageWorld) (e : Editor) (l : List Nat) (m : Manager) : Prop where
  buffer : ∀ i < 100, m.buffer i = e.text.getD i 0
  length : e.text.length ≤ 30
  printable : ∀ c ∈ e.text, Keycode.Printable c
  row : m.selected = e.row
  row_le : e.row ≤ l.length
  registered : Registered w m.system l
  names : e.names = moduleNames m.system l

/-! ## What the keys leave alone -/

namespace Manager

theorem arrowUp_system (rep : TouchpadReport) (m : Manager) :
    (m.arrowUp rep).system = m.system := by
  unfold arrowUp
  split_ifs <;> rfl

theorem arrowDown_system (rep : TouchpadReport) (n : Nat) (m : Manager) :
    (m.arrowDown rep n).system = m.system := by
  unfold arrowDown
  split_ifs <;> rfl

theorem typeKey_system (key : UInt8) (m : Manager) : (m.typeKey key).system = m.system := by
  unfold typeKey
  dsimp only
  split_ifs <;> rfl

theorem deleteKey_system (pressed : Bool) (m : Manager) :
    (m.deleteKey pressed).system = m.system := by
  unfold deleteKey
  dsimp only
  split_ifs <;> rfl

end Manager

theorem Editor.enter_row (k : Pressed) (installed : Bool) (e : Editor) :
    (e.enter k installed).row = e.row := by
  unfold enter
  split_ifs <;> rfl

/-! ## Texts -/

theorem not_printable_zero : ¬ Keycode.Printable 0 := by decide

theorem nameText_length (name : CString) : (nameText name).length = kStrlen name 100 := by
  unfold nameText
  rw [List.length_map, List.length_range]

theorem nameText_getElem {name : CString} {i : Nat} (hi : i < (nameText name).length) :
    (nameText name)[i] = name i := by
  simp [nameText]

/-- Names are equal if their texts are. -/
theorem kStreq_iff_nameText (s1 s2 : CString) :
    kStreq s1 s2 100 = true ↔ nameText s1 = nameText s2 := by
  rw [kStreq_iff]
  constructor
  · intro h
    unfold nameText
    rw [← h.1]
    exact List.map_congr_left fun n hn => h.2 n (List.mem_range.mp hn)
  · intro h
    have hlen : kStrlen s1 100 = kStrlen s2 100 := by
      rw [← nameText_length, h, nameText_length]
    refine ⟨hlen, fun n hn => ?_⟩
    have hget := congrArg (·[n]?) h
    unfold nameText at hget
    simpa [hn, hlen ▸ hn] using hget

theorem moduleNames_getElem {s : System} {l : List Nat} {i : Nat} (hi : i < l.length)
    (hi' : i < (moduleNames s l).length) : (moduleNames s l)[i] = nameText (s.name l[i]) := by
  simp [moduleNames]

namespace Shows

variable {w : PageWorld} {e : Editor} {l : List Nat} {m : Manager}

theorem zero_not_mem (h : Shows w e l m) : 0 ∉ e.text := fun hmem =>
  not_printable_zero (h.printable 0 hmem)

theorem strlen (h : Shows w e l m) : kStrlen m.buffer 100 = e.text.length := by
  have hle := h.length
  have hlist : IsLength (ofBytes e.text) 100 e.text.length :=
    isLength_ofBytes h.zero_not_mem (by omega)
  refine (kStrlen_isLength _ _).unique ⟨hlist.le, fun n hn => ?_, fun _ => ?_⟩
  · rw [h.buffer n (by omega)]
    exact hlist.chars n hn
  · rw [h.buffer _ (by omega)]
    exact hlist.stop (by omega)

/-- What is installed is the text. -/
theorem nameText_buffer (h : Shows w e l m) : nameText m.buffer = e.text := by
  have hle := h.length
  refine List.ext_getElem (by rw [nameText_length, h.strlen]) fun i hi hi' => ?_
  rw [nameText_getElem, h.buffer i (by omega), List.getD_eq_getElem _ _ hi']

theorem names_length (h : Shows w e l m) : e.names.length = l.length := by
  rw [h.names]
  exact List.length_map _

/-- The names of the modules are pairwise different. -/
theorem names_nodup (h : Shows w e l m) : e.names.Nodup := by
  rw [h.names]
  refine List.pairwise_map.mpr (h.registered.names.imp fun {a b} hne heq => ?_)
  rw [(kStreq_iff_nameText _ _).mpr heq] at hne
  exact Bool.false_ne_true hne.symm

/-! ## The keys -/

/-- The row changes, and stays in the list. -/
theorem select (h : Shows w e l m) {row : Nat} (hle : row ≤ l.length) :
    Shows w { e with row := row } l { m with selected := row } :=
  ⟨h.buffer, h.length, h.printable, rfl, hle, h.registered, h.names⟩

theorem arrowUp (h : Shows w e l m) (input : ManagerInput) :
    Shows w (e.arrowUp input.pressed) l (m.arrowUp input.report) := by
  have hle := h.row_le
  unfold Manager.arrowUp Editor.arrowUp
  rw [h.row]
  by_cases hup : touchpadIsArrow .up input.report = true
  · rw [if_pos (show input.pressed.up = true from hup)]
    by_cases hrow : e.row = 0
    · rw [if_neg fun hall => hall.2 hrow]
      have hzero : e.row - 1 = e.row := by omega
      rw [hzero]
      exact h
    · rw [if_pos ⟨hup, hrow⟩]
      exact h.select (by omega)
  · rw [if_neg (show ¬ input.pressed.up = true from hup), if_neg fun hall => hup hall.1]
    exact h

theorem arrowDown (h : Shows w e l m) (input : ManagerInput) :
    Shows w (e.arrowDown input.pressed) l (m.arrowDown input.report l.length) := by
  have hle := h.row_le
  unfold Manager.arrowDown Editor.arrowDown
  rw [h.row, h.names_length]
  by_cases hdown : touchpadIsArrow .down input.report = true
  · rw [if_pos (show input.pressed.down = true from hdown)]
    by_cases hrow : e.row < l.length
    · rw [if_pos ⟨hdown, hrow⟩, Nat.min_eq_left hrow]
      exact h.select hrow
    · rw [if_neg fun hall => hrow hall.2, Nat.min_eq_right (by omega)]
      have hlast : l.length = e.row := by omega
      rw [hlast]
      exact h
  · rw [if_neg (show ¬ input.pressed.down = true from hdown), if_neg fun hall => hdown hall.1]
    exact h

theorem type (h : Shows w e l m) (input : ManagerInput) :
    Shows w (e.type input.pressed) l (m.typeKey (getAlphanumericKeyPressed input.scan)) := by
  have hprintable := getAlphanumericKeyPressed_printable input.scan
  unfold Editor.type Manager.typeKey ManagerInput.pressed
  dsimp only
  rw [h.strlen, h.row]
  generalize getAlphanumericKeyPressed input.scan = key at hprintable
  by_cases hgo : key ≠ 0 ∧ e.row = 0
  · rw [if_pos hgo]
    by_cases hroom : e.text.length < 30
    · rw [if_pos hroom, if_pos ⟨hgo.1, hgo.2, hroom⟩]
      refine ⟨fun i hi => ?_, ?_, fun c hc => ?_, rfl, h.row_le, h.registered, h.names⟩
      · show Function.update m.buffer e.text.length key i = (e.text ++ [key]).getD i 0
        rw [Function.update_apply, h.buffer i hi]
        rcases Nat.lt_trichotomy i e.text.length with hlt | rfl | hgt
        · rw [if_neg (by omega), List.getD_append _ _ _ _ hlt]
        · rw [if_pos rfl, List.getD_append_right _ _ _ _ le_rfl, Nat.sub_self]
          rfl
        · rw [if_neg (by omega), List.getD_eq_default _ _ (by omega),
            List.getD_eq_default _ _ (by rw [List.length_append, List.length_singleton]; omega)]
      · show (e.text ++ [key]).length ≤ 30
        rw [List.length_append, List.length_singleton]
        omega
      · rcases List.mem_append.mp hc with hc | hc
        · exact h.printable c hc
        · rw [List.mem_singleton.mp hc]
          exact hprintable.resolve_left hgo.1
    · rw [if_neg hroom, if_neg fun hall => hroom hall.2.2]
      exact h
  · rw [if_neg hgo, if_neg fun hall => hgo ⟨hall.1, hall.2.1⟩]
    exact h

theorem delete (h : Shows w e l m) (input : ManagerInput) :
    Shows w (e.delete input.pressed) l (m.deleteKey (isKeyPressed input.del .del)) := by
  have hle := h.length
  unfold Editor.delete Manager.deleteKey ManagerInput.pressed
  dsimp only
  rw [h.strlen, h.row]
  by_cases hgo : isKeyPressed input.del .del = true ∧ e.row = 0
  · rw [if_pos hgo, if_pos hgo]
    by_cases hsome : e.text.length > 0
    · rw [if_pos hsome]
      refine ⟨fun i hi => ?_, ?_, fun c hc => ?_, rfl, h.row_le, h.registered, h.names⟩
      · show Function.update m.buffer (e.text.length - 1) 0 i = e.text.dropLast.getD i 0
        rw [Function.update_apply, h.buffer i hi]
        by_cases hlast : i = e.text.length - 1
        · rw [if_pos hlast, List.getD_eq_default _ _ (by rw [List.length_dropLast]; omega)]
        · rw [if_neg hlast]
          by_cases hlt : i < e.text.length - 1
          · rw [List.getD_eq_getElem _ _ (by omega),
              List.getD_eq_getElem _ _ (by rw [List.length_dropLast]; omega),
              List.getElem_dropLast]
          · rw [List.getD_eq_default _ _ (by omega),
              List.getD_eq_default _ _ (by rw [List.length_dropLast]; omega)]
      · show e.text.dropLast.length ≤ 30
        rw [List.length_dropLast]
        omega
      · exact h.printable c (List.dropLast_subset _ hc)
    · rw [if_neg hsome]
      have hnil : e.text = [] := List.eq_nil_of_length_eq_zero (by omega)
      refine ⟨fun i hi => ?_, ?_, ?_, h.row, h.row_le, h.registered, h.names⟩
      · rw [h.buffer i hi, hnil]
        rfl
      · rw [hnil]
        exact Nat.zero_le _
      · rw [hnil]
        exact nofun
  · rw [if_neg hgo, if_neg hgo]
    exact h

/-- The field is emptied, and the modules may have changed. -/
theorem clear (h : Shows w e l m) {l' : List Nat} {s' : System} (hrow : e.row = 0)
    (hreg : Registered w s' l') :
    Shows w { e with text := [], names := moduleNames s' l' } l'
      (Manager.clear { m with system := s' }) where
  buffer i hi := if_pos hi
  length := Nat.zero_le _
  printable := nofun
  row := h.row
  row_le := by
    rw [hrow]
    exact Nat.zero_le _
  registered := hreg
  names := rfl

theorem uninstalled_name (s : System) (mod prev a : Nat) :
    (Registered.uninstalled s mod prev).name a = s.name a := by
  obtain ⟨hrecord, hstring, -⟩ :=
    Registered.unlink_frame (s.freePages (s.module mod).start (s.module mod).pages) mod prev
  unfold Registered.uninstalled System.name
  show (System.unlink mod prev _).string ((System.unlink mod prev _).module a).name = _
  rw [hstring, (hrecord a).1]
  rfl

/-- The module with the name of a row is the one in this row. -/
theorem row_of_name (h : Shows w e l m) {pre post : List Nat} {mod i : Nat}
    (hl : l = pre ++ mod :: post) (hi : i < l.length)
    (hname : nameText (m.system.name l[i]) = nameText (m.system.name mod)) : pre.length = i := by
  have hnodup := h.names_nodup
  rw [h.names] at hnodup
  have hpre : pre.length < l.length := by
    rw [hl, List.length_append, List.length_cons]
    omega
  have hmod : l[pre.length] = mod := by
    subst hl
    rw [List.getElem_append_right le_rfl]
    simp
  have hlen : (moduleNames m.system l).length = l.length := List.length_map _
  have hpre' : pre.length < (moduleNames m.system l).length := hlen ▸ hpre
  have hi' : i < (moduleNames m.system l).length := hlen ▸ hi
  have hsame : (moduleNames m.system l)[pre.length] = (moduleNames m.system l)[i] := by
    rw [moduleNames_getElem hpre, moduleNames_getElem hi, hmod, hname]
  exact hnodup.getElem_inj_iff.mp hsame

theorem remove (h : Shows w e l m) {pre post : List Nat} {mod : Nat} {input : ManagerInput}
    (hl : l = pre ++ mod :: post) (hidx : pre.length = e.row - 1)
    (hpressed : isKeyPressed input.pi .pi = true) (hrow : e.row ≠ 0) :
    Shows w (e.remove input.pressed) (pre ++ post)
      { m with
        selected := 0
        system := Registered.uninstalled m.system mod (pre.getLastD 0) } := by
  have hgo : input.pressed.remove = true ∧ e.row ≠ 0 := ⟨hpressed, hrow⟩
  subst hl
  unfold Editor.remove
  rw [if_pos hgo]
  refine ⟨h.buffer, h.length, h.printable, rfl, Nat.zero_le _, h.registered.uninstall.1, ?_⟩
  show e.names.eraseIdx (e.row - 1) = (pre ++ post).map fun a =>
    nameText ((Registered.uninstalled m.system mod (pre.getLastD 0)).name a)
  rw [List.map_congr_left fun a _ => congrArg nameText (uninstalled_name m.system mod _ a), h.names,
    ← hidx, moduleNames, List.eraseIdx_map, List.eraseIdx_append_of_length_le le_rfl, Nat.sub_self]
  rfl

end Shows

/-! ## The calls into the modules -/

theorem ensures_callModules {x : Manager → Call System Stop Unit} {Q : Unit → Manager → Prop}
    {E : Stop → Manager → Prop} {m : Manager}
    (h : Ensures (x m) (fun _ s => Q () { m with system := s })
      (fun err s => if err = .failed then Q () { m with system := s }
        else E err { m with system := s }) m.system) : Ensures (callModules x) Q E m := by
  unfold Ensures at h ⊢
  unfold callModules
  rcases hx : x m m.system with ⟨err | ⟨⟩, s⟩
  · rw [hx] at h
    cases err with
    | failed => exact h
    | nullAccess | outOfFuel => exact h
  · rw [hx] at h
    exact h

section

variable {w : PageWorld} {e : Editor} {l : List Nat} {m : Manager}

/-- Why a round may stop: the list is longer than the fuel, or an install writes through NULL. -/
def RoundStops (fuel : Nat) (l : List Nat) (k : Pressed) (err : Stop) : Prop :=
  (err = .outOfFuel ∧ fuel ≤ l.length) ∨ (err = .nullAccess ∧ k.enter = true)

/-- **Enter** installs the text, if anything, and the field is empty. -/
theorem enterKey_spec (h : Shows w e l m) (input : ManagerInput)
    (hfresh : Fresh input.answers m.system) (fuel : Nat) :
    Ensures (enterKey fuel (isKeyPressed input.enter .enter) input.answers)
      (fun _ m' => ∃ installed l', Shows w (e.enter input.pressed installed) l' m' ∧
        (e.row ≠ 0 → l' = l))
      (fun err _ => RoundStops fuel l input.pressed err) m := by
  unfold enterKey
  rw [ensures_bind, ensures_gets]
  by_cases hgo : isKeyPressed input.enter .enter = true ∧ m.selected = 0
  · rw [if_pos hgo, ensures_bind]
    have hrow : e.row = 0 := h.row.symm.trans hgo.2
    have hgo' : input.pressed.enter = true ∧ e.row = 0 := ⟨hgo.1, hrow⟩
    refine ensures_callModules ((moduleInstall_spec h.registered hfresh fuel m.buffer).conseq
      (fun _ s' hinstalled => ?_) fun err s' hstopped => ?_)
    · obtain ⟨hnone, taken, hi⟩ := hinstalled
      have hreg := h.registered.install hi hfresh hnone
      have hnew : nameText (s'.name input.answers.newmod.addr) = e.text := by
        rw [← h.nameText_buffer, ← kStreq_iff_nameText]
        unfold System.name
        rw [hi.recordName]
        exact hi.string
      have hold : moduleNames s' l = moduleNames m.system l :=
        List.map_congr_left fun a ha =>
          congrArg nameText (h.registered.name_congr hi.records hi.strings ha)
      rw [ensures_update]
      refine ⟨true, input.answers.newmod.addr :: l, ?_, fun hne => absurd hrow hne⟩
      have hfree : e.text ∉ e.names := by
        intro hmem
        rw [h.names] at hmem
        obtain ⟨a, ha, heq⟩ := List.mem_map.mp hmem
        have hsame : kStreq m.buffer (m.system.name a) 100 = true := by
          rw [kStreq_iff_nameText, h.nameText_buffer, heq]
        rw [hnone a ha] at hsame
        exact Bool.false_ne_true hsame
      have hclear := h.clear hrow hreg
      unfold Editor.enter
      rw [if_pos hgo', if_pos ⟨rfl, hfree⟩]
      rwa [moduleNames, List.map_cons, hnew, ← moduleNames, hold, ← h.names] at hclear
    · rcases hstopped with ⟨rfl, hle⟩ | rfl | ⟨rfl, taken, objs, ha⟩
      · exact Or.inl ⟨rfl, hle⟩
      · exact Or.inr ⟨rfl, hgo.1⟩
      · have hreg := h.registered.of_acquired ha
        have hold : moduleNames s' l = moduleNames m.system l :=
          List.map_congr_left fun a ham =>
            congrArg nameText (h.registered.name_congr ha.records ha.strings ham)
        rw [if_pos rfl, ensures_update]
        refine ⟨false, l, ?_, fun _ => rfl⟩
        have hclear := h.clear hrow hreg
        unfold Editor.enter
        rw [if_pos hgo', if_neg fun hall => Bool.false_ne_true hall.1]
        rwa [hold, ← h.names] at hclear
  · rw [if_neg hgo]
    refine ensures_pure.mpr ⟨false, l, ?_, fun _ => rfl⟩
    unfold Editor.enter
    rw [if_neg fun hall => hgo ⟨hall.1, h.row.trans hall.2⟩]
    exact h

/-- The loop finds the module of the row, unless its fuel ends. -/
theorem findSelected_eq (s : System) : ∀ {l : List Nat} {head : Nat}, IsList s.next 0 head l →
    ∀ {i : Nat} (hi : i < l.length) (fuel selcnt : Nat),
      (fuel ≤ l.length ∧ findSelected s (selcnt + i) fuel head selcnt = none) ∨
        findSelected s (selcnt + i) fuel head selcnt = some l[i] := by
  intro l
  induction l with
  | nil => exact fun _ _ hi => absurd hi (Nat.not_lt_zero _)
  | cons a l ih =>
      intro head hlist i hi fuel selcnt
      cases fuel with
      | zero => exact Or.inl ⟨Nat.zero_le _, rfl⟩
      | succ fuel =>
          obtain ⟨rfl, hne, hrest⟩ := hlist
          rw [findSelected, if_neg hne]
          cases i with
          | zero => exact Or.inr (if_pos rfl)
          | succ i =>
              rw [if_neg (by omega), show selcnt + (i + 1) = selcnt + 1 + i by omega]
              rcases ih hrest (Nat.lt_of_succ_lt_succ hi) fuel (selcnt + 1) with
                ⟨hle, hout⟩ | hfound
              · exact Or.inl ⟨Nat.succ_le_succ hle, hout⟩
              · exact Or.inr hfound

theorem countModules_eq (s : System) : ∀ {l : List Nat} {head : Nat}, IsList s.next 0 head l →
    ∀ fuel : Nat, (fuel ≤ l.length ∧ countModules s fuel head = none) ∨
      countModules s fuel head = some l.length := by
  intro l
  induction l with
  | nil =>
      intro head hlist fuel
      cases fuel with
      | zero => exact Or.inl ⟨Nat.zero_le _, rfl⟩
      | succ fuel => exact Or.inr (if_pos hlist)
  | cons a l ih =>
      intro head hlist fuel
      cases fuel with
      | zero => exact Or.inl ⟨Nat.zero_le _, rfl⟩
      | succ fuel =>
          obtain ⟨rfl, hne, hrest⟩ := hlist
          rw [countModules, if_neg hne]
          rcases ih hrest fuel with ⟨hle, hout⟩ | hcount
          · refine Or.inl ⟨Nat.succ_le_succ hle, ?_⟩
            show (countModules s fuel (s.next head)).map (· + 1) = none
            rw [hout]
            rfl
          · refine Or.inr ?_
            show (countModules s fuel (s.next head)).map (· + 1) = _
            rw [hcount]
            rfl

/-- **π** uninstalls the module of the row, and no other. -/
theorem piKey_spec (h : Shows w e l m) (input : ManagerInput) (fuel : Nat) :
    Ensures (piKey fuel (isKeyPressed input.pi .pi))
      (fun _ m' => ∃ l', Shows w (e.remove input.pressed) l' m')
      (fun err _ => err = .outOfFuel ∧ fuel ≤ l.length ∧ e.row ≠ 0) m := by
  unfold piKey
  rw [ensures_bind, ensures_gets]
  by_cases hgo : isKeyPressed input.pi .pi = true ∧ m.selected ≠ 0
  · have hrow : e.row ≠ 0 := h.row ▸ hgo.2
    have hle := h.row_le
    have hi : e.row - 1 < l.length := by omega
    have hreg := h.registered
    rw [if_pos hgo, ensures_bind, ensures_gets, h.row]
    have hfind := findSelected_eq m.system hreg.list hi fuel 1
    rw [show 1 + (e.row - 1) = e.row by omega] at hfind
    rcases hfind with ⟨hout, hnone⟩ | hfound
    · rw [hnone]
      exact ⟨rfl, hout, hrow⟩
    · rw [hfound]
      have hmem : l[e.row - 1] ∈ l := List.getElem_mem hi
      have hne := hreg.list.ne_null _ hmem
      dsimp only
      rw [if_neg hne, ensures_bind]
      refine ensures_callModules ?_
      rcases moduleUninstall_spec hreg fuel (m.system.name l[e.row - 1]) with
        ⟨hout, hcall⟩ | ⟨hnone, -⟩ | ⟨pre, mod, post, hl, hname, hcall⟩
      · unfold Ensures
        rw [hcall]
        exact ⟨rfl, hout, hrow⟩
      · have hself := (kStreq_iff_nameText (m.system.name l[e.row - 1]) _).mpr rfl
        rw [hnone _ hmem] at hself
        exact absurd hself Bool.false_ne_true
      · have hidx := h.row_of_name hl hi ((kStreq_iff_nameText _ _).mp hname)
        rw [ensures_of_ok hcall, ensures_update]
        exact ⟨pre ++ post, h.remove hl hidx hgo.1 hrow⟩
  · rw [if_neg hgo]
    refine ensures_pure.mpr ⟨l, ?_⟩
    unfold Editor.remove
    rw [if_neg fun hall => hgo ⟨hall.1, h.row ▸ hall.2⟩]
    exact h

/-! ## Rounds -/

/-- **A round of the manager is a round of the editor.** -/
theorem managerRound_spec (h : Shows w e l m) (input : ManagerInput)
    (hfresh : Fresh input.answers m.system) (fuel : Nat) :
    Ensures (managerRound fuel input)
      (fun _ m' => ∃ installed l', Shows w (e.round input.pressed installed) l' m')
      (fun err _ => RoundStops fuel l input.pressed err) m := by
  unfold managerRound
  rw [ensures_bind, ensures_gets]
  rcases countModules_eq m.system h.registered.list fuel with ⟨hle, hout⟩ | hcount
  · rw [hout]
    exact Or.inl ⟨rfl, hle⟩
  · rw [hcount]
    dsimp only
    rw [ensures_bind, ensures_update, ensures_bind, ensures_update, ensures_bind, ensures_update,
      ensures_bind, ensures_update, ensures_bind]
    have hkeys := (((h.arrowUp input).arrowDown input).type input).delete input
    refine (enterKey_spec hkeys input ?_ fuel).conseq (fun _ m1 hm1 => ?_) fun err _ hstop => hstop
    · rwa [Manager.deleteKey_system, Manager.typeKey_system,
        Manager.arrowDown_system, Manager.arrowUp_system]
    · obtain ⟨installed, l1, hm1, hsame⟩ := hm1
      refine (piKey_spec hm1 input fuel).conseq (fun _ m2 hm2 => ?_) fun err _ hstop => ?_
      · obtain ⟨l2, hm2⟩ := hm2
        exact ⟨installed, l2, hm2⟩
      · obtain ⟨rfl, hle, hrow⟩ := hstop
        rw [Editor.enter_row] at hrow
        exact Or.inl ⟨rfl, (hsame hrow) ▸ hle⟩

/-! ## Runs -/

/-- Rounds one after the other. -/
inductive ManagerRuns : List ManagerInput → Manager → Manager → Prop
  | done {m : Manager} : ManagerRuns [] m m
  | round {input : ManagerInput} {inputs : List ManagerInput} {m m1 m' : Manager} (fuel : Nat) :
      Fresh input.answers m.system → managerRound fuel input m = (.ok (), m1) →
      ManagerRuns inputs m1 m' → ManagerRuns (input :: inputs) m m'

def Editor.run (e : Editor) (rounds : List (Pressed × Bool)) : Editor :=
  rounds.foldl (fun e r => e.round r.1 r.2) e

/-- The editor of a manager that is opened. -/
def Editor.start (names : List (List UInt8)) : Editor where
  text := []
  row := 0
  names := names

theorem shows_start {s : System} (h : Registered w s l) (buffer : CString) :
    Shows w (.start (moduleNames s l)) l (.start buffer s) where
  buffer _ hi := if_pos hi
  length := Nat.zero_le _
  printable := nofun
  row := rfl
  row_le := Nat.zero_le _
  registered := h
  names := rfl

theorem shows_run {inputs : List ManagerInput} {m' : Manager} (hrun : ManagerRuns inputs m m') :
    ∀ {e : Editor} {l : List Nat}, Shows w e l m → ∃ outcomes : List Bool,
      outcomes.length = inputs.length ∧
      ∃ l', Shows w (e.run ((inputs.map ManagerInput.pressed).zip outcomes)) l' m' := by
  induction hrun with
  | done => exact fun h => ⟨[], rfl, _, h⟩
  | round fuel hfresh hround _ ih =>
      intro e l h
      obtain ⟨installed, l1, h1⟩ := (managerRound_spec h _ hfresh fuel).ok hround
      obtain ⟨outcomes, hlen, l2, h2⟩ := ih h1
      exact ⟨installed :: outcomes, congrArg (· + 1) hlen, l2, h2⟩

/-- **The module manager is the editor**, however long it is open, and a round stops for nothing
but an install that writes through NULL. -/
theorem moduleManager_edits {s0 s : System} (hw : PageInv w) (hn : ∀ b ∈ w.pages, b.start ≠ 0)
    (h0 : NoModules w s0) (hreach : Reaches s0 s) (buffer : CString) {inputs : List ManagerInput}
    (hrun : ManagerRuns inputs (.start buffer s) m) : ∃ l0 l outcomes,
      IsList s.next 0 s.modules l0 ∧ outcomes.length = inputs.length ∧
      Shows w ((Editor.start (moduleNames s l0)).run
        ((inputs.map ManagerInput.pressed).zip outcomes)) l m ∧
      ∀ fuel input err m', Fresh input.answers m.system →
        managerRound fuel input m = (.error err, m') → RoundStops fuel l input.pressed err := by
  obtain ⟨l0, hl0⟩ := registered_of_reaches hw hn h0 hreach
  obtain ⟨outcomes, hlen, l, hl⟩ := shows_run hrun (shows_start hl0 buffer)
  refine ⟨l0, l, outcomes, hl0.list, hlen, hl, fun fuel input err m' hfresh hstop => ?_⟩
  exact (managerRound_spec hl input hfresh fuel).stopped hstop

end

/-- A round in which the key `a` is pressed, and nothing else. -/
def typesA : ManagerInput where
  report := touchpadGetReport fun _ => 0
  scan := fun _ row => if row = 4 then 0x40 else 0
  del := fun _ => 0
  enter := fun _ => 0
  pi := fun _ => 0
  answers := noHeader

/-- The field reads `a`. -/
theorem moduleManager_edits_typed : ∃ m,
    ManagerRuns [typesA] (.start (fun _ => 0xff) emptySystem) m ∧ m.buffer 0 = 97 ∧
      m.buffer 1 = 0 := by
  have hopened := shows_start (registered_start pageInv_eightPages eightPages_nonnull
    noModules_emptySystem) fun _ => 0xff
  have hround := managerRound_spec hopened typesA fresh_noHeader 1
  rcases hresult : managerRound 1 typesA (.start (fun _ => 0xff) emptySystem) with ⟨err | ⟨⟩, m⟩
  · rcases hround.stopped hresult with ⟨-, hle⟩ | ⟨-, henter⟩
    · exact absurd hle (by decide)
    · exact absurd henter (by decide +kernel)
  · have hrun : ManagerRuns [typesA] (.start (fun _ => 0xff) emptySystem) m :=
      .round 1 fresh_noHeader hresult .done
    obtain ⟨l0, l, outcomes, hlist, hlen, hshows, -⟩ := moduleManager_edits pageInv_eightPages
      eightPages_nonnull noModules_emptySystem .start _ hrun
    obtain rfl := hlist.eq_nil_iff.mpr rfl
    obtain ⟨installed, rfl⟩ := List.length_eq_one_iff.mp hlen
    have htext : ((Editor.start []).run [(typesA.pressed, installed)]).text = [97] := by
      cases installed <;> decide +kernel
    have hbuffer : ∀ i < 100, m.buffer i = [97].getD i 0 := htext ▸ hshows.buffer
    exact ⟨m, hrun, hbuffer 0 (by decide), hbuffer 1 (by decide)⟩

end OSExt.Modules
