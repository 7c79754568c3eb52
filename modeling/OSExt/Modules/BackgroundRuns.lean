import OSExt.Modules.BmpBounds
import Mathlib.Algebra.Order.Group.Multiset

/-!
# Who owns the background

`background_update` gives up what is shown and loads up to four files in its place, and
`module_end` gives up what is left. A single image is its structure and its pixels. A slideshow is
an array the structures are copied to: the pixels are found through the copies, the structures
the copies were made of are not found any more, and the array is destroyed element by element as
if each were an allocation. A file that comes after the first one that cannot be loaded is opened
and left open.
-/

namespace OSExt.Modules

open Lib Memory Elf

/-! ## The functions -/

/-- The variables of `background.c` that own something, the structures in memory by their address,
what is allocated and the files that are open, by their number. -/
structure Owner where
  slideshow : Bool
  image : Word
  slideshowLength : Nat
  structs : Word → ImgStruct
  live : Multiset Claim
  opened : Multiset Nat

/-- A file that can be opened, and what a load of it meets. -/
structure LoadInput where
  content : List UInt8
  stack : Bytes
  pages : Bytes
  outcomes : Outcomes

def LoadInput.load (i : LoadInput) : Load := loadBmp i.content i.stack i.pages i.outcomes

/-- What one update meets: each file, if it is there, and the answer of `kmalloc` for the array. -/
structure UpdateInput where
  file1 : Option LoadInput
  file2 : Option LoadInput
  file3 : Option LoadInput
  file4 : Option LoadInput
  array : Word

/-- `sizeof(struct img565)` -/
def sizeofImg565 : Nat := 8

/-- `&array[i]` -/
def element (array : Word) (i : Nat) : Word := array + BitVec.ofNat 32 (sizeofImg565 * i)

namespace Owner

/-- How an update and `module_end` begin: what they give back, and the variables unset. -/
def giveUp (s : Owner) : List Claim × Owner :=
  if s.slideshow then
    let shown := s.image
    let freed := (List.range s.slideshowLength).flatMap (fun i =>
      destroyImg (element shown i) (s.structs (element shown i))) ++ [.object shown]
    (freed, { s with slideshow := false, slideshowLength := 0, image := 0, live := s.live - freed })
  else
    let img := s.image
    let freed := destroyImg img (s.structs img)
    (freed, { s with image := 0, live := s.live - freed })

/-- `load_bmp_file`: the structure it returns is in memory. -/
def load (s : Owner) (i : LoadInput) : Word × Owner :=
  let s := { s with live := s.live + i.load.claimed - i.load.released }
  match i.load.img with
  | some (p, img) => (p, { s with structs := Function.update s.structs p img })
  | none => (0, s)

def fopen (s : Owner) (file : Nat) : Owner := { s with opened := s.opened + {file} }

def fclose (s : Owner) (file : Nat) : Owner := { s with opened := s.opened - {file} }

/-- The first file; whether a break was reached. -/
def firstFile (s : Owner) (file : Option LoadInput) : Word × Bool × Owner :=
  match file with
  | some i =>
    let (img, s) := (s.fopen 1).load i
    (img, decide (img = 0), s.fclose 1)
  | none => (0, true, s)

/-- File `k` after the first: a file that is there is opened, but behind a break it is not closed. -/
def nextFile (k : Nat) (s : Owner) (bk : Bool) (length : Nat) (file : Option LoadInput) :
    Word × Bool × Nat × Owner :=
  match file with
  | some i =>
    let s := s.fopen k
    if bk = false then
      let (img, s) := s.load i
      let s := s.fclose k
      if img = 0 then (0, true, k - 1, s) else (img, bk, length, s)
    else (0, true, length, s)
  | none => (0, true, if bk = false then k - 1 else length, s)

/-- `switch (length)`, which falls through, and the first element. -/
def copyImages (structs : Word → ImgStruct) (array : Word) (length : Nat)
    (img1 img2 img3 img4 : Word) : Word → ImgStruct :=
  let m := structs
  let m := if length = 4 then Function.update m (element array 3) (m img4) else m
  let m := if length = 4 ∨ length = 3 then Function.update m (element array 2) (m img3) else m
  let m := if length = 4 ∨ length = 3 ∨ length = 2 then Function.update m (element array 1) (m img2)
    else m
  Function.update m array (m img1)

/-- `background_update` -/
def update (s : Owner) (u : UpdateInput) : Owner :=
  let s := s.giveUp.2
  let (img1, bk, s) := s.firstFile u.file1
  let (img2, bk, length, s) := s.nextFile 2 bk 0 u.file2
  let (img3, bk, length, s) := s.nextFile 3 bk length u.file3
  let (img4, bk, length, s) := s.nextFile 4 bk length u.file4
  let length := if bk = false then 4 else length
  if img2 = 0 then { s with image := img1 }
  else
    { s with
      slideshow := true
      image := u.array
      slideshowLength := length
      structs := copyImages s.structs u.array length img1 img2 img3 img4
      live := s.live + (if u.array = 0 then 0 else {.object u.array}) }

/-- `module_end`; `none` is a panic, when a function is not registered. -/
def moduleEnd (s : Owner) (drawfunc filefunc : Bool) : Option Owner :=
  if drawfunc = false then none
  else if filefunc = false then none
  else some s.giveUp.2

/-- The module before its first update. -/
def start (structs : Word → ImgStruct) : Owner := ⟨false, 0, 0, structs, 0, 0⟩

/-! ## Ownership -/

/-- What is found from `image`. -/
def reachable (s : Owner) : Multiset Claim :=
  if s.slideshow then
    {.object s.image} +
      ((List.range s.slideshowLength).map fun i => (s.structs (element s.image i)).pixels)
  else if s.image = 0 then 0
  else {.object s.image, (s.structs s.image).pixels}

/-- An update gives back all that was allocated, once, and leaves only what is found, and every
file closed. -/
structure UpdateOwned (s : Owner) (u : UpdateInput) : Prop where
  freed : (s.giveUp.1 : Multiset Claim) = s.live
  live : (s.update u).live = (s.update u).reachable
  closed : (s.update u).opened = 0

/-- So does every update of a run, and the end of the module leaves nothing. -/
def RunOwned (s : Owner) : List UpdateInput → Prop
  | [] => (s.giveUp.1 : Multiset Claim) = s.live ∧
      ∀ drawfunc filefunc s', s.moduleEnd drawfunc filefunc = some s' → s'.live = 0
  | u :: us => UpdateOwned s u ∧ RunOwned (s.update u) us

end Owner

/-! ## Which updates do -/

namespace LoadInput

def fields (i : LoadInput) : BmpFields := bmpFields i.content i.stack i.pages

/-- The load returns an image. -/
structure Loads (i : LoadInput) : Prop where
  identifier : i.fields.identifier = 0x4D42
  restFile : i.outcomes.restFile ≠ 0
  colorPlanes : i.fields.colorPlanes = 1
  compression : i.fields.compression = 0
  img : i.outcomes.img ≠ 0
  data : pixelData i.outcomes.pixels i.fields.bytes ≠ 0
  bpp : i.fields.bpp = 24

/-- Where a structure is claimed, its pixels are given. -/
def Keeps (i : LoadInput) : Prop :=
  i.fields.identifier = 0x4D42 → i.outcomes.restFile ≠ 0 → i.fields.colorPlanes = 1 →
    i.fields.compression = 0 → i.outcomes.img ≠ 0 → i.fields.PixelsGiven i.outcomes

end LoadInput

/-- At most the first file is loaded, and behind the first one that is not there is no other. -/
structure UpdateInput.Single (u : UpdateInput) : Prop where
  file1 : ∀ i, u.file1 = some i → i.Keeps
  file2 : ∀ i, u.file2 = some i → i.Keeps ∧ ¬ i.Loads ∧ ∃ i', u.file1 = some i' ∧ i'.Loads
  file3 : u.file3 = none
  file4 : u.file4 = none

/-! ## Loading -/

namespace Owner

section

variable {i : LoadInput} {s : Owner}

theorem load_goes (i : LoadInput) :
    Goes i.fields (i.content.length - 14) i.outcomes i.load :=
  loadFields_goes _ _ _

/-- What is claimed and released alike is as it was. -/
theorem live_same (live : Multiset Claim) {claimed released : List Claim}
    (h : claimed.Perm released) : live + (claimed : Multiset Claim) - released = live := by
  rw [Multiset.coe_eq_coe.mpr h]
  exact Multiset.add_sub_cancel_right

/-- What is not released stays. -/
theorem live_more (live : Multiset Claim) {claimed released kept : List Claim}
    (h : claimed.Perm (kept ++ released)) :
    live + (claimed : Multiset Claim) - released = live + kept := by
  rw [Multiset.coe_eq_coe.mpr h, ← Multiset.coe_add, ← add_assoc]
  exact Multiset.add_sub_cancel_right

/-- Releasing what nobody has changes nothing. -/
theorem live_extra {live : Multiset Claim} {claimed released : List Claim} {c : Claim}
    (h : released.Perm (claimed ++ [c])) (hc : c ∉ live) :
    live + (claimed : Multiset Claim) - released = live := by
  rw [Multiset.coe_eq_coe.mpr h, ← Multiset.coe_add, tsub_add_eq_tsub_tsub,
    live_same live (List.Perm.refl _), Multiset.coe_singleton, Multiset.sub_singleton,
    Multiset.erase_of_notMem hc]

/-- The state with one more structure and its pixels. -/
def holding (s : Owner) (p : Word) (img : ImgStruct) : Owner :=
  { s with
    live := s.live + (destroyImg p img : Multiset Claim)
    structs := Function.update s.structs p img }

/-- **A load without an image** leaves everything as it was. -/
theorem load_null (hkeeps : i.Keeps) (hnot : ¬ i.Loads) (hlive : ∀ n, Claim.pages 0 n ∉ s.live) :
    s.load i = (0, s) := by
  have hstay : ∀ l : Load, i.load = l → l.img = none →
      s.live + (l.claimed : Multiset Claim) - l.released = s.live → s.load i = (0, s) := by
    intro l hl himg hsame
    unfold load
    rw [hl, himg, hsame]
  have hgoes := load_goes i
  generalize hl : i.load = l at hgoes
  cases hgoes with
  | nothing _ => exact hstay _ hl rfl (live_same _ (List.Perm.refl _))
  | rejected _ _ _ => exact hstay _ hl rfl (live_same _ (List.Perm.refl _))
  | leaked h hdata =>
      exact absurd hdata (hkeeps h.identifier h.restFile h.colorPlanes h.compression h.img).1
  | destroyed _ hdata _ =>
      refine hstay _ hl rfl ?_
      simp only [destroyed, withImage, imgClaims]
      by_cases hpixels : i.outcomes.pixels = 0
      · -- the pixels that were refused are given back as well, but nobody has them
        have hpaged : Paged i.fields.bytes := by
          by_contra hsmall
          exact hdata (by rw [pixelData, if_neg hsmall, hpixels])
        rw [if_pos hpixels, hpixels, pixelClaim, if_pos hpaged]
        exact live_extra ((List.Perm.swap _ _ _).cons _) (hlive _)
      · rw [if_neg hpixels]
        exact live_same _ ((List.Perm.swap _ _ _).cons _)
  | decoded h hdata hbpp =>
      exact absurd ⟨h.identifier, h.restFile, h.colorPlanes, h.compression, h.img, hdata, hbpp⟩ hnot

/-- **A load of an image** adds the structure and its pixels, and they are what destroying it gives
back. -/
theorem load_image (hkeeps : i.Keeps) (h : i.Loads) (s : Owner) :
    ∃ img : ImgStruct, s.load i = (i.outcomes.img, s.holding i.outcomes.img img) ∧
      ∀ n, Claim.pages 0 n ∉ destroyImg i.outcomes.img img := by
  have hpixels := (hkeeps h.identifier h.restFile h.colorPlanes h.compression h.img).2 h.bpp
  have hgoes := load_goes i
  generalize hl : i.load = l at hgoes
  cases hgoes with
  | nothing hnone =>
      cases hnone with
      | inl hne => exact absurd h.identifier hne
      | inr hnull => exact absurd hnull h.restFile
  | rejected _ _ hrejected =>
      rcases hrejected with hne | hne | hnull
      · exact absurd h.colorPlanes hne
      · exact absurd h.compression hne
      · exact absurd hnull h.img
  | leaked _ hdata => exact absurd hdata h.data
  | destroyed _ _ hbpp => exact absurd h.bpp hbpp
  | decoded _ _ _ =>
      refine ⟨⟨i.fields.width.setWidth 16, BitVec.ofNat 16 i.fields.rows,
        pixelData i.outcomes.pixels i.fields.bytes⟩, ?_⟩
      have hdestroy : destroyImg i.outcomes.img ⟨i.fields.width.setWidth 16,
          BitVec.ofNat 16 i.fields.rows, pixelData i.outcomes.pixels i.fields.bytes⟩ =
          [pixelClaim i.outcomes.pixels i.fields.bytes, .object i.outcomes.img] :=
        destroyImg_made h.img
      refine ⟨?_, fun n hn => ?_⟩
      · unfold load
        rw [hl]
        simp only [decoded, withImage, fileRead, imgClaims, if_neg hpixels]
        have hkept : ([.pages i.outcomes.restFile i.fields.pages, .object i.outcomes.img,
            pixelClaim i.outcomes.pixels i.fields.bytes] : List Claim).Perm
            ([pixelClaim i.outcomes.pixels i.fields.bytes, .object i.outcomes.img] ++
              [.pages i.outcomes.restFile i.fields.pages]) := (List.reverse_perm _).symm
        rw [holding, hdestroy, ← live_more s.live hkept]
      · -- pages that were given are not those at NULL
        rw [hdestroy] at hn
        rcases List.mem_cons.mp hn with hn | hn
        · unfold pixelClaim at hn
          split at hn
          · exact hpixels (Claim.pages.inj hn).1.symm
          · exact Claim.noConfusion hn
        · exact Claim.noConfusion (List.mem_singleton.mp hn)

/-! ## One update -/

/-- A file that is opened and closed. -/
theorem fclose_fopen (s : Owner) (file : Nat) : (s.fopen file).fclose file = s := by
  unfold fopen fclose
  rw [Multiset.add_sub_cancel_right]

/-- The structure at `p` and its pixels are all there is; NULL is nothing. -/
structure Carries (s : Owner) (p : Word) : Prop where
  single : s.slideshow = false
  live : s.live = (destroyImg p (s.structs p) : Multiset Claim)
  given : ∀ n, Claim.pages 0 n ∉ s.live
  opened : s.opened = 0

theorem giveUp_single (hslide : s.slideshow = false) :
    s.giveUp = (destroyImg s.image (s.structs s.image), { s with
      image := 0
      live := s.live - (destroyImg s.image (s.structs s.image) : Multiset Claim) }) := by
  rw [giveUp, hslide, if_neg Bool.false_ne_true]

/-- What is carried is given back. -/
theorem Carries.giveUp (h : s.Carries s.image) :
    (s.giveUp.1 : Multiset Claim) = s.live ∧ s.giveUp.2.Carries 0 := by
  have hgive := giveUp_single h.single
  have hempty : s.giveUp.2.live = 0 := by
    rw [hgive, h.live]
    exact tsub_self _
  refine ⟨by rw [hgive, h.live], ?_⟩
  constructor
  case single => rw [hgive]; exact h.single
  case live => rw [hempty]; rfl
  case given => rw [hempty]; exact fun n => Multiset.notMem_zero _
  case opened => rw [hgive]; exact h.opened

theorem Carries.reachable (h : s.Carries s.image) : s.live = s.reachable := by
  rw [h.live, Owner.reachable, h.single, if_neg Bool.false_ne_true]
  unfold destroyImg
  by_cases hnull : s.image = 0
  · rw [if_pos hnull, if_neg (not_not_intro hnull)]
    rfl
  · rw [if_neg hnull, if_pos hnull]
    exact Multiset.coe_eq_coe.mpr (List.Perm.swap _ _ _)

theorem Carries.holding (h : s.Carries 0) {p : Word} {img : ImgStruct}
    (hgiven : ∀ n, Claim.pages 0 n ∉ destroyImg p img) : (s.holding p img).Carries p := by
  have hlive : (s.holding p img).live = (destroyImg p img : Multiset Claim) := by
    have hempty : s.live = 0 := h.live
    rw [Owner.holding, hempty]
    exact zero_add _
  have hstruct : (s.holding p img).structs p = img := Function.update_self _ _ _
  constructor
  case single => exact h.single
  case live => rw [hlive, hstruct]
  case given => rw [hlive]; exact fun n hn => hgiven n (Multiset.mem_coe.mp hn)
  case opened => exact h.opened

/-- **The first file** is carried if it can be loaded. -/
theorem firstFile_carries (h : s.Carries 0) {file : Option LoadInput}
    (hkeeps : ∀ i, file = some i → i.Keeps) :
    ∃ p s', s.firstFile file = (p, decide (p = 0), s') ∧ s'.Carries p ∧
      (p ≠ 0 ↔ ∃ i, file = some i ∧ i.Loads) := by
  cases file with
  | none =>
      refine ⟨0, s, rfl, h, iff_of_false (not_not_intro rfl) ?_⟩
      intro hloads
      obtain ⟨i, hi, -⟩ := hloads
      exact absurd hi.symm (Option.some_ne_none i)
  | some i =>
      have hkeep := hkeeps i rfl
      by_cases hloads : i.Loads
      · obtain ⟨img, hload, hgiven⟩ := load_image hkeep hloads (s.fopen 1)
        refine ⟨i.outcomes.img, s.holding i.outcomes.img img, ?_, h.holding hgiven,
          iff_of_true hloads.img ⟨i, rfl, hloads⟩⟩
        rw [firstFile, hload]
        exact congrArg (fun s' => (i.outcomes.img, decide (i.outcomes.img = 0), s'))
          (fclose_fopen (s.holding i.outcomes.img img) 1)
      · refine ⟨0, s, ?_, h, iff_of_false (not_not_intro rfl) ?_⟩
        · have hload : (s.fopen 1).load i = (0, s.fopen 1) := load_null hkeep hloads h.given
          rw [firstFile, hload]
          simp only [fclose_fopen]
        · intro hany
          obtain ⟨i', hi', hloads'⟩ := hany
          cases hi'
          exact hloads hloads'

/-- A file that is not there is skipped, and one that cannot be loaded is closed. -/
theorem nextFile_stays {p : Word} (h : s.Carries p) (k : Nat) (bk : Bool) (length : Nat)
    (file : Option LoadInput)
    (hfile : ∀ i, file = some i → bk = false ∧ i.Keeps ∧ ¬ i.Loads) :
    ∃ length', s.nextFile k bk length file = (0, true, length', s) := by
  cases file with
  | none => exact ⟨_, rfl⟩
  | some i =>
      obtain ⟨hbk, hkeeps, hnot⟩ := hfile i rfl
      refine ⟨k - 1, ?_⟩
      have hload : (s.fopen k).load i = (0, s.fopen k) := load_null hkeeps hnot h.given
      rw [nextFile]
      simp only [if_pos hbk, hload, fclose_fopen, if_pos]

/-- **An update of a single image** leaves it carried. -/
theorem update_carries (h : s.Carries s.image) {u : UpdateInput} (hu : u.Single) :
    (s.update u).Carries (s.update u).image := by
  obtain ⟨p, s1, hfirst, hcarries, hloads⟩ := firstFile_carries h.giveUp.2 hu.file1
  have hsecond : ∀ i, u.file2 = some i → decide (p = 0) = false ∧ i.Keeps ∧ ¬ i.Loads := by
    intro i hi
    obtain ⟨hkeeps, hnot, hbefore⟩ := hu.file2 i hi
    exact ⟨decide_eq_false (hloads.mpr hbefore), hkeeps, hnot⟩
  obtain ⟨l2, hnext2⟩ := nextFile_stays hcarries 2 (decide (p = 0)) 0 u.file2 hsecond
  obtain ⟨l3, hnext3⟩ := nextFile_stays hcarries 3 true l2 none nofun
  obtain ⟨l4, hnext4⟩ := nextFile_stays hcarries 4 true l3 none nofun
  have hupdate : s.update u = { s1 with image := p } := by
    unfold update
    simp only [hfirst, hnext2, hu.file3, hu.file4, hnext3, hnext4, if_pos]
  rw [hupdate]
  exact ⟨hcarries.single, hcarries.live, hcarries.given, hcarries.opened⟩

/-! ## Runs -/

theorem update_owned (h : s.Carries s.image) {u : UpdateInput} (hu : u.Single) :
    UpdateOwned s u := by
  have hafter := update_carries h hu
  exact ⟨h.giveUp.1, hafter.reachable, hafter.opened⟩

/-- **Every run of single images** owns what it has, from any state that does. -/
theorem run_owned : ∀ {us : List UpdateInput} {s : Owner}, s.Carries s.image →
    (∀ u ∈ us, u.Single) → RunOwned s us := by
  intro us
  induction us with
  | nil =>
      intro s h _
      refine ⟨h.giveUp.1, fun drawfunc filefunc s' hend => ?_⟩
      unfold moduleEnd at hend
      split at hend
      · exact absurd hend.symm (Option.some_ne_none s')
      · split at hend
        · exact absurd hend.symm (Option.some_ne_none s')
        · rw [← Option.some.inj hend]
          exact h.giveUp.2.live
  | cons u us ih =>
      intro s h hus
      have hu := hus u List.mem_cons_self
      exact ⟨update_owned h hu, ih (update_carries h hu) fun v hv => hus v (List.mem_cons_of_mem u hv)⟩

theorem start_carries (structs : Word → ImgStruct) : (start structs).Carries (start structs).image :=
  ⟨rfl, rfl, fun _ => Multiset.notMem_zero _, rfl⟩

end

/-- **Ownership holds in every run** whose updates load at most the first file and open no file
behind the first one that is not loaded. -/
theorem background_owned (structs : Word → ImgStruct) (us : List UpdateInput)
    (h : ∀ u ∈ us, u.Single) : RunOwned (start structs) us :=
  run_owned (start_carries structs) h

end Owner

/-! ## Two images -/

/-- The small bitmap, with its structure and pixels at two addresses. -/
def redOverBlueAt (img pixels : Word) : LoadInput :=
  ⟨redOverBlue, fun _ => 0, fun _ => 0, ⟨0x10010000, img, pixels⟩⟩

/-- One file, and two of them. -/
def oneImage : UpdateInput := ⟨some (redOverBlueAt 0x2000 0x3000), none, none, none, 0⟩
def twoImages : UpdateInput :=
  ⟨some (redOverBlueAt 0x2000 0x3000), some (redOverBlueAt 0x2008 0x3008), none, none, 0x4000⟩

def noStructs : Word → ImgStruct := fun _ => ⟨0, 0, 0⟩

theorem background_owned_oneImage :
    (∀ u ∈ [oneImage, oneImage], u.Single) ∧
      (Owner.start noStructs).RunOwned [oneImage, oneImage] := by
  have hone : oneImage.Single := by
    constructor
    case file1 =>
      intro i hi
      cases hi
      exact fun _ _ _ _ _ => ⟨by decide, fun _ => by decide⟩
    case file2 => exact nofun
    case file3 => rfl
    case file4 => rfl
  have hall : ∀ u ∈ [oneImage, oneImage], u.Single := by
    intro u hu
    rw [(by simpa using hu : u = oneImage)]
    exact hone
  exact ⟨hall, Owner.background_owned noStructs [oneImage, oneImage] hall⟩

/-- The structures of a slideshow stay behind. -/
theorem twoImages_leak :
    ¬ ∀ (structs : Word → ImgStruct) (us : List UpdateInput), (Owner.start structs).RunOwned us := by
  intro h
  have howned := (h noStructs [twoImages]).1.live
  have hlive : ((Owner.start noStructs).update twoImages).live.card = 5 := by decide +kernel
  have hreachable : ((Owner.start noStructs).update twoImages).reachable.card = 3 := by
    decide +kernel
  rw [howned, hreachable] at hlive
  omega

end OSExt.Modules
