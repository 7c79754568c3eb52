import OSExt.Modules.BmpBounds

/-!
# Drawing the background

`background_draw_image` fills the black pixels of the screen below the title bar, from the
image or from the one of the slideshow whose turn it is. It takes the pixel of the image by
the column and row of the screen and the width of the image; its height is never looked at.
-/

namespace OSExt.Modules

open Lib Memory

/-- An image and the bytes its data has. -/
structure Shown where
  img : ImgStruct
  room : Nat

/-- What `image` points to. -/
inductive Background where
  | unset
  | image (i : Shown)
  | slideshow (l : List Shown)

def Background.images : Background → List Shown
  | .unset => []
  | .image i => [i]
  | .slideshow l => l

/-- The bytes of an image that the two loops read. -/
def drawReads (img : ImgStruct) (nspire : Nat → Nat) : List Word :=
  (List.range 320).flatMap fun x => (List.range' 23 217).flatMap fun y =>
    if nspire (x * 240 + y) = rgbto565 0 0 0 then
      addresses (img.data + BitVec.ofNat 32 (2 * (x + y * img.width.toNat))) 2
    else []

/-- `next_image` -/
def nextImage (index length : Nat) : Nat := if index ≥ length - 1 then 0 else index + 1

/-- `slideshow_time` -/
def slideshowTime : Word := 15

/-- `background_draw_image`, for as many calls of itself as there are rounds: what it reads, and of
which image. The menus are those it finds open on the screen; `rtc` are the answers of
`rtc_get_value`. -/
def backgroundDrawImage (b : Background) (nspire : Nat → Nat) (notMain : Bool) (rtc : Nat → Word) :
    Nat → Nat → Word → Nat → List (Nat × Word)
  | 0, _, _, _ => []
  | rounds + 1, index, lastChanged, calls =>
    match b with
    | .unset => []
    | .image i => if notMain then [] else (drawReads i.img nspire).map fun a => (0, a)
    | .slideshow l =>
      if notMain then []
      else if rtc calls - lastChanged > slideshowTime then
        backgroundDrawImage b nspire notMain rtc rounds (nextImage index l.length) (rtc (calls + 1))
          (calls + 2)
      else
        match l[index]? with
        | some i => (drawReads i.img nspire).map fun a => (index, a)
        | none => []

/-- Whatever is on the screen and whatever the time is, only the image drawn is read. -/
def DrawSafe (b : Background) : Prop :=
  ∀ nspire notMain rtc rounds index lastChanged calls,
    (∀ l, b = .slideshow l → index < l.length) →
      ∀ r ∈ backgroundDrawImage b nspire notMain rtc rounds index lastChanged calls,
        ∃ i, b.images[r.1]? = some i ∧ Within i.img.data i.room r.2

/-- The image goes down to the last pixel of the screen, in rows of its own width. -/
def Shown.CoversScreen (i : Shown) : Prop := 2 * (320 + 239 * i.img.width.toNat) ≤ i.room

/-! ## One image -/

theorem mem_drawReads {img : ImgStruct} {nspire : Nat → Nat} {a : Word} :
    a ∈ drawReads img nspire → ∃ x < 320, ∃ y < 240, ∃ j < 2,
      a = img.data + BitVec.ofNat 32 (2 * (x + y * img.width.toNat) + j) := by
  unfold drawReads
  simp only [List.mem_flatMap, List.mem_range, List.mem_range']
  intro h
  obtain ⟨x, hx, y, ⟨k, hk, hy⟩, ha⟩ := h
  split at ha
  · obtain ⟨j, hj, rfl⟩ := mem_addresses.mp ha
    refine ⟨x, hx, y, by omega, j, hj, ?_⟩
    rw [BitVec.add_assoc, ← BitVec.ofNat_add]
  · exact absurd ha List.not_mem_nil

/-- The last byte is read where the last pixel of the screen is black. -/
theorem last_mem_drawReads (img : ImgStruct) {nspire : Nat → Nat}
    (hblack : nspire (319 * 240 + 239) = rgbto565 0 0 0) :
    img.data + BitVec.ofNat 32 (2 * (319 + 239 * img.width.toNat) + 1) ∈ drawReads img nspire := by
  unfold drawReads
  simp only [List.mem_flatMap, List.mem_range, List.mem_range']
  refine ⟨319, by omega, 239, ⟨216, by omega, by omega⟩, ?_⟩
  rw [if_pos hblack]
  refine mem_addresses.mpr ⟨1, by omega, ?_⟩
  rw [BitVec.add_assoc, ← BitVec.ofNat_add]

theorem drawReads_within {i : Shown} (h : i.CoversScreen) (nspire : Nat → Nat) :
    ∀ a ∈ drawReads i.img nspire, Within i.img.data i.room a := by
  intro a ha
  obtain ⟨x, hx, y, hy, j, hj, rfl⟩ := mem_drawReads ha
  have hwidth := i.img.width.isLt
  have hrow : y * i.img.width.toNat ≤ 239 * i.img.width.toNat :=
    Nat.mul_le_mul_right _ (by omega)
  unfold Shown.CoversScreen at h
  rw [within_add, Nat.mod_eq_of_lt (by omega)]
  omega

theorem covers_of_within {i : Shown} {nspire : Nat → Nat}
    (hblack : nspire (319 * 240 + 239) = rgbto565 0 0 0)
    (h : ∀ a ∈ drawReads i.img nspire, Within i.img.data i.room a) : i.CoversScreen := by
  have hlast := h _ (last_mem_drawReads i.img hblack)
  have hwidth := i.img.width.isLt
  rw [within_add, Nat.mod_eq_of_lt (by omega)] at hlast
  unfold Shown.CoversScreen
  omega

/-! ## All images -/

theorem nextImage_lt {index length : Nat} (h : index < length) : nextImage index length < length := by
  unfold nextImage
  split <;> omega

/-- **One call** reads inside what covers the screen, whichever image it comes to. -/
theorem backgroundDrawImage_within {b : Background} (hcovers : ∀ i ∈ b.images, i.CoversScreen)
    (nspire : Nat → Nat) (notMain : Bool) (rtc : Nat → Word) :
    ∀ rounds index lastChanged calls, (∀ l, b = .slideshow l → index < l.length) →
      ∀ r ∈ backgroundDrawImage b nspire notMain rtc rounds index lastChanged calls,
        ∃ i, b.images[r.1]? = some i ∧ Within i.img.data i.room r.2 := by
  intro rounds
  induction rounds with
  | zero => exact fun _ _ _ _ r hr => absurd hr List.not_mem_nil
  | succ rounds ih =>
      intro index lastChanged calls hindex r hr
      cases b with
      | unset => exact absurd hr List.not_mem_nil
      | image i =>
          rw [backgroundDrawImage] at hr
          split at hr
          · exact absurd hr List.not_mem_nil
          · obtain ⟨a, ha, rfl⟩ := List.mem_map.mp hr
            exact ⟨i, rfl, drawReads_within (hcovers i List.mem_cons_self) nspire a ha⟩
      | slideshow l =>
          have hlt := hindex l rfl
          rw [backgroundDrawImage] at hr
          split at hr
          · exact absurd hr List.not_mem_nil
          · split at hr
            · refine ih _ _ _ ?_ r hr
              intro l' hl
              cases hl
              exact nextImage_lt hlt
            · rw [List.getElem?_eq_getElem hlt] at hr
              obtain ⟨a, ha, rfl⟩ := List.mem_map.mp hr
              have hi := hcovers l[index] (List.getElem_mem hlt)
              exact ⟨l[index], List.getElem?_eq_getElem hlt, drawReads_within hi nspire a ha⟩

def blackScreen : Nat → Nat := fun _ => rgbto565 0 0 0

/-- **Drawing is safe** exactly if every image that can be drawn covers the screen. -/
theorem drawSafe_iff (b : Background) : DrawSafe b ↔ ∀ i ∈ b.images, i.CoversScreen := by
  constructor
  · intro h i hi
    -- a black screen, no menu, and no time that goes by
    have hblack : blackScreen (319 * 240 + 239) = rgbto565 0 0 0 := rfl
    cases b with
    | unset => exact absurd hi List.not_mem_nil
    | image i' =>
        obtain rfl : i = i' := List.mem_singleton.mp hi
        refine covers_of_within hblack fun a ha => ?_
        obtain ⟨k, hk, hwithin⟩ := h blackScreen false (fun _ => 0) 1 0 0 0
          (fun _ hl => by cases hl) (0, a) (List.mem_map.mpr ⟨a, ha, rfl⟩)
        obtain rfl : i = k := Option.some.inj hk
        exact hwithin
    | slideshow l =>
        have hmem : i ∈ l := hi
        obtain ⟨index, hindex, rfl⟩ := List.getElem_of_mem hmem
        refine covers_of_within hblack fun a ha => ?_
        have hdraw : backgroundDrawImage (.slideshow l) blackScreen false (fun _ => 0) 1
            index 0 0 = (drawReads l[index].img blackScreen).map fun a => (index, a) := by
          rw [backgroundDrawImage, if_neg Bool.false_ne_true, if_neg (by decide),
            List.getElem?_eq_getElem hindex]
        obtain ⟨k, hk, hwithin⟩ := h blackScreen false (fun _ => 0) 1 index 0 0
          (fun l' hl => by cases hl; exact hindex) (index, a)
          (by rw [hdraw]; exact List.mem_map.mpr ⟨a, ha, rfl⟩)
        have hk' := Option.some.inj ((List.getElem?_eq_getElem hindex).symm.trans hk)
        rw [hk']
        exact hwithin
  · exact fun h nspire notMain rtc rounds index lastChanged calls =>
      backgroundDrawImage_within h nspire notMain rtc rounds index lastChanged calls

/-! ## The claims on both -/

/-- **Backgrounds stay in their buffers** exactly under these two conditions. -/
theorem background_bounds_iff (file : List UInt8) (stack pages : Bytes) (o : Outcomes)
    (b : Background) :
    ((loadBmp file stack pages o).Safe ↔
      (bmpFields file stack pages).LoadsSafely (file.length - 14) o) ∧
    (DrawSafe b ↔ ∀ i ∈ b.images, i.CoversScreen) :=
  ⟨loadFields_safe_iff _ _ o, drawSafe_iff b⟩

/-- A small bitmap whose pixels `kmalloc` refuses: the structure stays claimed. -/
theorem refusedPixels_leak :
    ¬ ((∀ file stack pages o, (loadBmp file stack pages o).Safe) ∧ ∀ b, DrawSafe b) := by
  intro h
  have hsafe := h.1 redOverBlue (fun _ => 0) (fun _ => 0) ⟨0x10010000, 0x2000, 0⟩
  have hloads := (loadFields_safe_iff _ _ _).mp hsafe
  have hgiven := (hloads (by decide) (by decide)).2 (by decide) (by decide) (by decide)
  exact absurd hgiven.1.1 (by decide)

end OSExt.Modules
