import OSExt.Boot.Relocation

/-!
# From the file to the virtual base address

The loader puts the kernel where `malloc` finds room, and relocates it for there;
`relocate_self` moves it on. The loader knows every word that depends on the address, the
kernel only its table. So **the moved kernel is the one that would have been loaded at the
virtual base address exactly if no other word had an address added**: a pointer that is
initialised in the data still points into the first copy.
-/

namespace OSExt.Boot

open Lib Memory Elf Bytes

/-- The image has the kernel's table, and its only relocation of a table is for it. -/
structure Linked.Image (k : Linked) (img : Bytes) (size : Nat) (relocs : List ZehnReloc) : Prop
    where
  got : ⟨.addBaseGot, k.got⟩ ∈ relocs
  only : ∀ r ∈ relocs, r.type = .addBaseGot → r.offset = k.got
  entry : ∀ i (h : i < k.entries.length), word img (k.got + 4 * i) = k.entries[i]
  ends : word img (k.got + 4 * k.entries.length) = 0xFFFFFFFF
  size_le : k.size ≤ size

section

variable {k : Linked} {img : Bytes} {size base dst : Nat} {relocs : List ZehnReloc}
  {ram ram' : Bytes}

/-- Words of different relocations are apart. -/
theorem Tidy.spans_apart (h : Tidy img size relocs) {r r' : ZehnReloc} (hr : r ∈ relocs)
    (hr' : r' ∈ relocs) (hne : r ≠ r') : ∀ a ∈ r.span img size, ∀ b ∈ r'.span img size,
      WordsApart 4 a b := by
  have hpairs := (List.pairwise_flatMap.mp h.apart).2
  have : Std.Symm fun r r' => ∀ a ∈ ZehnReloc.span img size r, ∀ b ∈ ZehnReloc.span img size r',
      WordsApart 4 a b := ⟨fun r r' hrr b hb a ha => (hrr a ha b hb).symm⟩
  exact hpairs.forall hr hr' hne

namespace Linked.Image

theorem table (h : k.Image img size relocs) (hsize : size < 0xFFFFFFFF) :
    tableLength img size k.got = k.entries.length := by
  have hgot := k.got_le
  have hle := h.size_le
  unfold tableLength
  refine (List.findIdx_eq (by rw [List.length_range]; omega)).mpr ⟨?_, fun i hi => ?_⟩
  · rw [List.getElem_range]
    exact beq_iff_eq.mpr h.ends
  · rw [List.getElem_range, h.entry i hi, beq_eq_false_iff_ne]
    have hsmall := k.entries_le _ (List.getElem_mem hi)
    omega

/-- The relocation of the table. -/
theorem places (h : k.Image img size relocs) (hsize : size < 0xFFFFFFFF) :
    ZehnReloc.places img size ⟨.addBaseGot, k.got⟩ = wordsFrom 4 k.got k.entries.length := by
  show wordsFrom 4 k.got (tableLength img size k.got) = _
  rw [h.table hsize]

theorem span (h : k.Image img size relocs) (hsize : size < 0xFFFFFFFF) {i : Nat}
    (hi : i ≤ k.entries.length) :
    k.got + 4 * i ∈ ZehnReloc.span img size ⟨.addBaseGot, k.got⟩ := by
  show k.got + 4 * i ∈ wordsFrom 4 k.got (tableLength img size k.got + 1)
  rw [h.table hsize]
  exact mem_wordsFrom.mpr ⟨i, by omega, rfl⟩

/-- An edit is one of the table, or apart from the table and its end. -/
theorem edit_cases (h : k.Image img size relocs) (htidy : Tidy img size relocs)
    (hsize : size < 0xFFFFFFFF) {e : Edit} (he : e ∈ relocEdits img size base relocs) :
    (∃ i < k.entries.length, e = (k.got + 4 * i, (· + base))) ∨
      (∃ r ∈ relocs, (r.type = .addBase ∨ r.type = .setZero) ∧ e = (r.offset, r.change base)) ∧
        ∀ i ≤ k.entries.length, WordsApart 4 e.1 (k.got + 4 * i) := by
  obtain ⟨r, hr, a, ha, rfl⟩ := mem_relocEdits.mp he
  by_cases heq : r = ⟨.addBaseGot, k.got⟩
  · subst heq
    rw [h.places hsize] at ha
    obtain ⟨i, hi, rfl⟩ := mem_wordsFrom.mp ha
    exact Or.inl ⟨i, hi, rfl⟩
  · refine Or.inr ⟨⟨r, hr, ?_⟩, fun i hi => ?_⟩
    · unfold ZehnReloc.places at ha
      cases htype : r.type with
      | addBase =>
          rw [htype] at ha
          exact ⟨Or.inl rfl, by rw [List.mem_singleton.mp ha]⟩
      | setZero =>
          rw [htype] at ha
          exact ⟨Or.inr rfl, by rw [List.mem_singleton.mp ha]⟩
      | addBaseGot =>
          refine (heq ?_).elim
          rcases r with ⟨type, offset⟩
          exact congrArg₂ ZehnReloc.mk htype (h.only _ hr htype)
      | fileCompressed | unalignedReloc | other n =>
          rw [htype] at ha
          exact (List.not_mem_nil ha).elim
    · exact htidy.spans_apart hr h.got heq a (ZehnReloc.places_sublist.subset ha) _
        (h.span hsize hi)

/-- **A loaded kernel runs** where it was loaded. -/
theorem runsAt (h : k.Image img size relocs) (htidy : Tidy img size relocs)
    (hbase : base + size < 0xFFFFFFFF)
    (hedited : Edited 4294967296 4 size (relocEdits img size base relocs) img (view base ram)) :
    k.RunsAt base ram := by
  have hgot := k.got_le
  have hle := h.size_le
  refine ⟨fun i hi => ?_, ?_, by omega⟩
  · have hmem : (k.got + 4 * i, (· + base)) ∈ relocEdits img size base relocs := by
      refine mem_relocEdits.mpr ⟨_, h.got, _, ?_, rfl⟩
      rw [h.places (by omega)]
      exact mem_wordsFrom.mpr ⟨i, hi, rfl⟩
    have hword := hedited.word _ hmem
    have hsmall := k.entries_le _ (List.getElem_mem hi)
    rw [number_view (show base + (k.got + 4 * i) + 4 ≤ 4294967296 by omega)] at hword
    refine hword.trans ?_
    show (word img (k.got + 4 * i) + base) % 256 ^ 4 = _
    rw [h.entry i hi]
    omega
  · show number 4294967296 ram _ 4 = _
    rw [← number_view (by omega)]
    refine (number_same (by omega) fun x hx hxw => ?_).trans h.ends
    refine hedited.rest x (by omega) fun e he => ?_
    rcases h.edit_cases htidy (by omega) he with ⟨i, hi, rfl⟩ | ⟨-, hapart⟩
    · show x < k.got + 4 * i ∨ k.got + 4 * i + 4 ≤ x
      omega
    · have happ := hapart k.entries.length le_rfl
      unfold WordsApart at happ
      omega

end Linked.Image

/-! ## Compared with a kernel that is loaded there -/

/-- What a relocation leaves of a byte that it does not depend on the address for. -/
theorem same_byte (h : k.Image img size relocs) (htidy : Tidy img size relocs)
    (hsize : size < 0xFFFFFFFF)
    (hloaded : Edited 4294967296 4 size (relocEdits img size base relocs) img (view base ram))
    (hthere : Edited 4294967296 4 size (relocEdits img size dst relocs) img (view dst ram'))
    (hnone : ∀ r ∈ relocs, r.type = .addBase → k.size ≤ r.offset) {x : Nat} (hx : x < k.size)
    (hout : x < k.got ∨ k.got + 4 * k.entries.length ≤ x) :
    view base ram x = view dst ram' x := by
  have hle := h.size_le
  by_cases hzero : ∃ r ∈ relocs, r.type = .setZero ∧ r.offset ≤ x ∧ x < r.offset + 4
  · obtain ⟨r, hr, htype, hrx, hxr⟩ := hzero
    have hmem : ∀ b, (r.offset, fun _ => 0) ∈ relocEdits img size b relocs := fun b => by
      refine mem_relocEdits.mpr ⟨r, hr, r.offset, ?_, ?_⟩
      · unfold ZehnReloc.places
        rw [htype]
        exact List.mem_singleton_self _
      · unfold ZehnReloc.change
        rw [htype]
    have hin := htidy.edits_inside base _ (hmem base)
    have hword : number 4294967296 (view base ram) r.offset 4 =
        number 4294967296 (view dst ram') r.offset 4 :=
      (hloaded.word _ (hmem base)).trans (hthere.word _ (hmem dst)).symm
    have hin' : r.offset + 4 ≤ size := hin
    exact bytes_of_number (by omega) hword x hrx hxr
  · -- the word of no edit has the byte
    have hrest : ∀ b, ∀ e ∈ relocEdits img size b relocs, x < e.1 ∨ e.1 + 4 ≤ x := by
      intro b e he
      rcases h.edit_cases htidy hsize he with ⟨i, hi, rfl⟩ | ⟨⟨r, hr, htype | htype, rfl⟩, -⟩
      · show x < k.got + 4 * i ∨ k.got + 4 * i + 4 ≤ x
        omega
      · have hfar := hnone r hr htype
        show x < r.offset ∨ r.offset + 4 ≤ x
        omega
      · by_contra hin
        have hin' : ¬ (x < r.offset ∨ r.offset + 4 ≤ x) := hin
        exact hzero ⟨r, hr, htype, by omega, by omega⟩
    rw [hloaded.rest x (by omega) (hrest base), hthere.rest x (by omega) (hrest dst)]

/-- **A moved kernel and a loaded one** are the same exactly if no relocation but that of the
table adds the address. -/
theorem moved_asLoaded (h : k.Image img size relocs) (htidy : Tidy img size relocs)
    {ram1 ram2 ramV : Bytes} (hbase : base + k.size ≤ dst) (hdst : dst + size < 0xFFFFFFFF)
    (hwhole : ∀ r ∈ relocs, r.type = .addBase → r.offset + 4 ≤ k.size ∨ k.size ≤ r.offset)
    (hloaded : Edited 4294967296 4 size (relocEdits img size base relocs) img (view base ram1))
    (hmoved : k.Moved base dst ram1 ram2)
    (hthere : Edited 4294967296 4 size (relocEdits img size dst relocs) img (view dst ramV)) :
    (∀ x < k.size, ram2 (dst + x) = ramV (dst + x)) ↔
      ∀ r ∈ relocs, r.type = .addBase → k.size ≤ r.offset := by
  have hle := h.size_le
  have hgot := k.got_le
  constructor
  · intro hsame r hr htype
    by_contra hlt
    have hin : r.offset + 4 ≤ k.size := (hwhole r hr htype).resolve_right hlt
    have hmem : ∀ b, (r.offset, (· + b)) ∈ relocEdits img size b relocs := fun b => by
      refine mem_relocEdits.mpr ⟨r, hr, r.offset, ?_, ?_⟩
      · unfold ZehnReloc.places
        rw [htype]
        exact List.mem_singleton_self _
      · unfold ZehnReloc.change
        rw [htype]
    have hapart : ∀ i ≤ k.entries.length, WordsApart 4 r.offset (k.got + 4 * i) := by
      rcases h.edit_cases htidy (by omega) (hmem base) with ⟨i, hi, heq⟩ | ⟨-, hapart⟩
      · have hplace : r.offset = k.got + 4 * i := congrArg Prod.fst heq
        refine fun j hj => (htidy.spans_apart hr h.got ?_ _ ?_ _ (h.span (by omega) hj))
        · rintro rfl
          exact ZehnRelocType.noConfusion htype
        · unfold ZehnReloc.span
          rw [htype]
          exact List.mem_singleton_self _
      · exact hapart
    have hout : r.offset + 4 ≤ k.got ∨ k.got + 4 * k.entries.length ≤ r.offset := by
      by_contra hno
      have hi := hapart ((r.offset + 3 - k.got) / 4) (by omega)
      unfold WordsApart at hi
      omega
    have hword : number 4294967296 (view base ram1) r.offset 4 =
        number 4294967296 (view dst ramV) r.offset 4 := by
      refine number_same (by omega) fun x hx hxw => ?_
      have hcopy := hmoved.copy x (by omega) (by omega)
      exact hcopy.symm.trans (hsame x (by omega))
    rw [hloaded.word _ (hmem base), hthere.word _ (hmem dst)] at hword
    have hsum : (number 4294967296 img r.offset 4 + base) % 256 ^ 4 =
      (number 4294967296 img r.offset 4 + dst) % 256 ^ 4 := hword
    omega
  · intro hnone x hx
    by_cases hout : x < k.got ∨ k.got + 4 * k.entries.length ≤ x
    · rw [hmoved.copy x hx hout]
      exact same_byte h htidy (by omega) hloaded hthere hnone hx hout
    · -- the byte is in a word of the table
      have hi : (x - k.got) / 4 < k.entries.length := by omega
      have hthere' := (h.runsAt htidy hdst hthere).entry _ hi
      have hword := (hmoved.runs.entry _ hi).trans hthere'.symm
      exact bytes_of_number (by omega) hword (dst + x) (by omega) (by omega)

/-! ## Booting -/

end

/-! ## The small file as a kernel -/

/-- The table of the small file: `main`, and the three variables of the linker. -/
def smallKernel : Linked where
  entries := [2, 0, 24, 4]
  got := 4
  size := 24
  main := 2
  slot
    | .main => 0
    | .execStart => 1
    | .execSize => 2
    | .gotStart => 3
  slot_main := rfl
  slot_execStart := rfl
  slot_execSize := rfl
  slot_gotStart := rfl
  entries_le := by decide
  got_le := le_rfl

theorem image_smallKernel : smallKernel.Image (imageOf smallImage) 24 smallFile.relocs where
  got := List.mem_singleton_self _
  only := List.forall_mem_singleton.mpr fun _ => rfl
  entry := by decide +kernel
  ends := by decide +kernel
  size_le := le_rfl

end OSExt.Boot
