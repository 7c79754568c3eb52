import OSExt.Boot.ZehnLoader

/-!
# What relocating does

A relocation names words of the image: one, or those of a table. A table of relocations is
tidy if its words share no byte and lie in the image, with the end of each table. Of such a
table **every relocation changes its words alike wherever the image lies**, and
nothing else is written.
-/

namespace OSExt.Boot

open Lib Memory Elf Bytes

/-- How many words a table in the image has. -/
def tableLength (img : Bytes) (size offset : Nat) : Nat :=
  (List.range size).findIdx fun i => word img (offset + 4 * i) == 0xFFFFFFFF

namespace ZehnReloc

/-- The places of the words that are changed. -/
def places (img : Bytes) (size : Nat) (r : ZehnReloc) : List Nat :=
  match r.type with
  | .addBase | .setZero => [r.offset]
  | .addBaseGot => wordsFrom 4 r.offset (tableLength img size r.offset)
  | _ => []

/-- The places of the words that are looked at. -/
def span (img : Bytes) (size : Nat) (r : ZehnReloc) : List Nat :=
  match r.type with
  | .addBase | .setZero => [r.offset]
  | .addBaseGot => wordsFrom 4 r.offset (tableLength img size r.offset + 1)
  | _ => []

/-- What becomes of a word. -/
def change (base : Nat) (r : ZehnReloc) : Nat → Nat :=
  match r.type with
  | .setZero => fun _ => 0
  | _ => (· + base)

def edits (img : Bytes) (size base : Nat) (r : ZehnReloc) : List Edit :=
  (r.places img size).map fun a => (a, r.change base)

/-- A relocation that the loader takes. -/
def Taken (size : Nat) (r : ZehnReloc) : Prop :=
  r.offset < size ∧
    match r.type with
    | .unalignedReloc => r.offset = 0
    | .other _ => False
    | _ => True

end ZehnReloc

/-- The edits of all relocations. -/
def relocEdits (img : Bytes) (size base : Nat) (relocs : List ZehnReloc) : List Edit :=
  relocs.flatMap (ZehnReloc.edits img size base)

/-- The relocations name words of the image that share no byte, and its tables end in it. -/
structure Tidy (img : Bytes) (size : Nat) (relocs : List ZehnReloc) : Prop where
  inside : ∀ r ∈ relocs, ∀ a ∈ r.span img size, a + 4 ≤ size
  ends : ∀ r ∈ relocs, r.type = .addBaseGot →
    word img (r.offset + 4 * tableLength img size r.offset) = 0xFFFFFFFF
  apart : (relocs.flatMap (ZehnReloc.span img size)).Pairwise (WordsApart 4)

/-- Edits where an image lies. -/
def shift (base : Nat) (es : List Edit) : List Edit := es.map fun e => (base + e.1, e.2)

section

variable {img : Bytes} {size base fuel : Nat} {r : ZehnReloc} {relocs : List ZehnReloc}
  {ram : Bytes}

/-! ## Places -/

theorem ZehnReloc.places_sublist : (r.places img size).Sublist (r.span img size) := by
  unfold ZehnReloc.places ZehnReloc.span
  cases r.type with
  | addBaseGot =>
      refine List.Sublist.map _ (List.range_sublist.mpr (Nat.le_succ _))
  | addBase | setZero | fileCompressed | unalignedReloc | other n => exact List.Sublist.refl _

/-- A table is looked at up to its end. -/
theorem ZehnReloc.span_table (h : r.type = .addBaseGot) {i : Nat}
    (hi : i ≤ tableLength img size r.offset) : r.offset + 4 * i ∈ r.span img size := by
  unfold ZehnReloc.span
  rw [h]
  exact mem_wordsFrom.mpr ⟨i, Nat.lt_succ_of_le hi, rfl⟩

theorem Tidy.tail (h : Tidy img size (r :: relocs)) : Tidy img size relocs where
  inside r' hr := h.inside r' (List.mem_cons_of_mem _ hr)
  ends r' hr := h.ends r' (List.mem_cons_of_mem _ hr)
  apart := by
    have hall := h.apart
    rw [List.flatMap_cons] at hall
    exact (List.pairwise_append.mp hall).2.1

/-- The words of a relocation are apart from those of the relocations behind it. -/
theorem Tidy.head_apart (h : Tidy img size (r :: relocs)) {r' : ZehnReloc} (hr : r' ∈ relocs)
    {a b : Nat} (ha : a ∈ r.places img size) (hb : b ∈ r'.span img size) : WordsApart 4 a b := by
  have hall := h.apart
  rw [List.flatMap_cons] at hall
  exact (List.pairwise_append.mp hall).2.2 a (ZehnReloc.places_sublist.subset ha) b
    (List.mem_flatMap.mpr ⟨r', hr, hb⟩)

theorem mem_relocEdits {e : Edit} : e ∈ relocEdits img size base relocs ↔
    ∃ r ∈ relocs, ∃ a ∈ r.places img size, e = (a, r.change base) := by
  unfold relocEdits ZehnReloc.edits
  rw [List.mem_flatMap]
  refine exists_congr fun r => and_congr_right fun _ => ?_
  rw [List.mem_map]
  exact exists_congr fun a => and_congr_right fun _ => eq_comm

theorem Tidy.edits_inside (h : Tidy img size relocs) (base : Nat) :
    ∀ e ∈ relocEdits img size base relocs, e.1 + 4 ≤ size := by
  intro e he
  obtain ⟨r, hr, a, ha, rfl⟩ := mem_relocEdits.mp he
  exact h.inside r hr a (ZehnReloc.places_sublist.subset ha)

theorem places_eq : (relocEdits img size base relocs).map Prod.fst =
    relocs.flatMap (ZehnReloc.places img size) := by
  unfold relocEdits
  rw [List.map_flatMap]
  refine List.flatMap_congr fun r _ => ?_
  unfold ZehnReloc.edits
  rw [List.map_map]
  exact List.map_id' _

theorem Tidy.edits_apart (h : Tidy img size relocs) (base : Nat) :
    (relocEdits img size base relocs).Pairwise fun e f => WordsApart 4 e.1 f.1 := by
  rw [← List.pairwise_map (f := Prod.fst), places_eq]
  exact h.apart.sublist (List.Sublist.flatMap_right _ fun _ _ => ZehnReloc.places_sublist)

/-- The table of a tidy relocation. -/
theorem Tidy.table (h : Tidy img size relocs) (hr : r ∈ relocs) (htype : r.type = .addBaseGot)
    (hsize : size ≤ 4294967296) :
    Table 4294967296 4 0xFFFFFFFF img r.offset (tableLength img size r.offset) where
  entry i hi := by
    have hne := List.not_of_lt_findIdx hi
    rw [List.getElem_range] at hne
    exact fun heq => absurd (beq_iff_eq.mpr heq) (by rw [hne]; exact Bool.false_ne_true)
  ends := h.ends r hr htype
  fits := by
    have hin := h.inside r hr _ (ZehnReloc.span_table htype le_rfl)
    omega

/-! ## Relocating -/

/-- The words a relocation looks at are those of the image. -/
def Fresh (img : Bytes) (size base : Nat) (ram : Bytes) (r : ZehnReloc) : Prop :=
  ∀ a ∈ r.span img size, word ram (base + a) = word img a

theorem zehnReloc_taken (h : Tidy img size relocs) (hr : r ∈ relocs)
    (hbase : base + size ≤ 4294967296) (hfuel : size ≤ fuel) (hfresh : Fresh img size base ram r)
    (htaken : r.Taken size) : zehnReloc fuel base size r ram =
      (.ok (), editAll 4294967296 4 (shift base (r.edits img size base)) ram) := by
  obtain ⟨hoffset, hkind⟩ := htaken
  have hplace : u32 (base + r.offset) = base + r.offset := u32_of_lt (by omega)
  unfold zehnReloc
  rw [if_neg (by omega), hplace]
  unfold shift ZehnReloc.edits ZehnReloc.places ZehnReloc.change
  cases htype : r.type with
  | fileCompressed => rfl
  | addBase => rfl
  | setZero => rfl
  | other n =>
      rw [htype] at hkind
      exact hkind.elim
  | unalignedReloc =>
      rw [htype] at hkind
      exact congrFun (if_neg (not_not.mpr hkind)) ram
  | addBaseGot =>
      have htable := h.table hr htype (by omega)
      have hend := h.inside r hr _ (ZehnReloc.span_table htype le_rfl)
      have hword : ∀ i ≤ tableLength img size r.offset,
          word ram (base + r.offset + 4 * i) = word img (r.offset + 4 * i) := by
        intro i hi
        rw [Nat.add_assoc]
        exact hfresh _ (ZehnReloc.span_table htype hi)
      have hthere : Table 4294967296 4 0xFFFFFFFF ram (base + r.offset)
          (tableLength img size r.offset) :=
        ⟨fun i hi heq => htable.entry i hi ((hword i hi.le).symm.trans heq),
          (hword _ le_rfl).trans htable.ends, by omega⟩
      have hscan := addUntil_table base (by omega) hthere (by omega : _ < fuel)
      refine bind_ok.mpr ⟨_, ram, rfl, ?_⟩
      rw [hscan]
      unfold wordsFrom
      rw [List.map_map, List.map_map, List.map_map]
      refine congrArg (fun es => (Except.ok (), editAll 4294967296 4 es ram)) ?_
      refine List.map_congr_left fun i _ => ?_
      show (base + r.offset + 4 * i, _) = (base + (r.offset + 4 * i), _)
      rw [Nat.add_assoc]

theorem zehnReloc_not_taken (hnot : ¬ r.Taken size) {u : Unit} {ram' : Bytes} :
    zehnReloc fuel base size r ram ≠ (.ok u, ram') := by
  intro hok
  unfold zehnReloc at hok
  by_cases hoffset : r.offset ≥ size
  · rw [if_pos hoffset] at hok
    exact stop_ok.mp hok
  · rw [if_neg hoffset] at hok
    unfold ZehnReloc.Taken at hnot
    cases htype : r.type with
    | fileCompressed | addBase | setZero | addBaseGot =>
        rw [htype] at hnot
        exact hnot ⟨by omega, trivial⟩
    | other n =>
        rw [htype] at hok
        exact stop_ok.mp hok
    | unalignedReloc =>
        rw [htype] at hok hnot
        have hne : r.offset ≠ 0 := fun h0 => hnot ⟨by omega, h0⟩
        dsimp only at hok
        rw [if_pos hne] at hok
        exact stop_ok.mp hok

/-- What a relocation does is not seen by those behind it. -/
theorem Tidy.fresh_tail (h : Tidy img size (r :: relocs)) (hbase : base + size ≤ 4294967296)
    (hfresh : ∀ r' ∈ relocs, Fresh img size base ram r') :
    ∀ r' ∈ relocs, Fresh img size base
      (editAll 4294967296 4 (shift base (r.edits img size base)) ram) r' := by
  intro r' hr a ha
  have hina := h.inside r' (List.mem_cons_of_mem _ hr) a ha
  have hin : ∀ e ∈ r.edits img size base, e.1 + 4 ≤ size := by
    intro e he
    obtain ⟨b, hb, rfl⟩ := List.mem_map.mp he
    exact h.inside r (List.mem_cons_self ..) b (ZehnReloc.places_sublist.subset hb)
  have hpairs : (shift base (r.edits img size base)).Pairwise fun e f => WordsApart 4 e.1 f.1 := by
    have hall := h.edits_apart base
    unfold relocEdits at hall
    rw [List.flatMap_cons] at hall
    refine List.pairwise_map.mpr ((List.pairwise_append.mp hall).1.imp fun hef => ?_)
    exact hef.imp (by omega) (by omega)
  have hedited := edited_editAll ram 4294967296 hpairs <| by
    intro e he
    obtain ⟨f, hf, rfl⟩ := List.mem_map.mp he
    have := hin f hf
    show base + f.1 + 4 ≤ 4294967296
    omega
  rw [← hfresh r' hr a ha]
  refine number_same (by omega) fun x hx hxw => hedited.rest x (by omega) fun e he => ?_
  obtain ⟨f, hf, rfl⟩ := List.mem_map.mp he
  obtain ⟨b, hb, rfl⟩ := List.mem_map.mp hf
  have happ := h.head_apart hr hb ha
  show x < base + b ∨ base + b + 4 ≤ x
  rcases happ with happ | happ
  · omega
  · omega

/-- **The loop over the relocations** takes the tables whose relocations it all takes, and does
what they say. -/
theorem zehnRelocs_spec (hbase : base + size ≤ 4294967296) (hfuel : size ≤ fuel) :
    ∀ {relocs : List ZehnReloc} {ram : Bytes}, Tidy img size relocs →
      (∀ r ∈ relocs, Fresh img size base ram r) → ∀ {u : Unit} {ram' : Bytes},
      zehnRelocs fuel base size relocs ram = (.ok u, ram') ↔
        (∀ r ∈ relocs, r.Taken size) ∧
          ram' = editAll 4294967296 4 (shift base (relocEdits img size base relocs)) ram := by
  intro relocs
  induction relocs with
  | nil =>
      intro ram _ _ u ram'
      refine pure_ok.trans ⟨fun h => ⟨nofun, h.2.symm⟩, fun h => ⟨rfl, h.2.symm⟩⟩
  | cons r relocs ih =>
      intro ram h hfresh u ram'
      have hmem : r ∈ r :: relocs := List.mem_cons_self ..
      rw [zehnRelocs, bind_ok, List.forall_mem_cons]
      by_cases htaken : r.Taken size
      · have hone := zehnReloc_taken h hmem hbase hfuel (hfresh r hmem) htaken
        have hrest := @ih _ h.tail (h.fresh_tail hbase fun r' hr =>
          hfresh r' (List.mem_cons_of_mem _ hr)) u ram'
        have hsplit : shift base (relocEdits img size base (r :: relocs)) =
            shift base (r.edits img size base) ++ shift base (relocEdits img size base relocs) := by
          unfold shift relocEdits
          rw [List.flatMap_cons, List.map_append]
        rw [hsplit, editAll_append]
        constructor
        · rintro ⟨v, ram1, hv, hloop⟩
          rw [hone] at hv
          obtain ⟨-, rfl⟩ := Prod.mk.inj hv
          obtain ⟨hall, hram⟩ := hrest.mp hloop
          exact ⟨⟨htaken, hall⟩, hram⟩
        · rintro ⟨⟨-, hall⟩, hram⟩
          exact ⟨(), _, hone, hrest.mpr ⟨hall, hram⟩⟩
      · constructor
        · rintro ⟨v, ram1, hv, -⟩
          exact (zehnReloc_not_taken htaken hv).elim
        · rintro ⟨⟨hyes, -⟩, -⟩
          exact (htaken hyes).elim

end

end OSExt.Boot
