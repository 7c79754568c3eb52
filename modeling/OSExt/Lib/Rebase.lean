import OSExt.Lib.Bytes

/-!
# Words rewritten in place

An edit is the place of a word and what becomes of it. Edits of words that share no byte
do not see each other, so that one after the other they do what each of them does alone.

An image that is moved names places in itself by words, and the distance of the move is
added to them. A table of such words ends with a word that is none of them.
-/

namespace OSExt.Lib.Bytes

/-- The place of a word, and what becomes of it. -/
abbrev Edit := Nat × (Nat → Nat)

/-- Words that share no byte. -/
def WordsApart (w a b : Nat) : Prop := a + w ≤ b ∨ b + w ≤ a

instance (w a b : Nat) : Decidable (WordsApart w a b) := inferInstanceAs (Decidable (_ ∨ _))

variable (top w : Nat)

def editAt (m : Bytes) (e : Edit) : Bytes := store top m e.1 w (e.2 (number top m e.1 w))

def editAll (es : List Edit) (m : Bytes) : Bytes := es.foldl (editAt top w) m

/-- `v` is added to the words from `a` on, until there is one that is `last`. -/
def addUntil (v last : Nat) : Nat → Nat → Bytes → Option Bytes
  | 0, _, _ => none
  | fuel + 1, a, m =>
    if number top m a w = last then some m
    else addUntil v last fuel ((a + w) % top) (editAt top w m (a, (· + v)))

/-- The places of `n` words from `a` on. -/
def wordsFrom (a n : Nat) : List Nat := (List.range n).map fun i => a + w * i

/-- An image as it is seen from where it lies. -/
def view (base : Nat) (m : Bytes) : Bytes := fun x => m (base + x)

/-- In the first `size` bytes, `m'` is `m` with the edits, and nothing else is changed. -/
structure Edited (size : Nat) (es : List Edit) (m m' : Bytes) : Prop where
  word : ∀ e ∈ es, number top m' e.1 w = e.2 (number top m e.1 w) % 256 ^ w
  rest : ∀ x < size, (∀ e ∈ es, x < e.1 ∨ e.1 + w ≤ x) → m' x = m x

/-- Words from `a` on that are not `last`, and one that is. -/
structure Table (last : Nat) (m : Bytes) (a n : Nat) : Prop where
  entry : ∀ i < n, number top m (a + w * i) w ≠ last
  ends : number top m (a + w * n) w = last
  fits : a + w * (n + 1) ≤ top

section

variable {top w} {m m' m'' : Bytes} {es es' : List Edit} {a b size base : Nat}

theorem WordsApart.symm (h : WordsApart w a b) : WordsApart w b a := Or.symm h

theorem mem_wordsFrom {n x : Nat} : x ∈ wordsFrom w a n ↔ ∃ i < n, x = a + w * i := by
  unfold wordsFrom
  rw [List.mem_map]
  constructor
  · rintro ⟨i, hi, rfl⟩
    exact ⟨i, List.mem_range.mp hi, rfl⟩
  · rintro ⟨i, hi, rfl⟩
    exact ⟨i, List.mem_range.mpr hi, rfl⟩

theorem wordsFrom_succ (n : Nat) : wordsFrom w a (n + 1) = a :: wordsFrom w (a + w) n := by
  unfold wordsFrom
  rw [List.range_succ_eq_map, List.map_cons, List.map_map, Nat.mul_zero, Nat.add_zero]
  congr 1
  refine List.map_congr_left fun i _ => ?_
  show a + w * (i + 1) = a + w + w * i
  rw [Nat.mul_succ]
  omega

/-- Words of equal bytes are equal. -/
theorem number_same (ha : a + w ≤ top) (h : ∀ x, a ≤ x → x < a + w → m' x = m x) :
    number top m' a w = number top m a w := by
  refine number_congr fun i hi => ?_
  rw [Nat.mod_eq_of_lt (by omega)]
  exact h _ (by omega) (by omega)

/-- Equal words have equal bytes. -/
theorem bytes_of_number : ∀ {n a : Nat}, a + n ≤ top → number top m a n = number top m' a n →
    ∀ x, a ≤ x → x < a + n → m x = m' x := by
  intro n
  induction n with
  | zero => intro a _ _ x _ _; omega
  | succ n ih =>
      intro a ha h x hx hxn
      rw [number, number, Nat.mod_eq_of_lt (by omega)] at h
      have hbyte := (m a).toNat_lt
      have hbyte' := (m' a).toNat_lt
      by_cases hxa : x = a
      · subst hxa
        have heq : (m x).toNat = (m' x).toNat := by omega
        exact UInt8.toNat_inj.mp heq
      · have heq : number top m (a + 1) n = number top m' (a + 1) n := by omega
        exact ih (by omega) heq x (by omega) (by omega)

theorem number_view (ha : base + a + w ≤ top) :
    number top (view base m) a w = number top m (base + a) w := by
  refine number_congr fun i hi => ?_
  rw [Nat.mod_eq_of_lt (by omega), Nat.mod_eq_of_lt (by omega), Nat.add_assoc]
  rfl

theorem editAt_self (e : Edit) (he : e.1 + w ≤ top) :
    number top (editAt top w m e) e.1 w = e.2 (number top m e.1 w) % 256 ^ w :=
  number_store _ he

theorem editAt_outside (e : Edit) (he : e.1 + w ≤ top) {x : Nat} (hx : x < e.1 ∨ e.1 + w ≤ x) :
    editAt top w m e x = m x := by
  refine (store_apply _ he).trans (if_neg ?_)
  omega

theorem editAt_apart (e : Edit) (he : e.1 + w ≤ top) (ha : a + w ≤ top) (h : WordsApart w e.1 a) :
    number top (editAt top w m e) a w = number top m a w := by
  refine number_same ha fun x hx hxw => editAt_outside e he ?_
  unfold WordsApart at h
  omega

/-! ## One edit after the other -/

/-- **Edits of words apart from each other** do what each of them does alone. -/
theorem edited_editAll : ∀ {es : List Edit} (m : Bytes) (size : Nat),
    es.Pairwise (fun e f => WordsApart w e.1 f.1) → (∀ e ∈ es, e.1 + w ≤ top) →
    Edited top w size es m (editAll top w es m) := by
  intro es
  induction es with
  | nil => exact fun _ _ _ _ => ⟨nofun, fun _ _ _ => rfl⟩
  | cons e es ih =>
      intro m size hpairs hin
      obtain ⟨he, hes⟩ := List.forall_mem_cons.mp hin
      obtain ⟨hfirst, hapart⟩ := List.pairwise_cons.mp hpairs
      have hrest := fun size => ih (editAt top w m e) size hapart hes
      refine ⟨fun f hf => ?_, fun x hx hout => ?_⟩
      · rcases List.mem_cons.mp hf with rfl | hf
        · refine (number_same he fun x hx hxw =>
            (hrest (x + 1)).rest x (Nat.lt_succ_self x) fun g hg => ?_).trans
            (editAt_self f he)
          have hg' := hfirst g hg
          unfold WordsApart at hg'
          omega
        · have hword := (hrest size).word f hf
          rwa [editAt_apart e he (hes f hf) (hfirst f hf)] at hword
      · obtain ⟨hxe, hxes⟩ := List.forall_mem_cons.mp hout
        exact ((hrest size).rest x hx hxes).trans (editAt_outside e he hxe)

theorem editAll_append : editAll top w (es ++ es') m = editAll top w es' (editAll top w es m) :=
  List.foldl_append

/-- What the edits leave is determined. -/
theorem Edited.unique (h : Edited top w size es m m') (h' : Edited top w size es m m'')
    (hin : ∀ e ∈ es, e.1 + w ≤ top) {x : Nat} (hx : x < size) : m' x = m'' x := by
  by_cases hout : ∀ e ∈ es, x < e.1 ∨ e.1 + w ≤ x
  · rw [h.rest x hx hout, h'.rest x hx hout]
  · push Not at hout
    obtain ⟨e, he, hxe, hxw⟩ := hout
    have hword : number top m' e.1 w = number top m'' e.1 w := by
      rw [h.word e he, h'.word e he]
    exact bytes_of_number (hin e he) hword x hxe hxw

theorem Edited.congr (h : Edited top w size es m m'') (hin : ∀ e ∈ es, e.1 + w ≤ size)
    (hsize : size ≤ top) (hsame : ∀ x < size, m x = m' x) : Edited top w size es m' m'' where
  word e he := by
    have hine := hin e he
    rw [h.word e he, number_same (m := m') (by omega) fun x _ hx => hsame x (by omega)]
  rest x hx hout := (h.rest x hx hout).trans (hsame x hx)

/-- Edits seen from where the image lies. -/
theorem edited_view (hsize : base + size ≤ top) (hin : ∀ e ∈ es, e.1 + w ≤ size)
    (h : Edited top w top (es.map fun e => (base + e.1, e.2)) m m') :
    Edited top w size es (view base m) (view base m') := by
  refine ⟨fun e he => ?_, fun x hx hout => ?_⟩
  · have hine := hin e he
    rw [number_view (by omega), number_view (by omega)]
    exact h.word _ (List.mem_map.mpr ⟨e, he, rfl⟩)
  · refine h.rest (base + x) (by omega) fun f hf => ?_
    obtain ⟨e, he, rfl⟩ := List.mem_map.mp hf
    have hxe := hout e he
    show base + x < base + e.1 ∨ base + e.1 + w ≤ base + x
    omega

/-! ## Tables -/

theorem Table.congr {last n : Nat} (h : Table top w last m a n)
    (hsame : ∀ b ∈ wordsFrom w a (n + 1), number top m' b w = number top m b w) :
    Table top w last m' a n where
  entry i hi := by
    rw [hsame _ (mem_wordsFrom.mpr ⟨i, by omega, rfl⟩)]
    exact h.entry i hi
  ends := by
    rw [hsame _ (mem_wordsFrom.mpr ⟨n, by omega, rfl⟩)]
    exact h.ends
  fits := h.fits

/-- **A table is gone through to its end**, and to no other word. -/
theorem addUntil_table (v : Nat) {last : Nat} (hw : 0 < w) : ∀ {n fuel a : Nat} {m : Bytes},
    Table top w last m a n → n < fuel →
    addUntil top w v last fuel a m =
      some (editAll top w ((wordsFrom w a n).map fun b => (b, (· + v))) m) := by
  intro n
  induction n with
  | zero =>
      intro fuel a m h hfuel
      obtain ⟨fuel, rfl⟩ := Nat.exists_eq_add_of_lt hfuel
      exact if_pos h.ends
  | succ n ih =>
      intro fuel a m h hfuel
      obtain ⟨fuel, rfl⟩ : ∃ f, fuel = f + 1 := ⟨fuel - 1, by omega⟩
      have hfits := h.fits
      have hfar : w * (n + 1 + 1) = w * n + w + w := by rw [Nat.mul_succ, Nat.mul_succ]
      have hhead := h.entry 0 (by omega)
      rw [Nat.mul_zero, Nat.add_zero] at hhead
      have hnext : Table top w last (editAt top w m (a, (· + v))) (a + w) n := by
        have hplace : ∀ i, a + w + w * i = a + w * (i + 1) := fun i => by
          rw [Nat.mul_succ]
          omega
        have hkept : ∀ i ≤ n, number top (editAt top w m (a, (· + v))) (a + w * (i + 1)) w =
            number top m (a + w * (i + 1)) w := fun i hi => by
          have hle : w * (i + 1) ≤ w * (n + 1) := Nat.mul_le_mul_left w (by omega)
          have hpos : w * 1 ≤ w * (i + 1) := Nat.mul_le_mul_left w (by omega)
          have hsucc : w * (n + 1) = w * n + w := Nat.mul_succ w n
          exact editAt_apart _ (by show a + w ≤ top; omega) (by omega)
            (Or.inl (by show a + w ≤ _; omega))
        refine ⟨fun i hi => ?_, ?_, ?_⟩
        · rw [hplace, hkept i (by omega)]
          exact h.entry (i + 1) (by omega)
        · rw [hplace, hkept n (by omega)]
          exact h.ends
        · rw [hplace]
          exact hfits
      rw [addUntil, if_neg hhead, Nat.mod_eq_of_lt (by omega), ih hnext (by omega), wordsFrom_succ]
      rfl

/-- The words of a table share no byte. -/
theorem apart_wordsFrom (n : Nat) : (wordsFrom w a n).Pairwise (WordsApart w) := by
  unfold wordsFrom
  refine List.pairwise_map.mpr (List.pairwise_lt_range.imp fun {i j} hij => Or.inl ?_)
  have hle : w * (i + 1) ≤ w * j := Nat.mul_le_mul_left w hij
  rw [Nat.mul_succ] at hle
  omega

end

end OSExt.Lib.Bytes
