import Mathlib.Tactic

/-!
# Lists kept in a table

A table and a count hold a list: the entries below the count. Writing the entry at the
count appends, and moving every later entry one place down erases. A search goes from
place to place until a round gives an answer.
-/

namespace OSExt.Lib

variable {α : Type}

/-- The first `n` entries. -/
def entries (t : Nat → α) (n : Nat) : List α := (List.range n).map t

/-- `for (a = i; a < n; a++) t[a] = t[a + 1];` -/
def shiftDown (t : Nat → α) (i n : Nat) : Nat → α :=
  (List.range' i (n - i)).foldl (fun t a => Function.update t a (t (a + 1))) t

section

variable {t t' : Nat → α} {n i j : Nat} {a : α}

@[simp] theorem length_entries : (entries t n).length = n := by
  rw [entries, List.length_map, List.length_range]

@[simp] theorem getElem_entries (h : i < (entries t n).length) : (entries t n)[i] = t i := by
  simp [entries]

theorem entries_succ (t : Nat → α) (n : Nat) : entries t (n + 1) = entries t n ++ [t n] := by
  rw [entries, List.range_succ, List.map_append]
  rfl

theorem mem_entries : a ∈ entries t n ↔ ∃ i < n, t i = a := by
  simp [entries]

/-- Only the entries below the count matter. -/
theorem entries_congr (h : ∀ i < n, t' i = t i) : entries t' n = entries t n :=
  List.map_congr_left fun i hi => h i (List.mem_range.mp hi)

/-- **Writing the entry at the count** appends. -/
theorem entries_push (t : Nat → α) (n : Nat) (a : α) :
    entries (Function.update t n a) (n + 1) = entries t n ++ [a] := by
  rw [entries_succ, Function.update_self]
  congr 1
  exact entries_congr fun i hi => Function.update_of_ne (Nat.ne_of_lt hi) a t

/-! ## Moving entries down -/

/-- A loop over `k` places from `i` reads each entry before it writes it. -/
theorem foldl_shift : ∀ (k i : Nat) (t : Nat → α) (j : Nat),
    ((List.range' i k).foldl (fun t a => Function.update t a (t (a + 1))) t) j
      = if i ≤ j ∧ j < i + k then t (j + 1) else t j
  | 0, i, t, j => by
      rw [if_neg (by omega)]
      rfl
  | k + 1, i, t, j => by
      rw [List.range'_succ, List.foldl_cons, foldl_shift k (i + 1)]
      -- the entry at `i` is written first, and is below the places of the rest of the loop
      rcases Nat.lt_trichotomy j i with hlt | heq | hgt
      · rw [if_neg (by omega), if_neg (by omega), Function.update_of_ne (by omega)]
      · subst heq
        rw [if_neg (by omega), if_pos (by omega), Function.update_self]
      · by_cases hk : j < i + 1 + k
        · rw [if_pos (by omega), if_pos (by omega), Function.update_of_ne (by omega)]
        · rw [if_neg (by omega), if_neg (by omega), Function.update_of_ne (by omega)]

theorem shiftDown_apply (t : Nat → α) (i n j : Nat) :
    shiftDown t i n j = if i ≤ j ∧ j < n then t (j + 1) else t j := by
  rw [shiftDown, foldl_shift]
  by_cases h : i ≤ j ∧ j < n
  · rw [if_pos (by omega), if_pos h]
  · rw [if_neg (by omega), if_neg h]

/-- **Moving down** over the entry at `i` erases it. -/
theorem entries_shiftDown (h : i ≤ n) :
    entries (shiftDown t i n) n = (entries t (n + 1)).eraseIdx i := by
  apply List.ext_getElem
  · rw [List.length_eraseIdx_of_lt (by simpa using Nat.lt_succ_of_le h)]
    simp
  · intro j hj hj'
    rw [length_entries] at hj
    rw [getElem_entries, List.getElem_eraseIdx, shiftDown_apply]
    by_cases hij : j < i
    · rw [if_neg (by omega), dif_pos hij, getElem_entries]
    · rw [if_pos (by omega), dif_neg hij, getElem_entries]

end

/-! ## Looking an entry up -/

/-- `for (i = 0; i < n; i++) if (t[i] == a) ...`: the first place that holds `a`. -/
def findEntry [DecidableEq α] (t : Nat → α) (n : Nat) (a : α) : Option Nat :=
  (List.range n).find? fun i => t i = a

section

variable [DecidableEq α] {t : Nat → α} {n i : Nat} {a : α}

theorem findEntry_eq_none : findEntry t n a = none ↔ a ∉ entries t n := by
  rw [findEntry, List.find?_eq_none, mem_entries]
  simp

theorem findEntry_eq_some (h : findEntry t n a = some i) :
    i < n ∧ t i = a ∧ ∀ j < i, t j ≠ a := by
  rw [findEntry, List.find?_range_eq_some] at h
  obtain ⟨hi, hmem, hbefore⟩ := h
  refine ⟨List.mem_range.mp hmem, of_decide_eq_true hi, ?_⟩
  intro j hj heq
  have := hbefore j hj
  simp [heq] at this

/-- The place found is that of the first occurrence. -/
theorem idxOf_entries (h : findEntry t n a = some i) : (entries t n).idxOf a = i := by
  obtain ⟨hi, heq, hbefore⟩ := findEntry_eq_some h
  have hmem : a ∈ entries t n := mem_entries.mpr ⟨i, hi, heq⟩
  have hlt := List.idxOf_lt_length_of_mem hmem
  have hat : t ((entries t n).idxOf a) = a := by
    rw [← getElem_entries hlt]
    exact List.getElem_idxOf hlt
  rcases Nat.lt_trichotomy ((entries t n).idxOf a) i with hlt' | heq' | hgt
  · exact absurd hat (hbefore _ hlt')
  · exact heq'
  · have hne := List.not_of_lt_findIdx hgt
    rw [getElem_entries] at hne
    simp [heq] at hne

/-- Erasing at the place found erases the first occurrence. -/
theorem eraseIdx_entries (h : findEntry t n a = some i) :
    (entries t n).eraseIdx i = (entries t n).erase a := by
  rw [List.erase_eq_eraseIdx_of_idxOf (idxOf_entries h)]

end

/-! ## Writing through an index -/

/-- A loop that writes one entry in each round. -/
def writeEach {ι : Type} (place : ι → Nat) (value : ι → α) (rounds : List ι) (t : Nat → α) :
    Nat → α :=
  rounds.foldl (fun t i => Function.update t (place i) (value i)) t

section

variable {ι : Type} {place : ι → Nat} {value : ι → α} {i : ι}

/-- An entry that no round writes stays. -/
theorem writeEach_of_ne {k : Nat} : ∀ {rounds : List ι} {t : Nat → α},
    (∀ i ∈ rounds, place i ≠ k) → writeEach place value rounds t k = t k
  | [], _, _ => rfl
  | i :: rounds, t, h => by
      have hfirst : Function.update t (place i) (value i) k = t k :=
        Function.update_of_ne (fun he => h i (List.mem_cons_self ..) he.symm) _ _
      show writeEach place value rounds (Function.update t (place i) (value i)) k = t k
      rw [writeEach_of_ne fun j hj => h j (List.mem_cons_of_mem _ hj), hfirst]

/-- **Writing to places of their own** leaves each round's value. -/
theorem writeEach_of_mem : ∀ {rounds : List ι} {t : Nat → α}, i ∈ rounds →
    (∀ j ∈ rounds, place j = place i → j = i) →
    writeEach place value rounds t (place i) = value i
  | [], _, hi, _ => absurd hi List.not_mem_nil
  | j :: rounds, t, hi, hown => by
      show writeEach place value rounds (Function.update t (place j) (value j)) (place i) = value i
      have hown' : ∀ j ∈ rounds, place j = place i → j = i :=
        fun j' hj' => hown j' (List.mem_cons_of_mem _ hj')
      by_cases hlater : i ∈ rounds
      · exact writeEach_of_mem hlater hown'
      · -- this round is the last one that writes there
        have hij : i = j := (List.mem_cons.mp hi).resolve_right hlater
        subst hij
        rw [writeEach_of_ne fun j' hj' he => hlater (hown' j' hj' he ▸ hj'), Function.update_self]

/-- A loop in a loop is a loop over the pairs. -/
theorem writeEach_nested {κ : Type} (place : ι → κ → Nat) (value : ι → κ → α) (inner : List κ) :
    ∀ (outer : List ι) (t : Nat → α),
      outer.foldl (fun t i => writeEach (place i) (value i) inner t) t
        = writeEach (fun p : ι × κ => place p.1 p.2) (fun p => value p.1 p.2)
          (outer.product inner) t
  | [], _ => rfl
  | i :: outer, t => by
      have hpairs : (i :: outer).product inner
          = inner.map (fun x => (i, x)) ++ outer.product inner := List.product_cons ..
      rw [List.foldl_cons, writeEach_nested place value inner outer, hpairs]
      unfold writeEach
      rw [List.foldl_append, List.foldl_map]

end

/-! ## Searches -/

/-- The first of `count` numbers with a property. -/
structure FirstOf (P : Nat → Prop) (count j : Nat) : Prop where
  lt : j < count
  holds : P j
  first : ∀ i < j, ¬ P i

theorem FirstOf.unique {P : Nat → Prop} {count i j : Nat} (hi : FirstOf P count i)
    (hj : FirstOf P count j) : i = j := by
  rcases Nat.lt_trichotomy i j with hlt | heq | hlt
  · exact absurd hi.holds (hj.first i hlt)
  · exact heq
  · exact absurd hj.holds (hi.first j hlt)

theorem exists_firstOf {P : Nat → Prop} {count j : Nat} (hj : j < count) (hP : P j) :
    ∃ i, FirstOf P count i := by
  classical
  have hex : ∃ i, P i := ⟨j, hP⟩
  have hle := Nat.find_min' hex hP
  exact ⟨Nat.find hex, by omega, Nat.find_spec hex, fun i hi => Nat.find_min hex hi⟩

section

variable {σ β : Type} (f : Nat → σ → β) (place : Nat → σ)

/-- Rounds that go on to the next place. -/
theorem search_skip : ∀ (i n : Nat), (∀ j < i, ∀ n, f (n + 1) (place j) = f n (place (j + 1))) →
    f (n + i) (place 0) = f n (place i)
  | 0, _, _ => rfl
  | i + 1, n, h => by
      have hbefore := search_skip i (n + 1) fun j hj => h j (Nat.lt_succ_of_lt hj)
      rw [show n + (i + 1) = n + 1 + i by omega, hbefore]
      exact h i (Nat.lt_succ_self i) n

/-- **A search ends** at the first place where a round gives an answer. -/
theorem search_found {count i : Nat} {b : β} (hi : i < count)
    (hskip : ∀ j < i, ∀ n, f (n + 1) (place j) = f n (place (j + 1)))
    (hfound : ∀ n, f (n + 1) (place i) = b) : f count (place 0) = b := by
  obtain ⟨n, rfl⟩ : ∃ n, count = n + 1 + i := ⟨count - i - 1, by omega⟩
  rw [search_skip f place i (n + 1) hskip]
  exact hfound n

end

end OSExt.Lib
