import Mathlib.Tactic

/-!
# Two-level tables

A directory sends a first index to a value of its own or to a table, and a table
has an entry for every second index. Several first indices may share a table, so
writing an entry changes the lookups of all of them; a table that one index owns
is written without touching any other lookup.
-/

namespace OSExt.Lib

/-- A directory over `ι`, with tables named by `β` and entries over `κ`. -/
structure TwoLevel (ι β κ δ ε : Type) where
  dir : ι → δ ⊕ β
  mem : β → κ → ε

namespace TwoLevel

variable {ι β κ δ ε : Type} {T : TwoLevel ι β κ δ ε} {i i' : ι} {b b' : β}

/-- What the directory says, or the entry of the table it names. -/
def lookup (T : TwoLevel ι β κ δ ε) (i : ι) (j : κ) : δ ⊕ ε := (T.dir i).map id fun b => T.mem b j

/-- No directory entry names the table. -/
def Fresh (T : TwoLevel ι β κ δ ε) (b : β) : Prop := ∀ i, T.dir i ≠ .inr b

/-- No directory entry but one may name the table. -/
def Only (T : TwoLevel ι β κ δ ε) (i : ι) (b : β) : Prop := ∀ i', T.dir i' = .inr b → i' = i

/-- One directory entry names the table. -/
structure Owned (T : TwoLevel ι β κ δ ε) (i : ι) (b : β) : Prop where
  dir : T.dir i = .inr b
  only : T.Only i b

theorem lookup_of_dir (h : T.dir i = .inr b) (j : κ) : T.lookup i j = .inr (T.mem b j) := by
  unfold lookup
  rw [h]
  rfl

theorem Fresh.only (h : T.Fresh b) (i : ι) : T.Only i b := fun i' hd => absurd hd (h i')

/-- Who names a table is a matter of the directory. -/
theorem Only.congr {T' : TwoLevel ι β κ δ ε} (h : T.Only i b) (hdir : T'.dir = T.dir) :
    T'.Only i b := by
  intro i' hd
  rw [hdir] at hd
  exact h i' hd

theorem Fresh.congr {T' : TwoLevel ι β κ δ ε} (h : T.Fresh b) (hdir : T'.dir = T.dir) :
    T'.Fresh b := by
  intro i hd
  rw [hdir] at hd
  exact h i hd

/-! ## Writing tables -/

section

variable [DecidableEq β]

/-- Writes a whole table. -/
def fill (T : TwoLevel ι β κ δ ε) (b : β) (f : κ → ε) : TwoLevel ι β κ δ ε :=
  { T with mem := Function.update T.mem b f }

/-- What is read through another table is not changed by `fill`. -/
theorem lookup_fill_of_dir (f : κ → ε) (j : κ) (h : T.dir i ≠ .inr b) :
    (T.fill b f).lookup i j = T.lookup i j := by
  unfold lookup fill
  rcases hd : T.dir i with d | b'
  · rfl
  · have hne : b' ≠ b := by
      intro heq
      subst heq
      exact h hd
    simp [hne]

/-- **A table that no index names** is written unseen. -/
theorem lookup_fill_fresh (h : T.Fresh b) (f : κ → ε) : (T.fill b f).lookup = T.lookup := by
  funext i j
  exact lookup_fill_of_dir f j (h i)

theorem fill_fill (f f' : κ → ε) : (T.fill b f).fill b f' = T.fill b f' := by
  simp [fill]

variable [DecidableEq κ]

/-- Writes one entry of a table. -/
def write (T : TwoLevel ι β κ δ ε) (b : β) (j : κ) (e : ε) : TwoLevel ι β κ δ ε :=
  T.fill b (Function.update (T.mem b) j e)

theorem mem_write (b b' : β) (j j' : κ) (e : ε) :
    (T.write b j e).mem b' j' = if b' = b ∧ j' = j then e else T.mem b' j' := by
  unfold write fill
  by_cases hb : b' = b
  · subst hb
    by_cases hj : j' = j
    · simp [hj]
    · simp [hj]
  · simp [hb]

theorem write_fill (f : κ → ε) (j : κ) (e : ε) :
    (T.fill b f).write b j e = T.fill b (Function.update f j e) := by
  have hmem : (T.fill b f).mem b = f := by simp [fill]
  rw [write, hmem, fill_fill]

variable [DecidableEq ι]

/-- **An owned table**: a write shows at one pair of indices. -/
theorem lookup_write_owned (h : T.Owned i b) (i' : ι) (j j' : κ) (e : ε) :
    (T.write b j e).lookup i' j' = if i' = i ∧ j' = j then .inr e else T.lookup i' j' := by
  by_cases hi : i' = i
  · subst hi
    have hdir : (T.write b j e).dir i' = .inr b := h.dir
    rw [lookup_of_dir hdir, lookup_of_dir h.dir, mem_write]
    by_cases hj : j' = j
    · simp [hj]
    · simp [hj]
  · rw [if_neg (fun hc => hi hc.1)]
    exact lookup_fill_of_dir _ _ fun hd => hi (h.only i' hd)

end

/-! ## Writing the directory -/

section

variable [DecidableEq ι]

/-- Points a directory entry to a table. -/
def attach (T : TwoLevel ι β κ δ ε) (i : ι) (b : β) : TwoLevel ι β κ δ ε :=
  { T with dir := Function.update T.dir i (.inr b) }

theorem dir_attach (i i' : ι) (b : β) :
    (T.attach i b).dir i' = if i' = i then .inr b else T.dir i' := by
  unfold attach
  by_cases hi : i' = i
  · simp [hi]
  · simp [hi]

theorem lookup_attach (i i' : ι) (b : β) (j : κ) :
    (T.attach i b).lookup i' j = if i' = i then .inr (T.mem b j) else T.lookup i' j := by
  unfold lookup
  rw [dir_attach]
  by_cases hi : i' = i
  · rw [if_pos hi, if_pos hi]
    rfl
  · rw [if_neg hi, if_neg hi]
    rfl

theorem Only.owned_attach (h : T.Only i b) : (T.attach i b).Owned i b where
  dir := by rw [dir_attach, if_pos rfl]
  only i' hd := by
    rw [dir_attach] at hd
    by_contra hne
    rw [if_neg hne] at hd
    exact hne (h i' hd)

/-- Another table is put in the directory. -/
theorem Only.attach (h : T.Only i b) (hb : b' ≠ b) (i' : ι) : (T.attach i' b').Only i b := by
  intro i0 hd
  rw [dir_attach] at hd
  by_cases h0 : i0 = i'
  · rw [if_pos h0] at hd
    exact absurd (Sum.inr.inj hd) hb
  · rw [if_neg h0] at hd
    exact h i0 hd

theorem Fresh.attach (h : T.Fresh b) (hb : b' ≠ b) (i : ι) : (T.attach i b').Fresh b := by
  intro i0 hd
  rw [dir_attach] at hd
  by_cases h0 : i0 = i
  · rw [if_pos h0] at hd
    exact hb (Sum.inr.inj hd)
  · rw [if_neg h0] at hd
    exact h i0 hd

variable [DecidableEq β]

/-- **A new table put in the directory** shows under one first index, and its entries are
what was written into it. -/
theorem lookup_attach_fill (h : T.Only i b) (i' : ι) (f : κ → ε) (j : κ) :
    ((T.fill b f).attach i b).lookup i' j = if i' = i then .inr (f j) else T.lookup i' j := by
  rw [lookup_attach]
  by_cases hi : i' = i
  · simp [hi, fill]
  · rw [if_neg hi, if_neg hi]
    exact lookup_fill_of_dir f j fun hd => hi (h i' hd)

end

end TwoLevel

end OSExt.Lib
