import Mathlib.Tactic

/-!
# Properly nested sequences and a stack with few slots

Calls that return in the opposite order in which they are made form a forest. Running
one over a state means entering each call, running what it contains, and leaving it.

A caller's data may be kept on a stack with a fixed number of slots that overwrites its
top when it is full. Run from the empty stack, every call then gets its own data back if
no call is nested deeper than there are slots; otherwise what is lost deep inside is
missing at the outermost call at the latest.
-/

namespace OSExt.Lib

/-- A properly nested sequence: a call, the calls it contains, and those after it. -/
inductive Nested (α : Type*) where
  | nil
  | call (a : α) (inner rest : Nested α)

namespace Nested

variable {α β γ σ τ : Type*}

/-- How deep the calls are nested. -/
def depth : Nested α → Nat
  | nil => 0
  | call _ inner rest => max (inner.depth + 1) rest.depth

/-- Every call satisfies `p`. -/
def All (p : α → Prop) : Nested α → Prop
  | nil => True
  | call a inner rest => p a ∧ inner.All p ∧ rest.All p

/-- The state behind the sequence, and what each call saw when it was left, in that order. -/
def run (enter : α → σ → σ) (leave : α → σ → β × σ) : Nested α → σ → σ × List (α × β)
  | nil, s => (s, [])
  | call a inner rest, s =>
    let within := inner.run enter leave (enter a s)
    let left := leave a within.1
    let after := rest.run enter leave left.2
    (after.1, within.2 ++ (a, left.1) :: after.2)

/-! ## Simulation -/

/-- One call of a run and the same call of another one. -/
def Matching (p : α → Prop) (q : α → β → γ → Prop) (x : α × β) (y : α × γ) : Prop :=
  x.1 = y.1 ∧ p x.1 ∧ q x.1 x.2 y.2

/-- **Two runs that stay related see related things**, call by call. -/
theorem run_simulates {enter : α → σ → σ} {leave : α → σ → β × σ} {enter' : α → τ → τ}
    {leave' : α → τ → γ × τ} {R : σ → τ → Prop} {p : α → Prop} {q : α → β → γ → Prop}
    (henter : ∀ a s t, p a → R s t → R (enter a s) (enter' a t))
    (hleave : ∀ a s t, p a → R s t → q a (leave a s).1 (leave' a t).1
      ∧ R (leave a s).2 (leave' a t).2) :
    ∀ (f : Nested α) (s : σ) (t : τ), f.All p → R s t →
      R (f.run enter leave s).1 (f.run enter' leave' t).1
        ∧ List.Forall₂ (Matching p q) (f.run enter leave s).2 (f.run enter' leave' t).2 := by
  intro f
  induction f with
  | nil => exact fun s t _ h => ⟨h, .nil⟩
  | call a inner rest ihInner ihRest =>
      intro s t hp h
      obtain ⟨ha, hinner, hrest⟩ := hp
      obtain ⟨hwithin, hin⟩ := ihInner _ _ hinner (henter a s t ha h)
      obtain ⟨hq, hleft⟩ := hleave a _ _ ha hwithin
      obtain ⟨hafter, hout⟩ := ihRest _ _ hrest hleft
      exact ⟨hafter, List.rel_append hin (.cons ⟨rfl, ha, hq⟩ hout)⟩

/-- What is listed on one side of a relation of lists is related to something on the other. -/
theorem exists_of_forall₂ {R : α → β → Prop} {l : List α} {l' : List β} (h : List.Forall₂ R l l') :
    (∀ x ∈ l, ∃ y ∈ l', R x y) ∧ ∀ y ∈ l', ∃ x ∈ l, R x y := by
  induction h with
  | nil => exact ⟨fun _ hx => absurd hx (by simp), fun _ hy => absurd hy (by simp)⟩
  | @cons a b l l' hab _ ih =>
      constructor
      · intro x hx
        rcases List.mem_cons.mp hx with rfl | hx
        · exact ⟨b, List.mem_cons_self .., hab⟩
        · obtain ⟨y, hy, hxy⟩ := ih.1 x hx
          exact ⟨y, List.mem_cons_of_mem _ hy, hxy⟩
      · intro y hy
        rcases List.mem_cons.mp hy with rfl | hy
        · exact ⟨a, List.mem_cons_self .., hab⟩
        · obtain ⟨x, hx, hxy⟩ := ih.2 y hy
          exact ⟨x, List.mem_cons_of_mem _ hx, hxy⟩

/-! ## A stack with `n` slots -/

/-- The new top goes into a free slot, or over the old top if there is none. -/
def push (n : Nat) (a : α) (s : List α) : List α :=
  if s.length < n then a :: s else a :: s.tail

def pop (_ : α) (s : List α) : Option α × List α := (s.head?, s.tail)

/-- The lowest `m` entries of a stack. -/
def bottom (m : Nat) (s : List α) : List α := s.drop (s.length - m)

theorem bottom_of_le {m : Nat} {s : List α} (h : s.length ≤ m) : bottom m s = s := by
  rw [bottom, Nat.sub_eq_zero_of_le h, List.drop_zero]

theorem length_bottom (m : Nat) (s : List α) : (bottom m s).length = min s.length m := by
  rw [bottom, List.length_drop]
  omega

theorem bottom_bottom (m k : Nat) (s : List α) : bottom m (bottom k s) = bottom (min k m) s := by
  unfold bottom
  rw [List.drop_drop, List.length_drop]
  congr 1
  omega

theorem bottom_cons {m : Nat} {a : α} {s : List α} (h : m ≤ s.length) :
    bottom m (a :: s) = bottom m s := by
  unfold bottom
  rw [List.length_cons, Nat.succ_sub h, List.drop_succ_cons]

theorem tail_bottom {m : Nat} {s : List α} (h : m ≤ s.length) :
    (bottom m s).tail = bottom (m - 1) s := by
  unfold bottom
  rw [List.tail_drop]
  by_cases hm : m = 0
  · subst hm
    rw [List.drop_of_length_le (by omega), List.drop_of_length_le (by omega)]
  · congr 1
    omega

theorem length_push {n : Nat} (hn : 0 < n) (a : α) {s : List α} (h : s.length ≤ n) :
    (push n a s).length ≤ n := by
  unfold push
  split
  · rw [List.length_cons]
    omega
  · rw [List.length_cons, List.length_tail]
    omega

/-- A call over `m` surviving slots leaves one less than those, whatever was on top. -/
theorem tail_bottom_push {n m : Nat} (hm : m ≤ n) (a : α) {s : List α} (h : s.length ≤ n) :
    (bottom m (push n a s)).tail = bottom (m - 1) s := by
  unfold push
  split
  · by_cases hle : m ≤ s.length
    · rw [bottom_cons hle, tail_bottom hle]
    · rw [bottom_of_le (by rw [List.length_cons]; omega), bottom_of_le (by omega), List.tail_cons]
  · cases s with
    | nil =>
        obtain rfl : m = 0 := by
          rw [List.length_nil] at *
          omega
        rfl
    | cons b s =>
        rw [List.length_cons] at *
        rw [List.tail_cons]
        by_cases hle : m ≤ s.length
        · rw [bottom_cons hle, tail_bottom hle, bottom_cons (by omega)]
        · obtain rfl : m = s.length + 1 := by omega
          rw [bottom_of_le (by rw [List.length_cons]), List.tail_cons, Nat.add_sub_cancel,
            bottom_cons (Nat.le_refl _), bottom_of_le (Nat.le_refl _)]

/-- **What survives a nested sequence**: the slots it did not need. -/
theorem run_push_pop {n : Nat} (hn : 0 < n) : ∀ (f : Nested α) (s : List α), s.length ≤ n →
    (f.run (push n) pop s).1 = bottom (n - f.depth) s := by
  intro f
  induction f with
  | nil =>
      intro s hs
      rw [depth, Nat.sub_zero, bottom_of_le hs]
      rfl
  | call a inner rest ihInner ihRest =>
      intro s hs
      have hwithin := ihInner (push n a s) (length_push hn a hs)
      have hleft := tail_bottom_push (Nat.sub_le n inner.depth) a hs
      have hlen : (bottom (n - inner.depth - 1) s).length ≤ n := by
        rw [length_bottom]
        omega
      calc (run (push n) pop (call a inner rest) s).1
          = (rest.run (push n) pop (inner.run (push n) pop (push n a s)).1.tail).1 := rfl
        _ = bottom (n - rest.depth) (bottom (n - inner.depth - 1) s) := by
            rw [hwithin, hleft, ihRest _ hlen]
        _ = bottom (n - (call a inner rest).depth) s := by
            rw [bottom_bottom, depth]
            congr 1
            omega

/-- A call gets its own data back. -/
def Own (x : α × Option α) : Prop := x.2 = some x.1

/-- Calls that find a slot each get their own data back. -/
theorem run_own_of_depth {n : Nat} : ∀ (f : Nested α) (s : List α), s.length + f.depth ≤ n →
    ∀ x ∈ (f.run (push n) pop s).2, Own x := by
  intro f
  induction f with
  | nil => exact fun s _ x hx => absurd hx (by simp [run])
  | call a inner rest ihInner ihRest =>
      intro s hs x hx
      rw [depth] at hs
      have hpush : push n a s = a :: s := if_pos (by omega)
      have hlen : (push n a s).length = s.length + 1 := by rw [hpush, List.length_cons]
      have hwithin : (inner.run (push n) pop (push n a s)).1 = a :: s := by
        rw [run_push_pop (by omega) inner _ (by omega), bottom_of_le (by omega), hpush]
      rcases List.mem_append.mp hx with hin | hx
      · exact ihInner (push n a s) (by omega) x hin
      rw [hwithin] at hx
      rcases List.mem_cons.mp hx with rfl | hout
      · rfl
      · exact ihRest s (by omega) x hout

/-- **Where a call is nested too deep, some call finds nothing left.** -/
theorem depth_le_of_run {n : Nat} (hn : 0 < n) : ∀ f : Nested α,
    (∀ x ∈ (f.run (push n) pop []).2, x.2 ≠ none) → f.depth ≤ n := by
  intro f
  induction f with
  | nil => exact fun _ => Nat.zero_le n
  | call a inner rest _ ihRest =>
      intro hall
      have hpush : push n a [] = [a] := by
        unfold push
        split <;> rfl
      have hwithin : (inner.run (push n) pop (push n a [])).1 = bottom (n - inner.depth) [a] := by
        rw [run_push_pop hn inner _ (length_push hn a (s := []) (Nat.zero_le n)), hpush]
      have hown := hall (a, (inner.run (push n) pop (push n a [])).1.head?)
        (List.mem_append_right _ (List.mem_cons_self ..))
      -- after the outermost call no slot is left in use
      have hleft : (inner.run (push n) pop (push n a [])).1.tail = [] := by
        refine List.length_eq_zero_iff.mp ?_
        rw [hwithin, List.length_tail, length_bottom, List.length_singleton]
        omega
      have hrest : ∀ x ∈ (rest.run (push n) pop []).2, x.2 ≠ none := by
        intro x hx
        refine hall x (List.mem_append_right _ (List.mem_cons_of_mem _ ?_))
        rw [← hleft] at hx
        exact hx
      have hinner : 0 < n - inner.depth := by
        have hne : (bottom (n - inner.depth) [a]) ≠ [] := by
          intro hnil
          rw [hwithin, hnil] at hown
          exact hown rfl
        have hlen := List.length_pos_iff.mpr hne
        rw [length_bottom] at hlen
        omega
      have := ihRest hrest
      rw [depth]
      omega

end Nested

end OSExt.Lib
