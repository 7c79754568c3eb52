import Mathlib.Tactic

/-!
# NULL-terminated lists

A singly linked list is a `next` function, a head and a null value. `IsList`
says which plain list the links spell out. The links that list operations write
are single function updates; what they do to the plain list is a lemma each.
-/

namespace OSExt.Lib

variable {α : Type}

/-- From `head`, the links run through the nodes of `l` and end at `null`. -/
def IsList (next : α → α) (null : α) : α → List α → Prop
  | head, [] => head = null
  | head, a :: l => head = a ∧ a ≠ null ∧ IsList next null (next a) l

namespace IsList

variable {next next' : α → α} {null head : α} {l : List α}

theorem ne_null : ∀ {head : α} {l : List α}, IsList next null head l → ∀ a ∈ l, a ≠ null
  | _, [], _, a, ha => absurd ha (by simp)
  | _, b :: l, h, a, ha => by
      rcases List.mem_cons.mp ha with rfl | ha
      · exact h.2.1
      · exact ne_null h.2.2 a ha

/-- The empty list is the one headed by null. -/
theorem eq_nil_iff (h : IsList next null head l) : l = [] ↔ head = null := by
  cases l with
  | nil => exact iff_of_true rfl h
  | cons a l =>
      obtain ⟨rfl, hne, _⟩ := h
      exact iff_of_false (by simp) hne

/-- Only the links of the nodes on the list matter. -/
theorem congr : ∀ {head : α} {l : List α}, IsList next null head l → (∀ a ∈ l, next' a = next a) →
    IsList next' null head l
  | _, [], h, _ => h
  | _, a :: l, ⟨hhead, hne, hrest⟩, hl => by
      refine ⟨hhead, hne, ?_⟩
      rw [hl a (List.mem_cons_self ..)]
      exact congr hrest fun b hb => hl b (List.mem_cons_of_mem _ hb)

/-- The links spell out one list only. -/
theorem unique : ∀ {head : α} {l l' : List α}, IsList next null head l → IsList next null head l' →
    l = l'
  | _, [], [], _, _ => rfl
  | _, [], b :: l', h, ⟨hb, hne, _⟩ => absurd (hb.symm.trans h) hne
  | _, a :: l, [], ⟨ha, hne, _⟩, h => absurd (ha.symm.trans h) hne
  | _, a :: l, b :: l', ⟨ha, _, hl⟩, ⟨hb, _, hl'⟩ => by
      obtain rfl := ha.symm.trans hb
      rw [unique hl hl']

/-- **Unlinking** the first node: the head takes its link. -/
theorem tail {a : α} (h : IsList next null head (a :: l)) : IsList next null (next a) l := h.2.2

/-- What a node of the list points to. -/
theorem next_of_append {a : α} : ∀ {head : α} {pre post : List α},
    IsList next null head (pre ++ a :: post) → IsList next null (next a) post
  | _, [], _, h => h.2.2
  | _, _ :: _, _, h => next_of_append (List.append_eq .. ▸ h.2.2)

/-- A list that ends has every node once. -/
theorem nodup : ∀ {head : α} {l : List α}, IsList next null head l → l.Nodup
  | _, [], _ => List.nodup_nil
  | _, a :: l, h => by
      refine List.nodup_cons.mpr ⟨fun ha => ?_, nodup h.2.2⟩
      -- behind both places the same list would begin
      obtain ⟨pre, post, rfl⟩ := List.append_of_mem ha
      have hlen := congrArg List.length (unique h.2.2 (next_of_append h.2.2))
      rw [List.length_append, List.length_cons] at hlen
      omega

variable [DecidableEq α]

/-- A link written to a node that is not on the list. -/
theorem update_of_notMem {a b : α} (h : IsList next null head l) (ha : a ∉ l) :
    IsList (Function.update next a b) null head l := by
  refine h.congr fun x hx => Function.update_of_ne ?_ _ _
  intro heq
  subst heq
  exact ha hx

/-- **Pushing** a node in front: its link takes the old head. -/
theorem push {a : α} (h : IsList next null head l) (ha : a ∉ l) (hne : a ≠ null) :
    IsList (Function.update next a head) null a (a :: l) := by
  refine ⟨rfl, hne, ?_⟩
  rw [Function.update_self]
  exact h.update_of_notMem ha

/-- **Unlinking** a later node `b`: the node `a` before it takes its link. -/
theorem unlink {a b : α} : ∀ {head : α} {pre post : List α},
    IsList next null head (pre ++ a :: b :: post) → (pre ++ a :: b :: post).Nodup →
    IsList (Function.update next a (next b)) null head (pre ++ a :: post)
  | _, [], post, ⟨hhead, hne, _, _, hpost⟩, hnd => by
      have ha : a ∉ post := fun ha => (List.nodup_cons.mp hnd).1 (List.mem_cons_of_mem _ ha)
      refine ⟨hhead, hne, ?_⟩
      rw [Function.update_self]
      exact hpost.update_of_notMem ha
  | _, c :: pre, post, ⟨hhead, hne, hrest⟩, hnd => by
      have hca : c ≠ a := by
        intro heq
        subst heq
        exact (List.nodup_cons.mp hnd).1 (by simp)
      refine ⟨hhead, hne, ?_⟩
      rw [Function.update_of_ne hca]
      exact unlink hrest (List.nodup_cons.mp hnd).2

/-- **Linking** a node behind the last one. -/
theorem link {a b : α} : ∀ {head : α} {pre : List α}, IsList next null head (pre ++ [b]) →
    (pre ++ [b]).Nodup → a ∉ pre ++ [b] → a ≠ null → next a = null →
    IsList (Function.update next b a) null head (pre ++ [b] ++ [a])
  | _, [], ⟨hhead, hne, _⟩, _, ha, hnull, hnext => by
      refine ⟨hhead, hne, ?_⟩
      rw [Function.update_self]
      refine ⟨rfl, hnull, ?_⟩
      rw [Function.update_of_ne fun h => ha (by simp [h])]
      exact hnext
  | _, c :: pre, ⟨hhead, hne, hrest⟩, hnd, ha, hnull, hnext => by
      have hcb : c ≠ b := by
        intro heq
        subst heq
        exact (List.nodup_cons.mp hnd).1 (by simp)
      refine ⟨hhead, hne, ?_⟩
      rw [Function.update_of_ne hcb]
      exact link hrest (List.nodup_cons.mp hnd).2 (fun hm => ha (List.mem_cons_of_mem c hm)) hnull
        hnext

end IsList

/-- `while (next[a] != null) a = next[a];` -/
def lastNode [DecidableEq α] (next : α → α) (null : α) : Nat → α → Option α
  | 0, _ => none
  | fuel + 1, a => if next a ≠ null then lastNode next null fuel (next a) else some a

theorem IsList.lastNode_eq [DecidableEq α] {next : α → α} {null b : α} :
    ∀ {fuel : Nat} {head : α} {pre : List α}, IsList next null head (pre ++ [b]) →
      pre.length < fuel → lastNode next null fuel head = some b
  | 0, _, _, _, h => absurd h (Nat.not_lt_zero _)
  | fuel + 1, _, [], ⟨hhead, _, hend⟩, _ => by
      rw [lastNode, hhead, if_neg fun h => h hend]
  | fuel + 1, _, c :: pre, ⟨hhead, _, hrest⟩, h => by
      have hlen : pre.length < fuel := Nat.lt_of_succ_lt_succ h
      have hne : next c ≠ null := by
        intro hnull
        exact absurd (hrest.eq_nil_iff.mpr hnull) (by simp)
      rw [lastNode, hhead, if_pos hne, lastNode_eq hrest hlen]

/-- `a` is on the list headed by `head`. -/
inductive Linked (next : α → α) (null a : α) : α → Prop where
  | here : a ≠ null → Linked next null a a
  | later {head : α} : head ≠ null → Linked next null a (next head) → Linked next null a head

/-- So is what `n` links lead to, if they do not end before. -/
theorem linked_iterate {next : α → α} {null : α} : ∀ {n : Nat} {head : α},
    (∀ i ≤ n, next^[i] head ≠ null) → Linked next null (next^[n] head) head
  | 0, _, h => .here (h 0 (Nat.le_refl 0))
  | _ + 1, _, h => .later (h 0 (Nat.zero_le _))
      (linked_iterate fun i hi => h (i + 1) (Nat.succ_le_succ hi))

/-- The nodes one meets along the links are those of the list. -/
theorem linked_iff {next : α → α} {null a : α} : ∀ {head : α} {l : List α},
    IsList next null head l → (Linked next null a head ↔ a ∈ l)
  | _, [], h => by
      constructor
      · intro hl
        cases hl with
        | here hne => exact absurd h hne
        | later hne _ => exact absurd h hne
      · exact fun hl => absurd hl (by simp)
  | _, b :: l, ⟨hhead, hne, hrest⟩ => by
      subst hhead
      rw [List.mem_cons, ← linked_iff hrest]
      constructor
      · intro hl
        cases hl with
        | here _ => exact .inl rfl
        | later _ hl => exact .inr hl
      · intro hor
        rcases hor with rfl | hl
        · exact .here hne
        · exact .later hne hl

end OSExt.Lib
