import Mathlib.Tactic

/-!
# Walking a circular list

A circular singly linked list is a `next` function and a node. The two loops one
writes over it are `do … while (cur != stop)` and `while (cur != stop)`; each may
leave early with a result. Over a ring both are scans of the plain list of its
nodes, as long as the loop body leaves the links alone, and any fuel that covers
the length of the ring is enough.
-/

namespace OSExt.Lib

variable {α σ ρ : Type} [DecidableEq α]

/-- `l` lists the nodes of the ring through `a`, starting with `a`, each once. -/
structure IsRing (next : α → α) (a : α) (l : List α) : Prop where
  /-- The list starts at `a`. -/
  head : l.head? = some a
  /-- Each node points to the one after it. -/
  links : l.IsChain (fun x y => next x = y)
  /-- The last node points back to `a`. -/
  closed : ∀ z ∈ l.getLast?, next z = a
  /-- No node occurs twice. -/
  nodup : l.Nodup

omit [DecidableEq α] in
/-- A ring can be listed from any of its nodes. -/
theorem IsRing.rotate {next : α → α} {a b : α} {l : List α} (h : IsRing next a l) (hb : b ∈ l) :
    ∃ l', IsRing next b l' ∧ l'.Perm l := by
  obtain ⟨l₁, l₂, rfl⟩ := List.append_of_mem hb
  have hperm : (b :: l₂ ++ l₁).Perm (l₁ ++ b :: l₂) := List.perm_append_comm
  obtain ⟨hl₁, hl₂, hjoin⟩ := List.isChain_append.mp h.links
  have hlast : ∀ z ∈ (b :: l₂).getLast?, next z = a := by
    intro z hz
    refine h.closed z ?_
    rw [List.getLast?_append, Option.mem_def.mp hz]
    rfl
  refine ⟨b :: l₂ ++ l₁, ⟨rfl, List.isChain_append.mpr ⟨hl₂, hl₁, ?_⟩, ?_, ?_⟩, hperm⟩
  · -- the old end now points to the old start
    intro x hx y hy
    have hhead := h.head
    rw [List.head?_append, Option.mem_def.mp hy] at hhead
    rw [hlast x hx]
    exact (Option.some.inj hhead).symm
  · intro z hz
    cases hl : l₁.getLast? with
    | none =>
        obtain rfl := List.getLast?_eq_none_iff.mp hl
        rw [hlast z (by simpa using hz)]
        exact (by simpa using h.head : b = a).symm
    | some y =>
        rw [List.getLast?_append, hl] at hz
        obtain rfl : y = z := by simpa using hz
        exact hjoin y hl b rfl
  · exact hperm.nodup_iff.mpr h.nodup

omit [DecidableEq α] in
theorem IsRing.congr {next next' : α → α} {a : α} {l : List α} (h : IsRing next a l)
    (heq : ∀ x ∈ l, next' x = next x) : IsRing next' a l := by
  refine ⟨h.head, ?_, fun z hz => ?_, h.nodup⟩
  · refine h.links.imp_of_mem_imp fun x y hx _ hxy => ?_
    rw [heq x hx]
    exact hxy
  · rw [heq z (List.mem_of_mem_getLast? hz)]
    exact h.closed z hz

omit [DecidableEq α] in
theorem IsRing.eq_cons {next : α → α} {a : α} {l : List α} (h : IsRing next a l) :
    l = a :: l.tail := by
  cases l with
  | nil => exact absurd h.head (by simp)
  | cons x l => rw [show x = a from by simpa using h.head, List.tail_cons]

omit [DecidableEq α] in
/-- A node's place in the ring: it points to the next node of the list, or is the last
one and points to the first. -/
theorem IsRing.next_cases {next : α → α} {a x : α} {l : List α} (h : IsRing next a l)
    (hx : x ∈ l) :
    (∃ l₁ y l₂, l = l₁ ++ x :: y :: l₂ ∧ next x = y) ∨ (∃ l₁, l = l₁ ++ [x] ∧ next x = a) := by
  obtain ⟨l₁, l₂, rfl⟩ := List.append_of_mem hx
  cases l₂ with
  | nil => exact .inr ⟨l₁, rfl, h.closed x (by simp)⟩
  | cons y l₂ =>
      have hlinks := (List.isChain_append.mp h.links).2.1
      exact .inl ⟨l₁, y, l₂, rfl, (List.isChain_cons_cons.mp hlinks).1⟩

omit [DecidableEq α] in
theorem IsRing.next_mem {next : α → α} {a x : α} {l : List α} (h : IsRing next a l)
    (hx : x ∈ l) : next x ∈ l := by
  rcases h.next_cases hx with ⟨l₁, y, l₂, hl, hy⟩ | ⟨_, _, ha⟩
  · rw [hl, hy]
    simp
  · rw [ha]
    exact List.mem_of_mem_head? h.head

omit [DecidableEq α] in
/-- A set that holds the first node and each next one holds the ring. -/
theorem IsRing.mem_of_closed {next : α → α} {a : α} {l : List α} (h : IsRing next a l)
    {S : α → Prop} (ha : S a) (hS : ∀ x, S x → S (next x)) : ∀ x ∈ l, S x := by
  have hchain : ∀ (l : List α) (x : α), (x :: l).IsChain (fun x y => next x = y) → S x →
      ∀ y ∈ x :: l, S y := by
    intro l
    induction l with
    | nil =>
        intro x _ hx y hy
        rw [List.mem_singleton.mp hy]
        exact hx
    | cons z l ih =>
        intro x hl hx y hy
        obtain ⟨hz, hl'⟩ := List.isChain_cons_cons.mp hl
        rcases List.mem_cons.mp hy with rfl | hy
        · exact hx
        · exact ih z hl' (hz ▸ hS x hx) y hy
  have hl := h.links
  rw [h.eq_cons] at hl ⊢
  exact hchain _ _ hl ha

omit [DecidableEq α] in
/-- The nodes of a ring are determined by where it is entered. -/
theorem IsRing.mem_unique {next : α → α} {a : α} {l l' : List α} (h : IsRing next a l)
    (h' : IsRing next a l') : ∀ x ∈ l, x ∈ l' :=
  h.mem_of_closed (List.mem_of_mem_head? h'.head) fun _ hx => h'.next_mem hx

/-- **Insertion**: a new node right behind the first one. -/
theorem IsRing.insert {next : α → α} {a t : α} {l : List α} (h : IsRing next a l) (ht : t ∉ l) :
    IsRing (Function.update (Function.update next t (next a)) a t) a (a :: t :: l.tail) := by
  have ha : a ∈ l := List.mem_of_mem_head? h.head
  have hat : t ≠ a := fun he => ht (he ▸ ha)
  obtain ⟨rest, hl⟩ : ∃ rest, l = a :: rest := ⟨_, h.eq_cons⟩
  subst hl
  have hnd := List.nodup_cons.mp h.nodup
  have hrest : ∀ x ∈ rest, x ≠ a ∧ x ≠ t := by
    intro x hx
    exact ⟨fun he => hnd.1 (he ▸ hx), fun he => ht (he ▸ List.mem_cons_of_mem _ hx)⟩
  have hupd : ∀ x ∈ rest, Function.update (Function.update next t (next a)) a t x = next x := by
    intro x hx
    rw [Function.update_of_ne (hrest x hx).1, Function.update_of_ne (hrest x hx).2]
  have htn : Function.update (Function.update next t (next a)) a t t = next a := by
    rw [Function.update_of_ne hat, Function.update_self]
  have han : Function.update (Function.update next t (next a)) a t a = t := Function.update_self ..
  rw [List.tail_cons]
  refine ⟨rfl, ?_, ?_, ?_⟩
  · -- from `a` to `t`, from there to what came behind `a`, and on as before
    refine List.isChain_cons_cons.mpr ⟨han, ?_⟩
    cases rest with
    | nil => exact List.isChain_singleton _
    | cons y rest =>
        obtain ⟨hy, hchain⟩ := List.isChain_cons_cons.mp h.links
        refine List.isChain_cons_cons.mpr ⟨htn.trans hy, hchain.imp_of_mem_imp ?_⟩
        intro x z hx _ hxz
        rw [hupd x hx]
        exact hxz
  · -- the last one still leads back to `a`
    intro z hz
    cases rest with
    | nil =>
        obtain rfl : t = z := by simpa using hz
        rw [htn]
        exact h.closed a (by simp)
    | cons y rest =>
        rw [List.getLast?_cons_cons, List.getLast?_cons_cons] at hz
        rw [hupd z (List.mem_of_mem_getLast? hz)]
        exact h.closed z (by rw [List.getLast?_cons_cons]; exact hz)
  · refine List.nodup_cons.mpr ⟨?_, List.nodup_cons.mpr ⟨?_, hnd.2⟩⟩
    · intro hmem
      rcases List.mem_cons.mp hmem with he | hmem
      · exact hat he.symm
      · exact hnd.1 hmem
    · exact fun hmem => ht (List.mem_cons_of_mem _ hmem)

/-- **Removal**: the node `x` points to is taken out, unless it is the first one. -/
theorem IsRing.unlink {next : α → α} {a x : α} {l : List α} (h : IsRing next a l) (hx : x ∈ l)
    (hne : next x ≠ a) : IsRing (Function.update next x (next (next x))) a (l.erase (next x)) := by
  -- `x` is not the last one, so the element behind it is in the list
  obtain ⟨l₁, t, l₂, rfl, rfl⟩ : ∃ l₁ t l₂, l = l₁ ++ x :: t :: l₂ ∧ next x = t := by
    rcases h.next_cases hx with hmid | ⟨_, _, ha⟩
    · exact hmid
    · exact absurd ha hne
  have hnd := h.nodup
  have hsplit : l₁ ++ x :: next x :: l₂ = (l₁ ++ [x]) ++ next x :: l₂ := by simp
  have hx₂ : x ∉ next x :: l₂ := (List.nodup_cons.mp (List.nodup_append.mp hnd).2.1).1
  have ht : next x ∉ l₁ ++ [x] := by
    rw [hsplit] at hnd
    intro hmem
    exact (List.nodup_append.mp hnd).2.2 _ hmem _ (List.mem_cons_self ..) rfl
  have hx₁ : x ∉ l₁ := fun hmem =>
    (List.nodup_append.mp hnd).2.2 _ hmem _ (List.mem_cons_self ..) rfl
  have herase : (l₁ ++ x :: next x :: l₂).erase (next x) = l₁ ++ x :: l₂ := by
    rw [hsplit, List.erase_append_right _ ht, List.erase_cons_head]
    simp
  have hupd : ∀ y, y ≠ x → Function.update next x (next (next x)) y = next y :=
    fun y hy => Function.update_of_ne hy _ _
  have hself : Function.update next x (next (next x)) x = next (next x) := Function.update_self ..
  have hmem₂ : ∀ y ∈ l₂, y ≠ x := fun y hy he => hx₂ (List.mem_cons_of_mem _ (he ▸ hy))
  rw [herase]
  obtain ⟨hc₁, hc₂, hjoin⟩ := List.isChain_append.mp h.links
  have hc₃ := (List.isChain_cons_cons.mp hc₂).2
  refine ⟨?_, List.isChain_append.mpr ⟨?_, ?_, ?_⟩, ?_, ?_⟩
  · have hhead := h.head
    rw [List.head?_append] at hhead ⊢
    exact hhead
  · -- in front of `x` no link changes
    refine hc₁.imp_of_mem_imp fun y z hy _ hyz => ?_
    rw [hupd y (fun he => hx₁ (he ▸ hy))]
    exact hyz
  · cases l₂ with
    | nil => exact List.isChain_singleton _
    | cons z l₂ =>
        obtain ⟨hz, hc₄⟩ := List.isChain_cons_cons.mp hc₃
        refine List.isChain_cons_cons.mpr ⟨hself.trans hz, hc₄.imp_of_mem_imp ?_⟩
        intro y w hy _ hyw
        rw [hupd y (hmem₂ y hy)]
        exact hyw
  · intro y hy z hz
    obtain rfl : x = z := by simpa using hz
    rw [hupd y (fun he => hx₁ (he ▸ List.mem_of_mem_getLast? hy))]
    exact hjoin y hy x rfl
  · intro z hz
    cases l₂ with
    | nil =>
        obtain rfl : x = z := by simpa using hz
        rw [hself]
        exact h.closed (next x) (by simp)
    | cons y l₂ =>
        have hz' : z ∈ (y :: l₂).getLast? := by simpa using hz
        rw [hupd z (hmem₂ z (List.mem_of_mem_getLast? hz'))]
        exact h.closed z (by simpa using hz)
  · rw [← herase]
    exact hnd.erase _

omit [DecidableEq α] in
/-- A ring listed from its second node: the first one goes to the end. -/
theorem IsRing.rotateHead {next : α → α} {a b : α} {l : List α} (h : IsRing next a (a :: b :: l)) :
    IsRing next b (b :: l ++ [a]) := by
  obtain ⟨hab, hlinks⟩ := List.isChain_cons_cons.mp h.links
  refine ⟨rfl, List.isChain_append.mpr ⟨hlinks, List.isChain_singleton a, ?_⟩, ?_, ?_⟩
  · intro x hx y hy
    obtain rfl : a = y := by simpa using hy
    exact h.closed x (by rw [List.getLast?_cons_cons]; exact hx)
  · intro z hz
    rw [List.getLast?_concat] at hz
    obtain rfl : a = z := Option.some.inj hz
    exact hab
  · exact (List.perm_append_singleton a (b :: l)).nodup_iff.mpr h.nodup

/-- **Removal of the first node**, by the one that points to it; the ring is then
entered at the next one. -/
theorem IsRing.unlinkHead {next : α → α} {a z : α} {l : List α} (h : IsRing next a l)
    (hz : z ∈ l) (hza : next z = a) (hne : next a ≠ a) :
    IsRing (Function.update next z (next a)) (next a) (l.erase a) := by
  obtain ⟨b, rest, hl⟩ : ∃ b rest, l = a :: b :: rest := by
    have hcons := h.eq_cons
    cases hr : l.tail with
    | nil =>
        rw [hr] at hcons
        rw [hcons] at h
        exact absurd (h.closed a (by simp)) hne
    | cons b rest =>
        rw [hr] at hcons
        exact ⟨b, rest, hcons⟩
  rw [hl] at h hz ⊢
  have hab : next a = b := (List.isChain_cons_cons.mp h.links).1
  have hz' : z ∈ b :: rest ++ [a] := by
    rw [List.mem_append, List.mem_singleton, or_comm]
    exact List.mem_cons.mp hz
  have hring := h.rotateHead.unlink hz' (by rw [hza, ← hab]; exact hne.symm)
  have ha : a ∉ b :: rest := (List.nodup_cons.mp h.nodup).1
  rw [hza, List.erase_append_right _ ha, List.erase_cons_head, List.append_nil] at hring
  rw [List.erase_cons_head, hab]
  rw [hab] at hring
  exact hring

/-- `do { body } while ((cur = next) != stop)`; `inl` leaves the loop with a result. -/
def doWhile (next : σ → α → α) (stop : α) (body : σ → α → ρ ⊕ σ) :
    Nat → σ → α → Option (ρ ⊕ σ)
  | 0, _, _ => none
  | fuel + 1, s, x =>
    match body s x with
    | .inl r => some (.inl r)
    | .inr s' => if next s' x = stop then some (.inr s') else doWhile next stop body fuel s' (next s' x)

/-- `while (cur != stop) { body; cur = next }` -/
def whileNe (next : σ → α → α) (stop : α) (body : σ → α → ρ ⊕ σ) :
    Nat → σ → α → Option (ρ ⊕ σ)
  | 0, _, _ => none
  | fuel + 1, s, x =>
    if x = stop then some (.inr s)
    else
      match body s x with
      | .inl r => some (.inl r)
      | .inr s' => whileNe next stop body fuel s' (next s' x)

/-- What the body keeps, the loop keeps, on a ring or not. -/
theorem doWhile_keeps {next : σ → α → α} {stop : α} {body : σ → α → ρ ⊕ σ} {P : σ → Prop}
    (hb : ∀ s x s', body s x = .inr s' → P s → P s') : ∀ (fuel : Nat) (s : σ) (x : α) (s' : σ),
    doWhile next stop body fuel s x = some (.inr s') → P s → P s'
  | 0, _, _, _, h, _ => absurd h (by simp [doWhile])
  | fuel + 1, s, x, s', h, hP => by
      unfold doWhile at h
      cases hbody : body s x with
      | inl r =>
          rw [hbody] at h
          exact absurd (Option.some.inj h) (by simp)
      | inr s1 =>
          rw [hbody] at h
          dsimp only at h
          have hP1 := hb s x s1 hbody hP
          split at h
          · obtain rfl := Sum.inr.inj (Option.some.inj h)
            exact hP1
          · exact doWhile_keeps hb fuel s1 (next s1 x) s' h hP1

/-- The same body run down a plain list. -/
def scan (body : σ → α → ρ ⊕ σ) : List α → σ → ρ ⊕ σ
  | [], s => .inr s
  | x :: l, s =>
    match body s x with
    | .inl r => .inl r
    | .inr s' => scan body l s'

/-- A body that never touches the links. -/
def KeepsLinks (next : σ → α → α) (body : σ → α → ρ ⊕ σ) : Prop :=
  ∀ s x s', body s x = .inr s' → next s' = next s

omit [DecidableEq α] in
theorem scan_keepsLinks {next : σ → α → α} {body : σ → α → ρ ⊕ σ} (hk : KeepsLinks next body) :
    ∀ (l : List α) (s s' : σ), scan body l s = .inr s' → next s' = next s
  | [], s, s', h => by rw [scan] at h; rw [Sum.inr.inj h]
  | x :: l, s, s', h => by
      rw [scan] at h
      split at h
      · exact absurd h (by simp)
      · rename_i s1 h1
        rw [scan_keepsLinks hk l s1 s' h, hk s x s1 h1]

/-- The tail of a walk: from `x` down to the node that points back to `stop`. -/
theorem doWhile_suffix {next : σ → α → α} {body : σ → α → ρ ⊕ σ} (hk : KeepsLinks next body)
    {stop : α} : ∀ (l : List α) (x : α) (s : σ) (fuel : Nat),
      (x :: l).IsChain (fun a b => next s a = b) →
      (∀ z ∈ (x :: l).getLast?, next s z = stop) → stop ∉ l → l.length < fuel →
      doWhile next stop body fuel s x = some (scan body (x :: l) s)
  | l, x, s, 0, _, _, _, hf => by omega
  | [], x, s, fuel + 1, _, hc, _, _ => by
      rw [doWhile, scan]
      cases hb : body s x with
      | inl r => rfl
      | inr s' =>
          have hn : next s' x = stop := by rw [hk s x s' hb]; exact hc x rfl
          simp only [hn, ↓reduceIte]
          rfl
  | y :: l, x, s, fuel + 1, hl, hc, hns, hf => by
      rw [doWhile, scan]
      cases hb : body s x with
      | inl r => rfl
      | inr s' =>
          have hlinks := hk s x s' hb
          have hxy : next s' x = y := by
            rw [hlinks]; exact (List.isChain_cons_cons.mp hl).1
          have hne : y ≠ stop := fun he => hns (he ▸ List.mem_cons_self ..)
          simp only [hxy, hne, ↓reduceIte]
          refine doWhile_suffix hk l y s' fuel ?_ ?_ ?_ ?_
          · rw [hlinks]; exact (List.isChain_cons_cons.mp hl).2
          · rw [hlinks]
            intro z hz
            exact hc z (by rw [List.getLast?_cons_cons]; exact hz)
          · exact fun hm => hns (List.mem_cons_of_mem _ hm)
          · simp only [List.length_cons] at hf
            omega

/-- **A `do … while` loop once round a ring is a scan of the ring.** -/
theorem doWhile_ring {next : σ → α → α} {body : σ → α → ρ ⊕ σ} (hk : KeepsLinks next body)
    {a : α} {l : List α} {s : σ} (hr : IsRing (next s) a l) {fuel : Nat} (hf : l.length ≤ fuel) :
    doWhile next a body fuel s a = some (scan body l s) := by
  cases l with
  | nil => exact absurd hr.head (by simp)
  | cons x l =>
      have hxa : x = a := by simpa using hr.head
      subst hxa
      refine doWhile_suffix hk l x s fuel hr.links hr.closed (List.nodup_cons.mp hr.nodup).1 ?_
      simp only [List.length_cons] at hf
      omega

/-- A `while` loop that starts at its stop node does nothing. -/
theorem whileNe_self (next : σ → α → α) (stop : α) (body : σ → α → ρ ⊕ σ) (fuel : Nat) (s : σ) :
    whileNe next stop body (fuel + 1) s stop = some (.inr s) := by
  rw [whileNe, if_pos rfl]

omit [DecidableEq α] in
/-- A scan that leaves nothing behind until it exits finds the first node it exits at. -/
theorem scan_find {test : α → Bool} (exit : σ → α → ρ) (s : σ) : ∀ (l : List α),
    scan (fun s x => if test x then .inl (exit s x) else .inr s) l s
      = match l.find? test with
        | some x => .inl (exit s x)
        | none => .inr s
  | [] => rfl
  | x :: l => by
      rw [scan, List.find?_cons]
      cases ht : test x with
      | true => simp
      | false => simpa using scan_find exit s l

end OSExt.Lib
