import OSExt.Lib.Chain
import OSExt.Memory.Slab

/-!
# The lists of a cache

Every slab of a cache is on one of its lists `full`, `partial` and `free`. The
allocator moves slabs by hand: it unlinks one through the slab before it, or
through the head if there is none, and pushes it in front of a list. `unlink` and
`push` are these two steps; every move of the allocator is one after the other.
-/

namespace OSExt.Memory

open Lib

/-- The three lists of a cache. -/
inductive SlabList where
  | full
  | part
  | free
deriving DecidableEq

/-- The head of one of the lists. -/
def Cache.head (ca : Cache) : SlabList → Nat
  | .full => ca.fullSlabs
  | .part => ca.partialSlabs
  | .free => ca.freeSlabs

def Cache.setHead (ca : Cache) (w : SlabList) (s : Nat) : Cache :=
  match w with
  | .full => { ca with fullSlabs := s }
  | .part => { ca with partialSlabs := s }
  | .free => { ca with freeSlabs := s }

@[simp] theorem Cache.head_setHead (ca : Cache) (w w' : SlabList) (s : Nat) :
    (ca.setHead w s).head w' = if w' = w then s else ca.head w' := by
  cases w <;> cases w' <;> rfl

namespace Kernel

/-- The link of a slab. -/
def nextSlab (k : Kernel) (s : Nat) : Nat := (k.slab s).next

def setHead (k : Kernel) (c : Nat) (w : SlabList) (s : Nat) : Kernel :=
  k.setCache c ((k.cache c).setHead w s)

/-- Takes the slab before `next` out of the list `w`; `prev` is the one before that. -/
def unlink (k : Kernel) (c : Nat) (w : SlabList) (prev next : Nat) : Kernel :=
  if prev = 0 then k.setHead c w next else k.setNext prev next

/-- Puts a slab in front of the list `w`. -/
def push (k : Kernel) (c : Nat) (w : SlabList) (s : Nat) : Kernel :=
  (k.setNext s ((k.cache c).head w)).setHead c w s

/-- Takes `s` out of the list `a`, behind `prev`, and puts it in front of the list `b`. -/
def move (k : Kernel) (c : Nat) (a b : SlabList) (s prev : Nat) : Kernel :=
  (k.unlink c a prev (k.nextSlab s)).push c b s

end Kernel

/-- The slab in front of the one behind `pre`, 0 if that is the first. -/
def prevOf (pre : List Nat) : Nat := pre.getLast?.getD 0

/-- The lists once `s`, between `pre` and `post` on `a`, is in front of `b`. -/
def movedOn (on : SlabList → List Nat) (a b : SlabList) (s : Nat) (pre post : List Nat) :
    SlabList → List Nat :=
  let rest := Function.update on a (pre ++ post)
  Function.update rest b (s :: rest b)

/-! ## The moves of the source -/

section

variable (k : Kernel) (c cslab prevslab : Nat)

theorem fullToPartial_eq : fullToPartial c cslab prevslab k
    = (.ok (), k.move c .full .part cslab prevslab) := by
  by_cases h : prevslab = 0
  · subst h
    rfl
  · simp only [fullToPartial, Kernel.move, Kernel.unlink, if_neg h]
    rfl

theorem partialToFree_eq : partialToFree c cslab prevslab k
    = (.ok (), k.move c .part .free cslab prevslab) := by
  by_cases h : prevslab = 0
  · subst h
    rfl
  · simp only [partialToFree, Kernel.move, Kernel.unlink, if_neg h]
    rfl

theorem scanToFull_eq : scanToFull c cslab prevslab k
    = (.ok (), k.move c .part .full cslab prevslab) := by
  by_cases h : prevslab = 0
  · subst h
    rfl
  · simp only [scanToFull, Kernel.move, Kernel.unlink, if_neg h]
    rfl

/-- `takeFreeSlab` moves the first free slab to the partial list, then takes an object of it. -/
theorem ensures_takeFreeSlab {Q : Nat → Kernel → Prop} {E : Stop → Kernel → Prop} :
    Ensures (takeFreeSlab c) Q E k ↔
      Ensures (do
        let ca ← gets (fun k => k.cache c)
        let obj ← allocObjectFromSlab (k.cache c).freeSlabs ca.objSize ca.flags
        if obj = 0 then stop (.panicked "could not get object from empty slab!\n") else pure obj)
      Q E (k.move c .free .part (k.cache c).freeSlabs 0) := Iff.rfl

/-- Behind another slab it does not matter which list the slab is taken to be on. -/
theorem Kernel.move_behind (a a' b : SlabList) (h : prevslab ≠ 0) :
    k.move c a b cslab prevslab = k.move c a' b cslab prevslab := by
  unfold Kernel.move Kernel.unlink
  rw [if_neg h, if_neg h]

end

/-! ## Slabs on their lists -/

/-- The links spell out three lists, and no slab is on them twice. -/
structure OnLists (k : Kernel) (c : Nat) (on : SlabList → List Nat) : Prop where
  links : ∀ w, IsList k.nextSlab 0 ((k.cache c).head w) (on w)
  nodup : ∀ w, (on w).Nodup
  once : ∀ w w' s, s ∈ on w → s ∈ on w' → w = w'

theorem prevOf_nil : prevOf [] = 0 := rfl

theorem prevOf_concat (pre : List Nat) (p : Nat) : prevOf (pre ++ [p]) = p := by
  simp [prevOf]

section

variable {k : Kernel} {c s : Nat} {on : SlabList → List Nat} {pre post : List Nat}

theorem nextSlab_setNext (k : Kernel) (s next : Nat) :
    (k.setNext s next).nextSlab = Function.update k.nextSlab s next := by
  funext x
  show ((Function.update k.slab s { k.slab s with next := next }) x).next = _
  by_cases h : x = s
  · rw [h, Function.update_self, Function.update_self]
  · rw [Function.update_of_ne h, Function.update_of_ne h]
    rfl

theorem head_setHead (k : Kernel) (c : Nat) (w w' : SlabList) (s : Nat) :
    ((k.setHead c w s).cache c).head w' = if w' = w then s else (k.cache c).head w' := by
  show (Function.update k.cache c ((k.cache c).setHead w s) c).head w' = _
  rw [Function.update_self]
  exact Cache.head_setHead _ _ _ _

theorem OnLists.ne_zero (h : OnLists k c on) {w : SlabList} (hs : s ∈ on w) : s ≠ 0 :=
  (h.links w).ne_null s hs

/-- **Pushing** a slab that is on no list yet. -/
theorem OnLists.push (h : OnLists k c on) (w : SlabList) (hs : ∀ w, s ∉ on w) (hne : s ≠ 0) :
    OnLists (k.push c w s) c (Function.update on w (s :: on w)) where
  links w' := by
    unfold Kernel.push
    rw [head_setHead]
    show IsList (k.setNext s ((k.cache c).head w)).nextSlab 0 _ _
    rw [nextSlab_setNext]
    by_cases hw : w' = w
    · subst hw
      rw [if_pos rfl, Function.update_self]
      exact (h.links w').push (hs w') hne
    · rw [if_neg hw, Function.update_of_ne hw]
      exact (h.links w').update_of_notMem (hs w')
  nodup w' := by
    by_cases hw : w' = w
    · subst hw
      rw [Function.update_self]
      exact List.nodup_cons.mpr ⟨hs w', h.nodup w'⟩
    · rw [Function.update_of_ne hw]
      exact h.nodup w'
  once w1 w2 x h1 h2 := by
    -- a slab twice on the lists would be the new one, which was on none
    have hmem : ∀ w', x ∈ Function.update on w (s :: on w) w' → (x = s ∧ w' = w) ∨ x ∈ on w' := by
      intro w' hx
      by_cases hw : w' = w
      · subst hw
        rw [Function.update_self] at hx
        rcases List.mem_cons.mp hx with hx | hx
        · exact .inl ⟨hx, rfl⟩
        · exact .inr hx
      · rw [Function.update_of_ne hw] at hx
        exact .inr hx
    rcases hmem w1 h1 with ⟨hx, hw⟩ | hx1
    · rcases hmem w2 h2 with ⟨_, hw'⟩ | hx2
      · rw [hw, hw']
      · rw [hx] at hx2
        exact absurd hx2 (hs w2)
    · rcases hmem w2 h2 with ⟨hx, _⟩ | hx2
      · rw [hx] at hx1
        exact absurd hx1 (hs w1)
      · exact h.once w1 w2 x hx1 hx2

/-- **Unlinking** a slab, at the head of its list or behind another. -/
theorem OnLists.unlink (h : OnLists k c on) {w : SlabList} (hw : on w = pre ++ s :: post) :
    OnLists (k.unlink c w (prevOf pre) (k.nextSlab s)) c (Function.update on w (pre ++ post))
      ∧ ∀ w', s ∉ Function.update on w (pre ++ post) w' := by
  have hnd := h.nodup w
  rw [hw] at hnd
  have hlist := h.links w
  rw [hw] at hlist
  have hs : s ∈ on w := by simp [hw]
  have hsub : ∀ w' x, x ∈ Function.update on w (pre ++ post) w' → x ∈ on w' := by
    intro w' x hx
    by_cases hww : w' = w
    · subst hww
      rw [Function.update_self] at hx
      rw [hw]
      exact List.mem_append.mpr ((List.mem_append.mp hx).imp id (List.mem_cons_of_mem _))
    · rwa [Function.update_of_ne hww] at hx
  refine ⟨⟨?_, ?_, ?_⟩, ?_⟩
  · intro w'
    unfold Kernel.unlink
    -- the head of the list is written, or the link of the slab before
    rcases List.eq_nil_or_concat pre with rfl | ⟨pre', p, rfl⟩
    · rw [prevOf_nil, if_pos rfl, head_setHead]
      show IsList k.nextSlab 0 _ _
      by_cases hww : w' = w
      · subst hww
        rw [if_pos rfl, Function.update_self]
        exact hlist.tail
      · rw [if_neg hww, Function.update_of_ne hww]
        exact h.links w'
    · have hp : p ∈ on w := by simp [hw]
      rw [List.concat_eq_append, prevOf_concat, if_neg (h.ne_zero hp), nextSlab_setNext]
      show IsList _ 0 ((k.cache c).head w') _
      by_cases hww : w' = w
      · subst hww
        rw [List.concat_eq_append, List.append_assoc] at hlist hnd
        rw [Function.update_self, List.append_assoc]
        exact hlist.unlink hnd
      · rw [Function.update_of_ne hww]
        exact (h.links w').update_of_notMem fun hp' => hww (h.once w' w p hp' hp)
  · intro w'
    by_cases hww : w' = w
    · subst hww
      rw [Function.update_self]
      exact hnd.sublist (List.Sublist.append_left (List.sublist_cons_self s post) pre)
    · rw [Function.update_of_ne hww]
      exact h.nodup w'
  · exact fun w1 w2 x h1 h2 => h.once w1 w2 x (hsub w1 x h1) (hsub w2 x h2)
  · intro w' hx
    obtain rfl := h.once w' w s (hsub w' s hx) hs
    rw [Function.update_self] at hx
    have hmid := List.nodup_middle.mp hnd
    exact (List.nodup_cons.mp hmid).1 hx

/-- **A move keeps the lists.** -/
theorem OnLists.move (h : OnLists k c on) {a : SlabList} (b : SlabList)
    (ha : on a = pre ++ s :: post) :
    OnLists (k.move c a b s (prevOf pre)) c (movedOn on a b s pre post) := by
  obtain ⟨hrest, hs⟩ := h.unlink ha
  exact hrest.push b hs (h.ne_zero (w := a) (by simp [ha]))

/-- A move puts `s` on `b` and leaves the others where they are. -/
theorem mem_movedOn {a b w : SlabList} {x : Nat} (ha : on a = pre ++ s :: post)
    (hx : x ∈ movedOn on a b s pre post w) : (x = s ∧ w = b) ∨ x ∈ on w := by
  have hrest : x ∈ Function.update on a (pre ++ post) w → x ∈ on w := by
    intro hx
    by_cases hw : w = a
    · subst hw
      rw [Function.update_self] at hx
      rw [ha]
      exact List.mem_append.mpr ((List.mem_append.mp hx).imp id (List.mem_cons_of_mem _))
    · rwa [Function.update_of_ne hw] at hx
  unfold movedOn at hx
  by_cases hw : w = b
  · subst hw
    rw [Function.update_self] at hx
    rcases List.mem_cons.mp hx with hx | hx
    · exact .inl ⟨hx, rfl⟩
    · exact .inr (hrest hx)
  · rw [Function.update_of_ne hw] at hx
    exact .inr (hrest hx)

/-- The slabs on the lists are the same after a move. -/
theorem exists_mem_movedOn {a b : SlabList} {x : Nat} (ha : on a = pre ++ s :: post) :
    (∃ w, x ∈ movedOn on a b s pre post w) ↔ ∃ w, x ∈ on w := by
  constructor
  · intro ⟨w, hx⟩
    rcases mem_movedOn ha hx with ⟨rfl, _⟩ | hx
    · exact ⟨a, by simp [ha]⟩
    · exact ⟨w, hx⟩
  · intro ⟨w, hx⟩
    unfold movedOn
    by_cases hxs : x = s
    · exact ⟨b, by rw [Function.update_self, hxs]; exact List.mem_cons_self ..⟩
    · have hrest : x ∈ Function.update on a (pre ++ post) w := by
        by_cases hw : w = a
        · subst hw
          rw [ha] at hx
          rw [Function.update_self]
          rcases List.mem_append.mp hx with hx | hx
          · exact List.mem_append_left _ hx
          · exact List.mem_append_right _ ((List.mem_cons.mp hx).resolve_left hxs)
        · rwa [Function.update_of_ne hw]
      refine ⟨w, ?_⟩
      by_cases hw : w = b
      · subst hw
        rw [Function.update_self]
        exact List.mem_cons_of_mem _ hrest
      · rwa [Function.update_of_ne hw]

end

end OSExt.Memory
