import OSExt.Lib.Chain
import OSExt.Memory.AddressSpaces
import Mathlib.Data.List.GetD

/-!
# Linked lists in memory

`LinkedList.c` over the cells the entries are: `data` and `next` of every address, and the
variable the head is in. Each function does to the links what its name says of the list they
spell out: the kernel's lists, which are modelled as the entries in their order, stay so under
it.
-/

namespace OSExt.Memory

open Lib

/-- `data` and `next` of the entries by address, and `*list`. -/
structure Cells where
  data : Word → Word
  next : Word → Word
  list : Word

namespace Cells

/-- `e->next = next` -/
def setNext (s : Cells) (e next : Word) : Cells := { s with next := Function.update s.next e next }

def addLinkedListEntry (s : Cells) (e : Word) : Cells :=
  if s.list = 0 then { s.setNext e 0 with list := e }
  else { s.setNext e s.list with list := e }

/-- The loop of `removeLinkedListEntry`; `none` while it has not ended after so many rounds. -/
def removeLoop (s : Cells) (e : Word) : Nat → Word → Option (Bool × Cells)
  | 0, _ => none
  | rounds + 1, next =>
    if next ≠ 0 then
      if s.next next = e then
        if s.next next = 0 then some (true, s.setNext next 0)
        -- the next value points after the removed entry
        else some (true, s.setNext next (s.next (s.next next)))
      else removeLoop s e rounds (s.next next)
    else some (false, s)

def removeLinkedListEntry (rounds : Nat) (s : Cells) (e : Word) : Option (Bool × Cells) :=
  if s.list = e then some (true, { s with list := s.next s.list })
  else removeLoop s e rounds s.list

/-- The loop of `getLinkedListEntry`. -/
def getLoop (s : Cells) (index : Word) : Nat → Word → Word → Option Word
  | 0, _, _ => none
  | rounds + 1, i, next =>
    if i < index then
      let next := s.next next
      if next = 0 then some 0 else getLoop s index rounds (i + 1) next
    else some next

def getLinkedListEntry (rounds : Nat) (s : Cells) (index : Word) : Option Word :=
  let next := s.list
  if next = 0 then some 0 else getLoop s index rounds 0 next

/-- The loop of `searchLinkedListEntry`: what it returns and what it leaves in `*index`. -/
def searchLoop (s : Cells) (data : Word) : Nat → Word → Word → Option (Word × Word)
  | 0, _, _ => none
  | rounds + 1, i, next =>
    if next ≠ 0 then
      if s.data next = data then some (next, i) else searchLoop s data rounds (i + 1) (s.next next)
    else some (0, 0)

def searchLinkedListEntry (rounds : Nat) (s : Cells) (data : Word) : Option (Word × Word) :=
  searchLoop s data rounds 0 s.list

/-- What `destroyLinkedList` does to an entry. -/
inductive Event where
  | read (e : Word)
  | free (e : Word)
deriving DecidableEq

/-- `freeLinkedListEntry`: the cell may hold anything afterwards. -/
def freeLinkedListEntry (junk : Word → Word × Word) (s : Cells) (e : Word) : Cells :=
  { s with data := Function.update s.data e (junk e).1, next := Function.update s.next e (junk e).2 }

/-- The loop of `destroyLinkedList`. -/
def destroyLoop (junk : Word → Word × Word) : Nat → Cells → Word → List Event → Option (List Event)
  | 0, _, _, _ => none
  | rounds + 1, s, next, log =>
    if next ≠ 0 then
      let last := next
      let next := s.next last
      destroyLoop junk rounds (s.freeLinkedListEntry junk last) next (log ++ [.read last, .free last])
    else some log

def destroyLinkedList (junk : Word → Word × Word) (rounds : Nat) (s : Cells) :
    Option (List Event) := destroyLoop junk rounds s s.list []

/-- The links spell out the entries of `l`. -/
def Holds (s : Cells) (l : List Word) : Prop := IsList s.next 0 s.list l

section

variable {s : Cells} {l : List Word} {rounds : Nat}

/-! ## Adding and removing -/

theorem Holds.add (h : s.Holds l) {e : Word} (he : e ∉ l) (hne : e ≠ 0) :
    (s.addLinkedListEntry e).Holds (e :: l) := by
  have hpush := IsList.push h he hne
  unfold addLinkedListEntry
  by_cases hempty : s.list = 0
  · rw [if_pos hempty]
    rw [hempty] at hpush
    exact hpush
  · rw [if_neg hempty]
    exact hpush

/-- What `removeLinkedListEntry` owes for an entry that is on the list or not. -/
structure Removed (s : Cells) (l : List Word) (e : Word) (b : Bool) (s' : Cells) : Prop where
  found : b = true ↔ e ∈ l
  holds : s'.Holds (l.erase e)
  data : s'.data = s.data
  kept : b = false → s' = s

theorem removed_none (h : s.Holds l) {e : Word} (he : e ∉ l) : Removed s l e false s where
  found := iff_of_false Bool.false_ne_true he
  holds := by rw [List.erase_of_not_mem he]; exact h
  data := rfl
  kept := fun _ => rfl

/-- **The loop** has passed the entries of `pre` and stands at the first of `l`; the entry is
neither among those nor this one. -/
theorem removeLoop_removed {e : Word} (he : e ≠ 0) : ∀ {l pre : List Word} {rounds : Nat} {n : Word},
    s.Holds (pre ++ l) → IsList s.next 0 n l → e ∉ pre → e ≠ n → l.length < rounds →
    ∃ b s', removeLoop s e rounds n = some (b, s') ∧ Removed s (pre ++ l) e b s' := by
  intro l
  induction l with
  | nil =>
      intro pre rounds n hall hn hpre _ hrounds
      obtain ⟨rounds, rfl⟩ := Nat.exists_add_one_eq.mpr (Nat.zero_lt_of_lt hrounds)
      have hnull : n = 0 := hn
      rw [removeLoop, if_neg (not_not_intro hnull)]
      exact ⟨false, s, rfl, removed_none hall (by rw [List.append_nil]; exact hpre)⟩
  | cons a l ih =>
      intro pre rounds n hall hn hpre hne hrounds
      obtain ⟨rounds, rfl⟩ := Nat.exists_add_one_eq.mpr (Nat.zero_lt_of_lt hrounds)
      obtain ⟨rfl, hnull, hrest⟩ := hn
      rw [removeLoop, if_pos hnull]
      by_cases hnext : s.next n = e
      · -- the entry behind this one: its link is taken over
        rw [if_pos hnext, if_neg (hnext ▸ he)]
        refine ⟨true, _, rfl, ?_⟩
        cases l with
        | nil => exact absurd (hnext.symm.trans hrest) he
        | cons b post =>
            obtain rfl : b = e := hrest.1.symm.trans hnext
            have herase : (pre ++ n :: b :: post).erase b = pre ++ n :: post := by
              rw [List.erase_append_right _ hpre, List.erase_cons_tail (by simpa using hne.symm),
                List.erase_cons_head]
            exact {
              found := iff_of_true rfl (by simp)
              holds := by
                rw [herase, hnext]
                exact IsList.unlink hall hall.nodup
              data := rfl
              kept := fun h => absurd h.symm Bool.false_ne_true }
      · rw [if_neg hnext]
        rw [List.append_cons] at hall ⊢
        refine ih hall hrest ?_ (fun h => hnext h.symm) (Nat.lt_of_succ_lt_succ hrounds)
        intro hmem
        rcases List.mem_append.mp hmem with hmem | hmem
        · exact hpre hmem
        · exact hne (List.mem_singleton.mp hmem)

/-- **Removing** takes the entry out and nothing else, and says whether it was there. -/
theorem Holds.remove (h : s.Holds l) (hrounds : l.length < rounds) {e : Word} (he : e ≠ 0) :
    ∃ b s', removeLinkedListEntry rounds s e = some (b, s') ∧ Removed s l e b s' := by
  unfold removeLinkedListEntry
  by_cases hfirst : s.list = e
  · rw [if_pos hfirst]
    refine ⟨true, _, rfl, ?_⟩
    cases l with
    | nil => exact absurd (hfirst.symm.trans h) he
    | cons a l =>
        obtain rfl : a = e := h.1.symm.trans hfirst
        exact {
          found := iff_of_true rfl List.mem_cons_self
          holds := by
            rw [List.erase_cons_head, hfirst]
            exact IsList.tail h
          data := rfl
          kept := fun h => absurd h.symm Bool.false_ne_true }
  · rw [if_neg hfirst]
    exact @removeLoop_removed s e he l [] rounds s.list h h List.not_mem_nil (fun h => hfirst h.symm)
      hrounds

/-! ## Positions -/

/-- There are not as many entries as addresses. -/
theorem Holds.length_lt (h : s.Holds l) : l.length < 2 ^ 32 := by
  have hnodup : (0 :: l).Nodup := List.nodup_cons.mpr ⟨fun h0 => h.ne_null 0 h0 rfl, h.nodup⟩
  have hmap : ((0 :: l).map BitVec.toNat).Nodup :=
    hnodup.map fun a b hab => BitVec.eq_of_toNat_eq hab
  have hsub : (0 :: l).map BitVec.toNat ⊆ List.range (2 ^ 32) := by
    intro n hn
    obtain ⟨a, -, rfl⟩ := List.mem_map.mp hn
    exact List.mem_range.mpr a.isLt
  have hle := (List.subperm_of_subset hmap hsub).length_le
  rw [List.length_map, List.length_cons, List.length_range] at hle
  exact hle

/-- The counter of a loop that has not passed all entries. -/
theorem toNat_succ {i : Word} {n : Nat} (h : i.toNat + n < 2 ^ 32) (hn : 0 < n) :
    (i + 1).toNat = i.toNat + 1 := by
  have h1 : (1 : Word).toNat = 1 := rfl
  rw [BitVec.toNat_add, h1, Nat.mod_eq_of_lt (by omega)]

theorem getLoop_eq {index : Word} : ∀ {l : List Word} {rounds : Nat} {i n : Word},
    IsList s.next 0 n (n :: l) → i ≤ index → i.toNat + (n :: l).length < 2 ^ 32 →
    (n :: l).length < rounds →
    getLoop s index rounds i n = some ((n :: l).getD (index.toNat - i.toNat) 0) := by
  intro l
  induction l with
  | nil =>
      intro rounds i n h hle hcount hrounds
      obtain ⟨rounds, rfl⟩ := Nat.exists_add_one_eq.mpr (Nat.zero_lt_of_lt hrounds)
      have hend : s.next n = 0 := h.tail
      rw [getLoop]
      by_cases hlt : i < index
      · have hlt' : i.toNat < index.toNat := hlt
        -- a position behind the last entry
        rw [if_pos hlt]
        simp only [if_pos hend]
        rw [List.getD_eq_default _ _ (by rw [List.length_singleton]; omega)]
      · have hge : index.toNat - i.toNat = 0 := Nat.sub_eq_zero_of_le (Nat.le_of_not_lt hlt)
        rw [if_neg hlt, hge, List.getD_cons_zero]
  | cons b l ih =>
      intro rounds i n h hle hcount hrounds
      obtain ⟨rounds, rfl⟩ := Nat.exists_add_one_eq.mpr (Nat.zero_lt_of_lt hrounds)
      have hb : s.next n = b := h.tail.1
      have hne : b ≠ 0 := h.ne_null b (by simp)
      rw [getLoop]
      by_cases hlt : i < index
      · have hlt' : i.toNat < index.toNat := hlt
        have hsucc := toNat_succ hcount (Nat.zero_lt_succ _)
        have hstep : index.toNat - i.toNat = index.toNat - (i + 1).toNat + 1 := by omega
        have htail : IsList s.next 0 b (b :: l) := hb ▸ h.tail
        rw [List.length_cons] at hcount hrounds
        rw [if_pos hlt]
        simp only [hb, if_neg hne]
        rw [hstep, List.getD_cons_succ]
        refine ih htail ?_ ?_ (Nat.lt_of_succ_lt_succ hrounds)
        · show (i + 1).toNat ≤ index.toNat
          omega
        · rw [hsucc]
          omega
      · have hge : index.toNat - i.toNat = 0 := Nat.sub_eq_zero_of_le (Nat.le_of_not_lt hlt)
        rw [if_neg hlt, hge, List.getD_cons_zero]

/-- **The entry at a position**, NULL behind the last one. -/
theorem Holds.get (h : s.Holds l) (hrounds : l.length < rounds) (index : Word) :
    getLinkedListEntry rounds s index = some (l.getD index.toNat 0) := by
  unfold getLinkedListEntry
  have hlen := h.length_lt
  cases l with
  | nil =>
      have hnull : s.list = 0 := h
      simp only [if_pos hnull, List.getD_nil]
  | cons a l =>
      obtain rfl : s.list = a := h.1
      have hne := h.ne_null s.list List.mem_cons_self
      have hstart : (0 : Word).toNat = 0 := rfl
      simp only [if_neg hne]
      rw [getLoop_eq h (by rw [BitVec.le_def, hstart]; exact Nat.zero_le _) (by rw [hstart]; omega)
        hrounds, hstart, Nat.sub_zero]

/-- **The first entry with the data** and how many are before it. -/
theorem searchLoop_eq (data : Word) : ∀ {l : List Word} {rounds : Nat} {i n : Word},
    IsList s.next 0 n l → i.toNat + l.length < 2 ^ 32 → l.length < rounds →
    ∃ r, searchLoop s data rounds i n = some r ∧
      match l.findIdx? (fun a => s.data a == data) with
      | some k => l[k]? = some r.1 ∧ r.2.toNat = i.toNat + k
      | none => r = (0, 0) := by
  intro l
  induction l with
  | nil =>
      intro rounds i n h _ hrounds
      obtain ⟨rounds, rfl⟩ := Nat.exists_add_one_eq.mpr (Nat.zero_lt_of_lt hrounds)
      have hnull : n = 0 := h
      rw [searchLoop, if_neg (not_not_intro hnull)]
      exact ⟨_, rfl, rfl⟩
  | cons a l ih =>
      intro rounds i n h hcount hrounds
      obtain ⟨rounds, rfl⟩ := Nat.exists_add_one_eq.mpr (Nat.zero_lt_of_lt hrounds)
      obtain ⟨rfl, hne, hrest⟩ := h
      rw [searchLoop, if_pos hne, List.findIdx?_cons]
      by_cases hdata : s.data n = data
      · rw [if_pos hdata, if_pos (by simpa using hdata)]
        exact ⟨_, rfl, rfl, rfl⟩
      · -- the counter and the position go up together
        have hsucc := toNat_succ hcount (Nat.zero_lt_succ _)
        rw [List.length_cons] at hcount
        rw [if_neg hdata, if_neg (by simpa using hdata)]
        obtain ⟨r, hr, hspec⟩ := ih hrest (by rw [hsucc]; omega) (Nat.lt_of_succ_lt_succ hrounds)
        refine ⟨r, hr, ?_⟩
        cases hfind : l.findIdx? (fun a => s.data a == data) with
        | none =>
            rw [hfind] at hspec
            exact hspec
        | some k =>
            rw [hfind] at hspec
            obtain ⟨hnode, hindex⟩ := hspec
            refine ⟨hnode, ?_⟩
            show r.2.toNat = i.toNat + (k + 1)
            rw [hindex, hsucc]
            omega

/-- What `searchLinkedListEntry` answers: an entry, its position, and no other before it with the
data; or NULL. -/
structure Found (s : Cells) (l : List Word) (data e i : Word) : Prop where
  first : (∃ a ∈ l, s.data a = data) → l[i.toNat]? = some e ∧ s.data e = data ∧
    ∀ j < i.toNat, ∀ a, l[j]? = some a → s.data a ≠ data
  none : (∀ a ∈ l, s.data a ≠ data) → e = 0 ∧ i = 0

theorem Holds.search (h : s.Holds l) (hrounds : l.length < rounds) (data : Word) :
    ∃ e i, searchLinkedListEntry rounds s data = some (e, i) ∧ Found s l data e i := by
  have hstart : (0 : Word).toNat = 0 := rfl
  obtain ⟨⟨e, i⟩, hr, hspec⟩ := searchLoop_eq data h
    (by rw [hstart, Nat.zero_add]; exact h.length_lt) hrounds
  refine ⟨e, i, hr, ?_⟩
  cases hfind : l.findIdx? (fun a => s.data a == data) with
  | none =>
      rw [hfind] at hspec
      rw [List.findIdx?_eq_none_iff] at hfind
      constructor
      case first =>
        intro hsome
        obtain ⟨a, ha, hdata⟩ := hsome
        exact absurd hdata (by simpa using hfind a ha)
      case none => exact fun _ => Prod.mk.inj hspec
  | some k =>
      rw [hfind] at hspec
      obtain ⟨hk, hdata, hbefore⟩ := List.findIdx?_eq_some_iff_getElem.mp hfind
      obtain ⟨hnode, hindex⟩ := hspec
      have hindex : i.toNat = k := hindex.trans (Nat.zero_add k)
      have he : l[k] = e := Option.some.inj ((List.getElem?_eq_getElem hk).symm.trans hnode)
      constructor
      case first =>
        refine fun _ => ⟨by rw [hindex]; exact hnode, by rw [← he]; simpa using hdata, ?_⟩
        intro j hj a ha
        rw [hindex] at hj
        rw [List.getElem?_eq_getElem (by omega), Option.some.injEq] at ha
        rw [← ha]
        simpa using hbefore j hj
      case none =>
        intro hnone
        exact absurd (by simpa using hdata) (hnone l[k] (List.getElem_mem hk))

/-! ## Giving the list up -/

/-- What the loop does from an entry on, whatever the freed cells come to hold. -/
theorem destroyLoop_eq (junk : Word → Word × Word) : ∀ {l : List Word} {s : Cells} {rounds : Nat}
    {n : Word} {log : List Event}, IsList s.next 0 n l → l.length < rounds →
    destroyLoop junk rounds s n log =
      some (log ++ l.flatMap fun a => [Event.read a, Event.free a]) := by
  intro l
  induction l with
  | nil =>
      intro s rounds n log h hrounds
      obtain ⟨rounds, rfl⟩ := Nat.exists_add_one_eq.mpr (Nat.zero_lt_of_lt hrounds)
      have hnull : n = 0 := h
      rw [destroyLoop, if_neg (not_not_intro hnull), List.flatMap_nil, List.append_nil]
  | cons a l ih =>
      intro s rounds n log h hrounds
      obtain ⟨rounds, rfl⟩ := Nat.exists_add_one_eq.mpr (Nat.zero_lt_of_lt hrounds)
      have hfresh := (List.nodup_cons.mp h.nodup).1
      obtain ⟨rfl, hne, hrest⟩ := h
      rw [destroyLoop, if_pos hne]
      simp only
      -- the rest of the list does not go through the freed cell
      rw [ih (s := s.freeLinkedListEntry junk n) (hrest.update_of_notMem hfresh)
        (Nat.lt_of_succ_lt_succ hrounds), List.flatMap_cons, List.append_assoc]

/-- The entries in their order, each read once and then freed. -/
theorem Holds.destroy (h : s.Holds l) (hrounds : l.length < rounds) (junk : Word → Word × Word) :
    destroyLinkedList junk rounds s = some (l.flatMap fun a => [Event.read a, Event.free a]) := by
  rw [destroyLinkedList, destroyLoop_eq junk h hrounds, List.nil_append]

theorem count_free {a : Word} : ∀ {l : List Word}, l.Nodup →
    (l.flatMap fun a => [Event.read a, Event.free a]).count (.free a) = if a ∈ l then 1 else 0 := by
  intro l
  induction l with
  | nil => exact fun _ => rfl
  | cons b l ih =>
      intro hnodup
      obtain ⟨hb, hnodup⟩ := List.nodup_cons.mp hnodup
      rw [List.flatMap_cons, List.count_append, ih hnodup]
      by_cases hab : a = b
      · subst hab
        rw [if_neg hb, if_pos List.mem_cons_self]
        simp
      · have hmem : a ∈ b :: l ↔ a ∈ l := by simp [hab]
        simp only [hmem]
        simp [Ne.symm hab]

/-- Behind its `free` an entry is not read again. -/
theorem pairwise_free_read : ∀ {l : List Word}, l.Nodup →
    (l.flatMap fun a => [Event.read a, Event.free a]).Pairwise
      fun x y => ∀ a, x = .free a → y ≠ .read a := by
  intro l
  induction l with
  | nil => exact fun _ => List.Pairwise.nil
  | cons b l ih =>
      intro hnodup
      obtain ⟨hb, hnodup⟩ := List.nodup_cons.mp hnodup
      have hlater : ∀ y ∈ l.flatMap (fun a => [Event.read a, Event.free a]), y ≠ .read b := by
        intro y hy heq
        subst heq
        obtain ⟨a, ha, hy⟩ := List.mem_flatMap.mp hy
        have hba : b = a := by simpa using hy
        exact hb (hba ▸ ha)
      rw [List.flatMap_cons]
      refine List.pairwise_cons.mpr ⟨fun y _ a hfree => absurd hfree (by simp), ?_⟩
      refine List.pairwise_cons.mpr ⟨fun y hy a hfree => ?_, ih hnodup⟩
      cases hfree
      exact hlater y hy

/-! ## The kernel's lists -/

/-- The entries as the kernel's lists have them: each address with its `data`. -/
def entries (s : Cells) (l : List Word) : Entries := l.map fun a => (a.toNat, (s.data a).toNat)

theorem entries_add (mem : Nat → Byte) (l : List Word) (e : Word) :
    (Memory.addLinkedListEntry mem (s.entries l) e.toNat (s.data e).toNat).2 =
      (s.addLinkedListEntry e).entries (e :: l) := by
  have hdata : (s.addLinkedListEntry e).data = s.data := by
    unfold addLinkedListEntry
    split <;> rfl
  unfold entries
  rw [hdata]
  rfl

theorem entries_remove (mem : Nat → Byte) {l : List Word} {e : Word} {b : Bool} {s' : Cells}
    (h : Removed s l e b s') :
    (Memory.removeLinkedListEntry e.toNat mem (s.entries l)).2 = s'.entries (l.erase e) := by
  rw [Spaces.removeLinkedListEntry_eq, Spaces.removeEntry, entries, entries, h.data, List.eraseP_map,
    List.erase_eq_eraseP]
  congr 2
  funext a
  simp [BitVec.toNat_inj, eq_comm]

/-- The search of the kernel's lists is this one, which has NULL for none. -/
theorem entries_search (h : s.Holds l) (hrounds : l.length < rounds) (data : Word) :
    ∃ r, searchLinkedListEntry rounds s data = some r ∧
      Memory.searchLinkedListEntry (s.entries l) data.toNat =
        if r.1 = 0 then none else some (r.1.toNat, r.2.toNat) := by
  have hstart : (0 : Word).toNat = 0 := rfl
  obtain ⟨r, hr, hspec⟩ := searchLoop_eq data h
    (by rw [hstart, Nat.zero_add]; exact h.length_lt) hrounds
  have hsame : (fun x : Nat × Nat => x.2 == data.toNat) ∘ (fun a => (a.toNat, (s.data a).toNat)) =
      fun a => s.data a == data := by
    funext a
    simp [BitVec.toNat_inj]
  refine ⟨r, hr, ?_⟩
  rw [Memory.searchLinkedListEntry, entries, List.findIdx?_map, hsame]
  cases hfind : l.findIdx? (fun a => s.data a == data) with
  | none =>
      rw [hfind] at hspec
      rw [hspec, if_pos rfl]
  | some k =>
      rw [hfind] at hspec
      obtain ⟨hnode, hindex⟩ := hspec
      have hne : r.1 ≠ 0 := h.ne_null r.1 (List.mem_of_getElem? hnode)
      have hindex : r.2.toNat = k := hindex.trans (Nat.zero_add k)
      rw [if_neg hne, hindex]
      simp [hnode]

/-! ## The list as a whole -/

/-- Each function does its part on the entries of `l`. -/
structure Refines (s : Cells) (l : List Word) (rounds : Nat) : Prop where
  nodup : l.Nodup
  /-- an entry that is added is in front -/
  add : ∀ e, e ≠ 0 → e ∉ l → (s.addLinkedListEntry e).Holds (e :: l)
  /-- an entry is removed if it is there, and only this one, and the rest keeps its order -/
  remove : ∀ e, e ≠ 0 →
    ∃ b s', removeLinkedListEntry rounds s e = some (b, s') ∧ Removed s l e b s'
  /-- what is found is the first with the data, and found again at its position -/
  search : ∀ data, ∃ e i, searchLinkedListEntry rounds s data = some (e, i) ∧
    Found s l data e i ∧
      ((∃ a ∈ l, s.data a = data) → getLinkedListEntry rounds s i = some e)
  /-- NULL at and past the length -/
  get : ∀ index, l.length ≤ index.toNat → getLinkedListEntry rounds s index = some 0
  /-- every entry is freed once, nothing else is, and none is read after that -/
  destroy : ∀ junk, ∃ log, destroyLinkedList junk rounds s = some log ∧
    (∀ a, log.count (.free a) = if a ∈ l then 1 else 0) ∧
      log.Pairwise fun x y => ∀ a, x = .free a → y ≠ .read a

/-- **The intrusive list is the list** of its entries, as long as it ends. -/
theorem linkedList_refines (h : s.Holds l) (hrounds : l.length < rounds) : Refines s l rounds where
  nodup := h.nodup
  add := fun _ hne he => h.add he hne
  remove := fun _ hne => h.remove hrounds hne
  search := fun data => by
    obtain ⟨e, i, hsearch, hfound⟩ := h.search hrounds data
    refine ⟨e, i, hsearch, hfound, fun hsome => ?_⟩
    rw [h.get hrounds, List.getD_eq_getElem?_getD, (hfound.first hsome).1, Option.getD_some]
  get := fun index hpast => by
    rw [h.get hrounds, List.getD_eq_getElem?_getD, List.getElem?_eq_none hpast, Option.getD_none]
  destroy := fun junk =>
    ⟨_, h.destroy hrounds junk, fun _ => count_free h.nodup, pairwise_free_read h.nodup⟩

/-- Three entries, of which the last two carry the same data. -/
def threeEntries : Cells where
  data := fun a => if a = 8 then 1 else 2
  next := fun a => if a = 8 then 24 else if a = 24 then 16 else 0
  list := 8

theorem linkedList_refines_three :
    threeEntries.Holds [8, 24, 16] ∧ [8, 24, 16].length < 4 ∧ Refines threeEntries [8, 24, 16] 4 := by
  have hholds : threeEntries.Holds [8, 24, 16] :=
    ⟨rfl, by decide, rfl, by decide, rfl, by decide, rfl⟩
  exact ⟨hholds, Nat.lt_succ_self 3, linkedList_refines hholds (Nat.lt_succ_self 3)⟩

end

end Cells

end OSExt.Memory
