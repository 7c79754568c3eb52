import OSExt.Lib.Arm

/-!
# Detours

A program in memory is sent on a detour: the word at a site is replaced by a jump through the word
behind it, which is the address of some other code. That code ends in a trampoline: copies of the
two words replaced, and a jump back behind them. The two words must do the same wherever they
are, and nothing may jump between them.

Every run of the program is then a run of the patched program, as long as the program cannot tell
what the other code does to the state.
-/

namespace OSExt.Lib

/-- How words of code are executed: `jump` goes to the address behind it, `exec` gives the
next address and state for any other word at an address. -/
structure Processor (σ : Type) where
  jump : Word
  exec : Word → Word → σ → Word × σ

structure Detour where
  site : Word
  entry : Word
  trampoline : Word

section

variable {σ ι : Type} {P : Processor σ} {text text' : Word → Word} {D : ι → Detour}
  {os : Set Word} {hook : ι → σ → σ} {R : List ι → σ → σ → Prop}

def Processor.step (P : Processor σ) (text : Word → Word) (x : Word × σ) : Word × σ :=
  if text x.1 = P.jump then (text (x.1 + 4#32), x.2) else P.exec (text x.1) x.1 x.2

/-- Some steps later. -/
def Processor.Reaches (P : Processor σ) (text : Word → Word) : Word × σ → Word × σ → Prop :=
  Relation.ReflTransGen fun x y => P.step text x = y

/-- A word that does the same at every address, and goes on behind itself. -/
structure Processor.Movable (P : Processor σ) (w : Word) : Prop where
  plain : w ≠ P.jump
  next : ∀ pc s, (P.exec w pc s).1 = pc + 4#32
  same : ∀ pc pc' s, (P.exec w pc s).2 = (P.exec w pc' s).2

/-- `text'` is `text` with the detours `D`, as far as the words `os` go. -/
structure Patched (P : Processor σ) (D : ι → Detour) (os : Set Word) (text text' : Word → Word) :
    Prop where
  jumps : ∀ i, text' (D i).site = P.jump
  target : ∀ i, text' ((D i).site + 4#32) = (D i).entry
  first : ∀ i, text' (D i).trampoline = text (D i).site
  second : ∀ i, text' ((D i).trampoline + 4#32) = text ((D i).site + 4#32)
  back : ∀ i, text' ((D i).trampoline + 8#32) = P.jump
  behind : ∀ i, text' ((D i).trampoline + 12#32) = (D i).site + 8#32
  same : ∀ x ∈ os, (∀ i, x ≠ (D i).site ∧ x ≠ (D i).site + 4#32) → text' x = text x

/-- What makes detours safe: the two words can be moved, detours do not overlap, and the program
reads no word of theirs as the target of a jump. -/
structure Safe (P : Processor σ) (D : ι → Detour) (os : Set Word) (text : Word → Word) : Prop where
  first : ∀ i, P.Movable (text (D i).site)
  second : ∀ i, P.Movable (text ((D i).site + 4#32))
  apart : ∀ i j, (D j).site ≠ (D i).site + 4#32
  literal : ∀ pc ∈ os, text pc = P.jump →
    pc + 4#32 ∈ os ∧ ∀ i, pc + 4#32 ≠ (D i).site ∧ pc + 4#32 ≠ (D i).site + 4#32

/-- The other code comes back at its trampoline, and the program cannot tell. `R l s s'` relates the
state of the program to the one with detours, after the detours `l`. -/
structure Unseen (P : Processor σ) (D : ι → Detour) (os : Set Word) (text text' : Word → Word)
    (hook : ι → σ → σ) (R : List ι → σ → σ → Prop) : Prop where
  returns : ∀ i s, P.Reaches text' ((D i).entry, s) ((D i).trampoline, hook i s)
  hooked : ∀ l i s s', R l s s' → R (l ++ [i]) s (hook i s')
  exec : ∀ pc ∈ os, ∀ l s s', R l s s' →
    (P.exec (text pc) pc s).1 = (P.exec (text pc) pc s').1 ∧
      R l (P.exec (text pc) pc s).2 (P.exec (text pc) pc s').2

/-- A run of the program within `os` that passes the sites `l`, and jumps between the two words of
none. -/
inductive Passes (P : Processor σ) (D : ι → Detour) (os : Set Word) (text : Word → Word)
    (x : Word × σ) : List ι → Word × σ → Prop where
  | refl : Passes P D os text x [] x
  | site {l y} (i) : Passes P D os text x l y → y.1 ∈ os → y.1 = (D i).site →
      Passes P D os text x (l ++ [i]) (P.step text y)
  | step {l y} : Passes P D os text x l y → y.1 ∈ os → (∀ i, y.1 ≠ (D i).site) →
      (∀ i, (P.step text y).1 ≠ (D i).site + 4#32) → Passes P D os text x l (P.step text y)

/-- Where the program is with detours: at the same address, or in a trampoline. -/
def SamePlace (D : ι → Detour) (pc pc' : Word) : Prop :=
  (pc' = pc ∧ ∀ i, pc ≠ (D i).site + 4#32) ∨
    ∃ i, pc = (D i).site + 4#32 ∧ pc' = (D i).trampoline + 4#32

theorem Processor.step_jump {x : Word × σ} (h : text x.1 = P.jump) :
    P.step text x = (text (x.1 + 4#32), x.2) := if_pos h

theorem Processor.step_exec {x : Word × σ} (h : text x.1 ≠ P.jump) :
    P.step text x = P.exec (text x.1) x.1 x.2 := if_neg h

theorem Processor.Reaches.one {x y : Word × σ} (h : P.step text x = y) : P.Reaches text x y :=
  Relation.ReflTransGen.single h

theorem Processor.Movable.step {pc : Word} {s : σ} (h : P.Movable (text pc)) :
    P.step text (pc, s) = (pc + 4#32, (P.exec (text pc) pc s).2) := by
  rw [Processor.step_exec h.plain]
  exact Prod.ext (h.next pc s) rfl

/-- A movable word does in a trampoline what it did at its site. -/
theorem Processor.Movable.moved {pc pc' : Word} {s : σ} (h : P.Movable (text pc))
    (hword : text' pc' = text pc) :
    P.step text' (pc', s) = (pc' + 4#32, (P.exec (text pc) pc s).2) := by
  have hmovable : P.Movable (text' pc') := hword ▸ h
  rw [hmovable.step, hword, h.same pc' pc]

theorem word_add_add (a : Word) : a + 4#32 + 4#32 = a + 8#32 ∧ a + 8#32 + 4#32 = a + 12#32 :=
  ⟨by bv_omega, by bv_omega⟩

/-- **A step onto a site**: the detour is made, and the first of the two words is executed in the
trampoline. -/
theorem detour_site (hpatched : Patched P D os text text') (hsafe : Safe P D os text)
    (hunseen : Unseen P D os text text' hook R) {l : List ι} {i : ι} {s s' : σ}
    (hos : (D i).site ∈ os) (hR : R l s s') :
    ∃ y', P.Reaches text' ((D i).site, s') y' ∧
      SamePlace D (P.step text ((D i).site, s)).1 y'.1 ∧
      R (l ++ [i]) (P.step text ((D i).site, s)).2 y'.2 := by
  have hjump : P.step text' ((D i).site, s') = ((D i).entry, s') := by
    rw [Processor.step_jump (hpatched.jumps i)]
    exact Prod.ext (hpatched.target i) rfl
  have hcopy := (hsafe.first i).moved (hpatched.first i) (s := hook i s')
  have hpath : P.Reaches text' ((D i).site, s')
      ((D i).trampoline + 4#32, (P.exec (text (D i).site) (D i).site (hook i s')).2) :=
    (Processor.Reaches.one hjump).trans
      ((hunseen.returns i s').trans (Processor.Reaches.one hcopy))
  refine ⟨_, hpath, ?_, ?_⟩
  · rw [(hsafe.first i).step]
    exact .inr ⟨i, rfl, rfl⟩
  · rw [(hsafe.first i).step]
    exact (hunseen.exec _ hos _ _ _ (hunseen.hooked l i s s' hR)).2

/-- **The step behind it**: the second word, and back. -/
theorem detour_back (hpatched : Patched P D os text text') (hsafe : Safe P D os text)
    (hunseen : Unseen P D os text text' hook R) {l : List ι} {i : ι} {s s' : σ}
    (hos : (D i).site + 4#32 ∈ os) (hR : R l s s') :
    ∃ y', P.Reaches text' ((D i).trampoline + 4#32, s') y' ∧
      SamePlace D (P.step text ((D i).site + 4#32, s)).1 y'.1 ∧
      R l (P.step text ((D i).site + 4#32, s)).2 y'.2 := by
  have hcopy := (hsafe.second i).moved (hpatched.second i) (s := s')
  have hback : P.step text' ((D i).trampoline + 4#32 + 4#32,
      (P.exec (text ((D i).site + 4#32)) ((D i).site + 4#32) s').2) =
      ((D i).site + 8#32, (P.exec (text ((D i).site + 4#32)) ((D i).site + 4#32) s').2) := by
    rw [(word_add_add _).1, Processor.step_jump (hpatched.back i)]
    refine Prod.ext ?_ rfl
    show text' ((D i).trampoline + 8#32 + 4#32) = _
    rw [(word_add_add _).2, hpatched.behind i]
  refine ⟨_, (Processor.Reaches.one hcopy).trans (Processor.Reaches.one hback), ?_, ?_⟩
  · rw [(hsafe.second i).step]
    refine .inl ⟨(word_add_add _).1.symm, fun j hj => ?_⟩
    rw [(word_add_add _).1] at hj
    refine hsafe.apart i j ?_
    have hsite : (D i).site + 8#32 = (D j).site + 4#32 := hj
    bv_omega
  · rw [(hsafe.second i).step]
    exact (hunseen.exec _ hos _ _ _ hR).2

/-- **A step elsewhere** is the same step. -/
theorem detour_elsewhere (hpatched : Patched P D os text text') (hsafe : Safe P D os text)
    (hunseen : Unseen P D os text text' hook R) {l : List ι} {pc : Word} {s s' : σ}
    (hos : pc ∈ os) (hsite : ∀ i, pc ≠ (D i).site) (hbehind : ∀ i, pc ≠ (D i).site + 4#32)
    (hR : R l s s') :
    (P.step text' (pc, s')).1 = (P.step text (pc, s)).1 ∧
      R l (P.step text (pc, s)).2 (P.step text' (pc, s')).2 := by
  have hword : text' pc = text pc := hpatched.same pc hos fun i => ⟨hsite i, hbehind i⟩
  by_cases hjump : text pc = P.jump
  · obtain ⟨hin, hfree⟩ := hsafe.literal pc hos hjump
    have hplain : P.step text (pc, s) = (text (pc + 4#32), s) := Processor.step_jump hjump
    have hother : P.step text' (pc, s') = (text' (pc + 4#32), s') :=
      Processor.step_jump (hword.trans hjump)
    rw [hplain, hother]
    exact ⟨hpatched.same _ hin hfree, hR⟩
  · have hjump' : text' pc ≠ P.jump := hword ▸ hjump
    have hplain : P.step text (pc, s) = P.exec (text pc) pc s := Processor.step_exec hjump
    have hother : P.step text' (pc, s') = P.exec (text' pc) pc s' := Processor.step_exec hjump'
    rw [hplain, hother]
    show (P.exec (text' pc) pc s').1 = _ ∧ R l _ (P.exec (text' pc) pc s').2
    rw [hword]
    obtain ⟨hnext, hafter⟩ := hunseen.exec pc hos l s s' hR
    exact ⟨hnext.symm, hafter⟩

/-- **The patched program runs as the program does**, by way of the detours it passes. -/
theorem detours_simulate (hpatched : Patched P D os text text') (hsafe : Safe P D os text)
    (hunseen : Unseen P D os text text' hook R) {l : List ι} {x y : Word × σ}
    (hrun : Passes P D os text x l y) (hx : ∀ i, x.1 ≠ (D i).site + 4#32) {s' : σ}
    (hR : R [] x.2 s') :
    ∃ y', P.Reaches text' (x.1, s') y' ∧ SamePlace D y.1 y'.1 ∧ R l y.2 y'.2 := by
  induction hrun with
  | refl => exact ⟨(x.1, s'), .refl, .inl ⟨rfl, hx⟩, hR⟩
  | @site l y i hrun hos hsite ih =>
      obtain ⟨⟨pc', t'⟩, hpath, hplace, hRy⟩ := ih
      obtain ⟨pc, t⟩ := y
      obtain rfl : pc = (D i).site := hsite
      rcases hplace with ⟨hpc, -⟩ | ⟨j, hj, -⟩
      · obtain rfl : pc' = (D i).site := hpc
        obtain ⟨y', hmore, hafter⟩ := detour_site hpatched hsafe hunseen hos hRy
        exact ⟨y', hpath.trans hmore, hafter⟩
      · exact absurd hj (hsafe.apart j i)
  | @step l y hrun hos hsite hstep ih =>
      obtain ⟨⟨pc', t'⟩, hpath, hplace, hRy⟩ := ih
      obtain ⟨pc, t⟩ := y
      rcases hplace with ⟨hpc, hbehind⟩ | ⟨i, hi, hpc⟩
      · obtain rfl : pc' = pc := hpc
        obtain ⟨hnext, hafter⟩ := detour_elsewhere hpatched hsafe hunseen hos hsite hbehind hRy
        exact ⟨_, hpath.tail rfl, .inl ⟨hnext, hstep⟩, hafter⟩
      · obtain rfl : pc' = (D i).trampoline + 4#32 := hpc
        obtain rfl : pc = (D i).site + 4#32 := hi
        obtain ⟨y', hmore, hafter⟩ := detour_back hpatched hsafe hunseen hos hRy
        exact ⟨y', hpath.trans hmore, hafter⟩

end

end OSExt.Lib
