import OSExt.Gui.DebugShell

/-!
# What the user reads

The shell refines a terminal of 24 rows: its framebuffer shows the rows of the terminal, and
what it showed each time a key was waited for are the pages the terminal has turned. A page is
turned before the first row of a text and behind each of the others. So when the first row of
a long text is the last one of the page, the row behind it is drawn below the screen, and the
page is turned then: this row nobody reads. All others are read, in order.
-/

namespace OSExt.Gui

open Lib Libk Drivers

/-! ## The terminal -/

/-- The pages turned so far, and the rows on the screen. -/
structure Terminal where
  pages : List (List Row)
  rows : List Row

namespace Terminal

/-- All rows that could be read. -/
def seen (T : Terminal) : List Row := T.pages.flatten ++ T.rows

/-- A full page is turned. -/
def turn (T : Terminal) : Terminal :=
  if 24 ≤ T.rows.length then ⟨T.pages ++ [T.rows], []⟩ else T

/-- One row more, if there is room for it. -/
def put (T : Terminal) (r : Row) : Terminal :=
  if T.rows.length < 24 then ⟨T.pages, T.rows ++ [r]⟩ else T

def putParts (T : Terminal) (l : List Row) : Terminal := l.foldl (fun T r => (T.put r).turn) T

/-- A text, from its first row on. -/
def print (T : Terminal) (c : Colour) (text : List UInt8) : Terminal :=
  (T.turn.put ⟨0, text.take 32, c⟩).putParts (partsOf c (text.drop 32))

/-- The text has a second row, and its first one is the last of the page. -/
def Loses (T : Terminal) (text : List UInt8) : Prop :=
  T.rows.length = 23 ∧ 32 < text.length

instance (T : Terminal) (text : List UInt8) : Decidable (T.Loses text) :=
  inferInstanceAs (Decidable (_ ∧ _))

end Terminal

/-- `println` is white. -/
def Print.colour (p : Print) : Colour := p.rgb.getD white

def Print.text (p : Print) : List UInt8 := rendered p.va p.string 0

/-- The terminal after some texts. -/
def Terminal.prints (T : Terminal) (ps : List Print) : Terminal :=
  ps.foldl (fun T p => T.print p.colour p.text) T

/-- No text has its second row below the screen. -/
def NoneLost : Terminal → List Print → Prop
  | _, [] => True
  | T, p :: ps => ¬ T.Loses p.text ∧ NoneLost (T.print p.colour p.text) ps

/-- The shell displays what the terminal does. -/
structure Displays (m : Machine) (T : Terminal) (s : Shell) : Prop where
  line : s.line.toNat = 10 * T.rows.length
  rows : T.rows.length ≤ 24
  own : Shows m T.rows (s.own m)
  pages : ∀ p ∈ T.pages, p.length = 24
  barriers : List.Forall₂ (Shows m) T.pages s.barriers.reverse

/-- What printing leaves alone. -/
structure KeepsRest (m : Machine) (s s' : Shell) : Prop where
  shellFramebuffer : s'.shellFramebuffer = s.shellFramebuffer
  lcdUpbase : s'.lcdUpbase = s.lcdUpbase
  frames : ∀ a ≠ m.physical s.shellFramebuffer, s'.frames a = s.frames a
  behind : ∀ i, 320 * 240 ≤ i → s'.own m i = s.own m i

section

variable {m : Machine} {T : Terminal} {s s1 s2 : Shell} {c : Colour} {text : List UInt8}

theorem KeepsRest.refl (s : Shell) : KeepsRest m s s :=
  ⟨rfl, rfl, fun _ _ => rfl, fun _ _ => rfl⟩

theorem KeepsRest.trans (h : KeepsRest m s s1) (h' : KeepsRest m s1 s2) : KeepsRest m s s2 := by
  refine ⟨h'.shellFramebuffer.trans h.shellFramebuffer, h'.lcdUpbase.trans h.lcdUpbase,
    fun a ha => ?_, fun i hi => (h'.behind i hi).trans (h.behind i hi)⟩
  rw [h'.frames a (by rwa [h.shellFramebuffer]), h.frames a ha]

/-! ## Writing and clearing -/

/-- **The text is written** at `line`, which moves on. -/
theorem write_eq {str : CString} {room n fuel : Nat} (c : Colour) (xx : Int)
    (hline : s.line.toNat = 10 * n) (hn : n ≤ 24) (hspells : Spells room str text)
    (hroom : text.length < room) (hlen : text.length ≤ 190) (hfuel : text.length < fuel)
    (hxx : 0 ≤ xx ∧ xx ≤ 10) :
    ∃ f, s.write m str xx c fuel =
        some { s.setOwn m (f (s.own m)) with line := s.line + 10 } ∧
      (s.line + 10).toNat = 10 * (n + 1) ∧
      Paints (showing m.hwW (plain c))
        (On m.hwW (InText (asciiPixel m.charset) text xx (10 * n))) f := by
  have hyy : s.line.toInt = 10 * n := by
    rw [BitVec.toInt_eq_toNat_of_lt (by omega), hline]
    push_cast
    rfl
  have hscreen : -2147483648 ≤ 10 * (n : Int) ∧ 10 * (n : Int) + 10 ≤ 2147483648 := by omega
  obtain ⟨f, hf, hpaints⟩ := paints_writeString (asciiPixel m.charset) hscreen text fuel str xx
    hspells.chars (hspells.rest _ (Nat.le_refl _) hroom) hspells.zero hfuel (by omega) (by omega)
  refine ⟨f, ?_, ?_, hpaints⟩
  · unfold Shell.write framebufferWrite10pstringAscii
    rw [hyy, hf]
  · rw [BitVec.toNat_add, hline]
    show (10 * n + 10) % 2 ^ 32 = _
    omega

theorem own_written (buff : Framebuffer) (line : Word) :
    ({ s.setOwn m buff with line := line } : Shell).own m = buff :=
  Function.update_self ..

theorem keepsRest_written {v : Framebuffer} {R : Nat → Nat → Prop} {f : Framebuffer → Framebuffer}
    (hpaints : Paints v (On m.hwW R) f) (line : Word) :
    KeepsRest m s { s.setOwn m (f (s.own m)) with line := line } := by
  refine ⟨rfl, rfl, fun _ ha => Function.update_of_ne ha _ _, fun i hi => ?_⟩
  rw [own_written]
  exact (hpaints _ i).2 fun hon => absurd hon.1 (by omega)

/-- **The page is turned** when the last row is used up. -/
theorem turnPage_full {framebuffer : Word} (hline : 240 ≤ s.line.toNat)
    (hrows : T.rows.length = 24) (hown : Shows m T.rows (s.own m))
    (hpages : ∀ p ∈ T.pages, p.length = 24)
    (hbarriers : List.Forall₂ (Shows m) T.pages s.barriers.reverse)
    (hsame : m.physical framebuffer = m.physical s.shellFramebuffer) :
    Displays m ⟨T.pages ++ [T.rows], []⟩ (s.turnPage m framebuffer) ∧
      KeepsRest m s (s.turnPage m framebuffer) := by
  have hge : s.line ≥ 240 := BitVec.le_def.mpr hline
  unfold Shell.turnPage
  rw [if_pos hge]
  have hcleared : ({ ({ s with barriers := s.own m :: s.barriers }.clear m framebuffer) with
      line := 0 } : Shell).own m = fun i => if i < 320 * 240 then 0 else s.own m i := by
    show Function.update s.frames (m.physical framebuffer) _ (m.physical s.shellFramebuffer) = _
    rw [hsame, Function.update_self]
    rfl
  refine ⟨⟨rfl, by simp, ?_, ?_, ?_⟩, rfl, rfl, fun a ha => ?_, fun i hi => ?_⟩
  · rw [hcleared]
    exact shows_nil _
  · intro p hp
    rcases List.mem_append.mp hp with hp | hp
    · exact hpages p hp
    · rw [List.mem_singleton.mp hp]
      exact hrows
  · show List.Forall₂ (Shows m) (T.pages ++ [T.rows]) (s.own m :: s.barriers).reverse
    rw [List.reverse_cons]
    exact List.rel_append hbarriers (List.Forall₂.cons hown List.Forall₂.nil)
  · refine Function.update_of_ne ?_ _ _
    rw [hsame]
    exact ha
  · rw [hcleared]
    exact if_neg (by omega)

theorem Displays.turnPage (h : Displays m T s) (framebuffer : Word)
    (hsame : m.physical framebuffer = m.physical s.shellFramebuffer) :
    Displays m T.turn (s.turnPage m framebuffer) ∧
      KeepsRest m s (s.turnPage m framebuffer) := by
  have hline := h.line
  unfold Terminal.turn
  by_cases hfull : 24 ≤ T.rows.length
  · rw [if_pos hfull]
    exact turnPage_full (by omega) (Nat.le_antisymm h.rows hfull) h.own h.pages h.barriers hsame
  · have hlt : ¬ s.line ≥ 240 := by
      intro hge
      have hle : (240 : Word).toNat ≤ s.line.toNat := BitVec.le_def.mp hge
      rw [show (240 : Word).toNat = 240 from rfl] at hle
      omega
    unfold Shell.turnPage
    rw [if_neg hfull, if_neg hlt]
    exact ⟨h, .refl s⟩

/-- **A row on the screen.** -/
theorem Displays.write {str : CString} {room fuel indent : Nat} {xx : Int} (h : Displays m T s)
    (c : Colour) (hrows : T.rows.length < 24) (hspells : Spells room str text)
    (hroom : text.length < room) (hlen : text.length ≤ 190) (hfuel : text.length < fuel)
    (hindent : indent ≤ 1) (hxx : xx = 10 * indent) :
    ∃ s', s.write m str xx c fuel = some s' ∧
      Displays m (T.put ⟨indent, text.take (32 - indent), c⟩) s' ∧ KeepsRest m s s' := by
  obtain ⟨f, hwrite, hline, hpaints⟩ := write_eq (m := m) c xx h.line h.rows hspells
    hroom hlen hfuel (by omega)
  refine ⟨_, hwrite, ?_, keepsRest_written hpaints _⟩
  unfold Terminal.put
  rw [if_pos hrows]
  refine ⟨?_, ?_, ?_, h.pages, h.barriers⟩
  · show (s.line + 10).toNat = _
    rw [hline, List.length_append]
    rfl
  · rw [List.length_append]
    exact hrows
  · rw [own_written]
    exact h.own.snoc (by omega) hxx rfl hpaints

/-- **A later row**, which may be below the screen. -/
theorem Displays.writePart {str : CString} {room fuel : Nat} (h : Displays m T s) (c : Colour)
    (toClear : Shell → Word) (hspells : Spells room str text) (hroom : text.length < room)
    (hlen : text.length ≤ 190) (hfuel : text.length < fuel)
    (hsame : ∀ s', KeepsRest m s s' →
      m.physical (toClear s') = m.physical s'.shellFramebuffer) :
    ∃ s', s.write m str 10 c fuel = some s' ∧
      Displays m (T.put ⟨1, text.take 31, c⟩).turn (s'.turnPage m (toClear s')) ∧
      KeepsRest m s (s'.turnPage m (toClear s')) := by
  by_cases hrows : T.rows.length < 24
  · obtain ⟨s', hwrite, hdisplays, hkeeps⟩ :=
      h.write c hrows hspells hroom hlen hfuel (Nat.le_refl 1) rfl
    obtain ⟨hturned, hkeeps'⟩ := hdisplays.turnPage _ (hsame s' hkeeps)
    exact ⟨s', hwrite, hturned, hkeeps.trans hkeeps'⟩
  · -- `line` is 240 already
    have hfull : T.rows.length = 24 := Nat.le_antisymm h.rows (by omega)
    obtain ⟨f, hwrite, hline, hpaints⟩ := write_eq (m := m) c 10 h.line h.rows
      hspells hroom hlen hfuel (by omega)
    have hkeeps : KeepsRest m s { s.setOwn m (f (s.own m)) with line := s.line + 10 } :=
      keepsRest_written hpaints _
    have hown : Shows m T.rows
        (({ s.setOwn m (f (s.own m)) with line := s.line + 10 } : Shell).own m) := by
      rw [own_written]
      exact h.own.below (by omega) hpaints
    obtain ⟨hturned, hkeeps'⟩ := turnPage_full (T := T) (by rw [hline]; omega) hfull hown h.pages
      h.barriers (hsame _ hkeeps)
    refine ⟨_, hwrite, ?_, hkeeps.trans hkeeps'⟩
    unfold Terminal.put Terminal.turn
    rw [if_neg hrows, if_pos (by omega)]
    exact hturned

/-! ## Whole texts -/

/-- **The loop over the later rows.** -/
theorem Displays.writeParts {n : Nat} {toClear : Shell → Word}
    (hsame : ∀ s', KeepsRest m s s' →
      m.physical (toClear s') = m.physical s'.shellFramebuffer) :
    ∀ (text : List UInt8) (rounds : Nat) {room : Nat} {str : CString} {T : Terminal} {s1 : Shell},
      KeepsRest m s s1 → Displays m T s1 → Spells room str text → text.length < room →
      room ≤ 190 → text.length < n → text.length < rounds →
      ∃ s', Gui.writeParts m toClear c n rounds str s1 = some s' ∧
        Displays m (T.putParts (partsOf c text)) s' ∧ KeepsRest m s s' := by
  intro text
  induction text using partsOf.induct with
  | case1 =>
      intro rounds room str T s1 hkeeps h hspells hroom hmax _ hrounds
      obtain ⟨rounds, rfl⟩ := Nat.exists_eq_add_one_of_ne_zero (Nat.ne_of_gt hrounds)
      refine ⟨s1, ?_, ?_, hkeeps⟩
      · rw [Gui.writeParts, hspells.kStrlen hroom hmax]
        rfl
      · rw [partsOf, if_pos rfl]
        exact h
  | case2 text hne ih =>
      intro rounds room str T s1 hkeeps h hspells hroom hmax hfuel hrounds
      obtain ⟨rounds, rfl⟩ :=
        Nat.exists_eq_add_one_of_ne_zero (Nat.ne_of_gt (Nat.zero_lt_of_lt hrounds))
      have hpos : 0 < text.length := List.length_pos_iff.mpr hne
      obtain ⟨s2, hwrite, hturned, hkeeps'⟩ := h.writePart c toClear hspells
        hroom (by omega) hfuel fun s' hs' => hsame s' (hkeeps.trans hs')
      obtain ⟨add, hadd⟩ : ∃ add, add = if text.length > 31 then 31 else text.length := ⟨_, rfl⟩
      have hdrop : text.drop 31 = text.drop add := by
        rw [hadd]
        split
        · rfl
        · rw [List.drop_eq_nil_of_le (by omega), List.drop_length]
      have hle : 0 < add ∧ add ≤ text.length := by
        rw [hadd]
        split
        · omega
        · omega
      have hspells' := hspells.drop add
      rw [← hdrop] at hspells'
      have hlen : (text.drop 31).length = text.length - add := by rw [hdrop, List.length_drop]
      obtain ⟨s', hloop, hdisplays, hkeeps''⟩ := ih rounds (hkeeps.trans hkeeps') hturned
        hspells' (by omega) (by omega) (by omega) (by omega)
      refine ⟨s', ?_, ?_, hkeeps''⟩
      · rw [Gui.writeParts, hspells.kStrlen hroom hmax, if_pos hpos, hwrite]
        simp only [← hadd]
        exact hloop
      · rw [partsOf, if_neg hne]
        exact hdisplays

/-- **One text.** -/
theorem Displays.printText {str : CString} (h : Displays m T s) (c : Colour)
    (toClear : Shell → Word) (fuel : Nat) (hspells : Spells 190 str text) (hlen : text.length < 190)
    (hfuel : text.length < fuel)
    (hsame : ∀ s', KeepsRest m s s' →
      m.physical (toClear s') = m.physical s'.shellFramebuffer) :
    ∃ s', Gui.printText m toClear c str fuel s = some s' ∧ Displays m (T.print c text) s' ∧
      KeepsRest m s s' := by
  obtain ⟨hturned, hkeeps⟩ := h.turnPage s.shellFramebuffer rfl
  have hroom : T.turn.rows.length < 24 := by
    unfold Terminal.turn
    split
    · exact Nat.succ_pos _
    · omega
  obtain ⟨s1, hwrite, hdisplays, hkeeps'⟩ :=
    hturned.write c hroom hspells hlen (Nat.le_of_lt hlen) hfuel (Nat.zero_le 1) rfl
  have hrest := hspells.drop 32
  have hlen' : (text.drop 32).length = text.length - 32 := List.length_drop
  -- the text may be shorter than a row, and is nothing but NULs from there on
  obtain ⟨s', hloop, hprinted, hkeeps''⟩ := Displays.writeParts (c := c) (n := fuel) hsame
    (text.drop 32) fuel (hkeeps.trans hkeeps') hdisplays hrest (by omega) (by omega) (by omega)
    (by omega)
  refine ⟨s', ?_, hprinted, hkeeps''⟩
  unfold Gui.printText
  rw [show (0 : Int) = 10 * (0 : Nat) from rfl, hwrite]
  exact hloop

/-- **The text of a format** is in the buffer once there is enough fuel. -/
theorem format_rendered (stack : CString) {string : List UInt8} {va : Nat → Arg}
    (hfit : (rendered va string 0).length ≤ 178) :
    ∃ n, ∀ fuel ≥ n, ∃ str, format stack string va fuel = some str ∧
      Spells 190 str (rendered va string 0) := by
  have hunwrapped : ∀ (qs : List Piece) (before : Nat), before + (textOf qs).length ≤ 178 →
      Unwrapped 180 before qs := by
    intro qs
    induction qs with
    | nil => exact fun _ _ => trivial
    | cons q qs ih =>
        intro before hbefore
        rw [textOf_cons, List.length_append] at hbefore
        refine ⟨fun _ => ?_, ih _ (by omega)⟩
        rw [Nat.mod_eq_of_lt (by omega)]
        omega
  have hprints : Prints string va 180 := (sprintf_prints_iff (by omega) (by omega)).mpr
    (hunwrapped (pieces va string 0) 0 (by rw [textOf_pieces_eq]; omega))
  obtain ⟨n, hended, hstored⟩ := hprints
  refine ⟨n, fun fuel hge => ?_⟩
  obtain ⟨more, rfl⟩ := Nat.exists_eq_add_of_le hge
  have hsame := sprintfLoop_more hended more
  refine ⟨formatted stack (rendered va string 0).zipIdx, ?_,
    spells_formatted stack (zero_not_mem_rendered va string 0)⟩
  unfold format
  rw [hsame, hended, ← hstored, sprintfSafe, sprintfSafeVa, sprintfSafeVa, hsame]
  rfl

/-- The fuel is enough for the call. -/
def Print.Ready (stack : CString) (fuel : Nat) (p : Print) : Prop :=
  p.text.length < fuel ∧
    ∃ str, format stack p.string p.va fuel = some str ∧ Spells 190 str p.text

theorem exists_fuel (stack : CString) : ∀ ps : List Print, (∀ p ∈ ps, p.text.length ≤ 178) →
    ∃ n, ∀ fuel ≥ n, ∀ p ∈ ps, p.Ready stack fuel := by
  intro ps
  induction ps with
  | nil => exact fun _ => ⟨0, fun fuel _ p hp => absurd hp List.not_mem_nil⟩
  | cons p ps ih =>
      intro hfits
      have hfit := hfits p List.mem_cons_self
      obtain ⟨n, hn⟩ := format_rendered stack hfit
      obtain ⟨n', hn'⟩ := ih fun q hq => hfits q (List.mem_cons_of_mem p hq)
      refine ⟨max (max n n') 179, fun fuel hge q hq => ?_⟩
      rcases List.mem_cons.mp hq with rfl | hq
      · exact ⟨by omega, hn fuel (by omega)⟩
      · exact hn' fuel (by omega) q hq

/-- **One call.** -/
theorem Displays.run {stack : CString} {fuel : Nat} {p : Print} (h : Displays m T s)
    (hfit : p.text.length ≤ 178) (hready : p.Ready stack fuel)
    (hlcd : p.rgb = none → m.physical s.lcdUpbase = m.physical s.shellFramebuffer) :
    ∃ s', p.run m stack fuel s = some s' ∧ Displays m (T.print p.colour p.text) s' ∧
      KeepsRest m s s' := by
  obtain ⟨hfuel, str, hformat, hspells⟩ := hready
  unfold Print.run Print.colour
  cases hrgb : p.rgb with
  | none =>
      obtain ⟨s', hprint, hrest⟩ := h.printText white Shell.lcdUpbase fuel hspells (by omega) hfuel
        fun s' hkeeps => by
          rw [hkeeps.lcdUpbase, hkeeps.shellFramebuffer]
          exact hlcd hrgb
      refine ⟨s', ?_, hrest⟩
      simp only [shellPrintln, hformat]
      exact hprint
  | some c =>
      obtain ⟨s', hprint, hrest⟩ := h.printText c Shell.shellFramebuffer fuel hspells (by omega)
        hfuel fun s' _ => rfl
      refine ⟨s', ?_, hrest⟩
      simp only [shellPrintlnRgb, hformat]
      exact hprint

/-- **All calls.** -/
theorem Displays.prints {stack : CString} {fuel : Nat} : ∀ {ps : List Print} {T : Terminal}
    {s : Shell}, (∀ p ∈ ps, p.text.length ≤ 178) → (∀ p ∈ ps, p.Ready stack fuel) →
    Displays m T s →
    ((∃ p ∈ ps, p.rgb = none) → m.physical s.lcdUpbase = m.physical s.shellFramebuffer) →
    ∃ s', runPrints m stack fuel ps s = some s' ∧ Displays m (T.prints ps) s' ∧
      KeepsRest m s s' := by
  intro ps
  induction ps with
  | nil => exact fun {T s} _ _ h _ => ⟨s, rfl, h, .refl s⟩
  | cons p ps ih =>
      intro T s hfits hready h hlcd
      obtain ⟨s1, hrun, hdisplays, hkeeps⟩ := h.run (hfits p List.mem_cons_self)
        (hready p List.mem_cons_self) fun hrgb => hlcd ⟨p, List.mem_cons_self, hrgb⟩
      obtain ⟨s', hrest, hdisplays', hkeeps'⟩ := ih
        (fun q hq => hfits q (List.mem_cons_of_mem p hq))
        (fun q hq => hready q (List.mem_cons_of_mem p hq)) hdisplays fun hex => by
          obtain ⟨q, hq, hrgb⟩ := hex
          rw [hkeeps.lcdUpbase, hkeeps.shellFramebuffer]
          exact hlcd ⟨q, List.mem_cons_of_mem p hq, hrgb⟩
      refine ⟨s', ?_, hdisplays', hkeeps.trans hkeeps'⟩
      rw [runPrints, hrun]
      exact hrest

/-! ## What is lost -/

theorem Terminal.seen_turn (T : Terminal) : T.turn.seen = T.seen := by
  unfold turn
  split
  · simp [seen]
  · rfl

theorem Terminal.turn_rows (h : T.rows.length ≤ 24) : T.turn.rows.length < 24 := by
  unfold turn
  split
  · exact Nat.succ_pos _
  · omega

theorem Terminal.seen_put (h : T.rows.length < 24) (r : Row) :
    (T.put r).seen = T.seen ++ [r] ∧ (T.put r).rows.length = T.rows.length + 1 := by
  unfold put
  rw [if_pos h]
  exact ⟨(List.append_assoc ..).symm, List.length_append⟩

theorem Terminal.put_full (h : 24 ≤ T.rows.length) (r : Row) : T.put r = T :=
  if_neg (Nat.not_lt.mpr h)

/-- From a page with room on, all rows are seen. -/
theorem Terminal.seen_putParts : ∀ {T : Terminal} (l : List Row), T.rows.length < 24 →
    (T.putParts l).seen = T.seen ++ l ∧ (T.putParts l).rows.length < 24 := by
  intro T l
  induction l generalizing T with
  | nil => exact fun h => ⟨(List.append_nil _).symm, h⟩
  | cons r l ih =>
      intro h
      obtain ⟨hseen, hrows⟩ := seen_put h r
      obtain ⟨hrest, hlt⟩ := ih (turn_rows (T := T.put r) (by omega))
      refine ⟨?_, hlt⟩
      rw [show T.putParts (r :: l) = (T.put r).turn.putParts l from rfl, hrest, seen_turn, hseen,
        List.append_assoc]
      rfl

/-- **What is seen of a text.** -/
theorem Terminal.seen_print (h : T.rows.length ≤ 24) (c : Colour) (text : List UInt8) :
    (T.print c text).seen = T.seen ++ (if T.Loses text then (rowsOf c text).eraseIdx 1
      else rowsOf c text) ∧ (T.print c text).rows.length ≤ 24 := by
  obtain ⟨hseen, hrows⟩ := seen_put (turn_rows h) ⟨0, text.take 32, c⟩
  rw [seen_turn] at hseen
  by_cases hroom : T.turn.rows.length < 23
  · -- there is room for a second row
    have hkeeps : ¬ T.Loses text := by
      intro hloses
      unfold turn at hroom
      rw [if_neg (by have := hloses.1; omega), hloses.1] at hroom
      exact absurd hroom (by decide)
    obtain ⟨hparts, hlt⟩ := seen_putParts (T := T.turn.put ⟨0, text.take 32, c⟩)
      (partsOf c (text.drop 32)) (by omega)
    refine ⟨?_, Nat.le_of_lt hlt⟩
    rw [if_neg hkeeps, print, hparts, hseen, List.append_assoc]
    rfl
  · -- the first row is the last of the page
    have hlast : T.turn.rows.length = 23 := by
      have hlt := turn_rows h
      omega
    have h23 : T.rows.length = 23 := by
      unfold turn at hlast
      split at hlast
      · exact absurd hlast (Nat.succ_ne_zero 22).symm
      · exact hlast
    cases hparts : partsOf c (text.drop 32) with
    | nil =>
        have hshort : ¬ T.Loses text := by
          intro hloses
          have hlong := hloses.2
          rw [partsOf, if_neg] at hparts
          · exact List.cons_ne_nil _ _ hparts
          · intro hnil
            have hlen := congrArg List.length hnil
            rw [List.length_drop, List.length_nil] at hlen
            omega
        unfold print
        rw [if_neg hshort, rowsOf, hparts]
        refine ⟨hseen, ?_⟩
        show (T.turn.put _).rows.length ≤ 24
        omega
    | cons r l =>
        have hloses : T.Loses text := by
          refine ⟨h23, ?_⟩
          by_contra hshort
          rw [List.drop_eq_nil_of_le (by omega), partsOf, if_pos rfl] at hparts
          exact List.cons_ne_nil _ _ hparts.symm
        obtain ⟨hrest, hlt⟩ := seen_putParts (T := (T.turn.put ⟨0, text.take 32, c⟩).turn) l
          (turn_rows (by omega))
        have hput := put_full (T := T.turn.put ⟨0, text.take 32, c⟩) (by omega) r
        unfold print
        rw [if_pos hloses, rowsOf, hparts,
          show (T.turn.put ⟨0, text.take 32, c⟩).putParts (r :: l) =
            ((T.turn.put ⟨0, text.take 32, c⟩).put r).turn.putParts l from rfl, hput]
        refine ⟨?_, Nat.le_of_lt hlt⟩
        rw [hrest, seen_turn, hseen, List.append_assoc]
        rfl

/-- All rows of the texts. -/
def allRows (ps : List Print) : List Row := ps.flatMap fun p => rowsOf p.colour p.text

theorem Terminal.seen_prints : ∀ {ps : List Print} {T : Terminal}, T.rows.length ≤ 24 →
    ((T.prints ps).seen = T.seen ++ allRows ps ↔ NoneLost T ps) ∧
      (T.prints ps).seen.length ≤ (T.seen ++ allRows ps).length := by
  intro ps
  induction ps with
  | nil =>
      exact fun {T} _ =>
        ⟨iff_of_true (List.append_nil _).symm trivial, by simp [prints, allRows]⟩
  | cons p ps ih =>
      intro T h
      obtain ⟨hseen, hrows⟩ := seen_print h p.colour p.text
      obtain ⟨hall, hlen⟩ := ih hrows
      have hcons : allRows (p :: ps) = rowsOf p.colour p.text ++ allRows ps := rfl
      rw [show T.prints (p :: ps) = (T.print p.colour p.text).prints ps from rfl, hcons,
        ← List.append_assoc, NoneLost]
      by_cases hloses : T.Loses p.text
      · -- a row less than there are, whatever follows
        rw [if_pos hloses] at hseen
        have hshort : ((rowsOf p.colour p.text).eraseIdx 1).length + 1 =
            (rowsOf p.colour p.text).length := by
          refine List.length_eraseIdx_add_one ?_
          have hne : p.text.drop 32 ≠ [] := by
            intro hnil
            have hzero := congrArg List.length hnil
            rw [List.length_drop, List.length_nil] at hzero
            have hlong := hloses.2
            omega
          rw [rowsOf, partsOf, if_neg hne]
          simp
        rw [hseen] at hlen
        simp only [List.length_append] at hlen ⊢
        refine ⟨iff_of_false (fun heq => ?_) fun hnone => hnone.1 hloses, by omega⟩
        have hsame := congrArg List.length heq
        simp only [List.length_append] at hsame
        omega
      · rw [if_neg hloses] at hseen
        rw [hseen] at hall hlen
        exact ⟨hall.trans ⟨fun hnone => ⟨hloses, hnone⟩, And.right⟩, hlen⟩

/-- A shell on a black screen, with the page blocks behind. -/
def blackScreen : Shell where
  line := 0
  shellFramebuffer := 0xec000000
  lcdUpbase := 0x10000000
  frames := fun _ _ => 0
  barriers := []

/-- A screen by columns; both addresses are those of one framebuffer. -/
def oneScreen : Machine where
  hwW := true
  charset := fun _ => 0xff
  physical := fun a => if a = 0xec000000 then 0x10000000 else a

/-- `os`, and ten digits in green. -/
def twoTexts : List Print :=
  [⟨none, [111, 115], tenDigits⟩, ⟨some ⟨0, 255, 0⟩, [37, 115], tenDigits⟩]

end

end OSExt.Gui
