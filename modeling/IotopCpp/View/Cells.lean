import IotopCpp.View.ColorPair
import IotopCpp.View.Rows

/-!
# What a window is given

`glyph::print` and `glyph_string::print` of `cxxcurses/print/`: a glyph turns its colour and
its attributes on, adds its character, and sets the window back to normal.  So there are two
things that last from one line to the next, the table of colour pairs and what is turned on
in the window; and a line is to depend on neither.

A character reaches the window as a `chtype`, which has room for attributes above the
character.  The conversion keeps the sign of the `char`.

## Main definitions

* `Curses` — how a window takes attributes, of which the results assume only that `wattrset`
  forgets what was on.
* `Numbered.print`, `send` — printing, and a line that is formatted and printed.
* `cellOf` — what a glyph with colours is on a window.

## Main results

* `cells_of_run` — **what is on a window is what was sent to it**, glyph by glyph, whatever
  came before.
* `plain_row_iff` — the characters of a row carry no attributes of their own exactly when
  what is printed of the names in it is ASCII.
-/

namespace IotopCpp
namespace Cxxcurses

open Interning Runs ViewCurses

/-! ### Characters and attributes -/

/-- `chtype`. -/
abbrev Chtype := BitVec 32

def aNormal : Chtype := 0#32

/-- `A_CHARTEXT` and `A_COLOR`: the bits of the character, and of the colour pair. -/
def aChartext : Chtype := 0xFF#32

def aColor : Chtype := 0xFF00#32

/-- `COLOR_PAIR(n)`. -/
def colorPairAttr (n : ℕ) : Chtype := BitVec.ofNat 32 n <<< 8 &&& aColor

/-- `static_cast<chtype>(attr)`. -/
def Attribute.chtype : Attribute → Chtype
  | .normal => aNormal
  | .standout => 1#32 <<< 16
  | .underline => 1#32 <<< 17
  | .reverse => 1#32 <<< 18
  | .blink => 1#32 <<< 19
  | .dim => 1#32 <<< 20
  | .bold => 1#32 <<< 21
  | .invisible => 1#32 <<< 23
  | .protect => 1#32 <<< 24

/-- `static_cast<chtype>(char_)`, of a `char` that has a sign. -/
def charChtype (c : UInt8) : Chtype := c.toBitVec.signExtend 32

/-- No attribute comes with a character exactly when the character is ASCII. -/
theorem charChtype_plain_iff (c : UInt8) :
    charChtype c &&& ~~~aChartext = aNormal ↔ c.toNat < 128 := by
  have hall : ∀ b : BitVec 8, b.signExtend 32 &&& ~~~aChartext = aNormal ↔ b.toNat < 128 := by
    decide +kernel
  exact hall c.toBitVec

/-! ### Printing -/

/-- How a window takes attributes: `wattron` turns some on, and `wattrset` sets them all.
What is turned on is a `Pen`, of which nothing else is known. -/
structure Curses (Pen : Type) where
  wattron : Pen → Chtype → Pen
  wattrset : Chtype → Pen

/-- What is turned on in a window, and the characters added to it, each with what was on. -/
structure Window (Pen : Type) where
  pen : Pen
  cells : List (Pen × Chtype)

variable {Pen : Type} (curses : Curses Pen)

/-- `apply_attributes`. -/
def applyAttributes (pen : Pen) (attrs : List Attribute) : Pen :=
  attrs.foldl (fun pen attr => curses.wattron pen attr.chtype) pen

/-- `glyph::print`. -/
def Numbered.Glyph.print (win : Window Pen) (g : Numbered.Glyph) : Window Pen :=
  let pen := curses.wattron win.pen (colorPairAttr g.pairNumber)
  let pen := applyAttributes curses pen g.attributes
  { pen := curses.wattrset aNormal, cells := win.cells ++ [(pen, charChtype g.char)] }

/-- `glyph_string::print`. -/
def Numbered.print (win : Window Pen) (glyphs : List Numbered.Glyph) : Window Pen :=
  glyphs.foldl (Numbered.Glyph.print curses) win

/-- The table of pairs, and the window. -/
structure Screen (Pen : Type) where
  palette : Palette
  win : Window Pen

/-- A line that is formatted and printed. -/
def send (s : Screen Pen) (call : List Bytes × Bytes) : Option (Screen Pen) :=
  (Numbered.parse call.1 call.2 [] s.palette).map fun nf =>
    { palette := nf.palette, win := Numbered.print curses s.win nf.parsed }

/-- A terminal with colours has come up. -/
def Screen.start : Screen Pen where
  palette := initColorPairs {}
  win := { pen := curses.wattrset aNormal, cells := [] }

/-! ### What the glyphs are on the window -/

/-- The number of a pair on such a terminal. -/
def pairNumber (color : ColorPair) : ℕ := formatPairs.idxOf color + 1

/-- A glyph on a window in which nothing is turned on: its colour and its attributes are
turned on for it, one after another, and its character is added. -/
def cellOf (g : Glyph) : Pen × Chtype :=
  (applyAttributes curses
    (curses.wattron (curses.wattrset aNormal) (colorPairAttr (pairNumber g.color))) g.attributes,
    charChtype g.char)

/-- The glyphs a line is formatted to. -/
def glyphsOf (call : List Bytes × Bytes) : GlyphString :=
  (parse call.1 call.2 []).elim [] Formatted.parsed

/-- A number that shows a colour is the number of its pair. -/
theorem pairNumber_eq {p : Palette} (hp : p.initializedPairs = formatPairs) {n : ℕ}
    {color : ColorPair} (h : value p.initializedPairs n = some color) : n = pairNumber color := by
  rw [hp] at h
  have hnodup : formatPairs.Nodup := by decide
  refine value_inj hnodup h ?_
  rw [pairNumber, value_succ]
  exact List.getElem?_idxOf (mem_of_value h)

/-- **Nothing leaks from one glyph to the next.** -/
theorem print_eq {p : Palette} (hp : p.initializedPairs = formatPairs) {win : Window Pen}
    (hpen : win.pen = curses.wattrset aNormal) {glyphs : GlyphString} {nglyphs : List Numbered.Glyph}
    (h : List.Forall₂ (Shows p) glyphs nglyphs) :
    Numbered.print curses win nglyphs
      = { pen := curses.wattrset aNormal, cells := win.cells ++ glyphs.map (cellOf curses) } := by
  induction h generalizing win with
  | nil =>
    rw [List.map_nil, List.append_nil, ← hpen]
    rfl
  | @cons g ng glyphs nglyphs hg _ ih =>
    have hcell : Numbered.Glyph.print curses win ng
        = { pen := curses.wattrset aNormal, cells := win.cells ++ [cellOf curses g] } := by
      rw [Numbered.Glyph.print, cellOf, hpen, hg.char, hg.attributes, pairNumber_eq hp hg.color]
    have htail : Numbered.print curses
        { pen := curses.wattrset aNormal, cells := win.cells ++ [cellOf curses g] } nglyphs = _ :=
      ih rfl
    rw [List.append_assoc, List.singleton_append] at htail
    rw [Numbered.print, List.foldl_cons, hcell, List.map_cons]
    exact htail

/-- Nothing is turned on, and the pairs are those the terminal came up with. -/
structure Screen.Idle (s : Screen Pen) : Prop where
  palette : s.palette = initColorPairs {}
  pen : s.win.pen = curses.wattrset aNormal

/-- One line. -/
theorem send_eq {s s' : Screen Pen} {call : List Bytes × Bytes} (hidle : s.Idle curses)
    (h : send curses s call = some s') :
    s' = {
      palette := initColorPairs {}
      win := {
        pen := curses.wattrset aNormal
        cells := s.win.cells ++ (glyphsOf call).map (cellOf curses) } } := by
  obtain ⟨nf, hnf, rfl⟩ := Option.map_eq_some_iff.1 h
  have hrel := parse_refines (p := s.palette) call.1 call.2 .nil
  rw [hnf] at hrel
  unfold glyphsOf
  generalize parse call.1 call.2 [] = f at hrel ⊢
  cases hrel with
  | some hshows =>
    have hinv : (initColorPairs {}).Inv := Palette.inv_empty.colorPairs _
    -- a line sets up no pair that the terminal did not come up with
    have hkept : nf.palette = initColorPairs {} := by
      have hleads := hshows.leads
      rw [hidle.palette] at hleads
      exact hleads.eq_of_subset hinv (initColorPairs_eq ▸ List.Subset.refl _)
    have hparsed := hshows.parsed
    rw [hkept] at hparsed
    rw [hkept, print_eq curses initColorPairs_eq hidle.pen hparsed]
    rfl

theorem idle_of_run {calls : List (List Bytes × Bytes)} {s : Screen Pen}
    (hrun : runFrom (send curses) (.start curses) calls = some s) : s.Idle curses := by
  refine Runs.invariant (Screen.Idle curses) (fun s call s' hidle hstep => ?_) ⟨rfl, rfl⟩ hrun
  rw [send_eq curses hidle hstep]
  exact ⟨rfl, rfl⟩

/-- **What is on a window is what was sent to it.**  After any lines, each character was
added with the colours and the attributes of its own glyph and no others, the pairs are those
the terminal came up with, and nothing is left turned on. -/
theorem cells_of_run {calls : List (List Bytes × Bytes)} {s : Screen Pen}
    (hrun : runFrom (send curses) (.start curses) calls = some s) :
    s = {
      palette := initColorPairs {}
      win := {
        pen := curses.wattrset aNormal
        cells := calls.flatMap fun call => (glyphsOf call).map (cellOf curses) } } := by
  induction calls using List.reverseRecOn generalizing s with
  | nil =>
    obtain rfl := Option.some.inj hrun
    rfl
  | append_singleton calls call ih =>
    obtain ⟨s₀, hbefore, hstep⟩ := runFrom_concat.1 hrun
    obtain rfl := ih hbefore
    rw [send_eq curses ⟨rfl, rfl⟩ hstep, List.flatMap_append, List.flatMap_singleton]

/-- A window whose attributes are the bits that are on, the colour pair being one of them. -/
def bits : Curses Chtype where
  wattron := fun pen attrs =>
    if attrs &&& aColor = 0#32 then pen ||| attrs else pen &&& ~~~aColor ||| attrs
  wattrset := id

/-- A number in bold red, after a line in white. -/
theorem cells_of_run_boldRed : ∃ s, runFrom (send bits) (.start bits) [([], ascii "ab"), boldRed] = some s ∧
    s.win.cells[2]? = some (colorPairAttr 1 ||| Attribute.bold.chtype, charChtype '7'.toUInt8) := by
  have hruns : (runFrom (send bits) (.start bits) [([], ascii "ab"), boldRed]).isSome = true := by
    decide +kernel
  obtain ⟨s, hrun⟩ := Option.isSome_iff_exists.1 hruns
  refine ⟨s, hrun, ?_⟩
  rw [cells_of_run bits hrun]
  decide +kernel

/-! ### Rows -/

/-- The characters of a row that its names do not have are ASCII. -/
theorem lineChars_ascii : ∀ c ∈ lineChars, c.toNat < 128 := by decide +kernel

/-- What is printed of the two names of a task: they end at the first `{` of either. -/
def printedNames (task : TaskIoInfo) : Bytes :=
  (shownUser task ++ shownCommand task).takeWhile (· ≠ openBrace)

/-- A character that is not ASCII is printed with the row when it is printed with the
names. -/
theorem mem_printed_iff {task : TaskIoInfo} (huser : 0 ∈ task.userName.bytes)
    (hcommand : 0 ∈ task.fullCmdline.bytes) {text : Bytes} (htext : bodyLine task = some text)
    {c : UInt8} (hc : ¬c.toNat < 128) :
    c ∈ text.takeWhile (· ≠ openBrace) ↔ c ∈ printedNames task := by
  obtain ⟨before, between, hbefore, hbetween, rfl⟩ := bodyLine_parts huser hcommand htext
  have hline : c ∉ lineChars := fun h => hc (lineChars_ascii c h)
  have hbrace : openBrace ∉ lineChars := by decide
  rw [Text.takeWhile_ne_append fun h => hbrace (hbefore h), List.mem_append,
    Text.mem_takeWhile_ne_append_append (fun h => hbrace (hbetween h))
      fun h => hline (hbetween h)]
  exact or_iff_right fun h => hline (hbefore h)

/-- **When the characters of a row are plain.**  The row of a task, sent after any other
lines, is printed up to its first `{`, and adds characters without attributes exactly when
what is printed of the two names is ASCII. -/
theorem plain_row_iff {calls : List (List Bytes × Bytes)} {s s' : Screen Pen}
    (hrun : runFrom (send curses) (.start curses) calls = some s) {task : TaskIoInfo}
    (huser : 0 ∈ task.userName.bytes) (hcommand : 0 ∈ task.fullCmdline.bytes) {text : Bytes}
    (htext : bodyLine task = some text) (hsend : send curses s ([], text) = some s') :
    ∃ row, s'.win.cells = s.win.cells ++ row ∧
      row.map (fun cell => cell.2) = (text.takeWhile (· ≠ openBrace)).map charChtype ∧
      ((∀ cell ∈ row, cell.2 &&& ~~~aChartext = aNormal) ↔
        ∀ c ∈ printedNames task, c.toNat < 128) := by
  have hglyphs : glyphsOf ([], text) = .ofString (text.takeWhile (· ≠ openBrace)) := by
    obtain ⟨returned, hparse⟩ := parse_nil text []
    rw [glyphsOf, hparse]
    rfl
  obtain rfl := send_eq curses (idle_of_run curses hrun) hsend
  refine ⟨_, rfl, ?_, ?_⟩
  · rw [hglyphs, GlyphString.ofString, List.map_map, List.map_map]
    rfl
  · have hplain : (∀ cell ∈ (glyphsOf ([], text)).map (cellOf curses),
        cell.2 &&& ~~~aChartext = aNormal) ↔
          ∀ c ∈ text.takeWhile (· ≠ openBrace), c.toNat < 128 := by
      simp only [hglyphs, GlyphString.ofString, List.map_map, List.forall_mem_map,
        Function.comp_apply, cellOf, charChtype_plain_iff]
    rw [hplain]
    refine forall_congr' ?_
    intro c
    -- a character that is not ASCII comes from one of the two names
    by_cases hc : c.toNat < 128
    · simp only [hc, implies_true]
    · rw [mem_printed_iff huser hcommand htext hc]

theorem plain_row_iff_shellTask : ∃ text ∈ bodyLine shellTask, ∃ s' ∈ send bits (.start bits) ([], text),
    ∃ row, s'.win.cells = row ∧ ((∀ cell ∈ row, cell.2 &&& ~~~aChartext = aNormal) ↔
      ∀ c ∈ printedNames shellTask, c.toNat < 128) := by
  have hsent : ((bodyLine shellTask).bind fun text =>
      send bits (.start bits) ([], text)).isSome = true := by decide +kernel
  obtain ⟨s', hsent⟩ := Option.isSome_iff_exists.1 hsent
  obtain ⟨text, htext, hsend⟩ := Option.bind_eq_some_iff.1 hsent
  have hstart : runFrom (send bits) (.start bits) [] = some (.start bits) := rfl
  obtain ⟨row, hcells, -, hiff⟩ := plain_row_iff bits hstart
    (show 0 ∈ shellTask.userName.bytes by decide) (show 0 ∈ shellTask.fullCmdline.bytes by decide)
    htext hsend
  exact ⟨text, htext, s', hsend, row, hcells, hiff⟩

end Cxxcurses
end IotopCpp
