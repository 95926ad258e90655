import IotopCpp.Lib.Grid
import IotopCpp.View.Cells

/-!
# What the window shows

`draw_data` of `view/view.cpp` on a window of lines and columns: each line of the frame moves
the cursor and adds its characters, the window is shown, and it is cleared for the next frame.
The window is that of ncurses, and is any with the laws of `Lib.Grid`: what a control character
does to it is left open, but for what the laws say of every character.  The program links the
library without wide characters and sets no locale, so each byte is a character of its own.

A row that is wider than the window goes on below, where the next row is printed over it.  A
row outside of the window is not lost: its move is refused, so it is printed where the row
before it ended, on the last line.

## Main definitions

* `frameLines` — the lines that `draw_data` prints, as texts.
* `Terminal.drawData`, `Session.draw` — a frame on a terminal, and one after the other.
* `Fits`, `Seen` — a frame that fits its window, and a window that has it.

## Main results

* `shown_of_frame` — **a row above the last line is seen**, whatever the other rows do.
* `shown_of_run` — **everything that is seen**, over any frames that fit their window.
-/

namespace IotopCpp
namespace Cxxcurses

open CellGrid Runs ViewCurses

/-! ### The lines of a frame -/

/-- The loop of `ViewCurses::print_body`, as texts; there are none where one of them cannot be
made. -/
def bodyLines (maxYx : ℤ × ℤ) (yLine : UInt64) : List TaskIoInfo → Option (List (ℤ × Bytes))
  | [] => some []
  | task :: tasks =>
    if UInt64.ofInt maxYx.1 ≤ yLine - 1 then some []
    else do
      let text ← bodyLine task
      let lines ← bodyLines maxYx (yLine + 1) tasks
      some ((toInt yLine, text) :: lines)

/-- The lines that `ViewCurses::draw_data` prints, each with where it goes.  There are none
where a row it has room for has no text. -/
def frameLines (maxYx : ℤ × ℤ) (sysIoInfo : SystemIoInfo) : Option (List (ℤ × Bytes)) :=
  (bodyLines maxYx 2 (sysIoInfo.taskIoStatsTable.entries.map Sigma.snd)).map fun lines =>
    (0, headerLine sysIoInfo.currDiskReadBS sysIoInfo.currDiskWriteBS)
      :: (toInt 1, bodyFirstLine) :: lines

/-- Every row that a window of so many lines has has a text: its names end. -/
def Drawable (h : ℕ) (sysIoInfo : SystemIoInfo) : Prop :=
  ∀ e ∈ sysIoInfo.taskIoStatsTable.entries.take (h - 1), (bodyLine e.2).isSome

instance (h : ℕ) (sysIoInfo : SystemIoInfo) : Decidable (Drawable h sysIoInfo) :=
  inferInstanceAs (Decidable (∀ e ∈ _, _))

/-- The glyphs of a frame, line by line. -/
def frameGlyphs (maxYx : ℤ × ℤ) (sysIoInfo : SystemIoInfo) : List GlyphString :=
  (drawData maxYx sysIoInfo).filterMap Printed.glyphs

theorem bodyLines_cons_eq_some {maxYx : ℤ × ℤ} {yLine : UInt64} {task : TaskIoInfo}
    {tasks : List TaskIoInfo} (hinside : ¬ UInt64.ofInt maxYx.1 ≤ yLine - 1)
    {lines : List (ℤ × Bytes)} :
    bodyLines maxYx yLine (task :: tasks) = some lines ↔ ∃ text ∈ bodyLine task,
      ∃ rest ∈ bodyLines maxYx (yLine + 1) tasks, (toInt yLine, text) :: rest = lines := by
  simp only [bodyLines, if_neg hinside, Option.bind_eq_bind, Option.bind_eq_some_iff,
    Option.some.injEq, Option.mem_def]

/-- The texts are those that are printed. -/
theorem printTasks_of_bodyLines {maxYx : ℤ × ℤ} {yLine : UInt64} {tasks : List TaskIoInfo}
    {lines : List (ℤ × Bytes)} (h : bodyLines maxYx yLine tasks = some lines) :
    printTasks maxYx yLine tasks = lines.map fun l => printAt l.1 0 (some l.2) := by
  induction tasks generalizing yLine lines with
  | nil =>
    obtain rfl := Option.some.inj h
    rfl
  | cons task tasks ih =>
    unfold printTasks
    split
    · next hbreak =>
      rw [bodyLines, if_pos hbreak] at h
      obtain rfl := Option.some.inj h
      rfl
    · next hinside =>
      obtain ⟨text, htask, rest, hrest, rfl⟩ := (bodyLines_cons_eq_some hinside).1 h
      rw [List.map_cons, ih hrest, taskRow, Option.mem_def.1 htask]

/-- The loop gets through when each of the tasks it comes to has a text. -/
theorem bodyLines_isSome {maxYx : ℤ × ℤ} {h : ℕ} (hheight : maxYx.1 = h) (hint : h < 2 ^ 31)
    (tasks : List TaskIoInfo) (yLine : UInt64) (hpos : 0 < yLine.toNat) (hle : yLine.toNat ≤ h + 1) :
    (bodyLines maxYx yLine tasks).isSome
      ↔ ∀ task ∈ tasks.take (h + 1 - yLine.toNat), (bodyLine task).isSome := by
  induction tasks generalizing yLine with
  | nil => simp [bodyLines]
  | cons task tasks ih =>
    have hout := outside_iff hheight hint hpos
    by_cases hbreak : UInt64.ofInt maxYx.1 ≤ yLine - 1
    · -- nothing is asked of the tasks that the loop does not come to
      have hlast : h + 1 - yLine.toNat = 0 := by
        have hbreak' := hout.1 hbreak
        omega
      rw [bodyLines, if_pos hbreak, hlast]
      simp
    · have hinside : yLine.toNat < h + 1 := by
        by_contra hcontra
        exact hbreak (hout.2 (by omega))
      have hnext : (yLine + 1).toNat = yLine.toNat + 1 := by
        rw [UInt64.toNat_add, UInt64.toNat_one]
        omega
      have hroom : h + 1 - yLine.toNat = (h + 1 - (yLine.toNat + 1)) + 1 := by omega
      have hrest := ih (yLine + 1) (by omega) (by omega)
      rw [hnext] at hrest
      rw [hroom, List.take_succ_cons, List.forall_mem_cons, ← hrest]
      simp only [Option.isSome_iff_exists, bodyLines_cons_eq_some hbreak]
      exact ⟨fun ⟨_, text, htext, rest, hrest, _⟩ => ⟨⟨text, htext⟩, rest, hrest⟩,
        fun ⟨⟨text, htext⟩, rest, hrest⟩ => ⟨_, text, htext, rest, hrest, rfl⟩⟩

theorem drawData_of_frameLines {maxYx : ℤ × ℤ} {sysIoInfo : SystemIoInfo} {lines : List (ℤ × Bytes)}
    (h : frameLines maxYx sysIoInfo = some lines) :
    drawData maxYx sysIoInfo = lines.map fun l => printAt l.1 0 (some l.2) := by
  obtain ⟨rows, hrows, rfl⟩ := Option.map_eq_some_iff.1 h
  rw [drawData, printBody, printTasks_of_bodyLines hrows, List.map_cons, List.map_cons, printHeader]

section

variable {maxYx : ℤ × ℤ} {h : ℕ} (hheight : maxYx.1 = h) (hle : 1 ≤ h) (hint : h < 2 ^ 31)
  {sysIoInfo : SystemIoInfo}

include hheight hle hint

theorem frameLines_isSome : (frameLines maxYx sysIoInfo).isSome ↔ Drawable h sysIoInfo := by
  have hloop := bodyLines_isSome hheight hint (sysIoInfo.taskIoStatsTable.entries.map Sigma.snd) 2
    (by decide) (show 2 ≤ h + 1 by omega)
  rw [frameLines, Option.isSome_map, hloop, ← List.map_take, List.forall_mem_map]
  rfl

/-- The lines are the first of the window, in order, and perhaps the one after the last. -/
theorem frameLines_eq {lines : List (ℤ × Bytes)} (hlines : frameLines maxYx sysIoInfo = some lines) :
    lines = ((lines.map Prod.snd).zipIdx 0).map fun text => ((text.2 : ℤ), text.1) := by
  have hys := drawData_lines hheight hle hint sysIoInfo
  rw [drawData_of_frameLines hlines, List.map_map] at hys
  have hlength := congrArg List.length hys
  simp only [List.length_map, List.length_range] at hlength
  refine List.ext_getElem (by simp) ?_
  intro n hn hn'
  have hy := congrArg (fun ys => ys[n]?) hys
  simp only [List.getElem?_map, List.getElem?_eq_getElem hn, List.getElem?_range (hlength ▸ hn)] at hy
  simp only [List.getElem_map, List.getElem_zipIdx, Nat.zero_add]
  exact Prod.ext (Option.some.inj hy) rfl

end

/-- The glyphs of a line, which are those its call is formatted to. -/
theorem printAt_glyphsOf (y x : ℤ) (text : Bytes) :
    (printAt y x (some text)).glyphs = some (glyphsOf ([], cString text)) := by
  obtain ⟨returned, hparse⟩ := parse_nil (cString text) []
  rw [printAt, glyphsOf, Option.bind_some, hparse]
  rfl

theorem frameGlyphs_eq {maxYx : ℤ × ℤ} {sysIoInfo : SystemIoInfo} {lines : List (ℤ × Bytes)}
    (h : frameLines maxYx sysIoInfo = some lines) :
    frameGlyphs maxYx sysIoInfo
      = (lines.map Prod.snd).map fun text => glyphsOf ([], cString text) := by
  rw [frameGlyphs, drawData_of_frameLines h, List.filterMap_map, List.map_map, ← List.filterMap_eq_map]
  exact List.filterMap_congr fun l _ => printAt_glyphsOf l.1 0 l.2

/-! ### The terminal -/

/-- From the blank to the tilde. -/
def IsPrintable (c : UInt8) : Prop := 32 ≤ c ∧ c < 127

instance : DecidablePred IsPrintable := fun _ => inferInstanceAs (Decidable (_ ∧ _))

variable {Pen σ : Type} {h w : ℕ}

/-- What `waddch` adds as it is: a printable character, whatever is turned on. -/
def IsLiteral (cell : Pen × Chtype) : Prop := ∃ c, IsPrintable c ∧ cell.2 = charChtype c

/-- A terminal, with the state of its window. -/
structure Terminal (Pen σ : Type) where
  palette : Palette
  pen : Pen
  window : σ

variable (curses : Curses Pen) (win : Grid (Pen × Chtype) σ)

namespace Terminal

/-- `main_win << cxxcurses::format(y, 0)(line)`: the cursor is moved, and the glyphs are
printed one after the other. -/
def line (t : Terminal Pen σ) (l : ℤ × Bytes) : Option (Terminal Pen σ) :=
  (send curses { palette := t.palette, win := { pen := t.pen, cells := [] } } ([], cString l.2)).map
    fun s => {
      palette := s.palette
      pen := s.win.pen
      window := win.addAll (win.move t.window l.1 0) s.win.cells }

/-- `print_header` and `print_body`, on a window of this size. -/
def drawData (maxYx : ℤ × ℤ) (t : Terminal Pen σ) (sysIoInfo : SystemIoInfo) :
    Option (Terminal Pen σ) :=
  (frameLines maxYx sysIoInfo).bind (runFrom (line curses win) t)

/-- `clear()`. -/
def clear (t : Terminal Pen σ) : Terminal Pen σ := { t with window := win.clear t.window }

/-- A terminal with colours on which nothing is turned on, and with the pairs it came up
with. -/
structure Idle (t : Terminal Pen σ) : Prop where
  palette : t.palette = initColorPairs {}
  pen : t.pen = curses.wattrset aNormal

theorem Idle.clear {t : Terminal Pen σ} (hidle : t.Idle curses) : (t.clear win).Idle curses :=
  ⟨hidle.palette, hidle.pen⟩

end Terminal

/-- The windows shown so far, and the terminal for the next frame. -/
structure Session (Pen σ : Type) where
  terminal : Terminal Pen σ
  shown : List σ

/-- `ViewCurses::draw_data`: the frame is printed, shown, and cleared away. -/
def Session.draw (maxYx : ℤ × ℤ) (s : Session Pen σ) (sysIoInfo : SystemIoInfo) :
    Option (Session Pen σ) :=
  (s.terminal.drawData curses win maxYx sysIoInfo).map fun t =>
    { terminal := t.clear win, shown := s.shown ++ [t.window] }

/-! ### A frame on the window -/

/-- What a text adds to the window of an idle terminal. -/
def cellsOf (text : Bytes) : List (Pen × Chtype) :=
  (glyphsOf ([], cString text)).map (cellOf curses)

/-- A line without arguments is always formatted. -/
theorem exists_send (s : Screen Pen) (text : Bytes) : ∃ s', send curses s ([], text) = some s' := by
  obtain ⟨returned, hparse⟩ := parse_nil text []
  have hrel := parse_refines (p := s.palette) [] text .nil
  rw [hparse] at hrel
  unfold send
  generalize Numbered.parse [] text [] s.palette = nf at hrel ⊢
  cases hrel
  exact ⟨_, rfl⟩

theorem line_eq {t : Terminal Pen σ} (hidle : t.Idle curses) (l : ℤ × Bytes) :
    t.line curses win l = some { t with
      window := win.addAll (win.move t.window l.1 0) (cellsOf curses l.2) } := by
  obtain ⟨s, hsend⟩ :=
    exists_send curses { palette := t.palette, win := { pen := t.pen, cells := [] } } (cString l.2)
  have hs := send_eq curses ⟨hidle.palette, hidle.pen⟩ hsend
  rw [Terminal.line, hsend, hs, Option.map_some, List.nil_append, ← hidle.palette, ← hidle.pen]
  rfl

/-- Texts on the lines from `n` on. -/
theorem run_lines {t : Terminal Pen σ} (hidle : t.Idle curses) (texts : List Bytes) (n : ℕ) :
    runFrom (Terminal.line curses win) t ((texts.zipIdx n).map fun text => ((text.2 : ℤ), text.1))
      = some { t with window := win.pageFrom t.window n (texts.map (cellsOf curses)) } := by
  induction texts generalizing t n with
  | nil => rfl
  | cons text texts ih =>
    rw [List.zipIdx_cons, List.map_cons, runFrom_cons]
    refine ⟨_, line_eq curses win hidle _, ?_⟩
    have hidle' : Terminal.Idle curses
        { t with window := win.addAll (win.move t.window n 0) (cellsOf curses text) } :=
      ⟨hidle.palette, hidle.pen⟩
    exact ih hidle' (n + 1)

/-- A frame is a page. -/
theorem drawData_eq_page {t : Terminal Pen σ} (hidle : t.Idle curses) {maxYx : ℤ × ℤ}
    (hheight : maxYx.1 = h) (hle : 1 ≤ h) (hint : h < 2 ^ 31) {sysIoInfo : SystemIoInfo}
    {lines : List (ℤ × Bytes)} (hlines : frameLines maxYx sysIoInfo = some lines) :
    t.drawData curses win maxYx sysIoInfo = some { t with
      window := win.page t.window ((lines.map Prod.snd).map (cellsOf curses)) } := by
  have hrun := run_lines curses win hidle (lines.map Prod.snd) 0
  rw [← frameLines_eq hheight hle hint hlines] at hrun
  rw [Terminal.drawData, hlines, Option.bind_some, hrun]
  rfl

/-! ### What is seen -/

section

variable {curses win} {blank : Pen × Chtype} (hwin : win.Lawful h w IsLiteral blank)
  {t : Terminal Pen σ} (hidle : t.Idle curses) (hint : h < 2 ^ 31)

theorem isLiteral_cellOf {g : Glyph} (hprint : IsPrintable g.char) : IsLiteral (cellOf curses g) :=
  ⟨g.char, hprint, rfl⟩

include hwin hidle hint

/-- A frame whose rows have texts is drawn, and another one is not. -/
theorem drawData_isSome (sysIoInfo : SystemIoInfo) :
    (t.drawData curses win (h, w) sysIoInfo).isSome ↔ Drawable h sysIoInfo := by
  have hle : 1 ≤ h := Nat.zero_lt_of_lt (hwin.y_lt t.window)
  rw [← @frameLines_isSome ((h : ℤ), (w : ℤ)) h rfl hle hint]
  cases hlines : frameLines (h, w) sysIoInfo with
  | none =>
    rw [Terminal.drawData, hlines, Option.bind_none]
    exact Iff.rfl
  | some lines =>
    rw [drawData_eq_page curses win hidle rfl hle hint hlines]
    exact Iff.rfl

/-- What is left on a terminal by a frame that is drawn. -/
theorem drawData_eq_some {sysIoInfo : SystemIoInfo} {t' : Terminal Pen σ}
    (hdraw : t.drawData curses win (h, w) sysIoInfo = some t') :
    ∃ lines, frameLines (h, w) sysIoInfo = some lines ∧ t' = { t with
      window := win.page t.window ((lines.map Prod.snd).map (cellsOf curses)) } := by
  have hle : 1 ≤ h := Nat.zero_lt_of_lt (hwin.y_lt t.window)
  obtain ⟨lines, hlines, -⟩ := Option.bind_eq_some_iff.1 hdraw
  rw [drawData_eq_page curses win hidle rfl hle hint hlines] at hdraw
  exact ⟨lines, hlines, (Option.some.inj hdraw).symm⟩

theorem idle_of_drawData {sysIoInfo : SystemIoInfo} {t' : Terminal Pen σ}
    (hdraw : t.drawData curses win (h, w) sysIoInfo = some t') : t'.Idle curses := by
  obtain ⟨lines, -, rfl⟩ := drawData_eq_some hwin hidle hint hdraw
  exact ⟨hidle.palette, hidle.pen⟩

/-- The cells of a printable line above the last of the window. -/
theorem cell_of_drawData {sysIoInfo : SystemIoInfo} {t' : Terminal Pen σ}
    (hdraw : t.drawData curses win (h, w) sysIoInfo = some t') {y : ℕ} (hy : y + 1 < h) {p : Printed}
    (hp : p ∈ drawData (h, w) sysIoInfo) (hpy : p.y = y) {glyphs : GlyphString}
    (hglyphs : p.glyphs = some glyphs) (hprint : ∀ g ∈ glyphs, IsPrintable g.char) {x : ℕ} (hx : x < w)
    {g : Glyph} (hg : glyphs[x]? = some g) : win.cell t'.window y x = cellOf curses g := by
  obtain ⟨lines, hlines, rfl⟩ := drawData_eq_some hwin hidle hint hdraw
  rw [drawData_of_frameLines hlines,
    @frameLines_eq ((h : ℤ), (w : ℤ)) h rfl (by omega) hint _ lines hlines,
    List.map_map] at hp
  obtain ⟨⟨text, n⟩, htext, rfl⟩ := List.mem_map.1 hp
  obtain rfl : n = y := Int.ofNat.inj hpy
  obtain rfl : glyphsOf ([], cString text) = glyphs :=
    Option.some.inj ((printAt_glyphsOf _ _ text).symm.trans hglyphs)
  have hline : ((lines.map Prod.snd).map (cellsOf curses))[n]? = some (cellsOf curses text) := by
    rw [List.getElem?_map, List.mem_zipIdx_iff_getElem?.1 htext, Option.map_some]
  refine cell_page_of_lt hwin t.window hy hline ?_ ?_ hx
  · exact List.forall_mem_map.2 fun g' hg' => isLiteral_cellOf (hprint g' hg')
  · rw [cellsOf, List.getElem?_map, hg]
    rfl

end

/-- A frame that is printable, and narrower than its window above the last line, so that
no row reaches into the one below it. -/
structure Fits (h w : ℕ) (sysIoInfo : SystemIoInfo) : Prop where
  printable : ∀ glyphs ∈ frameGlyphs (h, w) sysIoInfo, ∀ g ∈ glyphs, IsPrintable g.char
  narrow : ∀ glyphs ∈ (frameGlyphs (h, w) sysIoInfo).take (h - 1), glyphs.length < w

/-- The window has the lines of the frame and nothing else, but for its last corner, which
each character that does not fit is written to. -/
def Seen (h w : ℕ) (blank : Pen × Chtype) (sysIoInfo : SystemIoInfo) (s : σ) : Prop :=
  ∀ y x, Inner h w y x → win.cell s y x
    = ((lineOf h (frameGlyphs (h, w) sysIoInfo) y)[x]?.map (cellOf curses)).getD blank

theorem lineOf_map {α β : Type} (f : α → β) (texts : List (List α)) (y : ℕ) :
    lineOf h (texts.map (List.map f)) y = (lineOf h texts y).map f := by
  unfold lineOf
  split
  · rw [← List.map_drop, List.map_flatten]
  · rw [List.getElem?_map]
    cases texts[y]? <;> rfl

/-- A window that was cleared. -/
def Cleared (h w : ℕ) (blank : Pen × Chtype) (s : σ) : Prop :=
  ∀ y < h, ∀ x < w, win.cell s y x = blank

section

variable {curses win} {blank : Pen × Chtype} (hwin : win.Lawful h w IsLiteral blank)
  {t : Terminal Pen σ} (hidle : t.Idle curses) (hint : h < 2 ^ 31)

include hwin

theorem Terminal.cleared_clear (t : Terminal Pen σ) : Cleared win h w blank (t.clear win).window :=
  fun y hy x hx => hwin.cell_clear t.window y hy x hx

include hidle hint

/-- One frame, on a window that was cleared. -/
theorem seen_of_drawData {sysIoInfo : SystemIoInfo} (hfits : Fits h w sysIoInfo)
    (hclear : Cleared win h w blank t.window) {t' : Terminal Pen σ}
    (hdraw : t.drawData curses win (h, w) sysIoInfo = some t') :
    Seen curses win h w blank sysIoInfo t'.window := by
  obtain ⟨lines, hlines, rfl⟩ := drawData_eq_some hwin hidle hint hdraw
  intro y x hinner
  have hcells : (lines.map Prod.snd).map (cellsOf curses)
      = (frameGlyphs (h, w) sysIoInfo).map (List.map (cellOf curses)) := by
    rw [frameGlyphs_eq hlines]
    simp only [List.map_map]
    rfl
  have hliteral : ∀ cells ∈ (frameGlyphs (h, w) sysIoInfo).map (List.map (cellOf curses)),
      ∀ c ∈ cells, IsLiteral c := by
    refine List.forall_mem_map.2 fun glyphs hglyphs => List.forall_mem_map.2 fun g hg => ?_
    exact isLiteral_cellOf (hfits.printable glyphs hglyphs g hg)
  -- a text of as many cells as it has glyphs is no wider for being drawn
  have hnarrow : ∀ cells ∈ ((frameGlyphs (h, w) sysIoInfo).map (List.map (cellOf curses))).take (h - 1),
      cells.length < w := by
    rw [← List.map_take]
    refine List.forall_mem_map.2 ?_
    intro glyphs hglyphs
    rw [List.length_map]
    exact hfits.narrow glyphs hglyphs
  show win.cell (win.page t.window _) y x = _
  rw [hcells, cell_page hwin hliteral t.window hnarrow hinner, lineOf_map, List.getElem?_map,
    hclear y hinner.y_lt x hinner.x_lt]

end

section

variable {curses win} {blank : Pen × Chtype} (hwin : win.Lawful h w IsLiteral blank)
  (hint : h < 2 ^ 31)

include hwin hint

/-- A frame that is drawn on a window that was cleared leaves it so. -/
theorem draw_spec {s s' : Session Pen σ} (hidle : s.terminal.Idle curses)
    (hclear : Cleared win h w blank s.terminal.window) {sysIoInfo : SystemIoInfo}
    (hdraw : s.draw curses win (h, w) sysIoInfo = some s') :
    s'.terminal.Idle curses ∧ Cleared win h w blank s'.terminal.window ∧
      ∃ window, s'.shown = s.shown ++ [window] ∧
        (Fits h w sysIoInfo → Seen curses win h w blank sysIoInfo window) := by
  obtain ⟨t, ht, rfl⟩ := Option.map_eq_some_iff.1 hdraw
  refine ⟨?_, Terminal.cleared_clear hwin t, t.window, rfl, ?_⟩
  · exact (idle_of_drawData hwin hidle hint ht).clear curses win
  · intro hfits
    exact seen_of_drawData hwin hidle hint hfits hclear ht

theorem run_spec {s s' : Session Pen σ} (hidle : s.terminal.Idle curses)
    (hclear : Cleared win h w blank s.terminal.window) {frames : List SystemIoInfo}
    (hrun : runFrom (Session.draw curses win (h, w)) s frames = some s') :
    ∃ windows, s'.shown = s.shown ++ windows ∧ List.Forall₂
      (fun frame window => Fits h w frame → Seen curses win h w blank frame window) frames windows := by
  -- what is kept from frame to frame is an idle terminal with a window that was cleared
  induction frames generalizing s with
  | nil =>
    obtain rfl := Option.some.inj hrun
    exact ⟨[], (List.append_nil _).symm, .nil⟩
  | cons frame frames ih =>
    obtain ⟨s₁, hdraw, hrest⟩ := runFrom_cons.1 hrun
    obtain ⟨hidle', hclear', window, hshown, hseen⟩ := draw_spec hwin hint hidle hclear hdraw
    obtain ⟨windows, hshown', hall⟩ := ih hidle' hclear' hrest
    refine ⟨window :: windows, ?_, .cons hseen hall⟩
    rw [hshown', hshown, List.append_assoc, List.singleton_append]

/-- Frames are drawn one after the other, as long as their rows have texts. -/
theorem run_isSome {s : Session Pen σ} (hidle : s.terminal.Idle curses) (frames : List SystemIoInfo) :
    (runFrom (Session.draw curses win (h, w)) s frames).isSome ↔ ∀ frame ∈ frames, Drawable h frame := by
  induction frames generalizing s with
  | nil => exact ⟨fun _ _ hf => absurd hf List.not_mem_nil, fun _ => rfl⟩
  | cons frame frames ih =>
    rw [List.forall_mem_cons, ← drawData_isSome hwin hidle hint frame]
    simp only [Option.isSome_iff_exists, runFrom_cons] at ih ⊢
    constructor
    · rintro ⟨s', s₁, hdraw, hrest⟩
      obtain ⟨t, ht, rfl⟩ := Option.map_eq_some_iff.1 hdraw
      have hidle' := (idle_of_drawData hwin hidle hint ht).clear curses win
      exact ⟨⟨t, ht⟩, (ih hidle').1 ⟨s', hrest⟩⟩
    · rintro ⟨⟨t, ht⟩, hall⟩
      have hidle' := (idle_of_drawData hwin hidle hint ht).clear curses win
      obtain ⟨s', hrest⟩ :=
        (@ih { terminal := t.clear win, shown := s.shown ++ [t.window] } hidle').2 hall
      exact ⟨s', _, Option.map_eq_some_iff.2 ⟨t, ht, rfl⟩, hrest⟩

/-- **Everything that is seen.**  Frames are drawn one after the other as long as their rows
have texts, whatever is in these.  One that is printable and fits the window is shown as it is:
every line has its own glyphs and is blank behind them, with nothing of the frames before.  On
the last line are the last row and, right behind it, the one that is outside of the window. -/
theorem shown_of_run {t : Terminal Pen σ} (hidle : t.Idle curses) (frames : List SystemIoInfo) :
    ((runFrom (Session.draw curses win (h, w)) { terminal := t.clear win, shown := [] } frames).isSome
      ↔ ∀ frame ∈ frames, Drawable h frame) ∧
    ∀ s ∈ runFrom (Session.draw curses win (h, w)) { terminal := t.clear win, shown := [] } frames,
      List.Forall₂ (fun frame window => Fits h w frame → Seen curses win h w blank frame window)
        frames s.shown := by
  have hidle' : (t.clear win).Idle curses := hidle.clear curses win
  refine ⟨run_isSome hwin hint hidle' frames, ?_⟩
  intro s hrun
  obtain ⟨windows, hshown, hall⟩ := run_spec hwin hint hidle' (Terminal.cleared_clear hwin t) hrun
  rw [hshown]
  exact hall

end

/-! ### A task on small windows -/

/-- A terminal that has just come up, and writes every character as it is. -/
def upTerminal (h w : ℕ) (hh : 0 < h) (hw : 0 < w) : Terminal Chtype (Sheet h w (Chtype × Chtype)) where
  palette := initColorPairs {}
  pen := aNormal
  window := {
    cell := fun _ _ => (aNormal, 32#32)
    y := 0
    x := 0
    y_lt := hh
    x_lt := hw }

/-- Such a window. -/
def plain (h w : ℕ) : Grid (Chtype × Chtype) (Sheet h w (Chtype × Chtype)) := Sheet.grid (aNormal, 32#32)

/-- The table with one task. -/
def oneRow : SystemIoInfo where
  currDiskReadBS := 0
  currDiskWriteBS := 0
  taskIoStatsTable := AList.singleton 4242 shellTask

/-- On a window of two lines it is behind the column header, on every frame. -/
theorem shown_of_run_oneRow : ∃ s ∈ runFrom (Session.draw bits (plain 2 140) (2, 140))
      { terminal := (upTerminal 2 140 (by decide) (by decide)).clear (plain 2 140), shown := [] }
      [oneRow, oneRow],
    s.shown.map (fun window => window.cell 1 110)
      = List.replicate 2 (cellOf bits { char := '2'.toUInt8 }) := by
  have hwin : (plain 2 140).Lawful 2 140 IsLiteral (aNormal, 32#32) := Sheet.lawful _ _
  obtain ⟨hdrawn, hseen⟩ := @shown_of_run _ _ 2 140 bits (plain 2 140) _ hwin (by decide)
    (upTerminal 2 140 (by decide) (by decide)) ⟨rfl, rfl⟩ [oneRow, oneRow]
  have hdrawable : ∀ frame ∈ [oneRow, oneRow], Drawable 2 frame := by decide +kernel
  obtain ⟨s, hrun⟩ := Option.isSome_iff_exists.1 (hdrawn.2 hdrawable)
  have hfits : Fits 2 140 oneRow := ⟨by decide +kernel, by decide +kernel⟩
  have hcell : (lineOf 2 (frameGlyphs ((2 : ℕ), (140 : ℕ)) oneRow) 1)[110]?
      = some { char := '2'.toUInt8 } := by
    decide +kernel
  have hinner : Inner 2 140 1 110 := ⟨by decide, by decide, .inl (by decide)⟩
  have hall := hseen s hrun
  refine ⟨s, hrun, ?_⟩
  generalize s.shown = shown at hall ⊢
  rcases hall with - | ⟨hfirst, - | ⟨hsecond, ⟨⟩⟩⟩
  have hfirst' : _ = _ := hfirst hfits 1 110 hinner
  have hsecond' : _ = _ := hsecond hfits 1 110 hinner
  rw [hcell] at hfirst' hsecond'
  exact congrArg₂ (fun a b => [a, b]) hfirst' hsecond'

end Cxxcurses
end IotopCpp
