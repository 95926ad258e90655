import IotopCpp.Iotop
import IotopCpp.View.Frame

/-!
# From the kernel to the window

The rows of a frame are on the window as they are, and what is read in a row is what the kernel
said.  So whoever reads a line of the window, of the length of the row that is there, reads
what the kernel said of a task.

* `textAt` — what is read on a window.
* `main_shows` — **from the kernel to the window.**
-/

namespace IotopCpp

open Netlink Runs CellGrid Cxxcurses ViewCurses

/-- The character of a cell, without its attributes. -/
def charOf (cell : Chtype) : UInt8 := .ofBitVec (cell.truncate 8)

theorem charOf_charChtype (c : UInt8) : charOf (charChtype c) = c := by
  have hall : ∀ b : BitVec 8, (b.signExtend 32).truncate 8 = b := by
    decide +kernel
  exact congrArg UInt8.ofBitVec (hall c.toBitVec)

/-- The first characters of a line of a window, as someone reads them who does not look at
colours. -/
def textAt {Pen σ : Type} (win : Grid (Pen × Chtype) σ) (s : σ) (y len : ℕ) : Bytes :=
  (List.range len).map fun x => charOf (win.cell s y x).2

/-- What is printed for a task, where it is not cut. -/
def rowText (task : TaskIoInfo) : Bytes :=
  bodyText (rowPrio task) (cString task.userName.bytes) (cString task.fullCmdline.bytes) task

/-- A row whose names are printable is. -/
theorem printable_rowText {task : TaskIoInfo} (hreadable : Readable task)
    (hnames : ∀ c ∈ shownUser task ++ shownCommand task, IsPrintable c) :
    ∀ c ∈ rowText task, IsPrintable c := by
  intro c hc
  have hline := (bodyLine_eq_some hreadable.user hreadable.command).2 ⟨hreadable.fits.prio_nonneg, rfl⟩
  rw [Printf.snprintf_eq_self hreadable.fits.length_bodyText_lt] at hline
  have hchars : ∀ c ∈ lineChars, IsPrintable c := by
    decide +kernel
  by_cases hline' : c ∈ lineChars
  · exact hchars c hline'
  · exact hnames c (List.mem_append.2
      ((mem_bodyLine_iff hreadable.user hreadable.command hline hline').1 hc))

/-- A line with printable glyphs is read as their characters. -/
theorem textAt_eq {Pen σ : Type} {curses : Curses Pen} {win : Grid (Pen × Chtype) σ} {s : σ}
    {w y : ℕ} {glyphs : GlyphString}
    (hcell : ∀ x < w, ∀ glyph ∈ glyphs[x]?, win.cell s y x = cellOf curses glyph)
    (hle : glyphs.length ≤ w) : textAt win s y glyphs.chars.length = glyphs.chars := by
  refine List.ext_getElem (by simp [textAt]) ?_
  intro x hx hx'
  rw [GlyphString.chars, List.length_map] at hx'
  have hglyph := hcell x (by omega) glyphs[x] (List.getElem?_eq_getElem hx')
  simp only [textAt, GlyphString.chars, List.getElem_map, List.getElem_range]
  rw [hglyph]
  exact charOf_charChtype _

/-- The names of the tasks shown end in their members. -/
def NamesEnd (es : List (Σ _ : UInt64, TaskIoInfo)) : Prop :=
  ∀ e ∈ es, 0 ∈ e.2.userName.bytes ∧ 0 ∈ e.2.fullCmdline.bytes

instance : DecidablePred NamesEnd := fun es => inferInstanceAs (Decidable (∀ e ∈ es, _ ∧ _))

/-- The last frame of a run can be drawn when the names it shows end: their priorities always
have a text. -/
theorem drawable_iff_of_run {netlinkIoObj : NetlinkIoStats} {is : List Iteration} {r : IoRunner}
    (hrun : runFrom IoRunner.iterate { ioMonitor := { netlinkIoObj } } is = some r) {i : Iteration}
    {h : ℕ} (hheight : i.maxYx.1 = h) (hle : 1 ≤ h) :
    Drawable h (i.inOrder r.ioMonitor.monitor.ioStats)
      ↔ NamesEnd (shownEntries i r.ioMonitor.monitor.table) := by
  obtain ⟨cs, -, hmonitor, -, -⟩ := Collector.refines (IoRunner.collector_of_run hrun)
  have hshown : shownEntries i r.ioMonitor.monitor.table
      = (i.order.ordered r.ioMonitor.monitor.table).entries.take (h - 1) := by
    rw [shownEntries, hheight]
    congr 1
    omega
  unfold NamesEnd
  rw [hshown]
  refine forall₂_congr ?_
  intro e he
  have hr : r.ioMonitor.monitor.table.lookup e.1 = some e.2 := mem_shownEntries (hshown ▸ he)
  rw [bodyLine_isSome]
  exact and_iff_right (printable_of_run hmonitor hr).nonneg

/-- **From the kernel to the window.**  Where the kernel answers in time, the last frame can be
drawn on any terminal with colours on which nothing is turned on, exactly when the names it
shows end; and then, on each line above the last that has a task with a readable, printable row
no wider than the window, what is read is what the kernel said in answer to a request for that
very task. -/
theorem main_shows {o : InitAnswers} {is : List Iteration} {i : Iteration} {r : IoRunner}
    (hmain : main o (is ++ [i]) = some (.inr r)) {h w : ℕ} (hsize : i.maxYx = ((h : ℤ), (w : ℤ)))
    (hint : h < 2 ^ 31) (hinTime : ∀ j ∈ is ++ [i], InTime j.cycle) {kernel : Request → Taskstats}
    (htruth : Truthful kernel r.ioMonitor.socket.returns) {Pen σ : Type} {curses : Curses Pen}
    {win : Grid (Pen × Chtype) σ} {blank : Pen × Chtype} (hwin : win.Lawful h w IsLiteral blank)
    {t : Terminal Pen σ} (hidle : t.Idle curses) :
    drawData (h, w) (i.inOrder r.ioMonitor.monitor.ioStats) ∈ r.frames.getLast? ∧
    ((t.drawData curses win (h, w) (i.inOrder r.ioMonitor.monitor.ioStats)).isSome
      ↔ NamesEnd (shownEntries i r.ioMonitor.monitor.table)) ∧
    ∀ t' ∈ t.drawData curses win (h, w) (i.inOrder r.ioMonitor.monitor.ioStats), t'.Idle curses ∧
      ∀ n, n + 3 < h → ∀ e ∈ (shownEntries i r.ioMonitor.monitor.table)[n]?, Readable e.2 →
        (∀ c ∈ shownUser e.2 ++ shownCommand e.2, IsPrintable c) → (rowText e.2).length ≤ w →
        ∃ (data : RowData) (q : Request),
          readRow (textAt win t'.window (n + 2) (rowText e.2).length) = some data ∧
          Util.Listed i.cycle.proc e.1 ∧ q.taskId = .ofInt (toPidT e.1) ∧
          data.Tells e.1 (elapsedBefore is i) (kernel q).counters := by
  rcases main_cases hmain with ⟨hout, -⟩ | ⟨fd, netlinkIoObj, r', -, -, -, -, hout, hrun⟩
  · cases hout
  obtain rfl := Sum.inr.inj hout
  have hle : 1 ≤ h := Nat.zero_lt_of_lt (hwin.y_lt t.window)
  have hheight : i.maxYx.1 = h := congrArg Prod.fst hsize
  obtain ⟨r₀, -, hiterate⟩ := runFrom_concat.1 hrun
  obtain ⟨-, hframes⟩ := IoRunner.iterate_eq_some hiterate
  refine ⟨?_, ?_, fun t' hdraw =>
    ⟨idle_of_drawData hwin hidle hint hdraw, ?_⟩⟩
  · rw [hframes, List.getLast?_concat, hsize]
    rfl
  · rw [drawData_isSome hwin hidle hint, drawable_iff_of_run hrun hheight hle]
  intro n hn e he hreadable hnames hwide
  -- the row is on its line of the window, and what is read there is what is on it
  have hrow : taskRow (2 + n : ℕ) e.2 ∈ drawData (h, w) (i.inOrder r.ioMonitor.monitor.ioStats) := by
    rw [← hsize, drawData_eq (by omega) (by omega)]
    exact List.mem_cons_of_mem _ (List.mem_cons_of_mem _
      (List.mem_map_of_mem (List.mk_add_mem_zipIdx_iff_getElem?.2 he)))
  obtain ⟨glyphs, hglyphs, hchars⟩ := Option.map_eq_some_iff.1 (hreadable.chars_taskRow (2 + n : ℕ))
  have hprint : ∀ g ∈ glyphs, IsPrintable g.char := by
    intro g hg
    refine printable_rowText hreadable hnames g.char ?_
    rw [rowText, ← hchars]
    exact List.mem_map_of_mem hg
  have hlength : glyphs.length ≤ w := by
    rw [rowText, ← hchars, GlyphString.chars, List.length_map] at hwide
    exact hwide
  have htext : textAt win t'.window (2 + n) glyphs.chars.length = glyphs.chars :=
    textAt_eq (fun x hx g hg => cell_of_drawData hwin hidle hint hdraw (show 2 + n + 1 < h by omega)
      hrow rfl hglyphs hprint hx hg) hlength
  obtain ⟨data, q, hdata, hlisted, htask, htells⟩ :=
    tells_of_run hrun hinTime htruth (mem_shownEntries (List.mem_of_getElem? he)) hreadable.fits
  refine ⟨data, q, ?_, hlisted, htask, htells⟩
  rw [hchars, Nat.add_comm] at htext
  exact (congrArg readRow htext).trans hdata

/-- One iteration, on a window with room for the row of its task. -/
def oneTaskWide : Iteration := ⟨oneTask, (24, 140), .kept⟩

theorem main_shows_oneTask : ∃ r : IoRunner, main familyAnswers [oneTaskWide] = some (.inr r) ∧
    ∃ t' ∈ (upTerminal 24 140 (by decide) (by decide)).drawData bits (plain 24 140) (24, 140)
        (oneTaskWide.inOrder r.ioMonitor.monitor.ioStats),
      ∃ len data, readRow (textAt (plain 24 140) t'.window 2 len) = some data ∧
        data.Tells 7 1000000000 readAPage.stats.counters := by
  have hruns : ∃ out ∈ main familyAnswers [oneTaskWide], ∃ r ∈ out.getRight?,
      (∃ e ∈ (shownEntries oneTaskWide r.ioMonitor.monitor.table)[0]?, e.1 = 7 ∧ Readable e.2 ∧
        (∀ c ∈ shownUser e.2 ++ shownCommand e.2, IsPrintable c) ∧ (rowText e.2).length ≤ 140) ∧
      NamesEnd (shownEntries oneTaskWide r.ioMonitor.monitor.table) ∧
      ∀ ret ∈ r.ioMonitor.socket.returns, ret.taken.all fun taken =>
        taken.2.repLen = readAPage.reply.repLen ∧
          taken.2.msg.bytes = readAPage.reply.msg.bytes := by
    decide +kernel
  obtain ⟨out, hmain, r, hright, ⟨⟨k, task⟩, he, rfl, hreadable, hnames, hwide⟩, hend, htaken⟩ :=
    hruns
  obtain rfl := Sum.getRight?_eq_some_iff.1 hright
  have hinTime : ∀ j ∈ [] ++ [oneTaskWide], InTime j.cycle := by
    intro j hj n
    rw [List.mem_singleton.1 hj]
    exact List.cons_ne_nil _ _
  have hmain' : main familyAnswers ([] ++ [oneTaskWide]) = some (.inr r) := hmain
  have hwin : (plain 24 140).Lawful 24 140 IsLiteral (aNormal, 32#32) := Sheet.lawful _ _
  obtain ⟨-, hdrawn, hshown⟩ := @main_shows _ _ _ _ hmain' 24 140 rfl (by decide) hinTime _
    (truthful_of_all htaken) _ _ bits (plain 24 140) _ hwin
    (upTerminal 24 140 (by decide) (by decide)) ⟨rfl, rfl⟩
  obtain ⟨t', hdraw⟩ := Option.isSome_iff_exists.1 (hdrawn.2 hend)
  obtain ⟨data, q, hdata, -, -, htells⟩ :=
    (hshown t' hdraw).2 0 (by decide) ⟨7, task⟩ he hreadable hnames hwide
  exact ⟨r, hmain, t', hdraw, _, data, hdata, htells⟩

end IotopCpp
