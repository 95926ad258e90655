import IotopCpp.Util
import IotopCpp.Lib.Text
import IotopCpp.View.GlyphString

/-!
# The screen

`ViewCurses` of `view/view.cpp`: a summary on line 0, the column header on line 1,
and below them a row for each task, as far as the window goes.

The loop over the tasks stops once the line before the next one is outside of the
window, which is one row too late.  Each row is passed to the formatter as a
format string, so it is printed as it is only when it has no `{`.

* `printHeader`, `printBody`, `drawData` — what is sent to the window.
* `printBody_eq` — the rows, and their lines.
* `rowsOnScreen_iff` — when every row is inside of the window.
* `printedLiterally_iff` — when a row is printed as it is.
-/

namespace IotopCpp
namespace ViewCurses

open Cxxcurses Printf

/-- `MAX_LINE_LENGTH`. -/
def maxLineLength : ℕ := 512

/-! ### Lines of the window -/

/-- A line sent to the window: where the cursor is moved to, and the glyphs
printed from there, `none` for a text that has no meaning. -/
structure Printed where
  y : ℤ
  x : ℤ
  glyphs : Option GlyphString
  deriving DecidableEq

/-- `main_win << cxxcurses::format(y, x)(line)`.  The line is a C string, and
there are no arguments. -/
def printAt (y x : ℤ) (line : Option Bytes) : Printed where
  y
  x
  glyphs := line.bind fun str => (parse [] (cString str) []).map Formatted.parsed

/-- `int` from `size_t`; `pid_t` is an `int`. -/
def toInt (n : UInt64) : ℤ := toPidT n

/-! ### The text of a line -/

/-- `HEADER_LINE_FORMAT`. -/
def headerLine (currRealRead currRealWrite : ℚ) : Bytes :=
  snprintf maxLineLength
    (ascii "Current DISK READ: " ++ field 7 (fixed 2 currRealRead)
      ++ ascii " B/s | Current DISK WRITE: " ++ field 7 (fixed 2 currRealWrite) ++ ascii " B/s")

/-- `BODY_FIRST_LINE_FORMAT`. -/
def bodyFirstLine : Bytes :=
  snprintf maxLineLength
    (field 6 (ascii "TID") ++ ascii " " ++ field 4 (ascii "PRIO") ++ ascii " "
      ++ field 15 (ascii "USER") ++ ascii " " ++ field 15 (ascii "DISK READ") ++ ascii " "
      ++ field 15 (ascii "DISK WRITE") ++ ascii " " ++ field 15 (ascii "SWAPIN") ++ ascii "   "
      ++ field 15 (ascii "IO") ++ ascii "     " ++ ascii "COMMAND")

/-- `BODY_OTHER_LINE_FORMAT`, up to the user name. -/
def bodyStart (prio : Bytes) (task : TaskIoInfo) : Bytes :=
  field 6 (decimal task.taskId) ++ ascii " " ++ field 4 prio ++ ascii " "

/-- `BODY_OTHER_LINE_FORMAT`, between the user name and the command line. -/
def bodyRates (task : TaskIoInfo) : Bytes :=
  ascii " " ++ field 15 (fixed 2 task.ioRealReadPeriodBS)
    ++ ascii " " ++ field 15 (fixed 2 task.ioRealWritePeriodBS)
    ++ ascii " " ++ field 15 (fixed 2 task.swapinDelayPeriodPercent)
    ++ ascii " % " ++ field 15 (fixed 2 task.blkioDelayPeriodPercent) ++ ascii " %   "

/-- `BODY_OTHER_LINE_FORMAT`, for texts of the priority, user and command. -/
def bodyText (prio user command : Bytes) (task : TaskIoInfo) : Bytes :=
  bodyStart prio task ++ (field 15 user ++ (bodyRates task ++ command))

/-- What `snprintf` leaves in `body_line` for a task. -/
def bodyLine (task : TaskIoInfo) : Option Bytes := do
  let prio ← Util.convertIoPrioToStr task.ioPriority
  let user ← task.userName.toCString
  let command ← task.fullCmdline.toCString
  pure (snprintf maxLineLength (bodyText prio user command task))

/-! ### What is drawn -/

/-- `ViewCurses::print_header`. -/
def printHeader (currRealRead currRealWrite : ℚ) : Printed :=
  printAt 0 0 (some (headerLine currRealRead currRealWrite))

/-- The row of a task on a line. -/
def taskRow (y : ℤ) (task : TaskIoInfo) : Printed := printAt y 0 (bodyLine task)

@[simp] theorem printAt_y (y x : ℤ) (line : Option Bytes) : (printAt y x line).y = y := rfl

@[simp] theorem taskRow_y (y : ℤ) (task : TaskIoInfo) : (taskRow y task).y = y := rfl

/-- The loop of `ViewCurses::print_body`.  The line is counted before it is compared, so
the row that is outside of the window is still printed. -/
def printTasks (maxYx : ℤ × ℤ) (yLine : UInt64) : List TaskIoInfo → List Printed
  | [] => []
  | task :: tasks =>
    if UInt64.ofInt maxYx.1 ≤ yLine - 1 then []
    else taskRow (toInt yLine) task :: printTasks maxYx (yLine + 1) tasks

/-- `ViewCurses::print_body`, for a window of this size. -/
def printBody (maxYx : ℤ × ℤ) (taskIoInfos : Table UInt64 TaskIoInfo) : List Printed :=
  printAt (toInt 1) 0 (some bodyFirstLine)
    :: printTasks maxYx 2 (taskIoInfos.entries.map Sigma.snd)

/-- `ViewCurses::draw_data`. -/
def drawData (maxYx : ℤ × ℤ) (sysIoInfo : SystemIoInfo) : List Printed :=
  printHeader sysIoInfo.currDiskReadBS sysIoInfo.currDiskWriteBS
    :: printBody maxYx sysIoInfo.taskIoStatsTable

/-! ### The rows -/

variable {maxYx : ℤ × ℤ} {h : ℕ}

theorem toInt_eq {n : UInt64} (hn : n.toNat < 2 ^ 31) : toInt n = n.toNat := toPidT_eq hn

/-- The loop goes on while the line before the next one is inside of the window. -/
theorem outside_iff (hheight : maxYx.1 = h) (hint : h < 2 ^ 31) {yLine : UInt64}
    (hpos : 0 < yLine.toNat) : UInt64.ofInt maxYx.1 ≤ yLine - 1 ↔ h + 1 ≤ yLine.toNat := by
  have hheight' : (UInt64.ofInt maxYx.1).toNat = h := by
    rw [hheight, UInt64.ofInt]
    simp only [UInt64.toNat_ofNat']
    omega
  have hbefore : (yLine - 1).toNat = yLine.toNat - 1 := by
    rw [UInt64.toNat_sub_of_le]
    · rfl
    · rw [UInt64.le_iff_toNat_le]
      exact hpos
  rw [UInt64.le_iff_toNat_le, hheight', hbefore]
  omega

/-- The loop prints a row for each task, on consecutive lines, up to the line
whose number is the height of the window. -/
theorem printTasks_eq (hheight : maxYx.1 = h) (hint : h < 2 ^ 31) (tasks : List TaskIoInfo)
    (yLine : UInt64) (hpos : 0 < yLine.toNat) (hle : yLine.toNat ≤ h + 1) :
    printTasks maxYx yLine tasks
      = ((tasks.take (h + 1 - yLine.toNat)).zipIdx yLine.toNat).map
          fun row => taskRow row.2 row.1 := by
  -- the row of `yLine` is printed unless the row before it was already below the window
  induction tasks generalizing yLine with
  | nil => simp [printTasks]
  | cons task tasks ih =>
    have hout := outside_iff hheight hint hpos
    unfold printTasks
    split
    · next hbreak =>
      have hlast : h + 1 - yLine.toNat = 0 := by
        have hbreak' := hout.1 hbreak
        omega
      rw [hlast]
      rfl
    · next hbreak =>
      have hinside : yLine.toNat < h + 1 := by
        by_contra hcontra
        exact hbreak (hout.2 (by omega))
      have hnext : (yLine + 1).toNat = yLine.toNat + 1 := by
        rw [UInt64.toNat_add, UInt64.toNat_one]
        omega
      have hrows := ih (yLine + 1) (by omega) (by omega)
      have hroom : h + 1 - yLine.toNat = (h + 1 - (yLine.toNat + 1)) + 1 := by omega
      rw [hrows, hnext, hroom, List.take_succ_cons, List.zipIdx_cons, List.map_cons,
        toInt_eq (by omega)]

/-- The column header, and below it the rows of the first tasks of the table, as
many as there are lines up to the one after the last. -/
theorem printBody_eq (hheight : maxYx.1 = h) (hle : 1 ≤ h) (hint : h < 2 ^ 31)
    (taskIoInfos : Table UInt64 TaskIoInfo) :
    printBody maxYx taskIoInfos
      = printAt 1 0 (some bodyFirstLine)
        :: ((taskIoInfos.entries.take (h - 1)).zipIdx 2).map fun row => taskRow row.2 row.1.2 := by
  have hrows := printTasks_eq hheight hint (taskIoInfos.entries.map Sigma.snd) 2 (by decide)
    (show 2 ≤ h + 1 by omega)
  have hroom : h + 1 - (2 : UInt64).toNat = h - 1 := by
    show h + 1 - 2 = h - 1
    omega
  have hheader : toInt 1 = 1 := toInt_eq (by decide)
  unfold printBody
  rw [hrows, hroom, hheader, ← List.map_take, List.zipIdx_map, List.map_map]
  rfl

/-- The lines of the screen, from the summary down. -/
theorem drawData_lines (hheight : maxYx.1 = h) (hle : 1 ≤ h) (hint : h < 2 ^ 31)
    (sysIoInfo : SystemIoInfo) :
    (drawData maxYx sysIoInfo).map Printed.y
      = (List.range (min sysIoInfo.taskIoStatsTable.entries.length (h - 1) + 2)).map
          (Int.ofNat ·) := by
  have hrows : ∀ l : List (Σ _ : UInt64, TaskIoInfo),
      (l.zipIdx 2).map (fun row => (taskRow row.2 row.1.2).y)
        = (List.range' 2 l.length).map (Int.ofNat ·) := by
    intro l
    rw [← List.zipIdx_map_snd 2 l, List.map_map]
    rfl
  unfold drawData
  rw [printBody_eq hheight hle hint, List.map_cons, List.map_cons, List.map_map]
  simp only [Function.comp_def]
  rw [hrows, List.length_take, Nat.min_comm, List.range_eq_range']
  rfl

/-- The rows are inside of the window: below the column header come as many tasks
as the window has lines left for, each once, on the lines from 2 on. -/
def RowsOnScreen (maxYx : ℤ × ℤ) (taskIoInfos : Table UInt64 TaskIoInfo) : Prop :=
  ∃ shown : List (Σ _ : UInt64, TaskIoInfo),
    (shown.map Sigma.fst).Nodup ∧ shown ⊆ taskIoInfos.entries
      ∧ (shown.length : ℤ) = min (taskIoInfos.entries.length : ℤ) (maxYx.1 - 2)
      ∧ printBody maxYx taskIoInfos
        = printAt 1 0 (some bodyFirstLine)
          :: (shown.zipIdx 2).map (fun row => taskRow row.2 row.1.2)
      ∧ ∀ row ∈ printBody maxYx taskIoInfos, row.y < maxYx.1

/-- Every row is inside of the window exactly when the table is no longer than
what fits below the column header.  The height is an `int`. -/
theorem rowsOnScreen_iff (hheight : 2 ≤ maxYx.1) (hint : maxYx.1 < 2 ^ 31)
    (taskIoInfos : Table UInt64 TaskIoInfo) :
    RowsOnScreen maxYx taskIoInfos ↔ (taskIoInfos.entries.length : ℤ) ≤ maxYx.1 - 2 := by
  obtain ⟨h, hh⟩ := Int.eq_ofNat_of_zero_le (show 0 ≤ maxYx.1 by omega)
  have hrows := printBody_eq hh (by omega) (by omega) taskIoInfos
  refine ⟨?_, ?_⟩
  · intro hscreen
    obtain ⟨shown, -, -, hlength, hbody, -⟩ := hscreen
    -- the loop prints as many rows as it has lines and tasks for, so one too many
    have hcount := congrArg List.length (hbody.symm.trans hrows)
    simp only [List.length_cons, List.length_map, List.length_zipIdx, List.length_take] at hcount
    omega
  · intro hfits
    have hall : taskIoInfos.entries.take (h - 1) = taskIoInfos.entries :=
      List.take_of_length_le (by omega)
    rw [hall] at hrows
    refine ⟨taskIoInfos.entries, taskIoInfos.nodupKeys, List.Subset.refl _, by omega, hrows, ?_⟩
    intro row hrow
    rw [hrows] at hrow
    rcases List.mem_cons.1 hrow with rfl | htask
    · rw [printAt_y]
      omega
    · obtain ⟨⟨entry, y⟩, hmem, rfl⟩ := List.mem_map.1 htask
      have hlt := List.snd_lt_add_of_mem_zipIdx hmem
      rw [taskRow_y]
      omega

/-- A table with one task. -/
def oneTask : Table UInt64 TaskIoInfo := AList.singleton 1 { taskId := 1 }

theorem rowsOnScreen_iff_oneTask :
    RowsOnScreen (24, 80) oneTask ↔ (oneTask.entries.length : ℤ) ≤ 24 - 2 :=
  rowsOnScreen_iff (by decide) (by decide) oneTask

/-- In a window of two lines the task is on the third. -/
theorem not_rowsOnScreen_oneTask : ¬ RowsOnScreen (2, 80) oneTask := by
  intro hscreen
  obtain ⟨shown, -, -, hlength, hbody, -⟩ := hscreen
  have hprinted : (printBody (2, 80) oneTask).length = 2 := rfl
  have htable : oneTask.entries.length = 1 := rfl
  have hcount := congrArg List.length hbody
  simp only [hprinted, List.length_cons, List.length_map, List.length_zipIdx] at hcount
  rw [htable, ← Nat.succ.inj hcount] at hlength
  revert hlength
  decide

/-! ### What is printed of a row -/

/-- A line is printed up to its first `{`. -/
theorem printAt_glyphs (y x : ℤ) (line : Bytes) :
    (printAt y x (some line)).glyphs.map GlyphString.chars
      = some ((cString line).takeWhile (· ≠ openBrace)) := by
  obtain ⟨returned, hparse⟩ := parse_nil (cString line) []
  simp [printAt, hparse]

/-- The characters of a row that come from neither name. -/
def lineChars : Bytes := Util.ioprioChars ++ ascii "%"

theorem numberChars_subset : numberChars ⊆ lineChars :=
  fun _ hc => List.mem_append_left _ (List.mem_append_left _ hc)

theorem bodyStart_subset {prio : Bytes} (hprio : prio ⊆ Util.ioprioChars) (task : TaskIoInfo) :
    bodyStart prio task ⊆ lineChars := by
  have hblank : ascii " " ⊆ lineChars := by decide
  have hid := field_subset (decimal_subset task.taskId) 6
  have hprio' : field 4 prio ⊆ lineChars :=
    padLeft_subset (by decide) (List.Subset.trans hprio (List.subset_append_left _ _)) 4
  unfold bodyStart
  simp only [List.append_subset]
  exact ⟨⟨⟨List.Subset.trans hid numberChars_subset, hblank⟩, hprio'⟩, hblank⟩

theorem bodyRates_subset (task : TaskIoInfo) : bodyRates task ⊆ lineChars := by
  have hrate (q : ℚ) : field 15 (fixed 2 q) ⊆ lineChars :=
    List.Subset.trans (field_subset (fixed_subset 2 q) 15) numberChars_subset
  have hblank : ascii " " ⊆ lineChars := by decide
  have hpercent : ascii " % " ⊆ lineChars := by decide
  have hlast : ascii " %   " ⊆ lineChars := by decide
  unfold bodyRates
  simp only [List.append_subset, hrate, hblank, hpercent, hlast, and_self]

/-- The priority in the row of a task. -/
def rowPrio (task : TaskIoInfo) : Bytes := (Util.convertIoPrioToStr task.ioPriority).getD []

/-- The user name in the row of a task, as far as it fits. -/
def shownUser (task : TaskIoInfo) : Bytes :=
  (field 15 (cString task.userName.bytes)).take
    (maxLineLength - 1 - (bodyStart (rowPrio task) task).length)

/-- The command line in the row of a task, as far as it fits. -/
def shownCommand (task : TaskIoInfo) : Bytes :=
  (cString task.fullCmdline.bytes).take (maxLineLength - 1
    - (bodyStart (rowPrio task) task
      ++ (field 15 (cString task.userName.bytes) ++ bodyRates task)).length)

/-- A row has a text when its priority has one and its names end. -/
theorem bodyLine_isSome {task : TaskIoInfo} : (bodyLine task).isSome
    ↔ 0 ≤ task.ioPriority ∧ 0 ∈ task.userName.bytes ∧ 0 ∈ task.fullCmdline.bytes := by
  have hstr {n : ℕ} (a : CharArray n) : a.toCString.isSome ↔ 0 ∈ a.bytes := by
    unfold CharArray.toCString
    split
    · next hend => exact ⟨fun _ => hend, fun _ => rfl⟩
    · next hend => exact ⟨nofun, fun h => absurd h hend⟩
  rw [← Util.convertIoPrioToStr_isSome, ← hstr, ← hstr]
  simp only [Option.isSome_iff_exists, bodyLine, Option.bind_eq_bind, Option.bind_eq_some_iff]
  exact ⟨fun ⟨_, prio, hprio, user, huser, command, hcommand, _⟩ =>
      ⟨⟨prio, hprio⟩, ⟨user, huser⟩, command, hcommand⟩,
    fun ⟨⟨prio, hprio⟩, ⟨user, huser⟩, command, hcommand⟩ =>
      ⟨_, prio, hprio, user, huser, command, hcommand, rfl⟩⟩

section Row

variable {task : TaskIoInfo} (huser : 0 ∈ task.userName.bytes)
  (hcommand : 0 ∈ task.fullCmdline.bytes)

include huser hcommand

theorem bodyLine_eq_some {text : Bytes} :
    bodyLine task = some text ↔ 0 ≤ task.ioPriority
      ∧ text = snprintf maxLineLength (bodyText (rowPrio task) (cString task.userName.bytes)
          (cString task.fullCmdline.bytes) task) := by
  unfold bodyLine rowPrio
  rw [CharArray.toCString, if_pos huser, CharArray.toCString, if_pos hcommand]
  cases hprio : Util.convertIoPrioToStr task.ioPriority with
  | none =>
    have hneg : ¬ 0 ≤ task.ioPriority := by
      rw [← Util.convertIoPrioToStr_isSome, hprio]
      simp
    simp [hneg]
  | some prio =>
    have hpos : 0 ≤ task.ioPriority := by
      rw [← Util.convertIoPrioToStr_isSome, hprio]
      rfl
    simp [hpos, eq_comm]

/-- The row of a task: what it shows of the two names, and around them what comes from
neither. -/
theorem bodyLine_parts {text : Bytes} (htext : bodyLine task = some text) :
    ∃ before between, before ⊆ lineChars ∧ between ⊆ lineChars ∧
      text = before ++ (shownUser task ++ (between ++ shownCommand task)) := by
  obtain ⟨hpos, rfl⟩ := (bodyLine_eq_some huser hcommand).1 htext
  obtain ⟨prio, hprio⟩ := Option.isSome_iff_exists.1 (Util.convertIoPrioToStr_isSome.2 hpos)
  have hrow : rowPrio task = prio := by rw [rowPrio, hprio, Option.getD_some]
  have hstart : bodyStart (rowPrio task) task ⊆ lineChars := by
    rw [hrow]
    exact bodyStart_subset (Util.convertIoPrioToStr_subset hprio) task
  refine ⟨(bodyStart (rowPrio task) task).take (maxLineLength - 1), (bodyRates task).take
    (maxLineLength - 1 - (bodyStart (rowPrio task) task
      ++ field 15 (cString task.userName.bytes)).length), ?_, ?_, ?_⟩
  · exact fun c hc => hstart (List.mem_of_mem_take hc)
  · exact fun c hc => bodyRates_subset task (List.mem_of_mem_take hc)
  · unfold snprintf bodyText shownUser shownCommand
    simp only [List.take_append, List.length_append, Nat.sub_sub, Nat.add_assoc]

/-- A character of the row of a task that its numbers do not have. -/
theorem mem_bodyLine_iff {text : Bytes} (htext : bodyLine task = some text) {c : UInt8}
    (hc : c ∉ lineChars) : c ∈ text ↔ c ∈ shownUser task ∨ c ∈ shownCommand task := by
  obtain ⟨before, between, hbefore, hbetween, rfl⟩ := bodyLine_parts huser hcommand htext
  have hnot : c ∉ before := fun h => hc (hbefore h)
  have hnot' : c ∉ between := fun h => hc (hbetween h)
  simp only [List.mem_append, hnot, hnot', false_or]

theorem zero_notMem_bodyLine {text : Bytes} (htext : bodyLine task = some text) : 0 ∉ text := by
  rw [mem_bodyLine_iff huser hcommand htext (by decide)]
  intro h
  rcases h with h | h
  · have hmem := (mem_field_iff (by decide)).1 (List.mem_of_mem_take h)
    exact zero_notMem_cString _ hmem
  · exact zero_notMem_cString _ (List.mem_of_mem_take h)

/-- The row of a task is its text when the text has no `{` from either name. -/
theorem chars_taskRow_iff {text : Bytes} (htext : bodyLine task = some text) (y : ℤ) :
    (taskRow y task).glyphs.map GlyphString.chars = some text
      ↔ openBrace ∉ shownUser task ∧ openBrace ∉ shownCommand task := by
  have hzero := zero_notMem_bodyLine huser hcommand htext
  have hbrace := mem_bodyLine_iff huser hcommand htext (c := openBrace) (by decide)
  unfold taskRow
  rw [htext, printAt_glyphs, cString_eq_self hzero, Option.some_inj, ← not_or, ← hbrace]
  exact Text.takeWhile_ne_eq_self_iff

end Row

/-- A user name fits in the row of a task, whose id is an `int`. -/
theorem shownUser_eq {task : TaskIoInfo} (hid : task.taskId.natAbs < 10 ^ 10)
    (hpos : 0 ≤ task.ioPriority) : shownUser task = field 15 (cString task.userName.bytes) := by
  have hdecimal : (decimal task.taskId).length ≤ 11 := by
    have hdigits := (Nat.length_toDigits_le_iff (b := 10) (by decide) (by decide)).2 hid
    unfold decimal digits
    rw [List.length_append, List.length_map]
    split
    · show 1 + _ ≤ 11
      omega
    · rw [List.length_nil]
      omega
  have hprio : (rowPrio task).length ≤ 9 := by
    obtain ⟨prio, hprio⟩ := Option.isSome_iff_exists.1 (Util.convertIoPrioToStr_isSome.2 hpos)
    rw [rowPrio, hprio]
    exact Util.length_convertIoPrioToStr_le hprio
  have huser : (cString task.userName.bytes).length ≤ maxUserNameLength + 1 :=
    (length_cString_le _).trans_eq task.userName.length_eq
  have hblank : (ascii " ").length = 1 := rfl
  -- the line has room for far more than what is before the command line
  refine List.take_of_length_le ?_
  simp only [bodyStart, List.length_append, length_field, hblank, maxLineLength]
  unfold maxUserNameLength at huser
  omega

/-- The row of a task is printed as it is: its glyphs have the characters that
`snprintf` left in `body_line`. -/
def PrintedLiterally (task : TaskIoInfo) : Prop :=
  ∃ text, bodyLine task = some text
    ∧ ∀ y, (taskRow y task).glyphs.map GlyphString.chars = some text

/-- A row is printed as it is exactly when no `{` is among what it shows of the
user name and of the command line.  A negative priority has no text. -/
theorem printedLiterally_iff {task : TaskIoInfo} (huser : 0 ∈ task.userName.bytes)
    (hcommand : 0 ∈ task.fullCmdline.bytes) :
    PrintedLiterally task
      ↔ 0 ≤ task.ioPriority ∧ openBrace ∉ shownUser task ∧ openBrace ∉ shownCommand task := by
  refine ⟨?_, ?_⟩
  · intro h
    obtain ⟨text, htext, hrow⟩ := h
    exact ⟨((bodyLine_eq_some huser hcommand).1 htext).1,
      (chars_taskRow_iff huser hcommand htext 0).1 (hrow 0)⟩
  · intro hcond
    have htext := (bodyLine_eq_some huser hcommand).2 ⟨hcond.1, rfl⟩
    exact ⟨_, htext, fun y => (chars_taskRow_iff huser hcommand htext y).2 hcond.2⟩

/-- A task with braces in its command line. -/
def bracesTask : TaskIoInfo where
  taskId := 1
  ioPriority := 0
  fullCmdline := ⟨[openBrace, 97, closeBrace] ++ List.replicate 126 0, rfl⟩

theorem printedLiterally_iff_bracesTask :
    PrintedLiterally bracesTask
      ↔ 0 ≤ bracesTask.ioPriority ∧ openBrace ∉ shownUser bracesTask
        ∧ openBrace ∉ shownCommand bracesTask :=
  printedLiterally_iff (by decide) (by decide)

/-- Nothing of the braces is printed. -/
theorem not_printedLiterally_bracesTask : ¬ PrintedLiterally bracesTask := by
  intro h
  obtain ⟨text, htext, hrow⟩ := h
  have hbrace := (chars_taskRow_iff (by decide) (by decide) htext 0).1 (hrow 0)
  have hshown : openBrace ∈ shownCommand bracesTask := by decide +kernel
  exact hbrace.2 hshown

end ViewCurses
end IotopCpp
