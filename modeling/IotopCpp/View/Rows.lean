import IotopCpp.Lib.Columns
import IotopCpp.Lib.Readback
import IotopCpp.Monitor.Priority
import IotopCpp.View.ViewCurses

/-!
# Rows read back

The row of a task is seven texts in columns and the command line after them.  What is on
the screen can be read again: cut where the columns are, each field without its blanks, the
numbers to the last digit written.  The columns are the ones of the header.

A text that is longer than its column moves the rest of the row, and the columns are lost;
but no row of a run is ever longer than the line it is written into.

## Main definitions

* `bodyCells` — the texts of a row, in their columns.
* `FitsColumns`, `Readable` — none is longer than its column, and none has a `{`.
* `readRow`, `RowData.Shows` — what a reader makes of a row, and that it is the record.

## Main results

* `readRow_taskRow` — **a row on the screen is read back as the record**, if its texts fit.
* `bodyLine_of_run` — over a run, `snprintf` cuts no row.
-/

namespace IotopCpp
namespace ViewCurses

open Printf Decimal Columns Cxxcurses

/-! ### The columns -/

/-- The texts of `BODY_OTHER_LINE_FORMAT` before the command line. -/
def bodyCells (prio user : Bytes) (task : TaskIoInfo) : List Cell :=
  [⟨6, decimal task.taskId, ascii " "⟩, ⟨4, prio, ascii " "⟩, ⟨15, user, ascii " "⟩,
    ⟨15, fixed 2 task.ioRealReadPeriodBS, ascii " "⟩,
    ⟨15, fixed 2 task.ioRealWritePeriodBS, ascii " "⟩,
    ⟨15, fixed 2 task.swapinDelayPeriodPercent, ascii " % "⟩,
    ⟨15, fixed 2 task.blkioDelayPeriodPercent, ascii " %   "⟩]

theorem bodyText_eq_row (prio user command : Bytes) (task : TaskIoInfo) :
    bodyText prio user command task = row (bodyCells prio user task) ++ command := by
  simp only [bodyText, bodyStart, bodyRates, bodyCells, row, List.flatMap_cons, List.flatMap_nil,
    List.append_assoc, List.append_nil]

/-- The columns, by their widths and what separates them. -/
def bodyColumns : List (ℕ × ℕ) :=
  [(6, 1), (4, 1), (15, 1), (15, 1), (15, 1), (15, 3), (15, 5)]

/-- They are those of the header. -/
example : ((cutRow bodyColumns bodyFirstLine).1.map unpad, (cutRow bodyColumns bodyFirstLine).2)
    = (["TID", "PRIO", "USER", "DISK READ", "DISK WRITE", "SWAPIN", "IO"].map ascii,
      ascii "COMMAND") := by
  decide +kernel

/-! ### Reading a row -/

/-- What a reader makes of a row. -/
structure RowData where
  taskId : ℤ
  prio : Option (ℤ × ℤ)
  user : Bytes
  realRead : ℚ
  realWrite : ℚ
  swapin : ℚ
  blkio : ℚ
  command : Bytes

/-- Cut a row at its columns, and read the fields.  This is what a reader of the screen
does, who knows the header line and nothing else. -/
def readRow (text : Bytes) : Option RowData :=
  match cutRow bodyColumns text with
  | ([taskId, prio, user, realRead, realWrite, swapin, blkio], command) => do
    let taskId ← readDecimal (unpad taskId)
    let realRead ← readFixed (unpad realRead)
    let realWrite ← readFixed (unpad realWrite)
    let swapin ← readFixed (unpad swapin)
    let blkio ← readFixed (unpad blkio)
    some {
      taskId
      prio := readIoPrio prio
      user := unpad user
      realRead
      realWrite
      swapin
      blkio
      command := command }
  | _ => none

/-- What the reader has is the record, with its rates to half of the last digit shown. -/
structure RowData.Shows (d : RowData) (task : TaskIoInfo) : Prop where
  taskId : d.taskId = task.taskId
  prio : d.prio = if 4 ≤ ioprioClass task.ioPriority then none
    else some (ioprioClass task.ioPriority, ioprioLevel task.ioPriority)
  user : d.user = cString task.userName.bytes
  realRead : |d.realRead - task.ioRealReadPeriodBS| ≤ 1 / (2 * 10 ^ 2)
  realWrite : |d.realWrite - task.ioRealWritePeriodBS| ≤ 1 / (2 * 10 ^ 2)
  swapin : |d.swapin - task.swapinDelayPeriodPercent| ≤ 1 / (2 * 10 ^ 2)
  blkio : |d.blkio - task.blkioDelayPeriodPercent| ≤ 1 / (2 * 10 ^ 2)
  command : d.command = cString task.fullCmdline.bytes

/-- The texts of a task are no longer than their columns: an id of six characters, a level
of one digit, a name of fifteen, and rates of twelve digits before the point. -/
structure FitsColumns (task : TaskIoInfo) : Prop where
  taskId_gt : -10 ^ 5 < task.taskId
  taskId_lt : task.taskId < 10 ^ 6
  prio_nonneg : 0 ≤ task.ioPriority
  level_lt : ioprioLevel task.ioPriority < 10
  user_length : (cString task.userName.bytes).length ≤ 15
  user_head : ' '.toUInt8 ∉ (cString task.userName.bytes).head?
  rates : ∀ q ∈ [task.ioRealReadPeriodBS, task.ioRealWritePeriodBS, task.swapinDelayPeriodPercent,
    task.blkioDelayPeriodPercent], 0 ≤ q ∧ q + 1 ≤ 10 ^ 12

instance (task : TaskIoInfo) : Decidable (FitsColumns task) :=
  decidable_of_iff (-10 ^ 5 < task.taskId ∧ task.taskId < 10 ^ 6 ∧ 0 ≤ task.ioPriority ∧
      ioprioLevel task.ioPriority < 10 ∧ (cString task.userName.bytes).length ≤ 15 ∧
      ' '.toUInt8 ∉ (cString task.userName.bytes).head? ∧
      ∀ q ∈ [task.ioRealReadPeriodBS, task.ioRealWritePeriodBS, task.swapinDelayPeriodPercent,
        task.blkioDelayPeriodPercent], 0 ≤ q ∧ q + 1 ≤ 10 ^ 12)
    ⟨fun ⟨h₁, h₂, h₃, h₄, h₅, h₆, h₇⟩ => ⟨h₁, h₂, h₃, h₄, h₅, h₆, h₇⟩,
      fun h => ⟨h.taskId_gt, h.taskId_lt, h.prio_nonneg, h.level_lt, h.user_length, h.user_head, h.rates⟩⟩

variable {task : TaskIoInfo}

/-- The text of a priority that fits fills its column. -/
theorem FitsColumns.length_rowPrio (h : FitsColumns task) : (rowPrio task).length = 4 := by
  unfold rowPrio
  by_cases hclass : 4 ≤ ioprioClass task.ioPriority
  · rw [convertIoPrioToStr_of_le hclass]
    rfl
  · obtain ⟨name, hname, htext⟩ := convertIoPrioToStr_of_lt h.prio_nonneg (not_le.1 hclass)
    have hnonneg := ioprioLevel_nonneg task.ioPriority
    have hlt := h.level_lt
    have hnames : ∀ name ∈ Util.strIoprioClass, name.length ≤ 2 := by decide
    have hname := hnames name (List.mem_of_getElem? hname)
    have hdigit : (digits (ioprioLevel task.ioPriority).natAbs).length = 1 :=
      le_antisymm (length_digits_le (by decide) (by omega))
        (List.length_pos_iff.2 (digits_ne_nil _))
    rw [htext, Option.getD_some, ioprioText_eq name hnonneg, List.length_append, length_field,
      List.length_cons, hdigit]
    omega

theorem FitsColumns.cells (h : FitsColumns task) :
    ∀ c ∈ bodyCells (rowPrio task) (cString task.userName.bytes) task, c.Fits := by
  have hrates := h.rates
  simp only [List.forall_mem_cons] at hrates
  obtain ⟨hread, hwrite, hswapin, hblkio, -⟩ := hrates
  have hrate {q : ℚ} (hq : 0 ≤ q ∧ q + 1 ≤ 10 ^ 12) : (fixed 2 q).length ≤ 15 :=
    length_fixed_le (by decide) (by decide) hq.1 hq.2
  have htaskId : (decimal task.taskId).length ≤ 6 := by
    have hgt := h.taskId_gt
    have hlt := h.taskId_lt
    by_cases hneg : task.taskId < 0
    · have hlength := length_decimal_le (k := 5) (by decide) (show task.taskId.natAbs < 10 ^ 5 by omega)
      rwa [if_pos hneg] at hlength
    · have hlength := length_decimal_le (k := 6) (by decide) (show task.taskId.natAbs < 10 ^ 6 by omega)
      rwa [if_neg hneg] at hlength
  simp only [bodyCells, List.forall_mem_cons]
  exact ⟨htaskId, h.length_rowPrio.le, h.user_length, hrate hread, hrate hwrite, hrate hswapin,
    hrate hblkio, by simp⟩

/-- **A row whose texts fit is read back as the record.** -/
theorem readRow_bodyText (h : FitsColumns task) :
    ∃ data, readRow (bodyText (rowPrio task) (cString task.userName.bytes)
      (cString task.fullCmdline.bytes) task) = some data ∧ data.Shows task := by
  obtain ⟨read, hread, hread'⟩ := exists_readFixed_fixed (p := 2) (by decide) task.ioRealReadPeriodBS
  obtain ⟨write, hwrite, hwrite'⟩ :=
    exists_readFixed_fixed (p := 2) (by decide) task.ioRealWritePeriodBS
  obtain ⟨swapin, hswapin, hswapin'⟩ :=
    exists_readFixed_fixed (p := 2) (by decide) task.swapinDelayPeriodPercent
  obtain ⟨blkio, hblkio, hblkio'⟩ :=
    exists_readFixed_fixed (p := 2) (by decide) task.blkioDelayPeriodPercent
  -- the row is cut into its fields again, and each is read on its own
  have hcut := cutRow_row h.cells (cString task.fullCmdline.bytes)
  rw [show (bodyCells (rowPrio task) (cString task.userName.bytes) task).map Cell.column
    = bodyColumns from rfl] at hcut
  have hprio : field 4 (rowPrio task) = rowPrio task := field_eq_self h.length_rowPrio.ge
  obtain ⟨text, htext⟩ := Option.isSome_iff_exists.1 (Util.convertIoPrioToStr_isSome.2 h.prio_nonneg)
  have hreadPrio := readIoPrio_convertIoPrioToStr htext
  rw [show text = rowPrio task by rw [rowPrio, htext, Option.getD_some]] at hreadPrio
  refine ⟨⟨task.taskId, readIoPrio (rowPrio task), cString task.userName.bytes, read, write, swapin,
    blkio, cString task.fullCmdline.bytes⟩, ?_, ⟨rfl, hreadPrio, rfl, hread', hwrite', hswapin',
    hblkio', rfl⟩⟩
  have hfixed (q : ℚ) : unpad (field 15 (fixed 2 q)) = fixed 2 q :=
    unpad_field (blank_notMem_head?_fixed 2 q) 15
  rw [bodyText_eq_row, readRow, hcut]
  simp only [bodyCells, List.map_cons, List.map_nil, hprio, hfixed, hread, hwrite, hswapin, hblkio,
    unpad_field (blank_notMem_head?_decimal task.taskId), unpad_field h.user_head,
    readDecimal_decimal, Option.bind_eq_bind, Option.bind_some]

/-- The row of such a task is not cut. -/
theorem FitsColumns.length_bodyText_lt (h : FitsColumns task) :
    (bodyText (rowPrio task) (cString task.userName.bytes) (cString task.fullCmdline.bytes)
      task).length < maxLineLength := by
  have hcells := h.cells
  have hcommand := (length_cString_le task.fullCmdline.bytes).trans_eq task.fullCmdline.length_eq
  simp only [bodyCells, List.forall_mem_cons, Cell.Fits] at hcells
  obtain ⟨h₁, h₂, h₃, h₄, h₅, h₆, h₇, -⟩ := hcells
  rw [bodyText_eq_row, List.length_append, length_row]
  simp only [bodyCells, List.map_cons, List.map_nil, List.sum_cons, List.sum_nil,
    Nat.max_eq_left h₁, Nat.max_eq_left h₂, Nat.max_eq_left h₃, Nat.max_eq_left h₄,
    Nat.max_eq_left h₅, Nat.max_eq_left h₆, Nat.max_eq_left h₇]
  have hseps : (ascii " ").length = 1 ∧ (ascii " % ").length = 3 ∧ (ascii " %   ").length = 5 :=
    ⟨rfl, rfl, rfl⟩
  unfold maxCommandLength at hcommand
  unfold maxLineLength
  omega

/-- The row of a task can be read: its texts fit their columns, so that a reader can cut
the row there, and its names end and have no `{`, so that the row is printed whole. -/
structure Readable (task : TaskIoInfo) : Prop where
  fits : FitsColumns task
  user : 0 ∈ task.userName.bytes
  command : 0 ∈ task.fullCmdline.bytes
  user_plain : openBrace ∉ cString task.userName.bytes
  command_plain : openBrace ∉ cString task.fullCmdline.bytes

instance (task : TaskIoInfo) : Decidable (Readable task) :=
  decidable_of_iff (FitsColumns task ∧ 0 ∈ task.userName.bytes ∧ 0 ∈ task.fullCmdline.bytes ∧
      openBrace ∉ cString task.userName.bytes ∧ openBrace ∉ cString task.fullCmdline.bytes)
    ⟨fun ⟨h₁, h₂, h₃, h₄, h₅⟩ => ⟨h₁, h₂, h₃, h₄, h₅⟩,
      fun h => ⟨h.fits, h.user, h.command, h.user_plain, h.command_plain⟩⟩

/-- Such a row is printed whole. -/
theorem Readable.chars_taskRow (h : Readable task) (y : ℤ) :
    (taskRow y task).glyphs.map GlyphString.chars
      = some (bodyText (rowPrio task) (cString task.userName.bytes)
          (cString task.fullCmdline.bytes) task) := by
  have hline := (bodyLine_eq_some h.user h.command).2 ⟨h.fits.prio_nonneg, rfl⟩
  rw [snprintf_eq_self h.fits.length_bodyText_lt] at hline
  refine (chars_taskRow_iff h.user h.command hline y).2 ⟨?_, ?_⟩
  · intro hbrace
    exact h.user_plain ((mem_field_iff (by decide)).1 (List.mem_of_mem_take hbrace))
  · intro hbrace
    exact h.command_plain (List.mem_of_mem_take hbrace)

/-- **What is on the screen for a task is the task.**  Where its texts fit their columns
and neither name has a `{`, the row is printed whole and read back as the record. -/
theorem readRow_taskRow (h : Readable task) (y : ℤ) :
    ∃ text data, (taskRow y task).glyphs.map GlyphString.chars = some text ∧
      readRow text = some data ∧ data.Shows task := by
  obtain ⟨data, hdata, hshows⟩ := readRow_bodyText h.fits
  exact ⟨_, data, h.chars_taskRow y, hdata, hshows⟩

/-- A task that fits. -/
def shellTask : TaskIoInfo where
  taskId := 4242
  ioPriority := 16388
  userName := ⟨ascii "root" ++ List.replicate 125 0, rfl⟩
  fullCmdline := ⟨ascii "sh" ++ List.replicate 127 0, rfl⟩
  ioRealReadPeriodBS := 4096

theorem readRow_taskRow_shellTask : ∃ text data,
    (taskRow 2 shellTask).glyphs.map GlyphString.chars = some text ∧ readRow text = some data ∧
      data.Shows shellTask :=
  readRow_taskRow (by decide +kernel) 2

/-! ### Over a whole run -/

theorem rateOf_le (elapsed : ℕ) (n : UInt64) : rateOf elapsed n + 1 ≤ 10 ^ 23 := by
  have hn : (n.toNat : ℚ) ≤ 2 ^ 64 := by exact_mod_cast n.toNat_lt.le
  unfold rateOf
  split
  · next h =>
    have helapsed : (1 : ℚ) / 10 ^ 3 ≤ (elapsed : ℚ) / 10 ^ 9 := ((guard_iff elapsed).2 h).le
    have hdiv : (n.toNat : ℚ) / ((elapsed : ℚ) / 10 ^ 9) ≤ 2 ^ 64 / (1 / 10 ^ 3) :=
      div_le_div₀ (by positivity) hn (by positivity) helapsed
    refine (add_le_add_left hdiv 1).trans ?_
    norm_num
  · norm_num

theorem percentOf_le (elapsed : ℕ) (n : UInt64) : percentOf elapsed n + 1 ≤ 10 ^ 23 := by
  have hn : (n.toNat : ℚ) ≤ 2 ^ 64 := by exact_mod_cast n.toNat_lt.le
  unfold percentOf
  split
  · next h =>
    have helapsed : (1 : ℚ) ≤ elapsed := by exact_mod_cast (by omega : 1 ≤ elapsed)
    have hdiv : (n.toNat : ℚ) / elapsed ≤ 2 ^ 64 / 1 :=
      div_le_div₀ (by positivity) hn (by positivity) helapsed
    have hmul := mul_le_mul_of_nonneg_right hdiv (show (0 : ℚ) ≤ 10 ^ 2 by positivity)
    refine (add_le_add_left hmul 1).trans ?_
    norm_num
  · norm_num

theorem percentOf_nonneg (elapsed : ℕ) (n : UInt64) : 0 ≤ percentOf elapsed n := by
  unfold percentOf
  split
  · positivity
  · exact le_rfl

theorem length_toCString_le {n : ℕ} {a : CharArray n} {s : Bytes} (h : a.toCString = some s) :
    s.length ≤ n := by
  unfold CharArray.toCString at h
  split at h
  · obtain rfl := Option.some.inj h
    exact (length_cString_le _).trans_eq a.length_eq
  · cases h

/-- The text of a record is short, whatever was counted and however short the cycle was. -/
theorem length_bodyText_lt {elapsed : ℕ} {q : Query} {r : TaskIoInfo} (hspec : RecordSpec elapsed q r)
    {prio user command : Bytes} (hprio : prio.length ≤ 9) (huser : user.length ≤ 129)
    (hcommand : command.length ≤ 129) :
    (bodyText prio user command r).length < maxLineLength - 1 := by
  have htaskId : (decimal r.taskId).length ≤ 11 := by
    have hid := natAbs_toPidT_le q.id
    rw [← hspec.taskId] at hid
    refine (length_decimal_le (k := 10) (by decide) (hid.trans_lt (by decide))).trans ?_
    split <;> omega
  -- 64 bits over a millisecond at least, so 23 digits before the point at most
  have hrate (n : UInt64) : (fixed 2 (rateOf elapsed n)).length ≤ 26 :=
    length_fixed_le (k := 23) (by decide) (by decide) (rateOf_nonneg _ n) (rateOf_le _ n)
  have hpercent (n : UInt64) : (fixed 2 (percentOf elapsed n)).length ≤ 26 :=
    length_fixed_le (k := 23) (by decide) (by decide) (percentOf_nonneg _ n) (percentOf_le _ n)
  have hread := hrate r.counters.realRead
  have hwrite := hrate r.counters.realWrite
  have hswapin := hpercent r.counters.swapinDelay
  have hblkio := hpercent r.counters.blkioDelay
  rw [← hspec.realRead] at hread
  rw [← hspec.realWrite] at hwrite
  rw [← hspec.swapinDelay] at hswapin
  rw [← hspec.blkioDelay] at hblkio
  have hseps : (ascii " ").length = 1 ∧ (ascii " % ").length = 3 ∧ (ascii " %   ").length = 5 :=
    ⟨rfl, rfl, rfl⟩
  rw [bodyText_eq_row, List.length_append, length_row]
  simp only [bodyCells, List.map_cons, List.map_nil, List.sum_cons, List.sum_nil]
  unfold maxLineLength
  omega

/-- **No row of a run is cut.** -/
theorem bodyLine_of_run {cs : List Cycle} {m : IoMonitor} (hrun : run cs = some m) {k : UInt64}
    {r : TaskIoInfo} (hr : m.table.lookup k = some r) {text : Bytes} (htext : bodyLine r = some text) :
    text.length < maxLineLength - 1 ∧ ∃ prio user command,
      Util.convertIoPrioToStr r.ioPriority = some prio ∧ r.userName.toCString = some user ∧
        r.fullCmdline.toCString = some command ∧ text = bodyText prio user command r := by
  rcases List.eq_nil_or_concat' cs with rfl | ⟨cs, c, rfl⟩
  · obtain rfl := Option.some.inj hrun
    cases hr
  · obtain ⟨m₀, -, hstep⟩ := Runs.runFrom_concat.1 hrun
    obtain ⟨-, q, -, -, hrecord⟩ := (IoMonitor.lookup_collectTimed hstep).1 hr
    simp only [bodyLine, Option.bind_eq_bind, Option.bind_eq_some_iff] at htext
    obtain ⟨prio, hprio, user, huser, command, hcommand, htext⟩ := htext
    obtain rfl := Option.some.inj htext
    have hfits := length_bodyText_lt (record_spec hrecord)
      (Util.length_convertIoPrioToStr_le hprio) (length_toCString_le huser)
      (length_toCString_le hcommand)
    -- so `snprintf` has room for all of it
    have huncut := snprintf_eq_self
      (hfits.trans (show maxLineLength - 1 < maxLineLength by decide))
    rw [huncut]
    exact ⟨hfits, prio, user, command, hprio, huser, hcommand, rfl⟩

theorem bodyLine_of_run_ofProcess :
    ∃ m ∈ run [.ofProcess 0 1 {}], ∃ r ∈ m.table.lookup 1, ∃ text ∈ bodyLine r,
      text.length < maxLineLength - 1 := by
  have hrun : ∃ m ∈ run [.ofProcess 0 1 {}], ∃ r ∈ m.table.lookup 1, (bodyLine r).isSome := by
    decide +kernel
  obtain ⟨m, hm, r, hr, hsome⟩ := hrun
  obtain ⟨text, htext⟩ := Option.isSome_iff_exists.1 hsome
  exact ⟨m, hm, r, hr, text, htext, (bodyLine_of_run hm hr htext).1⟩

end ViewCurses
end IotopCpp
