import IotopCpp.Common
import IotopCpp.Lib.Printf

/-!
# What is asked of the system about a task

The functions of `common/util.cpp` the collector calls while it fills a record.
Each takes what the system answers (system call results, file contents, the
password database) as arguments, and computes what the source computes from it.

* `getTaskIoPriority` — the I/O priority, from the system call or the scheduler.
* `convertIoPrioToStr` — the text of an I/O priority.
* `FileOpens.files`, `getFileFirstLine`, `getTaskCmdline` — the files that are opened for a
  task, and the command line in them, short or full.
* `getUserName` — the name of a user.
-/

namespace IotopCpp
namespace Util

/-! ### I/O priority -/

def ioprioClassShift : ℕ := 13

/-- `IOPRIO_CLASS_RT`, `IOPRIO_CLASS_BE` and `IOPRIO_CLASS_IDLE`. -/
def ioprioClassRt : ℤ := 1

def ioprioClassBe : ℤ := 2

def ioprioClassIdle : ℤ := 3

/-- `SCHED_FIFO`, `SCHED_RR` and `SCHED_IDLE` of `<sched.h>`. -/
def schedFifo : ℤ := 1

def schedRr : ℤ := 2

def schedIdle : ℤ := 5

/-- `Util::get_task_io_priority_from_sched`, from what `sched_getscheduler` and
`getpriority` return. -/
def getTaskIoPriorityFromSched (scheduler nice : ℤ) : ℤ :=
  let ioPrioNice := (nice + 20).tdiv 5
  if scheduler = schedFifo ∨ scheduler = schedRr then
    ioprioClassRt * 2 ^ ioprioClassShift + ioPrioNice
  else if scheduler = schedIdle then
    ioprioClassIdle * 2 ^ ioprioClassShift
  else
    ioprioClassBe * 2 ^ ioprioClassShift + ioPrioNice

/-- `Util::get_task_io_priority`, from what `ioprio_get` returns. -/
def getTaskIoPriority (ioPrio scheduler nice : ℤ) : ℤ :=
  if ioPrio < 0 then -1
  else if ioPrio / 2 ^ ioprioClassShift = 0 then getTaskIoPriorityFromSched scheduler nice
  else ioPrio

/-- `IOPRIO_CLASS_MAX`: one more than the greatest class. -/
def ioprioClassMax : ℤ := 4

/-- `IOPRIO_STR_MAXSIZ`. -/
def ioprioStrMaxsiz : ℕ := 10

/-- `str_ioprio_class`. -/
def strIoprioClass : List Bytes := [ascii "-", ascii "rt", ascii "be", ascii "id"]

/-- `Util::convert_io_prio_to_str`.  A negative priority has a negative class,
which the source looks up before the start of its table. -/
def convertIoPrioToStr (ioPrio : ℤ) : Option Bytes :=
  let ioClass := ioPrio / 2 ^ ioprioClassShift
  let level := ioPrio % 2 ^ ioprioClassShift
  if ioprioClassMax ≤ ioClass then some (ascii "xx/x")
  else if ioClass < 0 then none
  else strIoprioClass[ioClass.toNat]?.map fun name =>
    Printf.snprintf ioprioStrMaxsiz
      (Printf.field 2 name ++ ascii "/" ++ Printf.field 1 (Printf.decimal level))

/-- What is returned for a priority: nothing for a negative one, a fixed text for
a class that is too great, and the class and the level for any other. -/
theorem convertIoPrioToStr_cases (ioPrio : ℤ) :
    (ioPrio < 0 ∧ convertIoPrioToStr ioPrio = none) ∨
    (0 ≤ ioPrio ∧ ioprioClassMax ≤ ioPrio / 2 ^ ioprioClassShift ∧
      convertIoPrioToStr ioPrio = some (ascii "xx/x")) ∨
    (0 ≤ ioPrio ∧ ioPrio / 2 ^ ioprioClassShift < ioprioClassMax ∧
      ∃ name, strIoprioClass[(ioPrio / 2 ^ ioprioClassShift).toNat]? = some name ∧
        convertIoPrioToStr ioPrio
          = some (Printf.snprintf ioprioStrMaxsiz (Printf.field 2 name ++ ascii "/"
              ++ Printf.field 1 (Printf.decimal (ioPrio % 2 ^ ioprioClassShift))))) := by
  -- the class is looked up for a negative priority as well, before the table
  have hsign : ioPrio / 2 ^ ioprioClassShift < 0 ↔ ioPrio < 0 := by
    unfold ioprioClassShift
    omega
  have hlength : strIoprioClass.length = 4 := rfl
  simp only [convertIoPrioToStr]
  split
  · next hmax =>
    refine Or.inr (Or.inl ⟨?_, hmax, rfl⟩)
    unfold ioprioClassMax at hmax
    exact not_lt.1 (mt hsign.2 (by omega))
  · next hmax =>
    split
    · next hneg => exact Or.inl ⟨hsign.1 hneg, rfl⟩
    · next hneg =>
      refine Or.inr (Or.inr ⟨not_lt.1 (mt hsign.2 hneg), not_le.1 hmax, ?_⟩)
      have hlt : (ioPrio / 2 ^ ioprioClassShift).toNat < strIoprioClass.length := by
        unfold ioprioClassMax at hmax
        omega
      rw [List.getElem?_eq_getElem hlt]
      exact ⟨_, rfl, rfl⟩

theorem convertIoPrioToStr_isSome {ioPrio : ℤ} :
    (convertIoPrioToStr ioPrio).isSome ↔ 0 ≤ ioPrio := by
  rcases convertIoPrioToStr_cases ioPrio with ⟨hneg, h⟩ | ⟨hpos, -, h⟩ | ⟨hpos, -, _, -, h⟩
  · rw [h]
    simpa using hneg
  · rw [h]
    simpa using hpos
  · rw [h]
    simpa using hpos

/-- The characters of an I/O priority. -/
def ioprioChars : Bytes := Printf.numberChars ++ ascii "rtbeidx/"

theorem convertIoPrioToStr_subset {ioPrio : ℤ} {prio : Bytes}
    (h : convertIoPrioToStr ioPrio = some prio) : prio ⊆ ioprioChars := by
  have hnumber : Printf.numberChars ⊆ ioprioChars := List.subset_append_left _ _
  have hblank : ' '.toUInt8 ∈ ioprioChars := by decide
  have hnames : ∀ name ∈ strIoprioClass, name ⊆ ioprioChars := by decide
  rcases convertIoPrioToStr_cases ioPrio with ⟨-, hprio⟩ | ⟨-, -, hprio⟩ | ⟨-, -, name, hname, hprio⟩
  · rw [h] at hprio
    cases hprio
  · obtain rfl := Option.some.inj (h.symm.trans hprio)
    decide
  · obtain rfl := Option.some.inj (h.symm.trans hprio)
    have hlevel := Printf.field_subset (Printf.decimal_subset (ioPrio % 2 ^ ioprioClassShift)) 1
    refine List.Subset.trans (List.take_subset _ _) ?_
    refine List.append_subset.2 ⟨List.append_subset.2 ⟨?_, ?_⟩, ?_⟩
    · exact Printf.padLeft_subset hblank (hnames name (List.mem_of_getElem? hname)) 2
    · decide
    · exact List.Subset.trans hlevel hnumber

/-- The buffer of a priority has room for nine characters. -/
theorem length_convertIoPrioToStr_le {ioPrio : ℤ} {prio : Bytes}
    (h : convertIoPrioToStr ioPrio = some prio) : prio.length ≤ 9 := by
  rcases convertIoPrioToStr_cases ioPrio with ⟨-, hprio⟩ | ⟨-, -, hprio⟩ | ⟨-, -, name, -, hprio⟩
  · rw [h] at hprio
    cases hprio
  · obtain rfl := Option.some.inj (h.symm.trans hprio)
    decide
  · obtain rfl := Option.some.inj (h.symm.trans hprio)
    exact List.length_take_le 9 _

/-! ### Command lines -/

/-- The files of one task under `/proc`, `none` for one that does not open. -/
structure ProcFiles where
  cmdline : Option Bytes
  status : Option Bytes

/-- The size of `path`. -/
def pathSize : ℕ := 30

/-- `"/proc/%d/cmdline"`, as printed into `path`. -/
def cmdlinePath (pid : ℤ) : Bytes :=
  Printf.snprintf pathSize (ascii "/proc/" ++ (Printf.decimal pid ++ ascii "/cmdline"))

/-- `"/proc/%d/status"`, as printed into `path`. -/
def statusPath (pid : ℤ) : Bytes :=
  Printf.snprintf pathSize (ascii "/proc/" ++ (Printf.decimal pid ++ ascii "/status"))

/-- What each of the two `fopen` calls of `get_task_cmdline` opens, by path.  The files may
change between the calls. -/
structure FileOpens where
  first : Bytes → Option Bytes
  second : Bytes → Option Bytes

/-- No file opens. -/
def FileOpens.none : FileOpens := ⟨fun _ => .none, fun _ => .none⟩

/-- The files that `get_task_cmdline` opens for a task, at the paths it prints: each
`fopen` is answered for the path it is handed. -/
def FileOpens.files (o : FileOpens) (pid : ℤ) : ProcFiles where
  cmdline := o.first (cmdlinePath pid)
  status := o.second (statusPath pid)

def slash : UInt8 := '/'.toUInt8

def dot : UInt8 := '.'.toUInt8

def tab : UInt8 := '\t'.toUInt8

def newline : UInt8 := '\n'.toUInt8

/-- What `getline` reads: up to the first newline, and with it. -/
def firstLine : Bytes → Bytes
  | [] => []
  | c :: cs => if c = newline then [c] else c :: firstLine cs

/-- `Util::get_file_first_line`.  The line passes through a `char*`, so it ends
at its first NUL.  `getline` fails on an empty file and otherwise allocates, so
the source's last return, `-3`, is never taken. -/
def getFileFirstLine (file : Option Bytes) (line : Bytes) : ℤ × Bytes :=
  match file with
  | none => (-1, line)
  | some [] => (-2, line)
  | some content => (0, cString (firstLine content))

/-- What follows the first `c`, if anything does; the whole text otherwise. -/
def afterFirst (c : UInt8) (s : Bytes) : Bytes :=
  match s.findIdx? (· == c) with
  | some found => if found + 1 < s.length then s.drop (found + 1) else s
  | none => s

/-- The text starts with `/`, `./` or `../`. -/
def startsAsPath (s : Bytes) : Bool :=
  [slash].isPrefixOf s || [dot, slash].isPrefixOf s || [dot, dot, slash].isPrefixOf s

/-- `Util::get_task_cmdline`, from the files it opens: its status, and what it leaves in
`cmdline`. -/
def getTaskCmdline (isShort : Bool) (files : ProcFiles) (cmdline : Bytes) : ℤ × Bytes :=
  let fromCmdline := getFileFirstLine files.cmdline cmdline
  if 0 ≤ fromCmdline.1 ∧ fromCmdline.2 ≠ [] then
    (0, if isShort && startsAsPath fromCmdline.2 then afterFirst slash fromCmdline.2
      else fromCmdline.2)
  else
    -- the name in `/proc/<pid>/status`, after its tab
    let fromStatus := getFileFirstLine files.status fromCmdline.2
    if 0 ≤ fromStatus.1 ∧ fromStatus.2 ≠ [] then (0, afterFirst tab fromStatus.2)
    else (-1, fromStatus.2)

/-! A command line passes through C strings. -/

theorem zero_notMem_getFileFirstLine (file : Option Bytes) {line : Bytes} (h : 0 ∉ line) :
    0 ∉ (getFileFirstLine file line).2 := by
  unfold getFileFirstLine
  split
  · exact h
  · exact h
  · exact zero_notMem_cString _

theorem zero_notMem_afterFirst (c : UInt8) {s : Bytes} (h : 0 ∉ s) :
    0 ∉ afterFirst c s := by
  unfold afterFirst
  split
  · split
    · exact fun hmem => h (List.mem_of_mem_drop hmem)
    · exact h
  · exact h

/-- A command line passes through C strings, and holds no NUL. -/
theorem zero_notMem_getTaskCmdline (isShort : Bool) (files : ProcFiles) :
    0 ∉ (getTaskCmdline isShort files []).2 := by
  have hempty : (0 : UInt8) ∉ ([] : Bytes) := by simp
  have hfirst := zero_notMem_getFileFirstLine files.cmdline hempty
  have hstatus := zero_notMem_getFileFirstLine files.status hfirst
  simp only [getTaskCmdline]
  split
  · simp only
    split
    · exact zero_notMem_afterFirst _ hfirst
    · exact hfirst
  · split
    · exact zero_notMem_afterFirst _ hstatus
    · exact hstatus

/-! ### User names -/

/-- `Util::get_user_name`, from the password database. -/
def getUserName (passwd : ℤ → Option Bytes) (userId : ℤ) : Bytes :=
  (passwd userId).getD (['<', 'u', 'n', 'k', 'n', 'o', 'w', 'n', '>'].map Char.toUInt8)

end Util
end IotopCpp
