import IotopCpp.Monitor.TaskTable
import IotopCpp.Lib.Decimal

/-!
# I/O priorities

The number `handle_every_task_io_info` stores for a task packs a class and a level,
whether the system call gave it or the scheduler did; an error is stored as zero.
`convert_io_prio_to_str` looks the class up in a table without checking that it is not
negative, and writes it with the level into ten bytes.

## Main definitions

* `ioprioClass`, `ioprioLevel` — the two parts of a priority.
* `readIoPrio` — reading them back from a text.
* `Printable` — a priority whose text is the whole of it.

## Main results

* `readIoPrio_text` — the class and the level are read back from the text.
* `printable_of_nonneg` — a priority is printable if it is not negative.
* `stored_priority_printable` — every stored priority is.
* `printable_of_run` — so is the priority of every record a run leaves in its table.
* `fromSched_parts` — the scheduler's packing agrees with the system call's.
* `readIoPrio_queriedRecord` — what the priority of a task reads as.
-/

namespace IotopCpp

open Decimal

/-- The class of a priority, `io_prio >> IOPRIO_CLASS_SHIFT`. -/
def ioprioClass (ioPrio : ℤ) : ℤ := ioPrio / 2 ^ Util.ioprioClassShift

/-- The level of a priority, `io_prio & ((1 << IOPRIO_CLASS_SHIFT) - 1)`. -/
def ioprioLevel (ioPrio : ℤ) : ℤ := ioPrio % 2 ^ Util.ioprioClassShift

/-- The text of a class and a level, `"%2s/%1i"`, as long as it takes. -/
def ioprioText (name : Bytes) (level : ℤ) : Bytes :=
  Printf.field 2 name ++ ascii "/" ++ Printf.field 1 (Printf.decimal level)

/-- Read a class and a level: the name of a class up to the slash, and digits. -/
def readIoPrio (text : Bytes) : Option (ℤ × ℤ) := do
  let name := text.takeWhile (· != Util.slash)
  let digits := (text.dropWhile (· != Util.slash)).tail
  let ioClass ← Util.strIoprioClass.findIdx? (Printf.field 2 · == name)
  if digits = [] ∨ ¬digits.all isDigit then none
  else some (ioClass, ofDigits digits)

/-- **A priority that can be printed.**  Its class is looked up inside the table, the
buffer has room for the whole text, and no other priority has the same text. -/
structure Printable (ioPrio : ℤ) : Prop where
  nonneg : 0 ≤ ioPrio
  text : ∃ text, Util.convertIoPrioToStr ioPrio = some text ∧
    (text = ascii "xx/x" ↔ 4 ≤ ioprioClass ioPrio) ∧
    (ioprioClass ioPrio < 4 →
      (∃ name, Util.strIoprioClass[(ioprioClass ioPrio).toNat]? = some name ∧
        text = ioprioText name (ioprioLevel ioPrio)) ∧
      text.length < Util.ioprioStrMaxsiz ∧
      readIoPrio text = some (ioprioClass ioPrio, ioprioLevel ioPrio) ∧
      ∀ ioPrio', Util.convertIoPrioToStr ioPrio' = some text → ioPrio' = ioPrio)

/-! ### Reading a text back -/

/-- A level is written as its digits, of which there is one at least. -/
theorem ioprioText_eq (name : Bytes) {level : ℤ} (h : 0 ≤ level) :
    ioprioText name level
      = Printf.field 2 name ++ (Util.slash :: Printf.digits level.natAbs) := by
  have hdigits : 1 ≤ (Printf.digits level.natAbs).length :=
    List.length_pos_iff.2 (digits_ne_nil _)
  rw [ioprioText, Printf.decimal_of_nonneg h, Printf.field_eq_self hdigits, List.append_assoc]
  rfl

/-- The names of the classes are told apart, in their fields. -/
theorem findIdx_strIoprioClass {k : ℕ} {name : Bytes}
    (hname : Util.strIoprioClass[k]? = some name) :
    Util.strIoprioClass.findIdx? (Printf.field 2 · == Printf.field 2 name) = some k := by
  obtain ⟨hk, rfl⟩ := List.getElem?_eq_some_iff.1 hname
  have hk : k < 4 := hk
  interval_cases k <;> rfl

/-- **The class and the level are read back.** -/
theorem readIoPrio_text {k : ℕ} {name : Bytes} (hname : Util.strIoprioClass[k]? = some name)
    {level : ℤ} (hlevel : 0 ≤ level) : readIoPrio (ioprioText name level) = some (↑k, level) := by
  have hnames : ∀ name ∈ Util.strIoprioClass, Util.slash ∉ Printf.field 2 name := by decide
  have hslash : ∀ c ∈ Printf.field 2 name, (c != Util.slash) = true := by
    intro c hc
    exact bne_iff_ne.2 (ne_of_mem_of_not_mem hc (hnames name (List.mem_of_getElem? hname)))
  have htake : (ioprioText name level).takeWhile (· != Util.slash) = Printf.field 2 name := by
    rw [ioprioText_eq name hlevel, List.takeWhile_append_of_pos hslash,
      List.takeWhile_cons_of_neg (by simp), List.append_nil]
  have hdrop : ((ioprioText name level).dropWhile (· != Util.slash)).tail
      = Printf.digits level.natAbs := by
    rw [ioprioText_eq name hlevel, List.dropWhile_append_of_pos hslash,
      List.dropWhile_cons_of_neg (by simp), List.tail_cons]
  have hdigits : (Printf.digits level.natAbs).all isDigit = true :=
    List.all_eq_true.2 fun _ hc => isDigit_of_mem_digits hc
  simp only [readIoPrio, htake, hdrop, findIdx_strIoprioClass hname, Option.bind_eq_bind,
    Option.bind_some, hdigits, digits_ne_nil, ofDigits_digits]
  simp [abs_of_nonneg hlevel]

/-- The buffer has room for every text. -/
theorem length_ioprioText_lt {name : Bytes} (hname : name ∈ Util.strIoprioClass) {level : ℤ}
    (hnonneg : 0 ≤ level) (hlt : level < 2 ^ Util.ioprioClassShift) :
    (ioprioText name level).length < Util.ioprioStrMaxsiz := by
  have hnames : ∀ name ∈ Util.strIoprioClass, name.length ≤ 2 := by decide
  have hname := hnames name hname
  have hdigits : (Printf.digits level.natAbs).length ≤ 4 := by
    rw [Printf.digits, List.length_map, Nat.length_toDigits_le_iff (by decide) (by decide)]
    unfold Util.ioprioClassShift at hlt
    omega
  rw [ioprioText_eq name hnonneg, List.length_append, Printf.length_field, List.length_cons]
  unfold Util.ioprioStrMaxsiz
  omega

theorem ioprioLevel_nonneg (ioPrio : ℤ) : 0 ≤ ioprioLevel ioPrio :=
  Int.emod_nonneg _ (by decide)

theorem ioprioLevel_lt (ioPrio : ℤ) : ioprioLevel ioPrio < 2 ^ Util.ioprioClassShift :=
  Int.emod_lt_of_pos _ (by decide)

/-- A priority is its class and its level. -/
theorem eq_of_class_level {p q : ℤ} (hclass : ioprioClass p = ioprioClass q)
    (hlevel : ioprioLevel p = ioprioLevel q) : p = q := by
  have hp := Int.emod_add_mul_ediv p (2 ^ Util.ioprioClassShift)
  have hq := Int.emod_add_mul_ediv q (2 ^ Util.ioprioClassShift)
  rw [← hp, ← hq]
  exact congrArg₂ (fun level ioClass => level + 2 ^ Util.ioprioClassShift * ioClass) hlevel hclass

/-- The text of a priority whose class has a name, which is not cut. -/
theorem convertIoPrioToStr_of_lt {ioPrio : ℤ} (h : 0 ≤ ioPrio) (hclass : ioprioClass ioPrio < 4) :
    ∃ name, Util.strIoprioClass[(ioprioClass ioPrio).toNat]? = some name ∧
      Util.convertIoPrioToStr ioPrio = some (ioprioText name (ioprioLevel ioPrio)) := by
  rcases Util.convertIoPrioToStr_cases ioPrio with ⟨hneg, -⟩ | ⟨-, hmax, -⟩ | ⟨-, -, name, hname, htext⟩
  · exact absurd h (not_le.2 hneg)
  · exact absurd hclass (not_lt.2 hmax)
  · refine ⟨name, hname, ?_⟩
    have hroom := length_ioprioText_lt (List.mem_of_getElem? hname) (ioprioLevel_nonneg ioPrio)
      (ioprioLevel_lt ioPrio)
    exact htext.trans (congrArg some (Printf.snprintf_eq_self hroom))

theorem convertIoPrioToStr_of_le {ioPrio : ℤ} (hclass : 4 ≤ ioprioClass ioPrio) :
    Util.convertIoPrioToStr ioPrio = some (ascii "xx/x") := if_pos hclass

/-- What is read back of the text of a priority. -/
theorem readIoPrio_convertIoPrioToStr {ioPrio : ℤ} {text : Bytes}
    (h : Util.convertIoPrioToStr ioPrio = some text) :
    readIoPrio text
      = if 4 ≤ ioprioClass ioPrio then none else some (ioprioClass ioPrio, ioprioLevel ioPrio) := by
  have hnonneg : 0 ≤ ioPrio := Util.convertIoPrioToStr_isSome.1 (by rw [h]; rfl)
  split
  · next hclass =>
    obtain rfl := Option.some.inj (h.symm.trans (convertIoPrioToStr_of_le hclass))
    rfl
  · next hclass =>
    obtain ⟨name, hname, htext⟩ := convertIoPrioToStr_of_lt hnonneg (not_le.1 hclass)
    obtain rfl := Option.some.inj (h.symm.trans htext)
    have hclass : 0 ≤ ioprioClass ioPrio := Int.ediv_nonneg hnonneg (by decide)
    rw [readIoPrio_text hname (ioprioLevel_nonneg ioPrio), Int.toNat_of_nonneg hclass]

/-- **A priority is printable if it is not negative.** -/
theorem printable_of_nonneg {ioPrio : ℤ} (h : 0 ≤ ioPrio) : Printable ioPrio := by
  obtain ⟨text, htext⟩ := Option.isSome_iff_exists.1 (Util.convertIoPrioToStr_isSome.2 h)
  have hread := readIoPrio_convertIoPrioToStr htext
  refine ⟨h, text, htext, ⟨?_, ?_⟩, ?_⟩
  · rintro rfl
    by_contra hclass
    rw [if_neg hclass] at hread
    cases hread
  · intro hclass
    exact Option.some.inj (htext.symm.trans (convertIoPrioToStr_of_le hclass))
  · intro hclass
    rw [if_neg (not_le.2 hclass)] at hread
    obtain ⟨name, hname, heq⟩ := convertIoPrioToStr_of_lt h hclass
    obtain rfl := Option.some.inj (htext.symm.trans heq)
    refine ⟨⟨name, hname, rfl⟩, ?_, hread, ?_⟩
    · exact length_ioprioText_lt (List.mem_of_getElem? hname) (ioprioLevel_nonneg ioPrio)
        (ioprioLevel_lt ioPrio)
    · intro ioPrio' htext'
      -- the two texts are read alike
      have hread' := readIoPrio_convertIoPrioToStr htext'
      rw [hread] at hread'
      split at hread'
      · cases hread'
      · obtain ⟨hclass', hlevel'⟩ := Prod.mk.inj (Option.some.inj hread')
        exact (eq_of_class_level hclass' hlevel').symm

/-! ### The stored priority -/

theorem queriedRecord_ioPriority_nonneg (answers : TaskAnswers) (r : TaskIoInfo) :
    0 ≤ (queriedRecord answers r).ioPriority := by
  unfold queriedRecord
  simp only
  split
  · exact le_rfl
  · next hprio => exact not_lt.1 hprio

theorem fillPeriods_ioPriority (originNs collectTmNs : UInt64) (origin : Counters)
    (r : TaskIoInfo) : (fillPeriods originNs collectTmNs origin r).ioPriority = r.ioPriority := by
  unfold fillPeriods
  simp only
  split <;> rfl

/-- Nothing after it changes the priority a record was given. -/
theorem ioPriority_handleEveryTaskIoInfo {originNs collectTmNs : UInt64} {answers : TaskAnswers}
    {r r' : TaskIoInfo} (h : handleEveryTaskIoInfo originNs answers r collectTmNs = some r') :
    r'.ioPriority = (queriedRecord answers r).ioPriority := by
  have hquery : (answers.taskstats.apply (queriedRecord answers r)).2.ioPriority
      = (queriedRecord answers r).ioPriority := by
    cases answers.taskstats with
    | failed e => rfl
    | answered stats => cases stats <;> rfl
  rcases handleEveryTaskIoInfo_cases h with ⟨-, rfl⟩ | ⟨-, hnames⟩
  · exact hquery
  · obtain ⟨userName, shortCmdline, fullCmdline, rfl⟩ := fillNames_eq_some hnames
    exact (fillPeriods_ioPriority _ _ _ _).trans hquery

/-- **Every stored priority is printable**, whatever the system calls return. -/
theorem stored_priority_printable (originNs collectTmNs : UInt64) (answers : TaskAnswers)
    (r : TaskIoInfo) :
    Printable (queriedRecord answers r).ioPriority ∧
      ∀ r', handleEveryTaskIoInfo originNs answers r collectTmNs = some r' →
        r'.ioPriority = (queriedRecord answers r).ioPriority :=
  ⟨printable_of_nonneg (queriedRecord_ioPriority_nonneg answers r),
    fun _ h => ioPriority_handleEveryTaskIoInfo h⟩

/-- The priority of every record in the table can be shown. -/
theorem printable_of_run {cs : List Cycle} {m : IoMonitor} (hrun : run cs = some m) {k : UInt64}
    {r : TaskIoInfo} (hr : m.table.lookup k = some r) : Printable r.ioPriority := by
  have hstep (m : IoMonitor) (c : Cycle) (m' : IoMonitor) (h : m.collectTimed c = some m') :
      ∀ k r, m'.table.lookup k = some r → Printable r.ioPriority := by
    intro k r hr
    obtain ⟨-, q, -, -, hrecord⟩ := (IoMonitor.lookup_collectTimed h).1 hr
    rw [ioPriority_handleEveryTaskIoInfo hrecord]
    exact printable_of_nonneg (queriedRecord_ioPriority_nonneg _ _)
  refine Runs.invariant
    (fun m : IoMonitor => ∀ k r, m.table.lookup k = some r → Printable r.ioPriority)
    (fun m c m' _ h => hstep m c m' h) ?_ hrun k r hr
  intro k r hempty
  cases hempty

/-- The class that a scheduling policy stands for. -/
def schedClass (scheduler : ℤ) : ℤ :=
  if scheduler = Util.schedFifo ∨ scheduler = Util.schedRr then Util.ioprioClassRt
  else if scheduler = Util.schedIdle then Util.ioprioClassIdle
  else Util.ioprioClassBe

/-- **The scheduler's packing has the parts of the system call's**: the class of the policy,
and a level below eight that scales the nice value. -/
theorem fromSched_parts {scheduler nice : ℤ} (hlow : -20 ≤ nice) (hhigh : nice ≤ 19) :
    ioprioClass (Util.getTaskIoPriorityFromSched scheduler nice) = schedClass scheduler ∧
      ioprioLevel (Util.getTaskIoPriorityFromSched scheduler nice)
        = if scheduler = Util.schedIdle then 0 else (nice + 20) / 5 := by
  have hdiv : (nice + 20).tdiv 5 = (nice + 20) / 5 := Int.tdiv_eq_ediv_of_nonneg (by omega)
  unfold ioprioClass ioprioLevel Util.getTaskIoPriorityFromSched schedClass
  simp only [hdiv, Util.schedFifo, Util.schedRr, Util.schedIdle, Util.ioprioClassRt,
    Util.ioprioClassBe, Util.ioprioClassIdle, Util.ioprioClassShift]
  split_ifs <;> omega

/-- What a priority reads as, from what the three calls return: the class and the level that
were set, those of the scheduler where none is set, and nothing for a class without a name. -/
def shownPrio (ioPrio scheduler nice : ℤ) : Option (ℤ × ℤ) :=
  if ioPrio < 0 then some (0, 0)
  else if ioprioClass ioPrio = 0 then
    some (schedClass scheduler, if scheduler = Util.schedIdle then 0 else (nice + 20) / 5)
  else if 4 ≤ ioprioClass ioPrio then none
  else some (ioprioClass ioPrio, ioprioLevel ioPrio)

/-- **What is read back of the priority of a task.** -/
theorem readIoPrio_queriedRecord {answers : TaskAnswers} (hlow : -20 ≤ answers.nice)
    (hhigh : answers.nice ≤ 19) {r : TaskIoInfo} {text : Bytes}
    (h : Util.convertIoPrioToStr (queriedRecord answers r).ioPriority = some text) :
    readIoPrio text = shownPrio answers.ioPrio answers.scheduler answers.nice := by
  obtain ⟨hclass, hlevel⟩ := @fromSched_parts answers.scheduler _ hlow hhigh
  have hsched : 0 < schedClass answers.scheduler ∧ schedClass answers.scheduler < 4 := by
    unfold schedClass
    split_ifs <;> decide
  have hstored : (queriedRecord answers r).ioPriority
      = if Util.getTaskIoPriority answers.ioPrio answers.scheduler answers.nice < 0 then 0
        else Util.getTaskIoPriority answers.ioPrio answers.scheduler answers.nice := rfl
  rw [readIoPrio_convertIoPrioToStr h, hstored, shownPrio]
  by_cases hneg : answers.ioPrio < 0
  · have hget : Util.getTaskIoPriority answers.ioPrio answers.scheduler answers.nice = -1 :=
      if_pos hneg
    rw [hget, if_pos hneg]
    rfl
  by_cases hunset : ioprioClass answers.ioPrio = 0
  · have hget : Util.getTaskIoPriority answers.ioPrio answers.scheduler answers.nice
        = Util.getTaskIoPriorityFromSched answers.scheduler answers.nice :=
      (if_neg hneg).trans (if_pos hunset)
    -- a class that is not negative, so neither is the priority
    have hfromSched : ¬Util.getTaskIoPriorityFromSched answers.scheduler answers.nice < 0 := by
      intro hlt
      have hdiv := Int.ediv_neg_of_neg_of_pos hlt (show (0 : ℤ) < 2 ^ Util.ioprioClassShift by decide)
      rw [← ioprioClass, hclass] at hdiv
      exact absurd hdiv (not_lt.2 hsched.1.le)
    rw [hget, if_neg hfromSched, hclass, hlevel, if_neg (not_le.2 hsched.2), if_neg hneg,
      if_pos hunset]
  · have hget : Util.getTaskIoPriority answers.ioPrio answers.scheduler answers.nice
        = answers.ioPrio := (if_neg hneg).trans (if_neg hunset)
    rw [hget, if_neg hneg, if_neg hneg, if_neg hunset]

end IotopCpp
