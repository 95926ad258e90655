import IotopCpp.Netlink.Decoder
import IotopCpp.Util
import IotopCpp.Lib.Runs
import Mathlib.Algebra.BigOperators.Group.List.Basic
import Mathlib.Algebra.Order.Field.Rat
import Mathlib.Tactic.Positivity
import Mathlib.Tactic.NormNum

/-!
# The collector

`IoMonitor` of `collect/io_monitor.cpp`: one cycle marks the table of tasks
overdue, walks the processes and their threads, builds a record for each and
emplaces it, adds up the process rates, and removes what is still overdue.

What the system answers is part of a cycle's input: each process and thread
carries the answers given while its record is filled, so that the query made for
a process and the one made for its main thread may differ.

A copy of a name that does not fit its array has no meaning in the language, and
a cycle that makes one has no resulting state: the model returns `none` there.

## Main definitions

* `handleEveryTaskIoInfo` — filling one record.
* `IoMonitor.getTaskIoInfo`, `IoMonitor.collectTimed` — the loops, and a cycle.
* `run` — cycles one after another, from the empty table.
* `Query`, `Cycle.queries`, `built` — the records of a cycle as a flat list.

## Main results

* `record_spec` — everything a filled record says.
* `collectTimed_eq_some` — **the law of a cycle**: its table is one
  `Table.cycle` over the built records, its totals are sums over them.
-/

namespace IotopCpp

open Netlink

/-! ### What a cycle is given -/

/-- What the system answers while one record is filled. -/
structure TaskAnswers where
  ioPrio : ℤ
  scheduler : ℤ
  nice : ℤ
  taskstats : QueryResult
  passwd : ℤ → Option Bytes
  /-- What is opened for the short and for the full command line. -/
  shortOpens : Util.FileOpens
  fullOpens : Util.FileOpens

/-- The answers for a task of which only the statistics are known. -/
def TaskAnswers.unnamed (taskstats : QueryResult) : TaskAnswers where
  ioPrio := 0
  scheduler := 0
  nice := 0
  taskstats := taskstats
  passwd := fun _ => none
  shortOpens := .none
  fullOpens := .none

/-- A thread of a process, as enumerated. -/
structure Thread where
  tid : UInt64
  answers : TaskAnswers

/-- An element of `Util::get_all_task_id()`: a process and its threads. -/
structure Process where
  pid : UInt64
  answers : TaskAnswers
  threads : List Thread

/-- The time read at the start of a cycle, and the tasks enumerated in it. -/
structure Cycle where
  collectTmNs : UInt64
  taskIds : List Process

/-! ### Filling a record -/

/-- `ULL_VALUE_DIFF(to, from)`. -/
def ullValueDiff (toVal fromVal : UInt64) : UInt64 :=
  if toVal < fromVal then 0 else toVal - fromVal

/-- The rates and percentages, from the counters before and after the query.
The source assigns the first rate twice, to the same value. -/
def fillPeriods (originNs collectTmNs : UInt64) (origin : Counters) (r : TaskIoInfo) :
    TaskIoInfo :=
  -- the difference is taken in 64 bits, before the conversion
  let tmDiffNs : ℚ := (collectTmNs - originNs).toNat
  let tmDiffS : ℚ := tmDiffNs / 10 ^ 9
  if tmDiffS > 1 / 10 ^ 3 then
    { r with
      ioReadCharPeriodBS := (ullValueDiff r.ioReadCharB origin.readChar).toNat / tmDiffS
      ioWriteCharPeriodBS := (ullValueDiff r.ioWriteCharB origin.writeChar).toNat / tmDiffS
      ioRealReadPeriodBS := (ullValueDiff r.ioRealReadB origin.realRead).toNat / tmDiffS
      ioRealWritePeriodBS := (ullValueDiff r.ioRealWriteB origin.realWrite).toNat / tmDiffS
      swapinDelayPeriodPercent :=
        (ullValueDiff r.swapinDelayTotalNs origin.swapinDelay).toNat / tmDiffNs * 10 ^ 2
      blkioDelayPeriodPercent :=
        (ullValueDiff r.blkioDelayTotalNs origin.blkioDelay).toNat / tmDiffNs * 10 ^ 2 }
  else r

/-- A command line is copied, with the length of its source, if it was read. -/
def copyCmdline {n : ℕ} (dst : CharArray n) (cmdline : ℤ × Bytes) : Option (CharArray n) :=
  if 0 ≤ cmdline.1 then dst.strncpy cmdline.2 cmdline.2.length else some dst

/-- The user name and the two command lines, each copied with the length of its
source; then the record counts as updated. -/
def fillNames (answers : TaskAnswers) (r : TaskIoInfo) : Option TaskIoInfo := do
  let name := Util.getUserName answers.passwd r.userId
  let userName ← r.userName.strncpy name name.length
  let shortCmdline ←
    copyCmdline r.shortCmdline (Util.getTaskCmdline true (answers.shortOpens.files r.taskId) [])
  -- the string is cleared in between, so the second reading starts from nothing
  let fullCmdline ←
    copyCmdline r.fullCmdline (Util.getTaskCmdline false (answers.fullOpens.files r.taskId) [])
  some { r with userName, shortCmdline, fullCmdline, isUpdated := true }

/-- `IoMonitor::handle_every_task_io_info`. -/
def handleEveryTaskIoInfo (originNs : UInt64) (answers : TaskAnswers) (r : TaskIoInfo)
    (collectTmNs : UInt64) : Option TaskIoInfo :=
  let prio := Util.getTaskIoPriority answers.ioPrio answers.scheduler answers.nice
  let r := { r with ioPriority := if prio < 0 then 0 else prio }
  -- the counters the periods are counted from
  let origin := r.counters
  let queried := answers.taskstats.apply r
  if queried.1 < 0 then some queried.2
  else fillNames answers (fillPeriods originNs collectTmNs origin queried.2)

/-! ### The collector -/

/-- The assignment `is_updated = false`. -/
def TaskIoInfo.overdue (r : TaskIoInfo) : TaskIoInfo := { r with isUpdated := false }

/-- The members of `class IoMonitor` that survive from one cycle to the next: the time of
the last one, and what was shown of it. -/
structure IoMonitor where
  originCollectTimestampNs : UInt64 := 0
  ioStats : SystemIoInfo := {}

namespace IoMonitor

/-- `io_stats_.task_io_stats_table.emplace(id, r)`. -/
def emplace (m : IoMonitor) (id : UInt64) (r : TaskIoInfo) : IoMonitor :=
  { m with ioStats.taskIoStatsTable := m.ioStats.taskIoStatsTable.emplace id r }

/-- The two `+=` on the totals. -/
def addRates (m : IoMonitor) (r : TaskIoInfo) : IoMonitor :=
  { m with
    ioStats.currDiskReadBS := m.ioStats.currDiskReadBS + r.ioRealReadPeriodBS
    ioStats.currDiskWriteBS := m.ioStats.currDiskWriteBS + r.ioRealWritePeriodBS }

/-- The body of the loop over the threads of a process. -/
def threadStep (collectTmNs : UInt64) (m : IoMonitor) (t : Thread) : Option IoMonitor := do
  let threadIoInfo ← handleEveryTaskIoInfo m.originCollectTimestampNs t.answers
    { taskId := toPidT t.tid, isPid := false } collectTmNs
  -- a thread is put into the table, and not into the totals
  some (m.emplace t.tid threadIoInfo)

/-- The body of the loop over the processes. -/
def processStep (collectTmNs : UInt64) (m : IoMonitor) (p : Process) : Option IoMonitor := do
  let processIoInfo ← handleEveryTaskIoInfo m.originCollectTimestampNs p.answers
    { taskId := toPidT p.pid, isPid := true } collectTmNs
  -- the rates are added whether or not the table took the record
  let m := (m.emplace p.pid processIoInfo).addRates processIoInfo
  p.threads.foldlM (threadStep collectTmNs) m

/-- `IoMonitor::get_task_io_info`. -/
def getTaskIoInfo (m : IoMonitor) (c : Cycle) : Option IoMonitor :=
  c.taskIds.foldlM (processStep c.collectTmNs) m

/-- `IoMonitor::set_task_state_overdue`. -/
def setTaskStateOverdue (m : IoMonitor) : IoMonitor :=
  { m with ioStats.taskIoStatsTable := m.ioStats.taskIoStatsTable.mark TaskIoInfo.overdue }

/-- `IoMonitor::remove_overdue_task`. -/
def removeOverdueTask (m : IoMonitor) : IoMonitor :=
  { m with ioStats.taskIoStatsTable := m.ioStats.taskIoStatsTable.sweep TaskIoInfo.isUpdated }

/-- `IoMonitor::collect_timed`. -/
def collectTimed (m : IoMonitor) (c : Cycle) : Option IoMonitor := do
  let m := m.setTaskStateOverdue
  let m := { m with ioStats.currDiskReadBS := 0, ioStats.currDiskWriteBS := 0 }
  let m ← m.getTaskIoInfo c
  let m := { m with originCollectTimestampNs := c.collectTmNs }
  some m.removeOverdueTask

end IoMonitor

/-- Cycles one after another, from a collector that has collected nothing.  There is no
result where a name does not fit its member, as the copy then leaves the record. -/
def run (cs : List Cycle) : Option IoMonitor := Runs.runFrom IoMonitor.collectTimed {} cs

/-! ### What a filled record says -/

/-- The call made for one enumerated task, with everything the system answers during it. -/
structure Query where
  id : UInt64
  isPid : Bool
  answers : TaskAnswers

namespace Query

/-- The kernel answered the taskstats request of this query. -/
def succeeded (q : Query) : Bool := q.answers.taskstats.succeeded

/-- The record filled for the query, if no copy into it overruns. -/
def record (originNs collectTmNs : UInt64) (q : Query) : Option TaskIoInfo :=
  handleEveryTaskIoInfo originNs q.answers { taskId := toPidT q.id, isPid := q.isPid } collectTmNs

end Query

/-- Nothing that is copied for an unnamed task overruns its array. -/
theorem fillNames_unnamed_isSome (stats : QueryResult) (r : TaskIoInfo) :
    (fillNames (.unnamed stats) r).isSome = true := by
  have hname (dst : CharArray (maxUserNameLength + 1)) :
      ∃ userName, dst.strncpy (Util.getUserName (TaskAnswers.unnamed stats).passwd r.userId)
        (Util.getUserName (TaskAnswers.unnamed stats).passwd r.userId).length = some userName := by
    rw [← Option.isSome_iff_exists, CharArray.strncpy_isSome]
    exact (by decide : 9 ≤ maxUserNameLength + 1)
  obtain ⟨userName, hname⟩ := hname r.userName
  simp only [fillNames, Option.bind_eq_bind, hname]
  rfl

theorem Query.record_unnamed_isSome (id : UInt64) (isPid : Bool) (stats : QueryResult)
    (originNs collectTmNs : UInt64) :
    (Query.record originNs collectTmNs ⟨id, isPid, .unnamed stats⟩).isSome = true := by
  cases stats with
  | failed e => cases e <;> rfl
  | answered stats => cases stats <;> exact fillNames_unnamed_isSome _ _

/-- The nanoseconds the program takes to have passed, a 64-bit difference. -/
def elapsedNs (originNs collectTmNs : UInt64) : ℕ := (collectTmNs - originNs).toNat

/-- The rate shown for a counter that starts from zero. -/
def rateOf (elapsed : ℕ) (n : UInt64) : ℚ :=
  if 1000000 < elapsed then n.toNat / ((elapsed : ℚ) / 10 ^ 9) else 0

/-- The percentage shown for a delay that starts from zero. -/
def percentOf (elapsed : ℕ) (n : UInt64) : ℚ :=
  if 1000000 < elapsed then n.toNat / (elapsed : ℚ) * 10 ^ 2 else 0

theorem rateOf_nonneg (elapsed : ℕ) (n : UInt64) : 0 ≤ rateOf elapsed n := by
  unfold rateOf
  split
  · positivity
  · exact le_rfl

/-- A shown rate is zero exactly when too little time passed or nothing was counted. -/
theorem rateOf_eq_zero {elapsed : ℕ} {n : UInt64} :
    rateOf elapsed n = 0 ↔ elapsed ≤ 1000000 ∨ n = 0 := by
  unfold rateOf
  split
  · next h =>
    have helapsed : (elapsed : ℚ) ≠ 0 := by
      have : elapsed ≠ 0 := by omega
      exact_mod_cast this
    have hn : n.toNat = 0 ↔ n = 0 := by rw [← UInt64.toNat_inj]; rfl
    simp [helapsed, hn, not_le.2 h]
  · next h => simp [not_lt.1 h]

/-- Everything a filled record says about the query it was filled for. -/
structure RecordSpec (elapsed : ℕ) (q : Query) (r : TaskIoInfo) : Prop where
  taskId : r.taskId = toPidT q.id
  isPid : r.isPid = q.isPid
  isUpdated : r.isUpdated = q.succeeded
  counters : r.counters = q.answers.taskstats.counters.getD {}
  readChar : r.ioReadCharPeriodBS = rateOf elapsed r.counters.readChar
  writeChar : r.ioWriteCharPeriodBS = rateOf elapsed r.counters.writeChar
  realRead : r.ioRealReadPeriodBS = rateOf elapsed r.counters.realRead
  realWrite : r.ioRealWritePeriodBS = rateOf elapsed r.counters.realWrite
  swapinDelay : r.swapinDelayPeriodPercent = percentOf elapsed r.counters.swapinDelay
  blkioDelay : r.blkioDelayPeriodPercent = percentOf elapsed r.counters.blkioDelay

theorem ullValueDiff_zero (n : UInt64) : ullValueDiff n 0 = n := by
  simp [ullValueDiff]

/-- The names are the only members `fillNames` changes, besides the update flag. -/
theorem fillNames_eq_some {answers : TaskAnswers} {r r' : TaskIoInfo}
    (h : fillNames answers r = some r') :
    ∃ userName shortCmdline fullCmdline,
      r' = { r with userName, shortCmdline, fullCmdline, isUpdated := true } := by
  simp only [fillNames, Option.bind_eq_bind, Option.bind_eq_some_iff, Option.some.injEq] at h
  obtain ⟨userName, -, shortCmdline, -, fullCmdline, -, rfl⟩ := h
  exact ⟨userName, shortCmdline, fullCmdline, rfl⟩

/-- The record a query is made for: its priority has been filled in. -/
def queriedRecord (answers : TaskAnswers) (r : TaskIoInfo) : TaskIoInfo :=
  let prio := Util.getTaskIoPriority answers.ioPrio answers.scheduler answers.nice
  { r with ioPriority := if prio < 0 then 0 else prio }

/-- **What a filled record can be**: what the failed query left, or what a query that
succeeded left, with its periods and its names. -/
theorem handleEveryTaskIoInfo_cases {originNs collectTmNs : UInt64} {answers : TaskAnswers}
    {r r' : TaskIoInfo} (h : handleEveryTaskIoInfo originNs answers r collectTmNs = some r') :
    ((answers.taskstats.apply (queriedRecord answers r)).1 < 0 ∧
        r' = (answers.taskstats.apply (queriedRecord answers r)).2) ∨
      (0 ≤ (answers.taskstats.apply (queriedRecord answers r)).1 ∧
        fillNames answers (fillPeriods originNs collectTmNs r.counters
          (answers.taskstats.apply (queriedRecord answers r)).2) = some r') := by
  have heq : handleEveryTaskIoInfo originNs answers r collectTmNs
      = if (answers.taskstats.apply (queriedRecord answers r)).1 < 0 then
          some (answers.taskstats.apply (queriedRecord answers r)).2
        else fillNames answers (fillPeriods originNs collectTmNs r.counters
          (answers.taskstats.apply (queriedRecord answers r)).2) := rfl
  rw [heq] at h
  split at h
  · next hneg => exact Or.inl ⟨hneg, (Option.some.inj h).symm⟩
  · next hnonneg => exact Or.inr ⟨not_lt.1 hnonneg, h⟩

/-- The periods are the only members `fillPeriods` changes. -/
theorem fillPeriods_counters (originNs collectTmNs : UInt64) (origin : Counters) (r : TaskIoInfo) :
    (fillPeriods originNs collectTmNs origin r).counters = r.counters := by
  unfold fillPeriods
  simp only
  split <;> rfl

/-- A record that was not updated before is updated by a query that succeeded, and has
its counters. -/
theorem counters_of_updated {originNs collectTmNs : UInt64} {answers : TaskAnswers}
    {r r' : TaskIoInfo} (h : handleEveryTaskIoInfo originNs answers r collectTmNs = some r')
    (hr : r.isUpdated = false) (hr' : r'.isUpdated = true) :
    (answers.taskstats.apply (queriedRecord answers r)).1 = 0 ∧
      r'.counters = (answers.taskstats.apply (queriedRecord answers r)).2.counters := by
  rcases handleEveryTaskIoInfo_cases h with ⟨hneg, rfl⟩ | ⟨hnonneg, hnames⟩
  · -- a query that failed leaves the flag clear
    exfalso
    cases hq : answers.taskstats with
    | failed e =>
      have hclear : (queriedRecord answers r).isUpdated = false := hr
      simp [hq, QueryResult.apply, hclear] at hr'
    | answered stats => cases stats <;> simp [hq, QueryResult.apply] at hneg
  · refine ⟨?_, ?_⟩
    · cases hq : answers.taskstats with
      | failed e =>
        rw [hq] at hnonneg
        exact absurd hnonneg (not_le.2 e.code_neg)
      | answered stats => cases stats <;> rfl
    · obtain ⟨userName, shortCmdline, fullCmdline, rfl⟩ := fillNames_eq_some hnames
      exact fillPeriods_counters _ _ _ _

/-- The guard on the elapsed time, in nanoseconds. -/
theorem guard_iff (elapsed : ℕ) :
    ((elapsed : ℚ) / 10 ^ 9 > 1 / 10 ^ 3) ↔ 1000000 < elapsed := by
  rw [gt_iff_lt, lt_div_iff₀ (by positivity)]
  have h : (1 / 10 ^ 3 * 10 ^ 9 : ℚ) = ((1000000 : ℕ) : ℚ) := by norm_num
  rw [h, Nat.cast_lt]

/-- The periods of a record whose counters start from zero. -/
theorem fillPeriods_zero (originNs collectTmNs : UInt64) {r : TaskIoInfo}
    (hperiods : r.ioReadCharPeriodBS = 0 ∧ r.ioWriteCharPeriodBS = 0 ∧ r.ioRealReadPeriodBS = 0 ∧
      r.ioRealWritePeriodBS = 0 ∧ r.swapinDelayPeriodPercent = 0 ∧
      r.blkioDelayPeriodPercent = 0) :
    fillPeriods originNs collectTmNs {} r =
      let elapsed := elapsedNs originNs collectTmNs
      { r with
        ioReadCharPeriodBS := rateOf elapsed r.ioReadCharB
        ioWriteCharPeriodBS := rateOf elapsed r.ioWriteCharB
        ioRealReadPeriodBS := rateOf elapsed r.ioRealReadB
        ioRealWritePeriodBS := rateOf elapsed r.ioRealWriteB
        swapinDelayPeriodPercent := percentOf elapsed r.swapinDelayTotalNs
        blkioDelayPeriodPercent := percentOf elapsed r.blkioDelayTotalNs } := by
  have hguard := guard_iff (elapsedNs originNs collectTmNs)
  unfold elapsedNs at hguard
  simp only [fillPeriods, elapsedNs, rateOf, percentOf, ullValueDiff_zero, hguard]
  by_cases h : 1000000 < (collectTmNs - originNs).toNat
  · simp [h]
  · -- nothing is written, and the fields are zero as the rates are
    obtain ⟨h₁, h₂, h₃, h₄, h₅, h₆⟩ := hperiods
    cases r
    simp only at h₁ h₂ h₃ h₄ h₅ h₆
    simp [h, h₁, h₂, h₃, h₄, h₅, h₆]

/-- **What filling a record does.** -/
theorem record_spec {originNs collectTmNs : UInt64} {q : Query} {r : TaskIoInfo}
    (h : q.record originNs collectTmNs = some r) :
    RecordSpec (elapsedNs originNs collectTmNs) q r := by
  unfold Query.record handleEveryTaskIoInfo at h
  cases hq : q.answers.taskstats with
  | failed e =>
    -- the record is the fresh one, except for its priority
    simp only [hq, QueryResult.apply, e.code_neg, if_true, Option.some.injEq] at h
    subst h
    constructor <;> simp [TaskIoInfo.counters, Query.succeeded, hq, QueryResult.succeeded,
      QueryResult.counters, rateOf, percentOf]
  | answered stats =>
    -- the query leaves a record whose counters are the answer's and whose rates are still zero
    cases stats with
    | none =>
      simp only [hq, QueryResult.apply, lt_irrefl, if_false] at h
      obtain ⟨userName, shortCmdline, fullCmdline, rfl⟩ := fillNames_eq_some h
      rw [show TaskIoInfo.counters _ = {} from rfl, fillPeriods_zero _ _ (by simp)]
      constructor <;> simp [TaskIoInfo.counters, Query.succeeded, hq, QueryResult.succeeded,
        QueryResult.counters]
    | some ts =>
      simp only [hq, QueryResult.apply, lt_irrefl, if_false] at h
      obtain ⟨userName, shortCmdline, fullCmdline, rfl⟩ := fillNames_eq_some h
      rw [show TaskIoInfo.counters _ = {} from rfl, fillPeriods_zero _ _ (by simp [Taskstats.copyInto])]
      constructor <;> simp [TaskIoInfo.counters, Query.succeeded, hq, QueryResult.succeeded,
        QueryResult.counters, Taskstats.copyInto, Taskstats.counters]

/-! ### The law of a cycle -/

def Process.query (p : Process) : Query := ⟨p.pid, true, p.answers⟩

def Thread.query (t : Thread) : Query := ⟨t.tid, false, t.answers⟩

/-- The calls made for a process: for itself, then for each of its threads. -/
def Process.queries (p : Process) : List Query := p.query :: p.threads.map Thread.query

/-- The calls of a cycle, in order. -/
def Cycle.queries (c : Cycle) : List Query := c.taskIds.flatMap Process.queries

/-- Queries paired with the records filled for them. -/
def fill (originNs collectTmNs : UInt64) (qs : List Query) : List (Query × TaskIoInfo) :=
  qs.filterMap fun q => (q.record originNs collectTmNs).map (q, ·)

/-- The records a cycle builds, each with the query it was filled for, in the order of the
calls.  Whether the table takes them is no matter here. -/
def built (originNs : UInt64) (c : Cycle) : List (Query × TaskIoInfo) :=
  fill originNs c.collectTmNs c.queries

theorem mem_built {originNs : UInt64} {c : Cycle} {b : Query × TaskIoInfo} :
    b ∈ built originNs c ↔ b.1 ∈ c.queries ∧ b.1.record originNs c.collectTmNs = some b.2 := by
  unfold built fill
  rw [List.mem_filterMap]
  refine ⟨?_, ?_⟩
  · intro hbuilt
    rcases hbuilt with ⟨q, hq, h⟩
    obtain ⟨r, hr, rfl⟩ := Option.map_eq_some_iff.1 h
    exact ⟨hq, hr⟩
  · intro hquery
    rcases hquery with ⟨hq, hr⟩
    exact ⟨b.1, hq, by simp [hr]⟩

/-- What a built record is offered as to the table. -/
def offered (bs : List (Query × TaskIoInfo)) : List (UInt64 × TaskIoInfo) :=
  bs.map fun b => (b.1.id, b.2)

/-- What a built record adds to the total of `rate`: only a process adds anything. -/
def share (rate : TaskIoInfo → ℚ) (b : Query × TaskIoInfo) : ℚ := if b.1.isPid then rate b.2 else 0

namespace IoMonitor

/-- The collector after taking in the built records `bs`. -/
def absorb (m : IoMonitor) (bs : List (Query × TaskIoInfo)) : IoMonitor :=
  { m with
    ioStats := {
      currDiskReadBS := m.ioStats.currDiskReadBS + (bs.map (share TaskIoInfo.ioRealReadPeriodBS)).sum
      currDiskWriteBS := m.ioStats.currDiskWriteBS + (bs.map (share TaskIoInfo.ioRealWritePeriodBS)).sum
      taskIoStatsTable := m.ioStats.taskIoStatsTable.offer (offered bs) } }

theorem absorb_nil (m : IoMonitor) : m.absorb [] = m := by
  simp [absorb, offered, Table.offer]

theorem absorb_cons (m : IoMonitor) (b : Query × TaskIoInfo) (bs : List (Query × TaskIoInfo)) :
    m.absorb (b :: bs) = (m.absorb [b]).absorb bs := by
  simp [absorb, offered, Table.offer, add_assoc]

/-- One call of `handle_every_task_io_info` and what is done with its record. -/
def queryStep (collectTmNs : UInt64) (m : IoMonitor) (q : Query) : Option IoMonitor :=
  (q.record m.originCollectTimestampNs collectTmNs).map fun r => m.absorb [(q, r)]

theorem threadStep_eq (collectTmNs : UInt64) (m : IoMonitor) (t : Thread) :
    threadStep collectTmNs m t = queryStep collectTmNs m t.query := by
  simp only [threadStep, queryStep, Thread.query, Query.record, Option.bind_eq_bind, Option.map_eq_bind]
  congr 1
  funext r
  simp [absorb, emplace, offered, Table.offer, share]

theorem processStep_eq (collectTmNs : UInt64) (m : IoMonitor) (p : Process) :
    processStep collectTmNs m p = p.queries.foldlM (queryStep collectTmNs) m := by
  simp only [processStep, Process.queries, Process.query, List.foldlM_cons, List.foldlM_map, queryStep,
    Query.record, Option.bind_eq_bind, Option.map_eq_bind, Option.bind_assoc]
  congr 1
  funext r
  have hstep : (m.emplace p.pid r).addRates r = m.absorb [(p.query, r)] := by
    simp [absorb, emplace, addRates, offered, Table.offer, share, Process.query]
  rw [hstep]
  simp only [Function.comp_apply, Option.bind_some]
  congr 1
  funext m' t
  simp only [threadStep_eq, queryStep, Query.record, Option.map_eq_bind]
  rfl

theorem getTaskIoInfo_eq (m : IoMonitor) (c : Cycle) :
    m.getTaskIoInfo c = c.queries.foldlM (queryStep c.collectTmNs) m := by
  unfold getTaskIoInfo Cycle.queries
  induction c.taskIds generalizing m with
  | nil => rfl
  | cons p ps ih =>
    rw [List.foldlM_cons, List.flatMap_cons, List.foldlM_append, processStep_eq]
    congr 1
    funext m'
    exact ih m'

/-- A run of queries succeeds when every record can be filled, and absorbs them. -/
theorem foldlM_queryStep {collectTmNs : UInt64} {qs : List Query} {m m' : IoMonitor} :
    qs.foldlM (queryStep collectTmNs) m = some m' ↔
      (∀ q ∈ qs, (q.record m.originCollectTimestampNs collectTmNs).isSome) ∧
        m' = m.absorb (fill m.originCollectTimestampNs collectTmNs qs) := by
  induction qs generalizing m with
  | nil =>
    have hnil : m.absorb (fill m.originCollectTimestampNs collectTmNs []) = m := absorb_nil m
    rw [List.foldlM_nil, hnil]
    refine ⟨?_, ?_⟩
    · intro h
      exact ⟨by simp, (Option.some.inj h).symm⟩
    · intro hresult
      rcases hresult with ⟨-, rfl⟩
      rfl
  | cons q qs ih =>
    rw [List.foldlM_cons, Option.bind_eq_bind]
    cases hr : q.record m.originCollectTimestampNs collectTmNs with
    | none => simp [queryStep, hr]
    | some r =>
      -- one record is absorbed, and the time of the last cycle stays
      have hstep : queryStep collectTmNs m q = some (m.absorb [(q, r)]) := by
        simp [queryStep, hr]
      have hfill : fill m.originCollectTimestampNs collectTmNs (q :: qs)
          = (q, r) :: fill m.originCollectTimestampNs collectTmNs qs := by
        simp [fill, hr]
      have horigin : (m.absorb [(q, r)]).originCollectTimestampNs
          = m.originCollectTimestampNs := rfl
      rw [hstep, Option.bind_some, ih, horigin, hfill,
        absorb_cons m (q, r) (fill m.originCollectTimestampNs collectTmNs qs)]
      simp [hr]

/-- **The law of a cycle.**  A cycle has a result when every record can be
filled; then the table went through one mark, offer and sweep with the records
built, and the totals are the shares of those records. -/
theorem collectTimed_eq_some {m m' : IoMonitor} {c : Cycle} :
    m.collectTimed c = some m' ↔
      (∀ q ∈ c.queries, (q.record m.originCollectTimestampNs c.collectTmNs).isSome) ∧
        m' = {
          originCollectTimestampNs := c.collectTmNs
          ioStats := {
            currDiskReadBS := ((built m.originCollectTimestampNs c).map
              (share TaskIoInfo.ioRealReadPeriodBS)).sum
            currDiskWriteBS := ((built m.originCollectTimestampNs c).map
              (share TaskIoInfo.ioRealWritePeriodBS)).sum
            taskIoStatsTable := m.ioStats.taskIoStatsTable.cycle TaskIoInfo.overdue
              TaskIoInfo.isUpdated (offered (built m.originCollectTimestampNs c)) } } := by
  simp only [collectTimed, Option.bind_eq_bind, Option.bind_eq_some_iff, getTaskIoInfo_eq,
    foldlM_queryStep, Option.some.injEq]
  -- the two loops are one fold over the queries, which leaves the table marked and offered
  refine ⟨?_, ?_⟩
  · intro hcycle
    rcases hcycle with ⟨_, ⟨hfilled, rfl⟩, rfl⟩
    refine ⟨hfilled, ?_⟩
    simp [absorb, removeOverdueTask, setTaskStateOverdue, Table.cycle, built]
  · intro hcycle
    rcases hcycle with ⟨hfilled, rfl⟩
    refine ⟨_, ⟨hfilled, rfl⟩, ?_⟩
    simp [absorb, removeOverdueTask, setTaskStateOverdue, Table.cycle, built]

end IoMonitor

end IotopCpp
