import IotopCpp.Lib.Totals
import IotopCpp.Monitor.TaskTable
import Mathlib.Algebra.BigOperators.Group.Finset.Basic
import Mathlib.Algebra.Order.BigOperators.Group.Finset

/-!
# The totals

What the two totals of the header count.  They are added up while the records of
processes are built, so they count every process whose query succeeded, whether
or not the table took its record, and no thread.

## Main definitions

* `RateOf` — a period field that is the rate of a counter.
* `HeaderAgrees` — the totals are those of the processes in the table.
* `Cycle.ThreadGroups` — the enumerations in which threads make up processes.

## Main results

* `sum_share_built` — a total is a sum over the processes enumerated.
* `headerAgrees_of_run` — the header agrees with the table after every cycle of a
  run exactly when a process the table refuses has nothing to add.
* `totals_eq_sum_threads_iff` — the totals are those of all threads exactly when
  no thread but the main ones has moved a byte.
-/

namespace IotopCpp

open Netlink Runs

/-! ### A total is a sum over processes -/

/-- The record a cycle fills for a process. -/
def Process.record (originNs collectTmNs : UInt64) (p : Process) : TaskIoInfo :=
  (p.query.record originNs collectTmNs).getD {}

theorem sum_share_fill {originNs collectTmNs : UInt64} (rate : TaskIoInfo → ℚ) (qs : List Query) :
    ((fill originNs collectTmNs qs).map (share rate)).sum
      = (qs.map fun q => (q.record originNs collectTmNs).elim 0 fun r => share rate (q, r)).sum := by
  induction qs with
  | nil => rfl
  | cons q qs ih =>
    rw [List.map_cons, List.sum_cons, ← ih]
    cases hr : q.record originNs collectTmNs with
    | none => simp [fill, hr]
    | some r => simp [fill, hr]

/-- Of the calls made for a process, only the one for itself counts. -/
theorem sum_share_queries {originNs collectTmNs : UInt64} {p : Process}
    (hfilled : (p.query.record originNs collectTmNs).isSome) (rate : TaskIoInfo → ℚ) :
    (p.queries.map fun q => (q.record originNs collectTmNs).elim 0 fun r => share rate (q, r)).sum
      = rate (p.record originNs collectTmNs) := by
  obtain ⟨r, hr⟩ := Option.isSome_iff_exists.1 hfilled
  have hthreads : ((p.threads.map Thread.query).map fun q =>
      (q.record originNs collectTmNs).elim 0 fun r => share rate (q, r)).sum = 0 := by
    apply List.sum_eq_zero
    intro x hx
    obtain ⟨q, hq, rfl⟩ := List.mem_map.1 hx
    obtain ⟨t, -, rfl⟩ := List.mem_map.1 hq
    cases t.query.record originNs collectTmNs with
    | none => rfl
    | some r => rfl
  rw [Process.queries, List.map_cons, List.sum_cons, hthreads, add_zero, Process.record, hr]
  rfl

/-- **A total is a sum over processes**: when every record can be filled, the
rates of the records built for the processes, and nothing of the threads. -/
theorem sum_share_built {originNs : UInt64} {c : Cycle}
    (hfilled : ∀ q ∈ c.queries, (q.record originNs c.collectTmNs).isSome)
    (rate : TaskIoInfo → ℚ) :
    ((built originNs c).map (share rate)).sum
      = (c.taskIds.map fun p => rate (p.record originNs c.collectTmNs)).sum := by
  rw [built, sum_share_fill, Cycle.queries, List.map_flatMap, List.flatMap, List.sum_flatten,
    List.map_map]
  refine congrArg List.sum (List.map_congr_left fun p hp => ?_)
  exact sum_share_queries (hfilled p.query (Cycle.mem_queries.2 (Or.inl ⟨p, hp, rfl⟩))) rate

/-- `rate` is a period field that shows, in a filled record, the rate of `counter`. -/
structure RateOf (rate : TaskIoInfo → ℚ) (counter : Counters → UInt64) : Prop where
  shows : ∀ {elapsed q r}, RecordSpec elapsed q r → rate r = rateOf elapsed (counter r.counters)
  fresh : counter {} = 0

theorem rateOf_realRead : RateOf TaskIoInfo.ioRealReadPeriodBS Counters.realRead :=
  ⟨fun h => h.realRead, rfl⟩

theorem rateOf_realWrite : RateOf TaskIoInfo.ioRealWritePeriodBS Counters.realWrite :=
  ⟨fun h => h.realWrite, rfl⟩

/-- The rates of a counter over the processes of a cycle, zero for one whose query failed. -/
def Cycle.sumRates (c : Cycle) (elapsed : ℕ) (counter : Counters → UInt64) : ℚ :=
  (c.taskIds.map fun p => rateOf elapsed (counter (p.answers.taskstats.counters.getD {}))).sum

namespace RateOf

variable {rate : TaskIoInfo → ℚ} {counter : Counters → UInt64} (hrate : RateOf rate counter)

include hrate

/-- The rate of the record filled for a process is that of the counter sampled. -/
theorem record_eq {originNs collectTmNs : UInt64} {p : Process}
    (hfilled : (p.query.record originNs collectTmNs).isSome) :
    rate (p.record originNs collectTmNs)
      = rateOf (elapsedNs originNs collectTmNs) (counter (p.answers.taskstats.counters.getD {})) := by
  obtain ⟨r, hr⟩ := Option.isSome_iff_exists.1 hfilled
  have hspec := record_spec hr
  rw [Process.record, hr, Option.getD_some, hrate.shows hspec, hspec.counters]
  rfl

/-- A total is the sum of the rates of what the processes were answered. -/
theorem sum_built {originNs : UInt64} {c : Cycle}
    (hfilled : ∀ q ∈ c.queries, (q.record originNs c.collectTmNs).isSome) :
    ((built originNs c).map (share rate)).sum
      = c.sumRates (elapsedNs originNs c.collectTmNs) counter := by
  rw [sum_share_built hfilled, Cycle.sumRates]
  refine congrArg List.sum (List.map_congr_left fun p hp => ?_)
  exact hrate.record_eq (hfilled p.query (Cycle.mem_queries.2 (Or.inl ⟨p, hp, rfl⟩)))

end RateOf

/-! ### Header and table -/

/-- The totals are those of the processes the table holds: the header of the screen is
the sum of the rows, the threads left out. -/
structure HeaderAgrees (m : IoMonitor) : Prop where
  read : m.ioStats.currDiskReadBS =
    ((m.table.entries.filter fun e => e.2.isPid).map fun e => e.2.ioRealReadPeriodBS).sum
  write : m.ioStats.currDiskWriteBS =
    ((m.table.entries.filter fun e => e.2.isPid).map fun e => e.2.ioRealWritePeriodBS).sum

/-- The table takes the record of the process: it holds none under that id, and
the query succeeds. -/
def IoMonitor.keeps (m : IoMonitor) (p : Process) : Bool :=
  decide (p.pid ∉ m.table) && p.query.succeeded

/-- A process the table refuses has nothing to add to the totals: no time has
passed, or it has moved no byte. -/
def RefusedAreIdle (m : IoMonitor) (c : Cycle) : Prop :=
  ∀ p ∈ c.taskIds, p.pid ∈ m.table → ∀ counters, p.answers.taskstats.counters = some counters →
    elapsedNs m.originCollectTimestampNs c.collectTmNs ≤ 1000000 ∨
      counters.realRead = 0 ∧ counters.realWrite = 0

section Header

variable {m m' : IoMonitor} {c : Cycle} (hc : c.WellFormed) (h : m.collectTimed c = some m')

include hc h

/-- The processes the table holds after a cycle are those it takes. -/
theorem perm_processes :
    ((m'.table.entries.filter fun e => e.2.isPid).map Sigma.snd).Perm
      ((c.taskIds.filter m.keeps).map
        (Process.record m.originCollectTimestampNs c.collectTmNs)) := by
  have hfilled := (IoMonitor.collectTimed_eq_some.1 h).1
  -- an entry of a process is the record of the one process with its id
  refine Table.perm_values Process.pid _ ?_ ?_
  · exact hc.pids_nodup.sublist (List.filter_sublist.map _)
  · intro k r
    rw [IoMonitor.lookup_collectTimed h]
    refine ⟨?_, ?_⟩
    · intro hentry
      rcases hentry with ⟨⟨hk, q, hq, hsucc, hr⟩, hpid⟩
      rw [(record_spec hr).isPid, hc.firstQuery_isPid hq] at hpid
      obtain ⟨p, hp, rfl⟩ := hpid
      rw [hc.firstQuery_pid hp] at hq
      obtain rfl := Option.some.inj hq
      refine ⟨p, List.mem_filter.2 ⟨hp, ?_⟩, rfl, ?_⟩
      · simp [IoMonitor.keeps, hk, hsucc]
      · simp [Process.record, hr]
    · intro hprocess
      rcases hprocess with ⟨p, hp, rfl, rfl⟩
      obtain ⟨hp, hkeeps⟩ := List.mem_filter.1 hp
      simp only [IoMonitor.keeps, Bool.and_eq_true, decide_eq_true_eq] at hkeeps
      have hquery : p.query ∈ c.queries := Cycle.mem_queries.2 (Or.inl ⟨p, hp, rfl⟩)
      obtain ⟨r, hr⟩ := Option.isSome_iff_exists.1 (hfilled p.query hquery)
      have hrecord : p.record m.originCollectTimestampNs c.collectTmNs = r := by
        simp [Process.record, hr]
      rw [hrecord]
      exact ⟨⟨hkeeps.1, p.query, hc.firstQuery_pid hp, hkeeps.2, hr⟩, (record_spec hr).isPid⟩

/-- The total of a rate is that of the processes in the table exactly when the
processes the table refuses show a rate of zero. -/
theorem total_eq_iff {rate : TaskIoInfo → ℚ} {counter : Counters → UInt64}
    (hrate : RateOf rate counter) :
    ((built m.originCollectTimestampNs c).map (share rate)).sum
        = ((m'.table.entries.filter fun e => e.2.isPid).map fun e => rate e.2).sum ↔
      ∀ p ∈ c.taskIds, p.pid ∈ m.table → ∀ counters,
        p.answers.taskstats.counters = some counters →
        elapsedNs m.originCollectTimestampNs c.collectTmNs ≤ 1000000 ∨ counter counters = 0 := by
  have hfilled := (IoMonitor.collectTimed_eq_some.1 h).1
  have hrecord {p : Process} (hp : p ∈ c.taskIds) :=
    hrate.record_eq (hfilled p.query (Cycle.mem_queries.2 (Or.inl ⟨p, hp, rfl⟩)))
  have hkept : ((m'.table.entries.filter fun e => e.2.isPid).map fun e => rate e.2).sum
      = ((c.taskIds.filter m.keeps).map fun p =>
          rate (p.record m.originCollectTimestampNs c.collectTmNs)).sum := by
    have hperm := ((perm_processes hc h).map rate).sum_eq
    simpa only [List.map_map, Function.comp_def] using hperm
  have hnonneg : ∀ p ∈ c.taskIds, 0 ≤ rate (p.record m.originCollectTimestampNs c.collectTmNs) := by
    intro p hp
    rw [hrecord hp]
    exact rateOf_nonneg _ _
  rw [hkept, sum_share_built hfilled, eq_comm, sum_filter_eq_iff hnonneg]
  refine forall₂_congr ?_
  intro p hp
  rw [hrecord hp, rateOf_eq_zero]
  refine ⟨?_, ?_⟩
  · intro hleft hmem counters hcounters
    have hzero := hleft (by simp [IoMonitor.keeps, hmem])
    rwa [hcounters] at hzero
  · intro hright hleft
    cases hcounters : p.answers.taskstats.counters with
    | none => exact Or.inr hrate.fresh
    | some counters =>
      refine hright ?_ counters hcounters
      -- a query that succeeded is left out only because the table held the id
      have hsucc : p.query.succeeded = true := Query.counters_isSome.1 (by
        rw [show p.query.answers = p.answers from rfl, hcounters]
        rfl)
      simpa [IoMonitor.keeps, hsucc] using hleft

/-- One cycle leaves header and table in agreement exactly when the processes it
refused are idle. -/
theorem headerAgrees_iff : HeaderAgrees m' ↔ RefusedAreIdle m c := by
  have hread := total_eq_iff hc h rateOf_realRead
  have hwrite := total_eq_iff hc h rateOf_realWrite
  obtain ⟨-, rfl⟩ := IoMonitor.collectTimed_eq_some.1 h
  constructor
  · rintro ⟨hr, hw⟩ p hp hmem counters hcounters
    rcases hread.1 hr p hp hmem counters hcounters with hle | hr
    · exact Or.inl hle
    · rcases hwrite.1 hw p hp hmem counters hcounters with hle | hw
      · exact Or.inl hle
      · exact Or.inr ⟨hr, hw⟩
  · intro hidle
    constructor
    · apply hread.2
      intro p hp hmem counters hcounters
      exact (hidle p hp hmem counters hcounters).imp_right And.left
    · apply hwrite.2
      intro p hp hmem counters hcounters
      exact (hidle p hp hmem counters hcounters).imp_right And.right

end Header

/-- **When header and table agree.**  Over any run, the totals are those of the
processes in the table after every cycle exactly when, in every cycle, the
processes already in the table before it have nothing to add. -/
theorem headerAgrees_of_run {cs : List Cycle} (hcs : ∀ c ∈ cs, c.WellFormed) :
    EveryStep IoMonitor.collectTimed {} cs (fun _ _ m' => HeaderAgrees m') ↔
      EveryStep IoMonitor.collectTimed {} cs (fun m c _ => RefusedAreIdle m c) := by
  refine everyStep_congr ?_
  intro m c m' hc hstep
  exact headerAgrees_iff (hcs c hc) hstep

theorem headerAgrees_of_run_turns :
    EveryStep IoMonitor.collectTimed {} (turns [(1, [1, 2]), (5, [5])])
        (fun _ _ m' => HeaderAgrees m') ↔
      EveryStep IoMonitor.collectTimed {} (turns [(1, [1, 2]), (5, [5])])
        (fun m c _ => RefusedAreIdle m c) :=
  headerAgrees_of_run (wellFormed_turns (by decide) (by decide))

/-- A process that stays alive and has read 7 bytes is counted in the header after
its second cycle, and is not in the table. -/
theorem not_headerAgrees_ofProcess_twice :
    ∃ m, run [.ofProcess 0 1 {}, .ofProcess 1000000000 1 { readBytes := 7 }] = some m ∧
      ¬EveryStep IoMonitor.collectTimed {}
        [.ofProcess 0 1 {}, .ofProcess 1000000000 1 { readBytes := 7 }]
        fun _ _ m' => HeaderAgrees m' := by
  have hfirst : ∃ m₀ ∈ run [.ofProcess 0 1 {}],
      1 ∈ m₀.table ∧ 1000000 < elapsedNs m₀.originCollectTimestampNs 1000000000 ∧
        (m₀.collectTimed (.ofProcess 1000000000 1 { readBytes := 7 })).isSome := by decide
  obtain ⟨m₀, hrun, hmem, helapsed, hsome⟩ := hfirst
  obtain ⟨m, hstep⟩ := Option.isSome_iff_exists.1 hsome
  refine ⟨m, runFrom_concat.2 ⟨m₀, hrun, hstep⟩, ?_⟩
  intro hevery
  have hagrees : HeaderAgrees m := hevery _ _ m₀ m List.prefix_rfl hrun hstep
  have hidle := (headerAgrees_iff (Cycle.wellFormed_ofThreads _ _ _ _) hstep).1 hagrees
  rcases hidle _ List.mem_cons_self hmem _ rfl with hle | ⟨hread, -⟩
  · exact absurd hle (not_le.2 helapsed)
  · exact absurd hread (by decide)

/-! ### Threads -/

/-- Enumerations in which threads make up processes: a process is enumerated with
its main thread, and no thread with two processes. -/
structure Cycle.ThreadGroups (c : Cycle) : Prop where
  main_thread : ∀ p ∈ c.taskIds, ∃ t ∈ p.threads, t.tid = p.pid
  disjoint : c.taskIds.Pairwise fun p p' =>
    ∀ t ∈ p.threads, ∀ t' ∈ p'.threads, t.tid ≠ t'.tid

/-- A query for an id is answered with the statistics of the one thread that has
it, also when it is made for a process. -/
def Cycle.AnswersPerThread (c : Cycle) (stats : UInt64 → Taskstats) : Prop :=
  ∀ q ∈ c.queries, q.answers.taskstats = .answered (stats q.id)

def Cycle.pids (c : Cycle) : Finset UInt64 := (c.taskIds.map Process.pid).toFinset

/-- The threads of all processes. -/
def Cycle.threadIds (c : Cycle) : Finset UInt64 :=
  (c.taskIds.flatMap fun p => p.threads.map Thread.tid).toFinset

/-- `records t` is a record the cycle fills for the thread `t`. -/
def Cycle.ThreadRecords (c : Cycle) (originNs : UInt64) (records : UInt64 → TaskIoInfo) : Prop :=
  ∀ t ∈ c.threadIds, ∃ q, q.id = t ∧ q.isPid = false ∧ (q, records t) ∈ built originNs c

namespace Cycle.ThreadGroups

variable {c : Cycle} (hc : c.ThreadGroups)

include hc

theorem pids_nodup : (c.taskIds.map Process.pid).Nodup := by
  refine List.pairwise_map.2 (hc.disjoint.imp_of_mem ?_)
  intro p p' hp hp' hdisjoint heq
  obtain ⟨t, ht, htid⟩ := hc.main_thread p hp
  obtain ⟨t', ht', htid'⟩ := hc.main_thread p' hp'
  exact hdisjoint t ht t' ht' (by rw [htid, htid', heq])

theorem pids_subset : c.pids ⊆ c.threadIds := by
  intro k hk
  obtain ⟨p, hp, rfl⟩ := List.mem_map.1 (List.mem_toFinset.1 hk)
  obtain ⟨t, ht, htid⟩ := hc.main_thread p hp
  exact List.mem_toFinset.2 (List.mem_flatMap.2 ⟨p, hp, List.mem_map.2 ⟨t, ht, htid⟩⟩)

end Cycle.ThreadGroups

section Threads

variable {m m' : IoMonitor} {c : Cycle} (h : m.collectTimed c = some m') (hc : c.ThreadGroups)
  {stats : UInt64 → Taskstats} (hstats : c.AnswersPerThread stats)
  {records : UInt64 → TaskIoInfo} (hrecords : c.ThreadRecords m.originCollectTimestampNs records)

include h hc hstats hrecords

/-- The total of a rate is that of all threads exactly when the threads other than
the main ones show a rate of zero. -/
theorem total_eq_sum_threads_iff {rate : TaskIoInfo → ℚ} {counter : Counters → UInt64}
    (hrate : RateOf rate counter) :
    ((built m.originCollectTimestampNs c).map (share rate)).sum
        = ∑ t ∈ c.threadIds, rate (records t) ↔
      ∀ t ∈ c.threadIds, t ∉ c.pids →
        elapsedNs m.originCollectTimestampNs c.collectTmNs ≤ 1000000 ∨
          counter (stats t).counters = 0 := by
  have hfilled := (IoMonitor.collectTimed_eq_some.1 h).1
  set elapsed := elapsedNs m.originCollectTimestampNs c.collectTmNs
  -- a process adds what its main thread shows
  have hprocesses : ((built m.originCollectTimestampNs c).map (share rate)).sum
      = ∑ t ∈ c.pids, rateOf elapsed (counter (stats t).counters) := by
    rw [sum_share_built hfilled, Cycle.pids, List.sum_toFinset _ hc.pids_nodup, List.map_map]
    refine congrArg List.sum (List.map_congr_left fun p hp => ?_)
    have hquery : p.query ∈ c.queries := Cycle.mem_queries.2 (Or.inl ⟨p, hp, rfl⟩)
    have hanswer : p.answers.taskstats = .answered (stats p.pid) := hstats p.query hquery
    rw [hrate.record_eq (hfilled p.query hquery), hanswer]
    rfl
  -- the record of a thread shows what the kernel answers for that thread
  have hthreads : ∑ t ∈ c.threadIds, rate (records t)
      = ∑ t ∈ c.threadIds, rateOf elapsed (counter (stats t).counters) := by
    apply Finset.sum_congr rfl
    intro t ht
    obtain ⟨q, rfl, -, hq⟩ := hrecords t ht
    have hspec := record_spec (mem_built.1 hq).2
    rw [hrate.shows hspec, hspec.counters, hstats q (mem_built.1 hq).1]
    rfl
  -- so the difference is what the threads beside the main ones show
  have hworkers := Finset.sum_sdiff (f := fun t => rateOf elapsed (counter (stats t).counters))
    hc.pids_subset
  rw [hprocesses, hthreads, ← hworkers, right_eq_add,
    Finset.sum_eq_zero_iff_of_nonneg fun t _ => rateOf_nonneg _ _]
  simp only [Finset.mem_sdiff, and_imp, rateOf_eq_zero]

/-- **When the totals are those of all threads.**  In a cycle whose queries are
answered per thread, it is exactly when too little time has passed or no thread
but the main ones has read or written a byte. -/
theorem totals_eq_sum_threads_iff :
    m'.ioStats.currDiskReadBS = ∑ t ∈ c.threadIds, (records t).ioRealReadPeriodBS ∧
        m'.ioStats.currDiskWriteBS = ∑ t ∈ c.threadIds, (records t).ioRealWritePeriodBS ↔
      elapsedNs m.originCollectTimestampNs c.collectTmNs ≤ 1000000 ∨
        ∀ t ∈ c.threadIds, t ∉ c.pids → (stats t).readBytes = 0 ∧ (stats t).writeBytes = 0 := by
  have hread := total_eq_sum_threads_iff h hc hstats hrecords rateOf_realRead
  have hwrite := total_eq_sum_threads_iff h hc hstats hrecords rateOf_realWrite
  obtain ⟨-, rfl⟩ := IoMonitor.collectTimed_eq_some.1 h
  rw [hread, hwrite]
  by_cases helapsed : elapsedNs m.originCollectTimestampNs c.collectTmNs ≤ 1000000
  · simp [helapsed]
  · simp only [helapsed, false_or]
    constructor
    · rintro ⟨hr, hw⟩ t ht hpid
      exact ⟨hr t ht hpid, hw t ht hpid⟩
    · intro hidle
      exact ⟨fun t ht hpid => (hidle t ht hpid).1, fun t ht hpid => (hidle t ht hpid).2⟩

end Threads

/-- Such a cycle, from any state, meets what is said of cycles above. -/
theorem exists_threadRecords_ofThreads (m : IoMonitor) {collectTmNs pid : UInt64}
    {tids : List UInt64} (hpid : pid ∈ tids) (stats : UInt64 → Taskstats) :
    let c := Cycle.ofThreads collectTmNs pid tids stats
    (∃ m', m.collectTimed c = some m') ∧ c.ThreadGroups ∧ c.AnswersPerThread stats ∧
      ∃ records, c.ThreadRecords m.originCollectTimestampNs records := by
  intro c
  refine ⟨m.exists_collectTimed_ofThreads _ _ _ _, ⟨?_, ?_⟩, ?_, ?_⟩
  · intro p hp
    rw [List.mem_singleton.1 hp]
    exact ⟨_, List.mem_map.2 ⟨pid, hpid, rfl⟩, rfl⟩
  · exact List.pairwise_singleton _ _
  · intro q hq
    rcases Cycle.mem_queries_ofThreads.1 hq with rfl | ⟨tid, -, rfl⟩
    · rfl
    · rfl
  · choose records hrecords using fun tid => Option.isSome_iff_exists.1
      (Query.record_unnamed_isSome tid false (.answered (stats tid)) m.originCollectTimestampNs
        c.collectTmNs)
    refine ⟨records, ?_⟩
    intro tid htid
    have hmem : tid ∈ tids := by
      simpa [Cycle.threadIds, c, Cycle.ofThreads, Function.comp_def] using htid
    exact ⟨_, rfl, rfl,
      mem_built.2 ⟨Cycle.mem_queries_ofThreads.2 (Or.inr ⟨tid, hmem, rfl⟩), hrecords tid⟩⟩

/-- A process 1 whose second thread 2 has read 7 bytes. -/
def workerStats (tid : UInt64) : Taskstats := if tid = 2 then { readBytes := 7 } else {}

def workerCycle : Cycle := .ofThreads 1000000000 1 [1, 2] workerStats

theorem totals_eq_sum_threads_iff_workerCycle :
    ∃ m' records, IoMonitor.collectTimed {} workerCycle = some m' ∧
      workerCycle.ThreadRecords 0 records ∧
      (m'.ioStats.currDiskReadBS = ∑ t ∈ workerCycle.threadIds, (records t).ioRealReadPeriodBS ∧
          m'.ioStats.currDiskWriteBS = ∑ t ∈ workerCycle.threadIds, (records t).ioRealWritePeriodBS ↔
        elapsedNs 0 1000000000 ≤ 1000000 ∨ ∀ t ∈ workerCycle.threadIds, t ∉ workerCycle.pids →
          (workerStats t).readBytes = 0 ∧ (workerStats t).writeBytes = 0) := by
  obtain ⟨⟨m', h⟩, hc, hstats, records, hrecords⟩ :=
    exists_threadRecords_ofThreads {} (by decide : (1 : UInt64) ∈ [1, 2]) workerStats
  exact ⟨m', records, h, hrecords, totals_eq_sum_threads_iff h hc hstats hrecords⟩

/-- The 7 bytes that thread 2 has read are in no total. -/
theorem totals_ne_sum_threads_workerCycle :
    ∃ m' records, IoMonitor.collectTimed {} workerCycle = some m' ∧
      workerCycle.ThreadGroups ∧ workerCycle.AnswersPerThread workerStats ∧
      workerCycle.ThreadRecords 0 records ∧
      m'.ioStats.currDiskReadBS ≠ ∑ t ∈ workerCycle.threadIds, (records t).ioRealReadPeriodBS := by
  obtain ⟨⟨m', h⟩, hc, hstats, records, hrecords⟩ :=
    exists_threadRecords_ofThreads {} (by decide : (1 : UInt64) ∈ [1, 2]) workerStats
  refine ⟨m', records, h, hc, hstats, hrecords, ?_⟩
  intro heq
  have hiff := total_eq_sum_threads_iff h hc hstats hrecords rateOf_realRead
  obtain ⟨-, rfl⟩ := IoMonitor.collectTimed_eq_some.1 h
  rcases hiff.1 heq 2 (by decide) (by decide) with hle | hzero
  · exact absurd hle (by decide)
  · exact absurd hzero (by decide)

end IotopCpp
