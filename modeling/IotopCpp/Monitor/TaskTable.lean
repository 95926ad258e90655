import IotopCpp.Monitor.IoMonitor
import Mathlib.Data.List.Chain

/-!
# The table of tasks over whole runs

What the collector's table holds after each cycle of a run, task by task.  The
law of a cycle says that a task already in the table is dropped and that any
other keeps the record of the first query made for it, if that query succeeded:
`emplace` refuses a key that is there, and the sweep that follows takes out the
entries of the cycle before, which nothing has refreshed.

So a task that lives on is in the table in every second cycle only, and the table
is complete throughout exactly in the runs in which no task lives on.

## Main definitions

* `Cycle.firstQuery`, `Cycle.Sampled` — the first query made for an id, and
  whether any query for it succeeded.
* `Cycle.WellFormed` — the enumerations `/proc` gives.
* `Complete`, `Fresh` — nothing is missing from the table, and nothing in it is
  stale.

## Main results

* `lookup_collectTimed` — **the law of a cycle, for one task.**
* `complete_iff_alternating` — the table is complete after every cycle exactly
  when no task is sampled in two cycles running and a task's first query decides.
* `fresh_of_run` — every entry was made in the last cycle, by a query that
  succeeded.
-/

namespace IotopCpp

open Netlink Runs

/-! ### The first query for a task -/

/-- The first query a cycle makes for `k`.  A cycle may make several: a main thread has
the id of its process, and is asked for as a thread once more. -/
def firstOf (qs : List Query) (k : UInt64) : Option Query := qs.find? fun q => q.id == k

def Cycle.firstQuery (c : Cycle) (k : UInt64) : Option Query := firstOf c.queries k

theorem firstOf_cons (q : Query) (qs : List Query) (k : UInt64) :
    firstOf (q :: qs) k = if q.id = k then some q else firstOf qs k := by
  unfold firstOf
  rw [List.find?_cons]
  by_cases h : q.id = k
  · simp [h]
  · have hne : (q.id == k) = false := by simpa using h
    simp [h, hne]

theorem firstOf_eq_some {qs : List Query} {k : UInt64} {q : Query} (h : firstOf qs k = some q) :
    q ∈ qs ∧ q.id = k := by
  refine ⟨List.mem_of_find?_eq_some h, ?_⟩
  simpa using List.find?_some h

/-- When every record can be filled, the first record offered under an id is the
one filled for the first query made for it. -/
theorem lookup_offered_fill {originNs collectTmNs : UInt64} {qs : List Query}
    (hfilled : ∀ q ∈ qs, (q.record originNs collectTmNs).isSome) (k : UInt64) :
    (offered (fill originNs collectTmNs qs)).lookup k
      = (firstOf qs k).bind fun q => q.record originNs collectTmNs := by
  induction qs with
  | nil => rfl
  | cons q qs ih =>
    obtain ⟨r, hr⟩ := Option.isSome_iff_exists.1 (hfilled q List.mem_cons_self)
    have hfill : fill originNs collectTmNs (q :: qs) = (q, r) :: fill originNs collectTmNs qs := by
      simp [fill, hr]
    have htail := ih fun q' hq' => hfilled q' (List.mem_cons_of_mem q hq')
    rw [hfill, firstOf_cons]
    show List.lookup k ((q.id, r) :: offered (fill originNs collectTmNs qs)) = _
    rw [List.lookup_cons, htail]
    -- the head decides if it is for `k`, and the rest does if it is not
    by_cases h : q.id = k
    · simp [h, hr]
    · have hne : (k == q.id) = false := by simpa using fun hk : k = q.id => h hk.symm
      simp [h, hne]

namespace IoMonitor

/-- The table of tasks. -/
abbrev table (m : IoMonitor) : Table UInt64 TaskIoInfo := m.ioStats.taskIoStatsTable

/-- **The law of a cycle, for one task.**  It has an entry afterwards exactly
when it had none before and the first query made for it succeeded; the entry is
the record filled for that query, with the time of the cycle before as its origin.
All that is said of runs in this module and in those after it is derived from it. -/
theorem lookup_collectTimed {m m' : IoMonitor} {c : Cycle} (h : m.collectTimed c = some m')
    {k : UInt64} {r : TaskIoInfo} :
    m'.table.lookup k = some r ↔
      k ∉ m.table ∧ ∃ q, c.firstQuery k = some q ∧ q.succeeded = true ∧
        q.record m.originCollectTimestampNs c.collectTmNs = some r := by
  obtain ⟨hfilled, rfl⟩ := collectTimed_eq_some.1 h
  -- the table is marked, offered the records, and swept: the library's law of a cycle
  show (Table.cycle _ _ _ _).lookup k = some r ↔ _
  rw [Table.lookup_cycle_eq_some (fun _ => rfl), built, lookup_offered_fill hfilled,
    Option.bind_eq_some_iff]
  apply and_congr_right
  intro _
  refine ⟨?_, ?_⟩
  · intro hbuilt
    rcases hbuilt with ⟨⟨q, hq, hr⟩, hlive⟩
    exact ⟨q, hq, (record_spec hr).isUpdated.symm.trans hlive, hr⟩
  · intro hfirst
    rcases hfirst with ⟨q, hq, hsucc, hr⟩
    exact ⟨⟨q, hq, hr⟩, (record_spec hr).isUpdated.trans hsucc⟩

theorem mem_collectTimed {m m' : IoMonitor} {c : Cycle} (h : m.collectTimed c = some m')
    {k : UInt64} :
    k ∈ m'.table ↔ k ∉ m.table ∧ ∃ q, c.firstQuery k = some q ∧ q.succeeded = true := by
  rw [← AList.lookup_isSome, Option.isSome_iff_exists]
  simp only [lookup_collectTimed h]
  refine ⟨?_, ?_⟩
  · intro hentry
    rcases hentry with ⟨r, hk, q, hq, hsucc, -⟩
    exact ⟨hk, q, hq, hsucc⟩
  · intro hfirst
    rcases hfirst with ⟨hk, q, hq, hsucc⟩
    have hmem : q ∈ c.queries := (firstOf_eq_some hq).1
    obtain ⟨r, hr⟩ := Option.isSome_iff_exists.1 ((collectTimed_eq_some.1 h).1 q hmem)
    exact ⟨r, hk, q, hq, hsucc, hr⟩

end IoMonitor

/-! ### Completeness -/

/-- Some query for `k` succeeded in the cycle. -/
def Cycle.Sampled (c : Cycle) (k : UInt64) : Prop :=
  ∃ q ∈ c.queries, q.id = k ∧ q.succeeded = true

/-- For every task sampled, its first query succeeded.  Where the first query fails, its
dead record takes the key and the record of a later one is refused. -/
def Cycle.FirstDecides (c : Cycle) : Prop :=
  ∀ k, c.Sampled k → ∃ q, c.firstQuery k = some q ∧ q.succeeded = true

/-- The table has, for every task sampled in the cycle, an entry that holds the
counters of a query for that task that succeeded in that cycle.  Which of the queries
it is, where there are several, is left open. -/
def Complete (c : Cycle) (m : IoMonitor) : Prop :=
  ∀ k, c.Sampled k → ∃ r, m.table.lookup k = some r ∧
    ∃ q ∈ c.queries, q.id = k ∧ q.answers.taskstats.counters = some r.counters

theorem Query.counters_isSome {q : Query} :
    q.answers.taskstats.counters.isSome ↔ q.succeeded = true := by
  unfold Query.succeeded
  cases q.answers.taskstats with
  | failed e => simp [QueryResult.counters, QueryResult.succeeded]
  | answered stats => cases stats <;> simp [QueryResult.counters, QueryResult.succeeded]

theorem Cycle.sampled_of_firstQuery {c : Cycle} {k : UInt64} {q : Query}
    (h : c.firstQuery k = some q) (hsucc : q.succeeded = true) : c.Sampled k :=
  ⟨q, (firstOf_eq_some h).1, (firstOf_eq_some h).2, hsucc⟩

/-- One cycle leaves the table complete exactly when no task it sampled was in
the table already and their first queries decide. -/
theorem complete_step {m m' : IoMonitor} {c : Cycle} (h : m.collectTimed c = some m') :
    Complete c m' ↔ c.FirstDecides ∧ ∀ k, c.Sampled k → k ∉ m.table := by
  refine ⟨?_, ?_⟩
  · -- an entry is there by the law of the cycle only, which says both
    intro hcomplete
    refine ⟨?_, ?_⟩
    · intro k hk
      obtain ⟨r, hr, -⟩ := hcomplete k hk
      obtain ⟨-, q, hq, hsucc, -⟩ := (IoMonitor.lookup_collectTimed h).1 hr
      exact ⟨q, hq, hsucc⟩
    · intro k hk
      obtain ⟨r, hr, -⟩ := hcomplete k hk
      exact ((IoMonitor.lookup_collectTimed h).1 hr).1
  · rintro ⟨hfirst, hnew⟩ k hk
    obtain ⟨q, hq, hsucc⟩ := hfirst k hk
    obtain ⟨hmem, hid⟩ := firstOf_eq_some hq
    obtain ⟨r, hr⟩ := Option.isSome_iff_exists.1 ((IoMonitor.collectTimed_eq_some.1 h).1 q hmem)
    refine ⟨r, (IoMonitor.lookup_collectTimed h).2 ⟨hnew k hk, q, hq, hsucc, hr⟩, q, hmem, hid, ?_⟩
    obtain ⟨counters, hcounters⟩ := Option.isSome_iff_exists.1 (Query.counters_isSome.2 hsucc)
    rw [(record_spec hr).counters, hcounters]
    rfl

/-- In a complete table the tasks are those sampled in the cycle. -/
theorem mem_table_iff_sampled {m m' : IoMonitor} {c : Cycle} (h : m.collectTimed c = some m')
    (hcomplete : Complete c m') {k : UInt64} : k ∈ m'.table ↔ c.Sampled k := by
  refine ⟨?_, ?_⟩
  · intro hk
    obtain ⟨-, q, hq, hsucc⟩ := (IoMonitor.mem_collectTimed h).1 hk
    exact Cycle.sampled_of_firstQuery hq hsucc
  · intro hk
    obtain ⟨r, hr, -⟩ := hcomplete k hk
    exact AList.lookup_isSome.1 (by rw [hr]; rfl)

/-- After a run that was complete throughout, the tasks in the table are those
sampled in its last cycle. -/
theorem mem_table_of_everyStep {cs : List Cycle} {m : IoMonitor} (h : run cs = some m)
    (hcomplete : EveryStep IoMonitor.collectTimed {} cs fun _ c m' => Complete c m') {k : UInt64} :
    k ∈ m.table ↔ ∃ c ∈ cs.getLast?, c.Sampled k := by
  induction cs using List.reverseRecOn with
  | nil =>
    obtain rfl := Option.some.inj h
    simp [IoMonitor.table]
  | append_singleton cs c _ =>
    obtain ⟨m₀, hrun, hstep⟩ := runFrom_concat.1 h
    have hlast : Complete c m := ((everyStep_concat hrun).1 hcomplete).2 m hstep
    rw [mem_table_iff_sampled hstep hlast]
    simp

/-- **When the table is complete after every cycle of a run.**  It is exactly when
no task is sampled in two consecutive cycles, and no task has a later query
succeed in a cycle whose first query for it failed.  Both are conditions on what was
enumerated and answered, cycle by cycle, and say nothing of the table. -/
theorem complete_iff_alternating {cs : List Cycle} {m : IoMonitor} (h : run cs = some m) :
    EveryStep IoMonitor.collectTimed {} cs (fun _ c m' => Complete c m') ↔
      (∀ c ∈ cs, c.FirstDecides) ∧ cs.IsChain fun c c' => ∀ k, ¬(c.Sampled k ∧ c'.Sampled k) := by
  -- the induction adds a cycle at the end, where the table is that of the run before it
  induction cs using List.reverseRecOn generalizing m with
  | nil => simp [everyStep_nil]
  | append_singleton cs c ih =>
    obtain ⟨m₀, hrun, hstep⟩ := runFrom_concat.1 h
    rw [everyStep_concat hrun, List.isChain_append]
    -- what completeness after the last cycle says of the state before it
    have hlast : (∀ m', IoMonitor.collectTimed m₀ c = some m' → Complete c m') ↔
        c.FirstDecides ∧ ∀ k, c.Sampled k → k ∉ m₀.table := by
      rw [← complete_step hstep]
      refine ⟨?_, ?_⟩
      · intro hall
        exact hall m hstep
      · intro hc m' hm'
        rw [hstep] at hm'
        obtain rfl := Option.some.inj hm'
        exact hc
    rw [hlast]
    -- what the table held before the last cycle is what the cycle before it sampled
    have hbefore (hcomplete : EveryStep IoMonitor.collectTimed {} cs fun _ c m' => Complete c m') :
        (∀ k, c.Sampled k → k ∉ m₀.table) ↔
          ∀ c' ∈ cs.getLast?, ∀ k, ¬(c'.Sampled k ∧ c.Sampled k) := by
      simp only [mem_table_of_everyStep hrun hcomplete]
      constructor
      · rintro hnew c' hc' k ⟨hk', hk⟩
        exact hnew k hk ⟨c', hc', hk'⟩
      · rintro hchain k hk ⟨c', hc', hk'⟩
        exact hchain c' hc' k ⟨hk', hk⟩
    refine ⟨?_, ?_⟩
    · intro hcomplete
      rcases hcomplete with ⟨hcs, hfirst, hnew⟩
      obtain ⟨hfirsts, hchain⟩ := (ih hrun).1 hcs
      refine ⟨?_, hchain, .singleton c, ?_⟩
      · intro c' hc'
        rcases List.mem_append.1 hc' with hc' | hc'
        · exact hfirsts c' hc'
        · rwa [List.mem_singleton.1 hc']
      · intro c' hc' c'' hc''
        obtain rfl := Option.some.inj hc''
        exact (hbefore hcs).1 hnew c' hc'
    · intro halternating
      rcases halternating with ⟨hfirsts, hchain, -, hlink⟩
      have hcs := (ih hrun).2 ⟨fun c' hc' => hfirsts c' (List.mem_append_left _ hc'), hchain⟩
      refine ⟨hcs, hfirsts c (List.mem_append_right _ (List.mem_singleton.2 rfl)), ?_⟩
      exact (hbefore hcs).2 fun c' hc' => hlink c' hc' c rfl

/-- A cycle that enumerates one process with the threads `tids`, all unnamed, and
is answered for each id what `stats` has for it. -/
def Cycle.ofThreads (collectTmNs pid : UInt64) (tids : List UInt64) (stats : UInt64 → Taskstats) :
    Cycle where
  collectTmNs := collectTmNs
  taskIds := [⟨pid, .unnamed (.answered (stats pid)),
    tids.map fun tid => ⟨tid, .unnamed (.answered (stats tid))⟩⟩]

/-- A cycle that enumerates one process, with its main thread only. -/
def Cycle.ofProcess (collectTmNs pid : UInt64) (stats : Taskstats) : Cycle :=
  .ofThreads collectTmNs pid [pid] fun _ => stats

/-- A cycle that enumerates processes with their threads, all unnamed, and is answered for
each id as `answer` says. -/
def Cycle.ofTasks (collectTmNs : UInt64) (tasks : List (UInt64 × List UInt64))
    (answer : UInt64 → QueryResult) : Cycle where
  collectTmNs := collectTmNs
  taskIds := tasks.map fun task => ⟨task.1, .unnamed (answer task.1),
    task.2.map fun tid => ⟨tid, .unnamed (answer tid)⟩⟩

/-- Three cycles with the processes 1 and 5, in any order: the queries for 1 and its threads
succeed in the first and in the last one, and that for 5 in the second. -/
def turns (tasks : List (UInt64 × List UInt64)) : List Cycle :=
  [.ofTasks 0 tasks fun id => if id = 5 then .failed .recv else .answered (some { readBytes := id }),
    .ofTasks 1000000000 tasks fun id => if id = 5 then .answered (some {}) else .failed .recv,
    .ofTasks 2000000000 tasks fun id => if id = 5 then .failed .send else .answered (some {})]

theorem complete_iff_alternating_turns : ∃ m, run (turns [(1, [1, 2]), (5, [5])]) = some m ∧
    (EveryStep IoMonitor.collectTimed {} (turns [(1, [1, 2]), (5, [5])])
        (fun _ c m' => Complete c m') ↔
      (∀ c ∈ turns [(1, [1, 2]), (5, [5])], c.FirstDecides) ∧
        (turns [(1, [1, 2]), (5, [5])]).IsChain fun c c' => ∀ k, ¬(c.Sampled k ∧ c'.Sampled k)) := by
  obtain ⟨m, hm⟩ := Option.isSome_iff_exists.1
    (show (run (turns [(1, [1, 2]), (5, [5])])).isSome = true by decide +kernel)
  exact ⟨m, hm, complete_iff_alternating hm⟩

/-- A process that stays alive and answers in two cycles is missing after the second. -/
theorem not_complete_ofProcess_twice :
    ∃ m, run [.ofProcess 0 1 {}, .ofProcess 1000000000 1 {}] = some m ∧
      ¬EveryStep IoMonitor.collectTimed {} [.ofProcess 0 1 {}, .ofProcess 1000000000 1 {}]
        fun _ c m' => Complete c m' := by
  have hlost : ∃ m ∈ run [.ofProcess 0 1 {}, .ofProcess 1000000000 1 {}],
      m.table.lookup 1 = none := by decide
  obtain ⟨m, hm, hnone⟩ := hlost
  obtain ⟨m₀, hrun, hstep⟩ := runFrom_concat.1
    (show runFrom IoMonitor.collectTimed {} ([.ofProcess 0 1 {}] ++ [.ofProcess 1000000000 1 {}])
      = some m from hm)
  refine ⟨m, hm, ?_⟩
  intro hevery
  have hcomplete := hevery _ _ m₀ m List.prefix_rfl hrun hstep
  have hsampled : (Cycle.ofProcess 1000000000 1 {}).Sampled 1 :=
    ⟨_, List.mem_cons_self, rfl, rfl⟩
  obtain ⟨r, hr, -⟩ := hcomplete 1 hsampled
  rw [hnone] at hr
  cases hr

/-! ### Enumerations -/

/-- What holds of the enumeration of `/proc`: a process is met once, and its id is
not the id of another process's thread.  It may be the id of a thread of its own, which
its main thread has. -/
structure Cycle.WellFormed (c : Cycle) : Prop where
  pids_nodup : (c.taskIds.map Process.pid).Nodup
  own_thread : ∀ p ∈ c.taskIds, ∀ p' ∈ c.taskIds, ∀ t ∈ p.threads, t.tid = p'.pid → p.pid = p'.pid

/-- A query is made for a process or for one of its threads. -/
theorem Cycle.mem_queries {c : Cycle} {q : Query} :
    q ∈ c.queries ↔ (∃ p ∈ c.taskIds, q = p.query) ∨
      ∃ p ∈ c.taskIds, ∃ t ∈ p.threads, q = t.query := by
  simp only [Cycle.queries, Process.queries, List.mem_flatMap, List.mem_cons, List.mem_map]
  refine ⟨?_, ?_⟩
  · intro hquery
    rcases hquery with ⟨p, hp, rfl | ⟨t, ht, rfl⟩⟩
    · exact Or.inl ⟨p, hp, rfl⟩
    · exact Or.inr ⟨p, hp, t, ht, rfl⟩
  · intro hquery
    rcases hquery with ⟨p, hp, rfl⟩ | ⟨p, hp, t, ht, rfl⟩
    · exact ⟨p, hp, Or.inl rfl⟩
    · exact ⟨p, hp, Or.inr ⟨t, ht, rfl⟩⟩

theorem firstOf_append (qs qs' : List Query) (k : UInt64) :
    firstOf (qs ++ qs') k = (firstOf qs k).or (firstOf qs' k) := List.find?_append

theorem firstOf_eq_none {qs : List Query} {k : UInt64} (h : ∀ q ∈ qs, q.id ≠ k) :
    firstOf qs k = none := by
  rw [firstOf, List.find?_eq_none]
  intro q hq
  simpa using h q hq

/-- The first query for the id of a process is the one made for the process. -/
theorem firstOf_flatMap_queries {ps : List Process} (hnodup : (ps.map Process.pid).Nodup)
    (hthread : ∀ p ∈ ps, ∀ p' ∈ ps, ∀ t ∈ p.threads, t.tid = p'.pid → p.pid = p'.pid)
    {p : Process} (hp : p ∈ ps) :
    firstOf (ps.flatMap Process.queries) p.pid = some p.query := by
  induction ps with
  | nil => cases hp
  | cons p' ps ih =>
    rw [List.flatMap_cons, firstOf_append]
    rw [List.map_cons, List.nodup_cons] at hnodup
    rcases List.mem_cons.1 hp with rfl | hmem
    · rw [Process.queries, firstOf_cons, if_pos (show p.query.id = p.pid from rfl), Option.some_or]
    · -- no query made for `p'` has the id of `p`
      have hne : p'.pid ≠ p.pid := by
        intro heq
        exact hnodup.1 (heq ▸ List.mem_map_of_mem hmem)
      have hnone : firstOf p'.queries p.pid = none := by
        apply firstOf_eq_none
        intro q hq
        rcases List.mem_cons.1 hq with rfl | hq
        · exact hne
        · obtain ⟨t, ht, rfl⟩ := List.mem_map.1 hq
          intro htid
          exact hne (hthread p' List.mem_cons_self p hp t ht htid)
      rw [hnone, Option.none_or]
      refine ih hnodup.2 ?_ hmem
      intro p₁ h₁ p₂ h₂
      exact hthread p₁ (List.mem_cons_of_mem _ h₁) p₂ (List.mem_cons_of_mem _ h₂)

theorem Cycle.mem_queries_ofThreads {collectTmNs pid : UInt64} {tids : List UInt64}
    {stats : UInt64 → Taskstats} {q : Query} :
    q ∈ (Cycle.ofThreads collectTmNs pid tids stats).queries ↔
      q = ⟨pid, true, .unnamed (.answered (stats pid))⟩ ∨
        ∃ tid ∈ tids, q = ⟨tid, false, .unnamed (.answered (stats tid))⟩ := by
  rw [Cycle.mem_queries]
  simp [Cycle.ofThreads, Process.query, Thread.query]

/-- Every record of such a cycle can be filled. -/
theorem Cycle.filled_ofThreads {collectTmNs pid : UInt64} {tids : List UInt64}
    {stats : UInt64 → Taskstats} {q : Query}
    (hq : q ∈ (Cycle.ofThreads collectTmNs pid tids stats).queries) (originNs now : UInt64) :
    (q.record originNs now).isSome := by
  rcases Cycle.mem_queries_ofThreads.1 hq with rfl | ⟨tid, -, rfl⟩
  · exact Query.record_unnamed_isSome _ _ _ _ _
  · exact Query.record_unnamed_isSome _ _ _ _ _

theorem IoMonitor.exists_collectTimed_ofThreads (m : IoMonitor) (collectTmNs pid : UInt64)
    (tids : List UInt64) (stats : UInt64 → Taskstats) :
    ∃ m', m.collectTimed (.ofThreads collectTmNs pid tids stats) = some m' :=
  ⟨_, IoMonitor.collectTimed_eq_some.2 ⟨fun _ hq => Cycle.filled_ofThreads hq _ _, rfl⟩⟩

theorem Cycle.wellFormed_ofThreads (collectTmNs pid : UInt64) (tids : List UInt64)
    (stats : UInt64 → Taskstats) : (Cycle.ofThreads collectTmNs pid tids stats).WellFormed := by
  constructor
  · exact List.nodup_singleton pid
  · intro p hp p' hp' _ _ _
    rw [List.mem_singleton.1 hp, List.mem_singleton.1 hp']

namespace Cycle.WellFormed

variable {c : Cycle} (hc : c.WellFormed)

include hc

theorem firstQuery_pid {p : Process} (hp : p ∈ c.taskIds) :
    c.firstQuery p.pid = some p.query :=
  firstOf_flatMap_queries hc.pids_nodup hc.own_thread hp

/-- The first query for an id is a process's exactly when the id is. -/
theorem firstQuery_isPid {k : UInt64} {q : Query} (h : c.firstQuery k = some q) :
    q.isPid = true ↔ ∃ p ∈ c.taskIds, p.pid = k := by
  obtain ⟨hmem, rfl⟩ := firstOf_eq_some h
  -- the process is asked for before its threads, so its main thread is never the first
  refine ⟨?_, ?_⟩
  · intro hpid
    rcases Cycle.mem_queries.1 hmem with ⟨p, hp, rfl⟩ | ⟨p, hp, t, ht, rfl⟩
    · exact ⟨p, hp, rfl⟩
    · cases hpid
  · intro hprocess
    rcases hprocess with ⟨p, hp, hid⟩
    have hfirst := hc.firstQuery_pid hp
    rw [hid, h] at hfirst
    exact congrArg Query.isPid (Option.some.inj hfirst)

end Cycle.WellFormed

/-! ### Freshness -/

/-- The ids of a cycle are those Linux gives to tasks. -/
def Cycle.IdsInRange (c : Cycle) : Prop := ∀ q ∈ c.queries, 0 < q.id.toNat ∧ q.id.toNat < 2 ^ 31

/-- The entry `r` under `k` is of the cycle `c`, which came after a cycle at
`originNs`: the record filled for a query of `c` that succeeded, with the flag
the enumeration gives it. -/
structure Fresh (originNs : UInt64) (c : Cycle) (k : UInt64) (r : TaskIoInfo) : Prop where
  taskId : r.taskId = k.toNat
  isUpdated : r.isUpdated = true
  created : ∃ q ∈ c.queries, q.id = k ∧ q.succeeded = true ∧
    q.record originNs c.collectTmNs = some r
  isPid : r.isPid = true ↔ ∃ p ∈ c.taskIds, p.pid = k

/-- Whatever the table held before, every entry is fresh after a cycle. -/
theorem fresh_step {m m' : IoMonitor} {c : Cycle} (hc : c.WellFormed) (hids : c.IdsInRange)
    (h : m.collectTimed c = some m') {k : UInt64} {r : TaskIoInfo} (hr : m'.table.lookup k = some r) :
    Fresh m.originCollectTimestampNs c k r := by
  obtain ⟨-, q, hq, hsucc, hrecord⟩ := (IoMonitor.lookup_collectTimed h).1 hr
  obtain ⟨hmem, hid⟩ := firstOf_eq_some hq
  have hspec := record_spec hrecord
  constructor
  · rw [hspec.taskId, toPidT_eq (hids q hmem).2, hid]
  · rw [hspec.isUpdated, hsucc]
  · exact ⟨q, hmem, hid, hsucc, hrecord⟩
  · rw [hspec.isPid]
    exact hc.firstQuery_isPid hq

/-- **No stale and no phantom entry.**  After every cycle of a run, every entry of
the table is of that very cycle: it was made there, by a query for its own key that
succeeded, and says of itself whether the key is a process. -/
theorem fresh_of_run {cs : List Cycle} (hcs : ∀ c ∈ cs, c.WellFormed ∧ c.IdsInRange) :
    EveryStep IoMonitor.collectTimed {} cs fun m c m' =>
      ∀ k r, m'.table.lookup k = some r → Fresh m.originCollectTimestampNs c k r := by
  -- no invariant is needed: one step makes every entry that it leaves
  refine everyStep_of_invariant (fun _ => True) ?_ ?_ trivial
  · intro _ _ _ _ _
    trivial
  · intro m c m' hc _ hstep k r hr
    obtain ⟨hwf, hids⟩ := hcs c hc
    exact fresh_step hwf hids hstep hr

/-- Cycles in which the processes come in turn. -/
theorem wellFormed_turns {tasks : List (UInt64 × List UInt64)} (hnodup : (tasks.map Prod.fst).Nodup)
    (hown : ∀ task ∈ tasks, ∀ task' ∈ tasks, task'.1 ∈ task.2 → task.1 = task'.1) :
    ∀ c ∈ turns tasks, c.WellFormed := by
  have hcycle (collectTmNs : UInt64) (answer : UInt64 → QueryResult) :
      (Cycle.ofTasks collectTmNs tasks answer).WellFormed := by
    refine ⟨?_, ?_⟩
    · rw [Cycle.ofTasks, List.map_map]
      exact hnodup
    · refine List.forall_mem_map.2 fun task htask => List.forall_mem_map.2 fun task' htask' => ?_
      refine List.forall_mem_map.2 ?_
      intro tid htid
      rintro (rfl : tid = task'.1)
      exact hown task htask task' htask' htid
  simp only [turns, List.forall_mem_cons]
  exact ⟨hcycle _ _, hcycle _ _, hcycle _ _, by simp⟩

theorem fresh_of_run_turns :
    EveryStep IoMonitor.collectTimed {} (turns [(1, [1, 2]), (5, [5])]) fun m c m' =>
      ∀ k r, m'.table.lookup k = some r → Fresh m.originCollectTimestampNs c k r := by
  have hids : ∀ c ∈ turns [(1, [1, 2]), (5, [5])], c.IdsInRange := by
    unfold Cycle.IdsInRange
    decide +kernel
  exact fresh_of_run fun c hc => ⟨wellFormed_turns (by decide) (by decide) c hc, hids c hc⟩

end IotopCpp
