import IotopCpp.Monitor.TaskTable

/-!
# The table in closed form

A task that is in the table is dropped by the next cycle, whatever that cycle finds, and one
that is not is entered if its first query succeeds.  So what the table holds after a run is
a matter of how long the task has been answered for without a break.

## Main definitions

* `Cycle.Enters` — the first query of the cycle for a task succeeded.
* `lastTime` — the time of the last cycle.

## Main results

* `mem_of_run` — a task is in the table when it was answered for in an odd number of cycles
  on end, up to the last one.
* `lookup_of_run` — **the table in closed form**, with what the entry is.
* `mem_of_steadyRun` — a task that is answered for in every cycle is in the table after
  every other one.
-/

namespace IotopCpp

open Runs

/-- The first query of the cycle for `k` succeeded, so that `k` enters the table if it is
not in it. -/
def Cycle.Enters (k : UInt64) (c : Cycle) : Bool := (c.firstQuery k).any Query.succeeded

theorem Cycle.enters_iff {k : UInt64} {c : Cycle} :
    c.Enters k = true ↔ ∃ q, c.firstQuery k = some q ∧ q.succeeded = true := by
  rw [Cycle.Enters, Option.any_eq_true]

/-- The time of the last cycle, which is zero before the first. -/
def lastTime (cs : List Cycle) : UInt64 := (cs.getLast?.map Cycle.collectTmNs).getD 0

section

variable {cs : List Cycle} {m : IoMonitor} (hrun : run cs = some m)

include hrun

theorem origin_of_run : m.originCollectTimestampNs = lastTime cs := by
  rcases List.eq_nil_or_concat' cs with rfl | ⟨cs, c, rfl⟩
  · obtain rfl := Option.some.inj hrun
    rfl
  · obtain ⟨m₀, -, hstep⟩ := runFrom_concat.1 hrun
    obtain ⟨-, rfl⟩ := IoMonitor.collectTimed_eq_some.1 hstep
    simp [lastTime]

/-- **When a task is in the table.** -/
theorem mem_of_run (k : UInt64) : k ∈ m.table ↔ Odd (cs.rtakeWhile (Cycle.Enters k)).length := by
  induction cs using List.reverseRecOn generalizing m with
  | nil =>
    obtain rfl := Option.some.inj hrun
    simp [IoMonitor.table]
  | append_singleton cs c ih =>
    obtain ⟨m₀, hbefore, hstep⟩ := runFrom_concat.1 hrun
    rw [IoMonitor.mem_collectTimed hstep, ih hbefore, odd_length_rtakeWhile_concat,
      Cycle.enters_iff, and_comm]

/-- **The table in closed form.**  An entry is there for a task that was answered for in an
odd number of cycles on end, and is the record that the last of them filled for its first
query, timed from the cycle before. -/
theorem lookup_of_run {k : UInt64} {r : TaskIoInfo} :
    m.table.lookup k = some r ↔ Odd (cs.rtakeWhile (Cycle.Enters k)).length ∧
      ∃ c ∈ cs.getLast?, ∃ q, c.firstQuery k = some q ∧
        q.record (lastTime cs.dropLast) c.collectTmNs = some r := by
  rcases List.eq_nil_or_concat' cs with rfl | ⟨cs, c, rfl⟩
  · obtain rfl := Option.some.inj hrun
    simp [IoMonitor.table]
  · obtain ⟨m₀, hbefore, hstep⟩ := runFrom_concat.1 hrun
    rw [IoMonitor.lookup_collectTimed hstep, mem_of_run hbefore, origin_of_run hbefore,
      odd_length_rtakeWhile_concat, Cycle.enters_iff, List.dropLast_concat, List.getLast?_concat]
    refine ⟨?_, ?_⟩
    · rintro ⟨hnew, q, hq, hsucc, hr⟩
      exact ⟨⟨⟨q, hq, hsucc⟩, hnew⟩, c, rfl, q, hq, hr⟩
    · rintro ⟨⟨⟨q, hq, hsucc⟩, hnew⟩, c', hc', q', hq', hr⟩
      obtain rfl := Option.some.inj hc'
      rw [hq] at hq'
      obtain rfl := Option.some.inj hq'
      exact ⟨hnew, q, hq, hsucc, hr⟩

/-- A task that every cycle is answered for comes and goes. -/
theorem mem_of_steadyRun {k : UInt64} (hsteady : ∀ c ∈ cs, c.Enters k = true) :
    k ∈ m.table ↔ Odd cs.length := by
  rw [mem_of_run hrun, List.rtakeWhile_eq_self_iff.2 hsteady]

end

/-- Three cycles in which the same process is answered for. -/
theorem lookup_of_run_ofProcess :
    ∃ m, run [.ofProcess 0 1 {}, .ofProcess 1000000000 1 {}, .ofProcess 2000000000 1 {}] = some m ∧
      1 ∈ m.table := by
  have hrun : (run [.ofProcess 0 1 {}, .ofProcess 1000000000 1 {},
      .ofProcess 2000000000 1 {}]).isSome = true := by decide
  obtain ⟨m, hm⟩ := Option.isSome_iff_exists.1 hrun
  have hlast : ((Cycle.ofProcess 2000000000 1 {}).firstQuery 1).bind (fun q =>
      q.record 1000000000 2000000000) |>.isSome := by decide
  obtain ⟨r, hr⟩ := Option.isSome_iff_exists.1 hlast
  obtain ⟨q, hq, hrecord⟩ := Option.bind_eq_some_iff.1 hr
  refine ⟨m, hm, AList.lookup_isSome.1 (Option.isSome_iff_exists.2 ⟨r, ?_⟩)⟩
  exact (lookup_of_run hm).2 ⟨by decide, _, rfl, q, hq, hrecord⟩

end IotopCpp
