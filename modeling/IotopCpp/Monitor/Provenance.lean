import IotopCpp.Monitor.Collector
import IotopCpp.Monitor.Presence
import IotopCpp.Netlink.KernelReply

/-!
# Where the table comes from

An entry that a run over the socket leaves in the table, traced back to what the system
did: to a task that `/proc` listed in the last cycle, to the call that asked for it in that
cycle, and to the reply that call took.

## Main definitions

* `Entry` — where an entry comes from.
* `SystemCycle.listed` — the tasks a cycle asks for.
* `InTime` — the kernel answers every request before the call looks.

## Main results

* `asked_of_run` — **one call for each task listed**, and a table in closed form.
* `entry_of_run` — **every entry has its origin in the last cycle**, and its counters are
  those of the reply to its own request exactly when no call had given up before.
* `requested_of_run` — the kernel was asked for the task, in bytes.
* `counters_of_run` — they are what the kernel said of the request that the lag leads to.
* `ownCounters_of_run` — with a kernel that answers in time, **they are the counters of the
  task**, sampled in the last cycle.
-/

namespace IotopCpp

open Netlink Runs

/-! ### The return of a query -/

namespace Answered

variable {st : NetlinkIoStats} {e : TaskEvents} {q : Query} {ret : Return}

/-- The query succeeded exactly when the call returned zero. -/
theorem succeeded_iff (h : Answered st e q ret) : q.succeeded = true ↔ ret.code = 0 := by
  have happly := congrArg Prod.fst h.taskstats
  unfold Query.succeeded
  cases hq : q.answers.taskstats with
  | failed error =>
    rw [hq] at happly
    have hneg := error.code_neg
    simp only [QueryResult.apply] at happly
    simp only [QueryResult.succeeded, Bool.false_eq_true, false_iff]
    omega
  | answered stats =>
    rw [hq] at happly
    cases stats <;> simpa [QueryResult.apply, QueryResult.succeeded] using happly.symm

/-- The counters of a query are those the call left in the record. -/
theorem counters (h : Answered st e q ret) :
    q.answers.taskstats.counters.getD {} = ret.ioStats.counters := by
  have happly := congrArg Prod.snd h.taskstats
  simp only at happly
  rw [← happly, h.record]
  cases q.answers.taskstats with
  | failed error => rfl
  | answered stats => cases stats <;> rfl

end Answered

/-! ### Origins -/

/-- The entry `r` under `k` comes from the call that returned `ret`, after the returns
`before`, in the cycle `cycle`. -/
structure Entry (cycle : SystemCycle) (before : List Return) (ret : Return) (k : UInt64)
    (r : TaskIoInfo) : Prop where
  listed : Util.Listed cycle.proc k
  taskId : r.taskId = toPidT k
  asked : ret.call.request.taskId = .ofInt r.taskId
  returned : ret.code = 0
  counters : r.counters = ret.ioStats.counters
  own : ret.FromOwnReply ↔ ∀ r' ∈ before, r'.missed = false

/-- The queries of a cycle are for the tasks that `/proc` lists. -/
theorem Sees.listed {st : NetlinkIoStats} {n : ℕ} {cycle : SystemCycle} {c : Cycle} {rets : List Return}
    (h : Sees st n cycle c rets) {q : Query} (hq : q ∈ c.queries) : Util.Listed cycle.proc q.id := by
  apply Util.mem_getAllTaskId.1
  rw [← h.tasks]
  rcases Cycle.mem_queries.1 hq with ⟨p, hp, rfl⟩ | ⟨p, hp, t, ht, rfl⟩
  · exact ⟨_, List.mem_map_of_mem hp, Or.inl rfl⟩
  · exact ⟨_, List.mem_map_of_mem hp, Or.inr (List.mem_map_of_mem ht)⟩

/-- The tasks that a cycle lists, each process before its threads. -/
def SystemCycle.listed (cycle : SystemCycle) : List UInt64 :=
  (Util.getAllTaskId false cycle.proc).flatMap fun t => t.1 :: t.2

/-- One query is made for each of them, in order. -/
theorem Sees.asked {st : NetlinkIoStats} {n : ℕ} {cycle : SystemCycle} {c : Cycle}
    {rets : List Return} (h : Sees st n cycle c rets) :
    rets.map (fun ret => ret.call.request.taskId)
      = cycle.listed.map fun id => .ofInt (toPidT id) := by
  have hids : c.queries.map Query.id = cycle.listed := by
    rw [SystemCycle.listed, ← h.tasks, List.flatMap_map, Cycle.queries, List.map_flatMap]
    refine List.flatMap_congr ?_
    intro p _
    simp [Process.queries, Process.query, Thread.query, Function.comp_def]
  -- returns and queries go together one by one, each for the same id
  have hanswered := h.answered.imp fun q (ret : Return × ℕ) hret => hret.taskId.symm
  have hmaps : List.Forall₂ Eq (c.queries.map fun q => UInt64.ofInt (toPidT q.id))
      ((rets.zipIdx n).map fun ret => ret.1.call.request.taskId) :=
    List.forall₂_map_left_iff.2 (List.forall₂_map_right_iff.2 hanswered)
  rw [List.forall₂_eq_eq_eq] at hmaps
  have hrets : (rets.zipIdx n).map (fun ret => ret.1.call.request.taskId)
      = ((rets.zipIdx n).map Prod.fst).map fun ret => ret.call.request.taskId := by
    rw [List.map_map]
    rfl
  rw [hrets, List.zipIdx_map_fst] at hmaps
  rw [← hmaps, ← hids, List.map_map]
  rfl

theorem SeesAll.asked {st : NetlinkIoStats} {cycles : List SystemCycle} {cs : List Cycle}
    {rets : List Return} (h : SeesAll st cycles cs rets) :
    rets.map (fun ret => ret.call.request.taskId)
      = cycles.flatMap fun cycle => cycle.listed.map fun id => .ofInt (toPidT id) := by
  induction h with
  | nil => rfl
  | concat _ hsees ih =>
    rw [List.map_append, List.flatMap_append, List.flatMap_singleton, ih, hsees.asked]

/-- The kernel answers every request between the call that sends it and its `recv`, so
that no `recv` finds the socket empty. -/
def InTime (cycle : SystemCycle) : Prop := ∀ n, (cycle.events n).late ≠ []

/-- Then no call of the cycle gives up. -/
theorem Sees.not_missed {st : NetlinkIoStats} {n : ℕ} {cycle : SystemCycle} {c : Cycle}
    {rets : List Return}
    (h : Sees st n cycle c rets) (hinTime : InTime cycle) : ∀ ret ∈ rets, ret.missed = false := by
  intro ret hret
  obtain ⟨q, -, i, hanswered⟩ := exists_of_forall₂_zipIdx_of_mem h.answered hret
  exact hanswered.inTime (hinTime i)

theorem SeesAll.not_missed {st : NetlinkIoStats} {cycles : List SystemCycle} {cs : List Cycle}
    {rets : List Return}
    (h : SeesAll st cycles cs rets) (hinTime : ∀ cycle ∈ cycles, InTime cycle) :
    ∀ ret ∈ rets, ret.missed = false := by
  induction h with
  | nil => simp
  | concat _ hsees ih =>
    intro ret hret
    rcases List.mem_append.1 hret with hold | hnew
    · exact ih (fun cycle hcycle => hinTime cycle (List.mem_append_left _ hcycle)) ret hold
    · exact hsees.not_missed (hinTime _ (by simp)) ret hnew

/-- The counters of an entry are what the kernel says of the request the lag leads to. -/
theorem Entry.reported {cycle : SystemCycle} {before : List Return} {ret : Return} {k : UInt64}
    {r : TaskIoInfo} (h : Entry cycle before ret k r) (hsettled : ret.Settled before)
    {kernel : Request → Taskstats} (htruth : Truthful kernel [ret]) :
    ∃ q : Request, q.seq + behind before = ret.call.request.seq ∧
      (q = ret.call.request ↔ behind before = 0) ∧ r.counters = (kernel q).counters := by
  obtain ⟨q, hlag, hown, hcopy⟩ := hsettled.reported h.returned htruth
  refine ⟨q, hlag, hown, ?_⟩
  rw [h.counters, hcopy]
  rfl

namespace Collector

/-- **One cycle**: an entry of its table was not there before, and has its origin in it. -/
theorem entry_of_step {cycle : SystemCycle} {c c' : Collector} (hstep : c.step cycle = some c')
    (hlog : c'.socket.Log) {k : UInt64} {r : TaskIoInfo}
    (hr : c'.monitor.table.lookup k = some r) :
    k ∉ c.monitor.table ∧ ∃ before ret after,
      c'.socket.returns = c.socket.returns ++ before ++ ret :: after ∧
        Entry cycle (c.socket.returns ++ before) ret k r := by
  obtain ⟨abs, rets, hcycle, hsees, hasks⟩ := Collector.step_refines hstep
  obtain ⟨hnew, q, hfirst, hsucc, hrecord⟩ := (IoMonitor.lookup_collectTimed hcycle).1 hr
  obtain ⟨hq, rfl⟩ := firstOf_eq_some hfirst
  obtain ⟨before, ret, after, rfl, hanswered⟩ := exists_of_forall₂_zipIdx hsees.answered hq
  have hreturns := hasks.returns
  rw [← List.append_assoc] at hreturns
  have hspec := record_spec hrecord
  have hzero := hanswered.succeeded_iff.1 hsucc
  refine ⟨hnew, before, ret, after, hreturns, hsees.listed hq, hspec.taskId, ?_, hzero, ?_, ?_⟩
  · rw [hspec.taskId, hanswered.taskId]
  · rw [hspec.counters, hanswered.counters]
  · exact (hlog.settled _ ret after hreturns).fromOwnReply_iff hzero

/-- What the entry says, by the time since the cycle before. -/
theorem spec_of_step {cycle : SystemCycle} {c c' : Collector} (hstep : c.step cycle = some c')
    {k : UInt64} {r : TaskIoInfo} (hr : c'.monitor.table.lookup k = some r) :
    ∃ q, RecordSpec (elapsedNs c.monitor.originCollectTimestampNs cycle.collectTmNs) q r := by
  obtain ⟨abs, rets, hcycle, hsees, -⟩ := Collector.step_refines hstep
  obtain ⟨-, q, -, -, hrecord⟩ := (IoMonitor.lookup_collectTimed hcycle).1 hr
  rw [← hsees.time]
  exact ⟨q, record_spec hrecord⟩

section

variable {netlinkIoObj : NetlinkIoStats} {cycles : List SystemCycle} {c : Collector}
  (hrun : run netlinkIoObj cycles = some c)

include hrun

/-- The time kept is that of the last cycle. -/
theorem origin_of_run : c.monitor.originCollectTimestampNs
    = (cycles.getLast?.map SystemCycle.collectTmNs).getD 0 := by
  rcases List.eq_nil_or_concat' cycles with rfl | ⟨cycles, cycle, rfl⟩
  · obtain rfl := Option.some.inj hrun
    rfl
  · obtain ⟨c₀, -, hstep⟩ := runFrom_concat.1 hrun
    obtain ⟨abs, rets, hcycle, hsees, -⟩ := Collector.step_refines hstep
    obtain ⟨-, heq⟩ := IoMonitor.collectTimed_eq_some.1 hcycle
    rw [heq, List.getLast?_concat, Option.map_some, Option.getD_some, ← hsees.time]

theorem log_of_run : c.socket.Log := by
  obtain ⟨cs, es, -, hsocket, -⟩ := Collector.refines hrun
  exact Socket.log_of_run hsocket

/-- A table that is not empty was left by a cycle. -/
theorem last_of_run {k : UInt64} {r : TaskIoInfo} (hr : c.monitor.table.lookup k = some r) :
    ∃ cycle c₀, cycle ∈ cycles.getLast? ∧ run netlinkIoObj cycles.dropLast = some c₀ ∧
      c₀.step cycle = some c := by
  rcases List.eq_nil_or_concat' cycles with rfl | ⟨cycles, cycle, rfl⟩
  · obtain rfl := Option.some.inj hrun
    cases hr
  · obtain ⟨c₀, hbefore, hstep⟩ := runFrom_concat.1 hrun
    exact ⟨cycle, c₀, by simp, by rwa [List.dropLast_concat], hstep⟩

end

end Collector

/-! ### Over a whole run -/

/-- The id goes through a `pid_t`, and comes out the same in its low 32 bits. -/
theorem mod_toPidT (id : UInt64) : (UInt64.ofInt (toPidT id)).toNat % 2 ^ 32 = id.toNat % 2 ^ 32 := by
  unfold UInt64.ofInt toPidT
  rw [UInt64.toNat_ofNat', Int.bmod_def]
  split_ifs <;> omega

section

variable {netlinkIoObj : NetlinkIoStats} {cycles : List SystemCycle} {c : Collector}
  (hrun : Collector.run netlinkIoObj cycles = some c)

include hrun

/-- **Every entry has its origin in the last cycle.**  It was not in the table before; a
task of that name was listed, its call returned zero after everything that the earlier
cycles returned, and left the counters the entry has. -/
theorem entry_of_run {k : UInt64} {r : TaskIoInfo} (hr : c.monitor.table.lookup k = some r) :
    ∃ (cycle : SystemCycle) (c₀ : Collector) (before : List Return) (ret : Return)
      (after : List Return), cycle ∈ cycles.getLast? ∧
      Collector.run netlinkIoObj cycles.dropLast = some c₀ ∧ k ∉ c₀.monitor.table ∧
      c.socket.returns = c₀.socket.returns ++ before ++ ret :: after ∧
      Entry cycle (c₀.socket.returns ++ before) ret k r := by
  obtain ⟨cycle, c₀, hcycle, hbefore, hstep⟩ := Collector.last_of_run hrun hr
  obtain ⟨hnew, before, ret, after, hreturns, hentry⟩ :=
    Collector.entry_of_step hstep (Collector.log_of_run hrun) hr
  exact ⟨cycle, c₀, before, ret, after, hcycle, hbefore, hnew, hreturns, hentry⟩

/-- **What a run asks for, and what it keeps.**  The calls of the socket are for the tasks that
`/proc` lists, cycle after cycle, each process before its threads, one call for each; and a
task is in the table when it was answered for in an odd number of cycles on end. -/
theorem asked_of_run : ∃ (cs : List Cycle) (es : List Event), IotopCpp.run cs = some c.monitor ∧
    runFrom Socket.step {} es = some c.socket ∧
    SeesAll netlinkIoObj cycles cs c.socket.returns ∧
    c.socket.returns.map (fun ret => ret.call.request.taskId)
      = cycles.flatMap (fun cycle => cycle.listed.map fun id => .ofInt (toPidT id)) ∧
    ∀ k, k ∈ c.monitor.table ↔ Odd (cs.rtakeWhile (Cycle.Enters k)).length := by
  obtain ⟨cs, es, hmonitor, hsocket, hsees⟩ := Collector.refines hrun
  exact ⟨cs, es, hmonitor, hsocket, hsees, hsees.asked, mem_of_run hmonitor⟩

variable {kernel : Request → Taskstats} (htruth : Truthful kernel c.socket.returns)

include htruth

/-- **What the counters of an entry are**: what the kernel said of the request sent as many
requests before the entry's own as calls had given up by then. -/
theorem counters_of_run {k : UInt64} {r : TaskIoInfo} (hr : c.monitor.table.lookup k = some r) :
    ∃ (before : List Return) (ret : Return) (after : List Return) (q : Request),
      c.socket.returns = before ++ ret :: after ∧
      ret.call.request.taskId = .ofInt (toPidT k) ∧
      q.seq + behind before = ret.call.request.seq ∧ r.counters = (kernel q).counters := by
  obtain ⟨cycle, c₀, -, -, hstep⟩ := Collector.last_of_run hrun hr
  have hlog := Collector.log_of_run hrun
  obtain ⟨-, before, ret, after, hreturns, hentry⟩ := Collector.entry_of_step hstep hlog hr
  obtain ⟨q, hlag, -, hcounters⟩ := hentry.reported (hlog.settled _ ret after hreturns) fun r' hr' =>
    htruth r' (by rw [List.mem_singleton.1 hr', hreturns]; simp)
  refine ⟨_, ret, after, q, hreturns, ?_, hlag, hcounters⟩
  rw [hentry.asked, hentry.taskId]

/-- With a kernel that answers in time, an entry that a cycle left has the counters the kernel
answered to the entry's own request. -/
theorem ownEntry_of_run (hinTime : ∀ cycle ∈ cycles, InTime cycle) {cycle : SystemCycle}
    {c₀ : Collector} (hstep : c₀.step cycle = some c) {k : UInt64} {r : TaskIoInfo}
    (hr : c.monitor.table.lookup k = some r) :
    ∃ before ret after, c.socket.returns = c₀.socket.returns ++ before ++ ret :: after ∧
      Entry cycle (c₀.socket.returns ++ before) ret k r ∧
      ret.call.request.taskId = .ofInt (toPidT k) ∧
      r.counters = (kernel ret.call.request).counters := by
  have hlog := Collector.log_of_run hrun
  obtain ⟨-, before, ret, after, hreturns, hentry⟩ := Collector.entry_of_step hstep hlog hr
  obtain ⟨q, -, hown, hcounters⟩ := hentry.reported (hlog.settled _ ret after hreturns) fun r' hr' =>
    htruth r' (by rw [List.mem_singleton.1 hr', hreturns]; simp)
  -- nobody is ever behind
  have hnone : behind (c₀.socket.returns ++ before) = 0 := by
    obtain ⟨cs, es, -, -, hsees⟩ := Collector.refines hrun
    refine behind_eq_zero_iff.2 fun r' hr' => hsees.not_missed hinTime r' ?_
    rw [hreturns]
    exact List.mem_append_left _ hr'
  obtain rfl := hown.2 hnone
  refine ⟨before, ret, after, hreturns, hentry, ?_, hcounters⟩
  rw [hentry.asked, hentry.taskId]

/-- **With a kernel that answers in time, the counters are the task's own**, and were
sampled in the last cycle. -/
theorem ownCounters_of_run (hinTime : ∀ cycle ∈ cycles, InTime cycle) {k : UInt64} {r : TaskIoInfo}
    (hr : c.monitor.table.lookup k = some r) :
    ∃ (cycle : SystemCycle) (c₀ : Collector) (q : Request), cycle ∈ cycles.getLast? ∧
      Collector.run netlinkIoObj cycles.dropLast = some c₀ ∧ Util.Listed cycle.proc k ∧
      (∃ ret ∈ c.socket.returns.drop c₀.socket.returns.length, ret.call.request = q) ∧
      q.taskId = .ofInt (toPidT k) ∧ r.counters = (kernel q).counters := by
  obtain ⟨cycle, c₀, hcycle, hbefore, hstep⟩ := Collector.last_of_run hrun hr
  obtain ⟨before, ret, after, hreturns, hentry, htask, hcounters⟩ :=
    ownEntry_of_run hrun htruth hinTime hstep hr
  refine ⟨cycle, c₀, _, hcycle, hbefore, hentry.listed, ⟨ret, ?_, rfl⟩, htask, hcounters⟩
  rw [hreturns, List.append_assoc, List.drop_left]
  simp

end

/-- A cycle in which `/proc` lists task 7, and the kernel answers for it in time. -/
def oneTask : SystemCycle where
  collectTmNs := 1000000000
  proc := some [⟨⟨Util.dtDir, ascii "7", by decide⟩, fun _ => some []⟩]
  events := fun _ => {
    ioPrio := 0
    scheduler := 0
    nice := 0
    early := []
    sendto := [⟨32, 0⟩]
    late := [readAPage.reply]
    fuel := 60
    passwd := fun _ => none
    shortOpens := .none
    fullOpens := .none }

theorem exists_run_oneTask : ∃ c ∈ Collector.run {} [oneTask],
    (c.monitor.table.lookup 7).isSome ∧ ∀ r ∈ c.socket.returns, r.taken.all fun taken =>
      taken.2.repLen = readAPage.reply.repLen ∧ taken.2.msg.bytes = readAPage.reply.msg.bytes := by
  decide +kernel

theorem asked_of_run_oneTask : ∃ c, Collector.run {} [oneTask, oneTask] = some c ∧
    c.socket.returns.map (fun ret => ret.call.request.taskId)
      = [oneTask, oneTask].flatMap (fun cycle => cycle.listed.map fun id => .ofInt (toPidT id)) := by
  have hruns : (Collector.run {} [oneTask, oneTask]).isSome = true := by decide +kernel
  obtain ⟨c, hrun⟩ := Option.isSome_iff_exists.1 hruns
  obtain ⟨-, -, -, -, -, hasked, -⟩ := asked_of_run hrun
  exact ⟨c, hrun, hasked⟩

theorem entry_of_run_oneTask : ∃ c ∈ Collector.run {} [oneTask],
    ∃ r ∈ c.monitor.table.lookup 7, ∃ cycle before ret, Entry cycle before ret 7 r := by
  obtain ⟨c, hrun, htable, -⟩ := exists_run_oneTask
  obtain ⟨r, hr⟩ := Option.isSome_iff_exists.1 htable
  obtain ⟨cycle, c₀, before, ret, -, -, -, -, -, hentry⟩ := entry_of_run hrun hr
  exact ⟨c, hrun, r, hr, cycle, _, ret, hentry⟩

theorem counters_of_run_oneTask : ∃ c ∈ Collector.run {} [oneTask],
    ∃ r ∈ c.monitor.table.lookup 7, r.counters = readAPage.stats.counters := by
  obtain ⟨c, hrun, htable, htaken⟩ := exists_run_oneTask
  obtain ⟨r, hr⟩ := Option.isSome_iff_exists.1 htable
  obtain ⟨-, -, -, -, -, -, -, hcounters⟩ := counters_of_run hrun (truthful_of_all htaken) hr
  exact ⟨c, hrun, r, hr, hcounters⟩

theorem ownCounters_of_run_oneTask : ∃ c ∈ Collector.run {} [oneTask],
    ∃ r ∈ c.monitor.table.lookup 7, ∃ q : Request, q.taskId = .ofInt (toPidT 7) ∧
      r.counters = readAPage.stats.counters := by
  obtain ⟨c, hrun, htable, htaken⟩ := exists_run_oneTask
  obtain ⟨r, hr⟩ := Option.isSome_iff_exists.1 htable
  have hinTime : ∀ cycle ∈ [oneTask], InTime cycle := by
    intro cycle hcycle n
    rw [List.mem_singleton.1 hcycle]
    exact List.cons_ne_nil _ _
  obtain ⟨-, -, q, -, -, -, -, htask, hcounters⟩ :=
    ownCounters_of_run hrun (truthful_of_all htaken) hinTime hr
  exact ⟨c, hrun, r, hr, q, htask, hcounters⟩

end IotopCpp
