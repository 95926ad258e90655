import IotopCpp.Monitor.Answers
import IotopCpp.Monitor.TaskTable
import IotopCpp.Netlink.Lag
import IotopCpp.Netlink.Sending
import IotopCpp.Util.TaskIds

/-!
# The collector on its socket

`IoMonitor` together with the `netlink_io_obj_` it holds.  A cycle lists `/proc`, and for
every task listed sends a request, receives into the buffer and decodes the bytes found
there, all on one socket that outlives the cycle.

What the system does is the input: what `/proc` holds, what each `sendto` returns, when
replies reach the socket and what bytes they are.  The answers that `IoMonitor.collectTimed`
is given are not part of it: they come out of the socket.

## Main definitions

* `TaskEvents`, `SystemCycle` — what the system does.
* `NetlinkIoStats.getTaskIoInfo` — a query over the socket.
* `Collector.collectTimed`, `Collector.run` — a cycle, and cycles one after another.
* `Answered`, `Sees` — the cycle that the collector sees in what the system does.

## Main results

* `Collector.collectTimed_refines` — **a cycle on the socket is a cycle** of the collector
  over answers, and its queries are the returns of the socket, one for one.
* `Collector.refines` — so is a run.
-/

namespace IotopCpp

open Netlink Runs LittleEndian

/-! ### What the system does -/

/-- What happens while one record is filled: the answers to the system calls, in the order
in which they are made, and what reaches the socket meanwhile. -/
structure TaskEvents where
  ioPrio : ℤ
  scheduler : ℤ
  nice : ℤ
  /-- The replies that reach the socket before the request is sent, and after it. -/
  early : List Reply
  sendto : List SendtoResult
  late : List Reply
  /-- A bound on the loops of the decoder. -/
  fuel : ℕ
  passwd : ℤ → Option Bytes
  shortOpens : Util.FileOpens
  fullOpens : Util.FileOpens

/-- The answers to a call, with what its query came to. -/
def TaskEvents.answers (e : TaskEvents) (taskstats : QueryResult) : TaskAnswers where
  ioPrio := e.ioPrio
  scheduler := e.scheduler
  nice := e.nice
  taskstats := taskstats
  passwd := e.passwd
  shortOpens := e.shortOpens
  fullOpens := e.fullOpens

/-- The time read at the start of a cycle, what `/proc` holds, and what happens during the
`n`-th call of `handle_every_task_io_info`, counted from the start of the program. -/
structure SystemCycle where
  collectTmNs : UInt64
  proc : Option (List Util.ProcEntry)
  events : ℕ → TaskEvents

/-! ### The functions -/

/-- What happens on the socket during `NetlinkIoStats::get_task_io_info`: one that failed
to send does not receive. -/
def TaskEvents.onSocket (e : TaskEvents) (taskId : UInt64) (res : ℤ) (ioStats : TaskIoInfo) :
    List Event :=
  e.early.map .arrive ++
    .call taskId res ioStats :: if res < 0 then [] else e.late.map .arrive ++ [.recv e.fuel]

/-- `NetlinkIoStats::get_task_io_info`: the socket it leaves, and its return. -/
def Netlink.NetlinkIoStats.getTaskIoInfo (st : NetlinkIoStats) (socket : Socket) (taskId : UInt64)
    (e : TaskEvents) (ioStats : TaskIoInfo) : Option (Socket × Return) := do
  let res ← sendNetlinkCmd (.ofInt st.netlinkFamilyId) taskId.toUInt32 taskstatsCmdGet
    taskstatsCmdAttrPid (natLE 8 taskId.toNat) e.sendto
  let socket ← runFrom Socket.step socket (e.onSocket taskId res ioStats)
  let ret ← socket.returns.getLast?
  some (socket, ret)

/-- `class IoMonitor`, and what is behind the `sock_fd_` of its `netlink_io_obj_`. -/
structure Collector where
  netlinkIoObj : NetlinkIoStats
  socket : Socket := {}
  monitor : IoMonitor := {}

namespace Collector

/-- `IoMonitor::handle_every_task_io_info`.  The id goes to the query as a `pid_t`. -/
def handleEveryTaskIoInfo (c : Collector) (e : TaskEvents) (r : TaskIoInfo)
    (collectTmNs : UInt64) : Option (Collector × TaskIoInfo) := do
  let prio := Util.getTaskIoPriority e.ioPrio e.scheduler e.nice
  let r := { r with ioPriority := if prio < 0 then 0 else prio }
  let origin := r.counters
  let (socket, ret) ← c.netlinkIoObj.getTaskIoInfo c.socket (.ofInt r.taskId) e r
  let c := { c with socket }
  if ret.code < 0 then some (c, ret.ioStats)
  else do
    -- the names do not depend on what the query came to
    let r ← fillNames (e.answers (.answered none))
      (fillPeriods c.monitor.originCollectTimestampNs collectTmNs origin ret.ioStats)
    some (c, r)

/-- The body of the loop over the threads of a process. -/
def threadStep (cycle : SystemCycle) (c : Collector) (tid : UInt64) : Option Collector := do
  let (c, threadIoInfo) ← c.handleEveryTaskIoInfo (cycle.events c.socket.returns.length)
    { taskId := toPidT tid, isPid := false } cycle.collectTmNs
  some { c with monitor := c.monitor.emplace tid threadIoInfo }

/-- The body of the loop over the processes. -/
def processStep (cycle : SystemCycle) (c : Collector) (taskId : UInt64 × List UInt64) :
    Option Collector := do
  let (c, processIoInfo) ← c.handleEveryTaskIoInfo (cycle.events c.socket.returns.length)
    { taskId := toPidT taskId.1, isPid := true } cycle.collectTmNs
  let c := { c with monitor := (c.monitor.emplace taskId.1 processIoInfo).addRates processIoInfo }
  taskId.2.foldlM (threadStep cycle) c

/-- `IoMonitor::get_task_io_info`. -/
def getTaskIoInfo (c : Collector) (cycle : SystemCycle) : Option Collector :=
  (Util.getAllTaskId false cycle.proc).foldlM (processStep cycle) c

/-- `IoMonitor::collect_timed`: the value returned, and the members it leaves. -/
def collectTimed (c : Collector) (cycle : SystemCycle) : Option (ℤ × Collector) := do
  let c := { c with monitor := c.monitor.setTaskStateOverdue }
  let c := { c with
    monitor.ioStats.currDiskReadBS := 0
    monitor.ioStats.currDiskWriteBS := 0 }
  let c ← c.getTaskIoInfo cycle
  let c := { c with monitor.originCollectTimestampNs := cycle.collectTmNs }
  some (0, { c with monitor := c.monitor.removeOverdueTask })

/-- A cycle, for its effect. -/
def step (c : Collector) (cycle : SystemCycle) : Option Collector :=
  (c.collectTimed cycle).map Prod.snd

/-- Cycles one after another, on the socket that `init` left. -/
def run (netlinkIoObj : NetlinkIoStats) (cycles : List SystemCycle) : Option Collector :=
  runFrom step { netlinkIoObj } cycles

end Collector

/-! ### One call -/

/-- Replies that arrive are for the calls to take. -/
theorem Netlink.Socket.run_arrivals {s s' : Socket} {replies : List Reply}
    (h : runFrom Socket.step s (replies.map .arrive) = some s') :
    s'.call = s.call ∧ s'.returns = s.returns := by
  induction replies generalizing s with
  | nil =>
    obtain rfl := Option.some.inj h
    exact ⟨rfl, rfl⟩
  | cons reply replies ih =>
    obtain ⟨s₁, hstep, hrest⟩ := runFrom_cons.1 h
    obtain ⟨channel, -, rfl⟩ := Socket.step_arrive hstep
    obtain ⟨hcall, hreturns⟩ := ih hrest
    exact ⟨hcall, hreturns⟩

/-- After an arrival there is an answer to take. -/
theorem Netlink.Socket.take_run_arrivals {s s' : Socket} {replies : List Reply}
    (h : runFrom Socket.step s (replies.map .arrive) = some s') (hreplies : replies ≠ []) :
    s'.channel.take ≠ none := by
  rcases List.eq_nil_or_concat' replies with rfl | ⟨replies, reply, rfl⟩
  · exact absurd rfl hreplies
  · rw [List.map_append] at h
    obtain ⟨s₁, -, hlast⟩ := runFrom_concat.1 h
    obtain ⟨channel, harrive, rfl⟩ := Socket.step_arrive hlast
    exact Fifo.take_arrive harrive

/-- A call that returns has returned what the decoder made of what it took. -/
theorem Netlink.Socket.finish_returns {s s' : Socket} {c : Call} {fuel : ℕ}
    {taken : Option (Request × Reply)} {ret : Return} (h : s.finish c fuel taken = some s')
    (hlast : s'.returns.getLast? = some ret) :
    s'.returns = s.returns ++ [ret] ∧ ret.call = c ∧ ret.taken = taken ∧
      ∃ q : QueryResult, q.apply c.ioStats = (ret.code, ret.ioStats) := by
  obtain ⟨code, ioStats, hr, rfl⟩ := Socket.finish_eq_some h
  obtain rfl : (⟨c, taken, code, ioStats⟩ : Return) = ret := by simpa using hlast
  exact ⟨rfl, rfl, rfl, getTaskIoInfo_queryResult hr⟩

/-- **A query over the socket** has one return, which is this call's, and which is zero only
where the kernel was asked for the task. -/
theorem Netlink.NetlinkIoStats.getTaskIoInfo_eq_some {st : NetlinkIoStats} {socket socket' : Socket}
    {taskId : UInt64} {e : TaskEvents} {ioStats : TaskIoInfo} {ret : Return}
    (h : st.getTaskIoInfo socket taskId e ioStats = some (socket', ret)) :
    (∃ es, runFrom Socket.step socket es = some socket') ∧
      socket'.returns = socket.returns ++ [ret] ∧ ret.call.request.taskId = taskId ∧
      ret.call.ioStats = ioStats ∧ (e.late ≠ [] → ret.missed = false) ∧
      (ret.code = 0 → ∃ bytes, st.sent taskId e.sendto = some bytes ∧
        Requests st.netlinkFamilyId taskId.toNat bytes) ∧
      ∃ q : QueryResult, q.apply ioStats = (ret.code, ret.ioStats) := by
  simp only [NetlinkIoStats.getTaskIoInfo, Option.bind_eq_bind, Option.bind_eq_some_iff] at h
  obtain ⟨res, hsend, s, hrun, ret', hlast, h⟩ := h
  obtain ⟨rfl, rfl⟩ := Prod.mk.inj (Option.some.inj h)
  refine ⟨⟨_, hrun⟩, ?_⟩
  rw [TaskEvents.onSocket, runFrom_append, Option.bind_eq_some_iff] at hrun
  obtain ⟨s₁, hearly, hrun⟩ := hrun
  obtain ⟨s₂, hcall, hrest⟩ := runFrom_cons.1 hrun
  have hreturns := (Socket.run_arrivals hearly).2
  obtain ⟨-, ⟨hres, hfail⟩ | ⟨hres, rfl⟩⟩ := Socket.step_call hcall
  · -- the request was not sent: the call returns at once, and takes nothing
    rw [if_pos hres] at hrest
    obtain rfl := Option.some.inj hrest
    obtain ⟨hret, hc, -, hq⟩ := Socket.finish_returns hfail hlast
    rw [hreturns] at hret
    refine ⟨hret, by rw [hc], by rw [hc], ?_, ?_, hq⟩
    · intro _
      rw [Return.missed, hc, decide_eq_false (not_le.2 hres), Bool.false_and]
    · intro hzero
      obtain ⟨code, ioStats', hr, rfl⟩ := Socket.finish_eq_some hfail
      obtain rfl := by simpa using hlast
      exact absurd hzero (code_ne_zero_of_failed hr)
  · -- it was sent whole, so what the kernel accepted is the request
    rw [if_neg (not_lt.2 hres)] at hrest
    obtain ⟨hneg, -⟩ | ⟨rfl, -⟩ := sendNetlinkCmd_cases (by rw [length_natLE]; decide) hsend
    · omega
    have hrequests := requests_of_zero hsend
    obtain ⟨s₃, hlate, hrecv⟩ := runFrom_concat.1 hrest
    obtain ⟨hcall₃, hreturns₃⟩ := Socket.run_arrivals hlate
    obtain ⟨c, hc, ⟨hempty, hfinish⟩ | ⟨taken, channel, -, hfinish⟩⟩ := Socket.step_recv hrecv
    -- an answer is taken or missed, and either way the call in progress returns
    all_goals
      obtain rfl := Option.some.inj (hcall₃.symm.trans hc)
      obtain ⟨hret, hc', htaken, hq⟩ := Socket.finish_returns hfinish hlast
      rw [show _ = s₁.returns from hreturns₃, hreturns] at hret
      refine ⟨hret, by rw [hc'], by rw [hc'], fun hinTime => ?_, fun _ => hrequests, hq⟩
    · exact absurd hempty (Socket.take_run_arrivals hlate hinTime)
    · rw [Return.missed, htaken, Option.isNone_some, Bool.and_false]

/-! ### What the collector sees -/

/-- The return `ret` is the one of the query `q`, made while `e` happened: for the same id
and with the same record, so that what the query was answered is what the call returned. -/
structure Answered (st : NetlinkIoStats) (e : TaskEvents) (q : Query) (ret : Return) : Prop where
  taskId : ret.call.request.taskId = .ofInt (toPidT q.id)
  record : ret.call.ioStats = queriedRecord q.answers { taskId := toPidT q.id, isPid := q.isPid }
  answers : q.answers = e.answers q.answers.taskstats
  taskstats : q.answers.taskstats.apply ret.call.ioStats = (ret.code, ret.ioStats)
  inTime : e.late ≠ [] → ret.missed = false
  requests : ret.code = 0 → ∃ bytes, st.sent (.ofInt (toPidT q.id)) e.sendto = some bytes ∧
    Requests st.netlinkFamilyId (UInt64.ofInt (toPidT q.id)).toNat bytes

/-- The cycle `c` is what the collector sees in `cycle`, when the socket has returned `n`
times before, and its returns during the cycle are `rets`. -/
structure Sees (st : NetlinkIoStats) (n : ℕ) (cycle : SystemCycle) (c : Cycle) (rets : List Return) : Prop where
  time : c.collectTmNs = cycle.collectTmNs
  tasks : c.taskIds.map (fun p => (p.pid, p.threads.map Thread.tid))
    = Util.getAllTaskId false cycle.proc
  answered : List.Forall₂ (fun q (ret : Return × ℕ) => Answered st (cycle.events ret.2) q ret.1)
    c.queries (rets.zipIdx n)

/-- The socket went from `c` to `c'` by the queries `qs`, with the returns `rets`. -/
structure Collector.Asks (cycle : SystemCycle) (c c' : Collector) (qs : List Query)
    (rets : List Return) : Prop where
  netlinkIoObj : c'.netlinkIoObj = c.netlinkIoObj
  events : ∃ es, runFrom Socket.step c.socket es = some c'.socket
  returns : c'.socket.returns = c.socket.returns ++ rets
  answered : List.Forall₂
    (fun q (ret : Return × ℕ) => Answered c.netlinkIoObj (cycle.events ret.2) q ret.1)
    qs (rets.zipIdx c.socket.returns.length)

namespace Collector

variable {cycle : SystemCycle} {c c' c'' : Collector} {qs qs' : List Query}
  {rets rets' : List Return}

theorem Asks.refl (cycle : SystemCycle) (c : Collector) : Asks cycle c c [] [] where
  netlinkIoObj := rfl
  events := ⟨[], rfl⟩
  returns := (List.append_nil _).symm
  answered := .nil

/-- What is done with the monitor between two runs of queries does not touch the socket. -/
theorem Asks.trans {c₁ : Collector} (h : Asks cycle c c' qs rets) (h' : Asks cycle c₁ c'' qs' rets')
    (hnetlink : c₁.netlinkIoObj = c'.netlinkIoObj) (hsocket : c₁.socket = c'.socket) :
    Asks cycle c c'' (qs ++ qs') (rets ++ rets') := by
  have hreturns' := h'.returns
  have hanswered' := h'.answered
  rw [hsocket, h.returns] at hreturns' hanswered'
  rw [hnetlink, h.netlinkIoObj] at hanswered'
  refine ⟨(h'.netlinkIoObj.trans hnetlink).trans h.netlinkIoObj, ?_, ?_, ?_⟩
  · obtain ⟨es, hes⟩ := h.events
    obtain ⟨es', hes'⟩ := h'.events
    rw [hsocket] at hes'
    exact ⟨es ++ es', by rw [runFrom_append, hes, Option.bind_some, hes']⟩
  · rw [hreturns', List.append_assoc]
  · rw [List.zipIdx_append]
    refine List.rel_append h.answered ?_
    rwa [List.length_append] at hanswered'

/-- A call on the socket: the query, and what is done with its return. -/
theorem handleEveryTaskIoInfo_eq (c : Collector) (e : TaskEvents) (r : TaskIoInfo)
    (collectTmNs : UInt64) :
    c.handleEveryTaskIoInfo e r collectTmNs
      = (c.netlinkIoObj.getTaskIoInfo c.socket (.ofInt r.taskId) e
          (queriedRecord (e.answers (.answered none)) r)).bind fun out =>
        if out.2.code < 0 then some ({ c with socket := out.1 }, out.2.ioStats)
        else (fillNames (e.answers (.answered none)) (fillPeriods
            c.monitor.originCollectTimestampNs collectTmNs r.counters out.2.ioStats)).bind
          fun r => some ({ c with socket := out.1 }, r) := rfl

/-- The priority does not depend on what the query came to. -/
theorem queriedRecord_answers (e : TaskEvents) (q q' : QueryResult) (r : TaskIoInfo) :
    queriedRecord (e.answers q) r = queriedRecord (e.answers q') r := rfl

/-- The record of a query, by what the query came to. -/
theorem record_of_apply (originNs collectTmNs id : UInt64) (isPid : Bool) (e : TaskEvents)
    {q : QueryResult} {code : ℤ} {ioStats : TaskIoInfo}
    (hq : q.apply (queriedRecord (e.answers (.answered none)) { taskId := toPidT id, isPid })
      = (code, ioStats)) :
    Query.record originNs collectTmNs ⟨id, isPid, e.answers q⟩
      = if code < 0 then some ioStats
        else fillNames (e.answers (.answered none)) (fillPeriods originNs collectTmNs {} ioStats) := by
  have hunfold : Query.record originNs collectTmNs ⟨id, isPid, e.answers q⟩
      = if (q.apply (queriedRecord (e.answers (.answered none)) { taskId := toPidT id, isPid })).1 < 0
        then some (q.apply (queriedRecord (e.answers (.answered none))
          { taskId := toPidT id, isPid })).2
        else fillNames (e.answers (.answered none)) (fillPeriods originNs collectTmNs {}
          (q.apply (queriedRecord (e.answers (.answered none)) { taskId := toPidT id, isPid })).2) := rfl
  rw [hunfold, hq]

/-- **A call on the socket is a call** of the function that is given its answers. -/
theorem handleEveryTaskIoInfo_refines {id : UInt64} {isPid : Bool} {collectTmNs : UInt64}
    {r : TaskIoInfo}
    (h : c.handleEveryTaskIoInfo (cycle.events c.socket.returns.length)
      { taskId := toPidT id, isPid } collectTmNs = some (c', r)) :
    c'.monitor = c.monitor ∧ ∃ answers ret, Asks cycle c c' [⟨id, isPid, answers⟩] [ret] ∧
      Query.record c.monitor.originCollectTimestampNs collectTmNs ⟨id, isPid, answers⟩
        = some r := by
  generalize he : cycle.events c.socket.returns.length = e at h
  rw [handleEveryTaskIoInfo_eq, Option.bind_eq_some_iff] at h
  obtain ⟨⟨socket, ret⟩, hquery, h⟩ := h
  obtain ⟨hevents, hreturns, htaskId, hioStats, hinTime, hrequests, q, hq⟩ :=
    NetlinkIoStats.getTaskIoInfo_eq_some hquery
  have hasks : Asks cycle c { c with socket } [⟨id, isPid, e.answers q⟩] [ret] := by
    have hanswered : Answered c.netlinkIoObj e ⟨id, isPid, e.answers q⟩ ret := by
      dsimp only at htaskId hrequests
      refine ⟨htaskId, hioStats.trans (queriedRecord_answers e _ q _), rfl, ?_, hinTime, hrequests⟩
      rw [hioStats]
      exact hq
    rw [← he] at hanswered
    refine ⟨rfl, hevents, hreturns, .cons ?_ .nil⟩
    rw [← he]
    exact hanswered
  have hrecord :=
    record_of_apply c.monitor.originCollectTimestampNs collectTmNs id isPid e hq
  simp only at h
  split at h
  · next hneg =>
    obtain ⟨rfl, rfl⟩ := Prod.mk.inj (Option.some.inj h)
    exact ⟨rfl, _, ret, hasks, hrecord.trans (if_pos hneg)⟩
  · next hnonneg =>
    obtain ⟨r', hr', h⟩ := Option.bind_eq_some_iff.1 h
    obtain ⟨rfl, rfl⟩ := Prod.mk.inj (Option.some.inj h)
    exact ⟨rfl, _, ret, hasks, (hrecord.trans (if_neg hnonneg)).trans hr'⟩

/-! ### The loops -/

theorem threads_refine {tids : List UInt64} (h : tids.foldlM (threadStep cycle) c = some c') :
    ∃ (ts : List Thread) (rets : List Return), ts.map Thread.tid = tids ∧
      Asks cycle c c' (ts.map Thread.query) rets ∧
      ts.foldlM (IoMonitor.threadStep cycle.collectTmNs) c.monitor = some c'.monitor := by
  induction tids generalizing c with
  | nil =>
    obtain rfl := Option.some.inj h
    exact ⟨[], [], rfl, .refl cycle c, rfl⟩
  | cons tid tids ih =>
    rw [List.foldlM_cons, Option.bind_eq_bind, Option.bind_eq_some_iff] at h
    obtain ⟨c₁, hstep, hrest⟩ := h
    simp only [threadStep, Option.bind_eq_bind, Option.bind_eq_some_iff] at hstep
    obtain ⟨⟨c₀, r⟩, hcall, hemplace⟩ := hstep
    obtain rfl := Option.some.inj hemplace
    obtain ⟨hmonitor, answers, ret, hasks, hrecord⟩ := handleEveryTaskIoInfo_refines hcall
    -- the thread's own call, then those of the threads that are left
    obtain ⟨ts, rets, rfl, hasks', hfold⟩ := ih hrest
    refine ⟨⟨tid, answers⟩ :: ts, ret :: rets, rfl, hasks.trans hasks' rfl rfl, ?_⟩
    have hthread : IoMonitor.threadStep cycle.collectTmNs c.monitor ⟨tid, answers⟩
        = some (c.monitor.emplace tid r) := by
      rw [Query.record] at hrecord
      rw [IoMonitor.threadStep, hrecord]
      rfl
    rw [List.foldlM_cons, hthread, ← hmonitor]
    exact hfold

theorem processes_refine {taskIds : List (UInt64 × List UInt64)}
    (h : taskIds.foldlM (processStep cycle) c = some c') :
    ∃ (ps : List Process) (rets : List Return),
      ps.map (fun p => (p.pid, p.threads.map Thread.tid)) = taskIds ∧
      Asks cycle c c' (ps.flatMap Process.queries) rets ∧
      ps.foldlM (IoMonitor.processStep cycle.collectTmNs) c.monitor = some c'.monitor := by
  induction taskIds generalizing c with
  | nil =>
    obtain rfl := Option.some.inj h
    exact ⟨[], [], rfl, .refl cycle c, rfl⟩
  | cons taskId taskIds ih =>
    rw [List.foldlM_cons, Option.bind_eq_bind, Option.bind_eq_some_iff] at h
    obtain ⟨c₁, hstep, hrest⟩ := h
    simp only [processStep, Option.bind_eq_bind, Option.bind_eq_some_iff] at hstep
    obtain ⟨⟨c₀, r⟩, hcall, hthreads⟩ := hstep
    obtain ⟨hmonitor, answers, ret, hasks, hrecord⟩ := handleEveryTaskIoInfo_refines hcall
    -- the process's own call, those of its threads, and those of the processes that are left
    obtain ⟨ts, rets, hts, hasks', hfold⟩ := threads_refine hthreads
    obtain ⟨ps, rets', rfl, hasks'', hfold'⟩ := ih hrest
    refine ⟨⟨taskId.1, answers, ts⟩ :: ps, (ret :: rets) ++ rets', ?_, ?_, ?_⟩
    · rw [List.map_cons, hts]
    · exact (hasks.trans hasks' rfl rfl).trans hasks'' rfl rfl
    · have hprocess : IoMonitor.processStep cycle.collectTmNs c.monitor ⟨taskId.1, answers, ts⟩
          = some c₁.monitor := by
        rw [Query.record] at hrecord
        rw [IoMonitor.processStep, hrecord, Option.bind_eq_bind, Option.bind_some, ← hmonitor]
        exact hfold
      rw [List.foldlM_cons, hprocess]
      exact hfold'

/-! ### Cycles and runs -/

/-- **A cycle on the socket is a cycle** over the answers that come out of it. -/
theorem collectTimed_refines {ret : ℤ} (h : c.collectTimed cycle = some (ret, c')) :
    ret = 0 ∧ ∃ (abs : Cycle) (rets : List Return), c.monitor.collectTimed abs = some c'.monitor ∧
      Sees c.netlinkIoObj c.socket.returns.length cycle abs rets ∧ Asks cycle c c' abs.queries rets := by
  simp only [collectTimed, Option.bind_eq_bind, Option.bind_eq_some_iff] at h
  obtain ⟨c₁, hloop, h⟩ := h
  obtain ⟨rfl, rfl⟩ := Prod.mk.inj (Option.some.inj h)
  obtain ⟨ps, rets, htasks, hasks, hfold⟩ := processes_refine hloop
  refine ⟨rfl, ⟨cycle.collectTmNs, ps⟩, rets, ?_, ⟨rfl, htasks, hasks.answered⟩, ?_⟩
  · simp only [IoMonitor.collectTimed, IoMonitor.getTaskIoInfo, Option.bind_eq_bind]
    rw [show ps.foldlM _ _ = some c₁.monitor from hfold]
    rfl
  · exact ⟨hasks.netlinkIoObj, hasks.events, hasks.returns, hasks.answered⟩

theorem step_refines (h : c.step cycle = some c') :
    ∃ (abs : Cycle) (rets : List Return), c.monitor.collectTimed abs = some c'.monitor ∧
      Sees c.netlinkIoObj c.socket.returns.length cycle abs rets ∧ Asks cycle c c' abs.queries rets := by
  obtain ⟨⟨ret, c₁⟩, hcycle, rfl⟩ := Option.map_eq_some_iff.1 h
  exact (collectTimed_refines hcycle).2

end Collector

/-- No cycle changes the socket's members. -/
theorem Collector.netlinkIoObj_of_run {netlinkIoObj : NetlinkIoStats} {cycles : List SystemCycle}
    {c : Collector} (hrun : Collector.run netlinkIoObj cycles = some c) :
    c.netlinkIoObj = netlinkIoObj := by
  refine Runs.invariant (fun c : Collector => c.netlinkIoObj = netlinkIoObj) ?_ rfl hrun
  intro c cycle c' hinv hstep
  obtain ⟨abs, rets, -, -, hasks⟩ := Collector.step_refines hstep
  rw [hasks.netlinkIoObj, hinv]

/-- The cycles `cs` are what the collector sees in `cycles`, when the socket's returns, from
the start of the program, are `rets`. -/
inductive SeesAll (st : NetlinkIoStats) : List SystemCycle → List Cycle → List Return → Prop
  | nil : SeesAll st [] [] []
  | concat {cycles : List SystemCycle} {cs : List Cycle} {rets : List Return}
      {cycle : SystemCycle} {c : Cycle} {rets' : List Return} :
    SeesAll st cycles cs rets → Sees st rets.length cycle c rets' →
    SeesAll st (cycles ++ [cycle]) (cs ++ [c]) (rets ++ rets')

/-- A run, cycle by cycle. -/
theorem Collector.refines {netlinkIoObj : NetlinkIoStats} {cycles : List SystemCycle}
    {c : Collector} (hrun : Collector.run netlinkIoObj cycles = some c) :
    ∃ (cs : List Cycle) (es : List Event), IotopCpp.run cs = some c.monitor ∧
      runFrom Socket.step {} es = some c.socket ∧ SeesAll netlinkIoObj cycles cs c.socket.returns := by
  induction cycles using List.reverseRecOn generalizing c with
  | nil =>
    obtain rfl := Option.some.inj hrun
    exact ⟨[], [], rfl, rfl, .nil⟩
  | append_singleton cycles cycle ih =>
    obtain ⟨c₀, hbefore, hstep⟩ := runFrom_concat.1 hrun
    obtain ⟨cs, es, hmonitor, hsocket, hsees⟩ := ih hbefore
    obtain ⟨abs, rets, hcycle, hsees', hasks⟩ := Collector.step_refines hstep
    obtain ⟨es', hes'⟩ := hasks.events
    rw [Collector.netlinkIoObj_of_run hbefore] at hsees'
    refine ⟨cs ++ [abs], es ++ es', runFrom_concat.2 ⟨_, hmonitor, hcycle⟩, ?_, ?_⟩
    · rw [runFrom_append, hsocket, Option.bind_some, hes']
    · rw [hasks.returns]
      exact hsees.concat hsees'

end IotopCpp
