import IotopCpp.Monitor.Provenance
import IotopCpp.View.Rows

/-!
# The program

`main` of `main.cpp` and `IoRunner` of `iotop.cpp`: the socket is opened, and then the loop
collects, draws what was collected, and sleeps.  The loop does not end, so it is a run over
the iterations so far; what it has drawn is kept beside it.

## Main definitions

* `IoRunner.init`, `IoRunner.iterate`, `main` — the program.
* `LoopOrder` — the order in which the rows are drawn, of which nothing is known.
* `Drawn` — a frame, with the tasks it shows and where they come from.

## Main results

* `IoRunner.drawn_of_run` — **every iteration draws one frame**, the rows of a frame are of
  tasks that were listed and answered for in its own iteration, and no task is on two frames
  running.
* `main_cases`, `main_draws` — what `main` does.
-/

namespace IotopCpp

open Netlink Runs ViewCurses

/-! ### The functions -/

/-- `IoMonitor::init`. -/
def Collector.init (o : InitAnswers) (c : Collector) : Option (ℤ × Collector) := do
  let (res, netlinkIoObj) ← Netlink.init o c.netlinkIoObj
  let c := { c with netlinkIoObj }
  if res < 0 then some (-1, c) else some (0, c)

/-- `ViewCurses::init`. -/
def ViewCurses.init : ℤ := 0

/-- The order in which a loop goes through an `unordered_map`: it comes to every entry, and
nothing else is known of it. -/
structure LoopOrder where
  ordered : Table UInt64 TaskIoInfo → Table UInt64 TaskIoInfo
  perm : ∀ table, (ordered table).entries.Perm table.entries

/-- The order in which the entries are kept. -/
def LoopOrder.kept : LoopOrder where
  ordered := id
  perm := fun table => .refl table.entries

/-- What happens during an iteration of the loop: while the tasks are collected, and when they
are drawn, the size of the window and the order in which the table is gone through. -/
structure Iteration where
  cycle : SystemCycle
  maxYx : ℤ × ℤ
  order : LoopOrder

/-- The statistics as `draw_data` goes through them. -/
def Iteration.inOrder (i : Iteration) (sysIoInfo : SystemIoInfo) : SystemIoInfo :=
  { sysIoInfo with taskIoStatsTable := i.order.ordered sysIoInfo.taskIoStatsTable }

/-- `class IoRunner`, with the frames it has drawn, which the terminal has seen and the
program does not keep. -/
structure IoRunner where
  ioMonitor : Collector
  frames : List (List Printed) := []

namespace IoRunner

/-- `IoRunner::init`. -/
def init (o : InitAnswers) (r : IoRunner) : Option (ℤ × IoRunner) := do
  let (res, ioMonitor) ← r.ioMonitor.init o
  let r := { r with ioMonitor }
  if res < 0 then some (-1, r)
  else if ViewCurses.init < 0 then some (-2, r)
  else some (0, r)

/-- The body of the loop of `IoRunner::run`. -/
def iterate (r : IoRunner) (i : Iteration) : Option IoRunner := do
  let (res, ioMonitor) ← r.ioMonitor.collectTimed i.cycle
  let r := { r with ioMonitor }
  if res < 0 then some r
  else some { r with
    frames := r.frames ++ [drawData i.maxYx (i.inOrder ioMonitor.monitor.ioStats)] }

end IoRunner

/-- `main`: the value it returns, or the runner it is running. -/
def main (o : InitAnswers) (is : List Iteration) : Option (ℤ ⊕ IoRunner) := do
  let (res, r) ← IoRunner.init o { ioMonitor := { netlinkIoObj := {} } }
  if res < 0 then some (.inl (-1))
  else (runFrom IoRunner.iterate r is).map .inr

/-! ### One iteration -/

/-- Collecting always succeeds, so an iteration always draws. -/
theorem IoRunner.iterate_eq_some {r r' : IoRunner} {i : Iteration} (h : r.iterate i = some r') :
    r.ioMonitor.step i.cycle = some r'.ioMonitor ∧
      r'.frames = r.frames ++ [drawData i.maxYx (i.inOrder r'.ioMonitor.monitor.ioStats)] := by
  simp only [iterate, Option.bind_eq_bind, Option.bind_eq_some_iff] at h
  obtain ⟨⟨res, c⟩, hcycle, h⟩ := h
  obtain ⟨rfl, -⟩ := Collector.collectTimed_refines hcycle
  obtain rfl := Option.some.inj h
  exact ⟨Option.map_eq_some_iff.2 ⟨_, hcycle, rfl⟩, rfl⟩

/-- The loop collects as cycles on the socket do. -/
theorem IoRunner.collector_of_run {netlinkIoObj : NetlinkIoStats} {is : List Iteration}
    {r : IoRunner} (hrun : runFrom IoRunner.iterate { ioMonitor := { netlinkIoObj } } is = some r) :
    Collector.run netlinkIoObj (is.map Iteration.cycle) = some r.ioMonitor := by
  induction is using List.reverseRecOn generalizing r with
  | nil =>
    obtain rfl := Option.some.inj hrun
    rfl
  | append_singleton is i ih =>
    obtain ⟨r₀, hbefore, hstep⟩ := runFrom_concat.1 hrun
    rw [List.map_append, List.map_singleton]
    exact runFrom_concat.2 ⟨r₀.ioMonitor, ih hbefore, (IoRunner.iterate_eq_some hstep).1⟩

/-! ### What is on a frame -/

/-- The entries of a table that the window of an iteration has lines for, from the third line
down. -/
def shownEntries (i : Iteration) (taskIoInfos : Table UInt64 TaskIoInfo) :
    List (Σ _ : UInt64, TaskIoInfo) :=
  (i.order.ordered taskIoInfos).entries.take (i.maxYx.1 - 1).toNat

theorem drawData_eq {maxYx : ℤ × ℤ} (hlow : 1 ≤ maxYx.1) (hhigh : maxYx.1 < 2 ^ 31)
    (sysIoInfo : SystemIoInfo) :
    drawData maxYx sysIoInfo
      = printHeader sysIoInfo.currDiskReadBS sysIoInfo.currDiskWriteBS
        :: printAt 1 0 (some bodyFirstLine)
        :: ((sysIoInfo.taskIoStatsTable.entries.take (maxYx.1 - 1).toNat).zipIdx 2).map
            fun row => taskRow row.2 row.1.2 := by
  obtain ⟨h, hh⟩ := Int.eq_ofNat_of_zero_le (show 0 ≤ maxYx.1 by omega)
  have hroom : (maxYx.1 - 1).toNat = h - 1 := by omega
  rw [drawData, printBody_eq hh (by omega) (by omega), hroom]

/-- Whatever the order, what is shown is in the table. -/
theorem mem_shownEntries {i : Iteration} {m : IoMonitor} {e : Σ _ : UInt64, TaskIoInfo}
    (h : e ∈ shownEntries i m.table) : m.table.lookup e.1 = some e.2 :=
  AList.mem_lookup_iff.2 ((i.order.perm m.table).mem_iff.1 (List.mem_of_mem_take h))

/-- A frame, and the tasks in its rows, with the calls that were made before its iteration
and in it.  The frame cannot be built without showing where each of the tasks is from. -/
structure Drawn where
  iteration : Iteration
  /-- What the calls returned before the iteration, and in it. -/
  earlier : List Return
  returns : List Return
  shown : List (Σ _ : UInt64, TaskIoInfo)
  frame : List Printed
  /-- A row for each task, from the third line on. -/
  lines : ∃ readBS writeBS, frame = printHeader readBS writeBS :: printAt 1 0 (some bodyFirstLine)
    :: (shown.zipIdx 2).map fun row => taskRow row.2 row.1.2
  nodup : (shown.map Sigma.fst).Nodup
  /-- The tasks were listed and answered for in this iteration, each by a call of it. -/
  origin : ∀ e ∈ shown, ∃ before ret after, returns = before ++ ret :: after ∧
    Entry iteration.cycle (earlier ++ before) ret e.1 e.2

/-- The frames show no task in common. -/
def Drawn.Disjoint (d d' : Drawn) : Prop := ∀ e ∈ d.shown, ∀ e' ∈ d'.shown, e.1 ≠ e'.1

/-- The calls of the frames, one frame after the other, returned `rets`. -/
inductive Drawn.Returned : List Drawn → List Return → Prop
  | nil : Returned [] []
  | concat {ds : List Drawn} {rets : List Return} {d : Drawn} :
    Returned ds rets → d.earlier = rets → Returned (ds ++ [d]) (rets ++ d.returns)

/-- The entries shown come from calls of the iteration. -/
theorem origin_of_step {i : Iteration} {c c' : Collector} (hstep : c.step i.cycle = some c')
    (hlog : c'.socket.Log) : ∀ e ∈ shownEntries i c'.monitor.table, ∃ before ret after,
      c'.socket.returns.drop c.socket.returns.length = before ++ ret :: after ∧
        Entry i.cycle (c.socket.returns ++ before) ret e.1 e.2 := by
  intro e he
  obtain ⟨-, before, ret, after, hreturns, hentry⟩ :=
    Collector.entry_of_step hstep hlog (mem_shownEntries he)
  refine ⟨before, ret, after, ?_, hentry⟩
  rw [hreturns, List.append_assoc, List.drop_left]

/-- The frame of an iteration. -/
def Drawn.ofStep {i : Iteration} (hlow : 1 ≤ i.maxYx.1) (hhigh : i.maxYx.1 < 2 ^ 31)
    {c c' : Collector} (hstep : c.step i.cycle = some c') (hlog : c'.socket.Log) : Drawn where
  iteration := i
  earlier := c.socket.returns
  returns := c'.socket.returns.drop c.socket.returns.length
  shown := shownEntries i c'.monitor.table
  frame := drawData i.maxYx (i.inOrder c'.monitor.ioStats)
  lines := ⟨_, _, drawData_eq hlow hhigh _⟩
  nodup := (i.order.ordered c'.monitor.table).nodupKeys.sublist (List.take_sublist _ _)
  origin := origin_of_step hstep hlog

/-! ### Over a whole run -/

/-- **What the program shows.**  Every iteration draws one frame; its rows are of tasks that
`/proc` listed and the kernel answered for in that iteration; and no task is on two frames
running. -/
theorem IoRunner.drawn_of_run {netlinkIoObj : NetlinkIoStats} {is : List Iteration}
    (hsize : ∀ i ∈ is, 1 ≤ i.maxYx.1 ∧ i.maxYx.1 < 2 ^ 31) {r : IoRunner}
    (hrun : runFrom IoRunner.iterate { ioMonitor := { netlinkIoObj } } is = some r) :
    ∃ ds : List Drawn, ds.map Drawn.iteration = is ∧ ds.map Drawn.frame = r.frames ∧
      Drawn.Returned ds r.ioMonitor.socket.returns ∧ ds.IsChain Drawn.Disjoint ∧
      ∀ d ∈ ds.getLast?, ∀ e ∈ d.shown, e.1 ∈ r.ioMonitor.monitor.table := by
  induction is using List.reverseRecOn generalizing r with
  | nil =>
    obtain rfl := Option.some.inj hrun
    exact ⟨[], rfl, rfl, .nil, .nil, by simp⟩
  | append_singleton is i ih =>
    have hlog := Collector.log_of_run (IoRunner.collector_of_run hrun)
    obtain ⟨r₀, hbefore, hiterate⟩ := runFrom_concat.1 hrun
    obtain ⟨hstep, hframes⟩ := IoRunner.iterate_eq_some hiterate
    obtain ⟨ds, his, hdrawn, hreturned, hchain, hlast⟩ :=
      ih (fun j hj => hsize j (List.mem_append_left _ hj)) hbefore
    obtain ⟨hlow, hhigh⟩ := hsize i (by simp)
    refine ⟨ds ++ [.ofStep hlow hhigh hstep hlog], ?_, ?_, ?_, ?_, ?_⟩
    · rw [List.map_append, his]
      rfl
    · rw [List.map_append, hdrawn, hframes]
      rfl
    · -- the calls of the iteration come behind those made so far
      obtain ⟨abs, rets, -, -, hasks⟩ := Collector.step_refines hstep
      have hsplit : r.ioMonitor.socket.returns = r₀.ioMonitor.socket.returns
          ++ r.ioMonitor.socket.returns.drop r₀.ioMonitor.socket.returns.length := by
        rw [hasks.returns, List.drop_left]
      rw [hsplit]
      exact hreturned.concat rfl
    · refine List.isChain_append.2 ⟨hchain, .singleton _, ?_⟩
      intro d hd d' hd' e he e' he' heq
      obtain rfl := Option.some.inj hd'
      -- what the last frame showed was in the table, and is not taken again
      obtain ⟨hnew, -⟩ := Collector.entry_of_step hstep hlog (mem_shownEntries he')
      exact hnew (heq ▸ hlast d hd e he)
    · intro d hd e he
      rw [List.getLast?_concat] at hd
      obtain rfl := Option.some.inj hd
      exact AList.lookup_isSome.1 (by rw [mem_shownEntries he]; rfl)

/-- **What `main` does**: it returns -1 where the socket cannot be set up, and otherwise runs
the loop on the socket that was. -/
theorem main_cases {o : InitAnswers} {is : List Iteration} {out : ℤ ⊕ IoRunner}
    (h : main o is = some out) :
    (out = .inl (-1) ∧ ∃ res st, Netlink.init o {} = some (res, st) ∧ res < 0) ∨
      ∃ (fd : ℕ) (netlinkIoObj : NetlinkIoStats) (r : IoRunner), o.socket = some fd ∧
        netlinkIoObj.sockFd = fd ∧ netlinkIoObj.openFds = [fd] ∧
        Netlink.init o {} = some (0, netlinkIoObj) ∧ out = .inr r ∧
        runFrom IoRunner.iterate { ioMonitor := { netlinkIoObj } } is = some r := by
  simp only [main, IoRunner.init, Collector.init, Option.bind_eq_bind, Option.bind_eq_some_iff] at h
  obtain ⟨⟨code, r⟩, ⟨⟨code', c⟩, ⟨⟨res, st⟩, hinit, hcollector⟩, hrunner⟩, h⟩ := h
  by_cases hres : res < 0
  · left
    simp only [if_pos hres, Option.some.injEq, Prod.mk.injEq] at hcollector
    obtain ⟨rfl, rfl⟩ := hcollector
    simp only [if_pos (show (-1 : ℤ) < 0 by decide), Option.some.injEq, Prod.mk.injEq] at hrunner
    obtain ⟨rfl, rfl⟩ := hrunner
    obtain rfl := Option.some.inj h
    exact ⟨rfl, res, st, hinit, hres⟩
  · right
    simp only [if_neg hres, Option.some.injEq, Prod.mk.injEq] at hcollector
    obtain ⟨rfl, rfl⟩ := hcollector
    simp only [lt_irrefl, if_false, ViewCurses.init, Option.some.injEq, Prod.mk.injEq] at hrunner
    obtain ⟨rfl, rfl⟩ := hrunner
    obtain ⟨r, hrun, rfl⟩ := Option.map_eq_some_iff.1 h
    -- of the four ways the set-up ends, only the last does not return a negative value
    rcases init_cases hinit with ⟨-, rfl, -⟩ | ⟨fd, hfd, ⟨-, rfl, -⟩ | ⟨-, -, rfl, -⟩ |
      ⟨-, -, -, family, -, -, hret, hst⟩⟩
    · exact absurd (show (-1 : ℤ) < 0 by decide) hres
    · exact absurd (show (-1 : ℤ) < 0 by decide) hres
    · exact absurd (show (-1 : ℤ) < 0 by decide) hres
    · have hzero : res = 0 := by
        split at hret <;> omega
      rw [hzero] at hinit
      exact ⟨fd, st, r, hfd, by rw [hst], by rw [hst], hinit, rfl, hrun⟩

/-- What a reader of a row has is what the kernel said of a task: rates and percentages of its
counters over the time since the iteration before. -/
structure ViewCurses.RowData.Tells (d : RowData) (k : UInt64) (elapsed : ℕ) (counters : Counters) :
    Prop where
  taskId : d.taskId = toPidT k
  realRead : |d.realRead - rateOf elapsed counters.realRead| ≤ 1 / (2 * 10 ^ 2)
  realWrite : |d.realWrite - rateOf elapsed counters.realWrite| ≤ 1 / (2 * 10 ^ 2)
  swapin : |d.swapin - percentOf elapsed counters.swapinDelay| ≤ 1 / (2 * 10 ^ 2)
  blkio : |d.blkio - percentOf elapsed counters.blkioDelay| ≤ 1 / (2 * 10 ^ 2)

theorem ViewCurses.RowData.Shows.tells {d : RowData} {r : TaskIoInfo} (h : d.Shows r) {elapsed : ℕ}
    {q : Query} (hspec : RecordSpec elapsed q r) {k : UInt64} (hid : r.taskId = toPidT k) :
    d.Tells k elapsed r.counters where
  taskId := h.taskId.trans hid
  realRead := hspec.realRead ▸ h.realRead
  realWrite := hspec.realWrite ▸ h.realWrite
  swapin := hspec.swapinDelay ▸ h.swapin
  blkio := hspec.blkioDelay ▸ h.blkio

/-- The time between an iteration and the one before, as the program takes it. -/
def elapsedBefore (is : List Iteration) (i : Iteration) : ℕ :=
  elapsedNs ((is.getLast?.map fun j => j.cycle.collectTmNs).getD 0) i.cycle.collectTmNs

/-- What the row of an entry says, after the last iteration of a run. -/
theorem tells_of_run {netlinkIoObj : NetlinkIoStats} {is : List Iteration} {i : Iteration}
    {r : IoRunner}
    (hrun : runFrom IoRunner.iterate { ioMonitor := { netlinkIoObj } } (is ++ [i]) = some r)
    (hinTime : ∀ j ∈ is ++ [i], InTime j.cycle) {kernel : Request → Taskstats}
    (htruth : Truthful kernel r.ioMonitor.socket.returns) {k : UInt64} {task : TaskIoInfo}
    (hr : r.ioMonitor.monitor.table.lookup k = some task) (hfits : FitsColumns task) :
    ∃ (data : RowData) (q : Request),
      readRow (bodyText (rowPrio task) (cString task.userName.bytes)
        (cString task.fullCmdline.bytes) task) = some data ∧
      Util.Listed i.cycle.proc k ∧ q.taskId = .ofInt (toPidT k) ∧
      data.Tells k (elapsedBefore is i) (kernel q).counters := by
  have hcollector := IoRunner.collector_of_run hrun
  obtain ⟨r₀, hbefore, hiterate⟩ := runFrom_concat.1 hrun
  obtain ⟨hstep, -⟩ := IoRunner.iterate_eq_some hiterate
  obtain ⟨data, hdata, hshows⟩ := readRow_bodyText hfits
  obtain ⟨before, ret, after, -, hentry, htask, hcounters⟩ :=
    ownEntry_of_run hcollector htruth (List.forall_mem_map.2 hinTime) hstep hr
  obtain ⟨q, hspec⟩ := Collector.spec_of_step hstep hr
  -- the record counts its time from the cycle of the iteration before
  rw [Collector.origin_of_run (IoRunner.collector_of_run hbefore)] at hspec
  refine ⟨data, ret.call.request, hdata, hentry.listed, htask, ?_⟩
  rw [← hcounters]
  rw [List.getLast?_map, Option.map_map] at hspec
  exact hshows.tells hspec hentry.taskId

/-- What a line of a frame says of an entry that can be read in it. -/
def Says (elapsed : ℕ) (kernel : Request → Taskstats) (line : Printed)
    (e : Σ _ : UInt64, TaskIoInfo) : Prop :=
  ∃ text data, ∃ q : Request, line.glyphs.map Cxxcurses.GlyphString.chars = some text ∧
    readRow text = some data ∧ q.taskId = .ofInt (toPidT e.1) ∧
    data.Tells e.1 elapsed (kernel q).counters

/-- Rows, and the entries they are of. -/
theorem forall₂_rows {R : Printed → (Σ _ : UInt64, TaskIoInfo) → Prop}
    {es : List (Σ _ : UInt64, TaskIoInfo)} (h : ∀ e ∈ es, ∀ y, R (taskRow y e.2) e) (n : ℕ) :
    List.Forall₂ R ((es.zipIdx n).map fun row => taskRow row.2 row.1.2) es := by
  induction es generalizing n with
  | nil => exact .nil
  | cons e es ih =>
    rw [List.zipIdx_cons, List.map_cons]
    exact .cons (h e List.mem_cons_self _) (ih (fun e' he' => h e' (List.mem_cons_of_mem _ he')) _)

/-- **From the kernel to the screen.**  Where the kernel answers in time, the rows of the last
frame are of the entries shown, one for one, each of a task listed in the last iteration; and
what is read in a row that can be read is what the kernel said in answer to a request for that
very task. -/
theorem main_tells {o : InitAnswers} {is : List Iteration} {i : Iteration} {r : IoRunner}
    (hmain : main o (is ++ [i]) = some (.inr r)) (hlow : 1 ≤ i.maxYx.1) (hhigh : i.maxYx.1 < 2 ^ 31)
    (hinTime : ∀ j ∈ is ++ [i], InTime j.cycle) {kernel : Request → Taskstats}
    (htruth : Truthful kernel r.ioMonitor.socket.returns) :
    ∃ frame ∈ r.frames.getLast?,
      List.Forall₂ (fun line e => Util.Listed i.cycle.proc e.1 ∧
          (Readable e.2 → Says (elapsedBefore is i) kernel line e))
        (frame.drop 2) (shownEntries i r.ioMonitor.monitor.table) := by
  rcases main_cases hmain with ⟨hout, -⟩ | ⟨fd, netlinkIoObj, r', -, -, -, -, hout, hrun⟩
  · cases hout
  obtain rfl := Sum.inr.inj hout
  obtain ⟨r₀, -, hiterate⟩ := runFrom_concat.1 hrun
  obtain ⟨hstep, hframes⟩ := IoRunner.iterate_eq_some hiterate
  have hlog := Collector.log_of_run (IoRunner.collector_of_run hrun)
  refine ⟨_, by rw [hframes, List.getLast?_concat]; rfl, ?_⟩
  rw [drawData_eq hlow hhigh]
  -- behind the two headers is a row for each entry
  refine forall₂_rows (fun e he y => ⟨?_, fun hreadable => ?_⟩) 2
  · obtain ⟨-, _, _, _, -, hentry⟩ := Collector.entry_of_step hstep hlog (mem_shownEntries he)
    exact hentry.listed
  · obtain ⟨data, q, hdata, -, htask, htells⟩ :=
      tells_of_run hrun hinTime htruth (mem_shownEntries he) hreadable.fits
    exact ⟨_, data, q, hreadable.chars_taskRow y, hdata, htask, htells⟩

/-- Two iterations, both with the same task. -/
def oneTaskTwice : List Iteration :=
  [⟨oneTask, (24, 80), .kept⟩, ⟨oneTask, (24, 80), .kept⟩]

/-- One iteration with a task that read a page. -/
def oneTaskOnce : Iteration := ⟨oneTask, (24, 80), .kept⟩

theorem main_tells_oneTask : ∃ r : IoRunner, main familyAnswers [oneTaskOnce] = some (.inr r) ∧
    ∃ frame ∈ r.frames.getLast?, ∃ line ∈ frame, ∃ text data,
      line.glyphs.map Cxxcurses.GlyphString.chars = some text ∧ readRow text = some data ∧
      data.Tells 7 1000000000 readAPage.stats.counters := by
  have hruns : ∃ out ∈ main familyAnswers [oneTaskOnce], ∃ r ∈ out.getRight?,
      (∃ e ∈ (shownEntries oneTaskOnce r.ioMonitor.monitor.table).head?, e.1 = 7 ∧ Readable e.2) ∧
      ∀ ret ∈ r.ioMonitor.socket.returns, ret.taken.all fun taken =>
        taken.2.repLen = readAPage.reply.repLen ∧
          taken.2.msg.bytes = readAPage.reply.msg.bytes := by
    decide +kernel
  obtain ⟨out, hmain, r, hright, ⟨⟨k, task⟩, he, rfl, hreadable⟩, htaken⟩ := hruns
  obtain rfl := Sum.getRight?_eq_some_iff.1 hright
  have hinTime : ∀ j ∈ [] ++ [oneTaskOnce], InTime j.cycle := by
    intro j hj n
    rw [List.mem_singleton.1 hj]
    exact List.cons_ne_nil _ _
  have hmain' : main familyAnswers ([] ++ [oneTaskOnce]) = some (.inr r) := hmain
  obtain ⟨frame, hframe, hrows⟩ := main_tells hmain' (by decide) (by decide) hinTime
    (truthful_of_all htaken)
  obtain ⟨es, hes⟩ : ∃ es, shownEntries oneTaskOnce r.ioMonitor.monitor.table = ⟨7, task⟩ :: es :=
    List.head?_eq_some_iff.1 he
  rw [hes] at hrows
  obtain ⟨line, lines, ⟨-, hsays⟩, -, hlines⟩ := List.forall₂_cons_right_iff.1 hrows
  obtain ⟨text, data, q, hchars, hread, -, htells⟩ := hsays hreadable
  have hline : line ∈ frame := List.mem_of_mem_drop (hlines ▸ List.mem_cons_self)
  exact ⟨r, hmain, frame, hframe, line, hline, text, data, hchars, hread, htells⟩

end IotopCpp
