import IotopCpp.Lib.Readback
import IotopCpp.Monitor.Names
import IotopCpp.Monitor.Presence
import IotopCpp.Monitor.Priority

/-!
# What is said of a task

The priority and the names in a record come from calls that are given the number of the
task, or a path that it is printed into.  The calls are made one after another, so each of
them may find the system in another state; but all of them ask about the same task, which
is the one the record is for.

## Main definitions

* `Util.procfs` — the files of all tasks, opened by the paths that `get_task_cmdline` prints.
* `System`, `Query.AskedIn` — the state of the system, and the states a query is made in.
* `Query.Fits` — the names found for a query have room in its record.

## Main results

* `procfs_cmdlinePath`, `procfs_statusPath` — a path opens the file of its task.
* `run_isSome_iff` — **when no copy of a run overruns its member**.
* `names_of_run` — the names of an entry are those of its task, and when they end.
* `prio_of_run` — the priority of an entry is that of its task.
-/

namespace IotopCpp

open Printf Decimal Netlink Runs

/-! ### Paths -/

namespace Util

/-- The directory under `/proc` that a path leads to, and the name in it. -/
def splitProcPath (path : Bytes) : Option (ℤ × Bytes) :=
  if (ascii "/proc/").isPrefixOf path then
    let entry := path.drop (ascii "/proc/").length
    (readDecimal (entry.takeWhile (· != slash))).map fun pid =>
      (pid, (entry.dropWhile (· != slash)).tail)
  else none

/-- The files of all tasks, by path. -/
def procfs (files : ℤ → ProcFiles) (path : Bytes) : Option Bytes :=
  (splitProcPath path).bind fun entry =>
    if entry.2 = ascii "cmdline" then (files entry.1).cmdline
    else if entry.2 = ascii "status" then (files entry.1).status
    else none

theorem splitProcPath_append (pid : ℤ) (file : Bytes) :
    splitProcPath (ascii "/proc/" ++ (decimal pid ++ slash :: file)) = some (pid, file) := by
  have hnumber : ∀ c ∈ decimal pid, (c != slash) = true := by
    have hslash : slash ∉ numberChars := by decide
    exact fun c hc => bne_iff_ne.2 (ne_of_mem_of_not_mem (decimal_subset pid hc) hslash)
  have htake : (decimal pid ++ slash :: file).takeWhile (· != slash) = decimal pid := by
    rw [List.takeWhile_append_of_pos hnumber, List.takeWhile_cons_of_neg (by simp), List.append_nil]
  have hdrop : ((decimal pid ++ slash :: file).dropWhile (· != slash)).tail = file := by
    rw [List.dropWhile_append_of_pos hnumber, List.dropWhile_cons_of_neg (by simp), List.tail_cons]
  have hstart : (ascii "/proc/").isPrefixOf (ascii "/proc/" ++ (decimal pid ++ slash :: file)) :=
    List.isPrefixOf_iff_prefix.2 (List.prefix_append _ _)
  rw [splitProcPath, if_pos hstart]
  simp only [List.drop_left, htake, hdrop, readDecimal_decimal, Option.map_some]

/-- There is room for the number of every task. -/
theorem snprintf_path {pid : ℤ} (h : pid.natAbs ≤ 2 ^ 31) {file : Bytes} (hfile : file.length ≤ 8) :
    snprintf pathSize (ascii "/proc/" ++ (decimal pid ++ file))
      = ascii "/proc/" ++ (decimal pid ++ file) := by
  have hnumber : (decimal pid).length ≤ 11 := by
    refine (length_decimal_le (k := 10) (by omega) (h.trans_lt (by norm_num))).trans ?_
    split <;> omega
  have hproc : (ascii "/proc/").length = 6 := rfl
  refine snprintf_eq_self ?_
  rw [List.length_append, List.length_append]
  unfold pathSize
  omega

section

variable (files : ℤ → ProcFiles) {pid : ℤ} (h : pid.natAbs ≤ 2 ^ 31)

include h

/-- **A path opens the file of its task**, and of no other. -/
theorem procfs_cmdlinePath : procfs files (cmdlinePath pid) = (files pid).cmdline := by
  have hpath : cmdlinePath pid = ascii "/proc/" ++ (decimal pid ++ slash :: ascii "cmdline") :=
    snprintf_path h (Nat.le_refl 8)
  rw [procfs, hpath, splitProcPath_append, Option.bind_some, if_pos rfl]

theorem procfs_statusPath : procfs files (statusPath pid) = (files pid).status := by
  have hpath : statusPath pid = ascii "/proc/" ++ (decimal pid ++ slash :: ascii "status") :=
    snprintf_path h (Nat.le_succ 7)
  have hname : ascii "status" ≠ ascii "cmdline" := by decide
  rw [procfs, hpath, splitProcPath_append, Option.bind_some, if_neg hname, if_pos rfl]

end

end Util

/-! ### Room for the names -/

/-- The user id that the query leaves in its record. -/
def Query.userId (q : Query) : ℤ := (q.answers.taskstats.apply {}).2.userId

/-- The names found for the query fit their members, with or without the NUL after them. -/
structure Query.Fits (q : Query) : Prop where
  userName : (Util.getUserName q.answers.passwd q.userId).length ≤ maxUserNameLength + 1
  shortCmdline :
    (copied (Util.getTaskCmdline true (q.answers.shortOpens.files (toPidT q.id)) [])).length
      ≤ maxCommandLength + 1
  fullCmdline :
    (copied (Util.getTaskCmdline false (q.answers.fullOpens.files (toPidT q.id)) [])).length
      ≤ maxCommandLength + 1

theorem copyCmdline_isSome {n : ℕ} {dst : CharArray n} {cmdline : ℤ × Bytes} :
    (copyCmdline dst cmdline).isSome ↔ (copied cmdline).length ≤ n := by
  unfold copyCmdline copied
  split
  · exact CharArray.strncpy_isSome
  · simp

theorem fillNames_isSome {answers : TaskAnswers} {r : TaskIoInfo} :
    (fillNames answers r).isSome ↔
      (Util.getUserName answers.passwd r.userId).length ≤ maxUserNameLength + 1 ∧
      (copied (Util.getTaskCmdline true (answers.shortOpens.files r.taskId) [])).length
        ≤ maxCommandLength + 1 ∧
      (copied (Util.getTaskCmdline false (answers.fullOpens.files r.taskId) [])).length
        ≤ maxCommandLength + 1 := by
  rw [← @CharArray.strncpy_isSome _ r.userName, ← @copyCmdline_isSome _ r.shortCmdline,
    ← @copyCmdline_isSome _ r.fullCmdline]
  simp only [fillNames, Option.bind_eq_bind, Option.isSome_iff_exists, Option.bind_eq_some_iff,
    Option.some.injEq]
  refine ⟨?_, ?_⟩
  · rintro ⟨-, userName, huser, shortCmdline, hshort, fullCmdline, hfull, -⟩
    exact ⟨⟨userName, huser⟩, ⟨shortCmdline, hshort⟩, fullCmdline, hfull⟩
  · rintro ⟨⟨userName, huser⟩, ⟨shortCmdline, hshort⟩, fullCmdline, hfull⟩
    exact ⟨_, userName, huser, shortCmdline, hshort, fullCmdline, hfull, rfl⟩

/-- The periods are the only members that `fillPeriods` changes. -/
theorem fillPeriods_names (originNs collectTmNs : UInt64) (origin : Counters) (r : TaskIoInfo) :
    (fillPeriods originNs collectTmNs origin r).taskId = r.taskId ∧
      (fillPeriods originNs collectTmNs origin r).userId = r.userId ∧
      (fillPeriods originNs collectTmNs origin r).userName = r.userName ∧
      (fillPeriods originNs collectTmNs origin r).shortCmdline = r.shortCmdline ∧
      (fillPeriods originNs collectTmNs origin r).fullCmdline = r.fullCmdline := by
  unfold fillPeriods
  simp only
  split <;> exact ⟨rfl, rfl, rfl, rfl, rfl⟩

/-- The record whose names a query that succeeded fills in. -/
structure Query.Unnamed (q : Query) (r : TaskIoInfo) : Prop where
  taskId : r.taskId = toPidT q.id
  userId : r.userId = q.userId
  userName : r.userName = .zeros _
  shortCmdline : r.shortCmdline = .zeros _
  fullCmdline : r.fullCmdline = .zeros _

/-- A query looks at no member of the record it fills in. -/
theorem userId_apply (res : QueryResult) {r r' : TaskIoInfo} (h : r.userId = r'.userId) :
    (res.apply r).2.userId = (res.apply r').2.userId := by
  cases res with
  | failed e => exact h
  | answered stats =>
    cases stats with
    | none => exact h
    | some ts => rfl

/-- It leaves the id and the names alone. -/
theorem names_apply (res : QueryResult) (r : TaskIoInfo) :
    (res.apply r).2.taskId = r.taskId ∧ (res.apply r).2.userName = r.userName ∧
      (res.apply r).2.shortCmdline = r.shortCmdline ∧ (res.apply r).2.fullCmdline = r.fullCmdline := by
  cases res with
  | failed e => exact ⟨rfl, rfl, rfl, rfl⟩
  | answered stats =>
    cases stats with
    | none => exact ⟨rfl, rfl, rfl, rfl⟩
    | some ts =>
      cases r
      simp only [QueryResult.apply, Taskstats.copyInto, and_self]

theorem queriedRecord_taskId (answers : TaskAnswers) (r : TaskIoInfo) :
    (queriedRecord answers r).taskId = r.taskId := rfl

/-- The record of a query that succeeded, but for the names. -/
theorem Query.exists_unnamed {q : Query} (hsucc : q.succeeded = true)
    (originNs collectTmNs : UInt64) :
    ∃ r, q.Unnamed r ∧ q.record originNs collectTmNs = fillNames q.answers r := by
  obtain ⟨fresh, hfresh⟩ : ∃ fresh, fresh = queriedRecord q.answers
    { taskId := toPidT q.id, isPid := q.isPid } := ⟨_, rfl⟩
  have hrecord : q.record originNs collectTmNs
      = if (q.answers.taskstats.apply fresh).1 < 0 then some (q.answers.taskstats.apply fresh).2
        else fillNames q.answers (fillPeriods originNs collectTmNs {}
          (q.answers.taskstats.apply fresh).2) := by
    rw [hfresh]
    rfl
  -- a query that succeeded goes on to the periods, and then to the names
  have hcode : ¬(q.answers.taskstats.apply fresh).1 < 0 := by
    unfold Query.succeeded at hsucc
    cases hstats : q.answers.taskstats with
    | failed e =>
      rw [hstats] at hsucc
      cases hsucc
    | answered stats => cases stats <;> exact lt_irrefl 0
  have hzero : fresh.userId = 0 := by rw [hfresh]; rfl
  -- neither the periods nor the answer touch what is asked for here
  obtain ⟨htaskId, huserId, huser, hshort, hfull⟩ :=
    fillPeriods_names originNs collectTmNs {} (q.answers.taskstats.apply fresh).2
  obtain ⟨htaskId', huser', hshort', hfull'⟩ := names_apply q.answers.taskstats fresh
  rw [if_neg hcode] at hrecord
  refine ⟨_, ⟨?_, ?_, ?_, ?_, ?_⟩, hrecord⟩
  · rw [htaskId, htaskId', hfresh, queriedRecord_taskId]
  · exact huserId.trans (userId_apply _ hzero)
  · rw [huser, huser', hfresh]
    rfl
  · rw [hshort, hshort', hfresh]
    rfl
  · rw [hfull, hfull', hfresh]
    rfl

theorem Query.record_isSome {q : Query} {originNs collectTmNs : UInt64} :
    (q.record originNs collectTmNs).isSome ↔ (q.succeeded = true → q.Fits) := by
  by_cases hsucc : q.succeeded = true
  · obtain ⟨r, hunnamed, hr⟩ := Query.exists_unnamed hsucc originNs collectTmNs
    rw [hr, fillNames_isSome, hunnamed.userId, hunnamed.taskId]
    refine ⟨?_, ?_⟩
    · rintro ⟨huser, hshort, hfull⟩ -
      exact ⟨huser, hshort, hfull⟩
    · intro hfits
      obtain ⟨huser, hshort, hfull⟩ := hfits hsucc
      exact ⟨huser, hshort, hfull⟩
  · -- nothing is copied for a query that failed
    refine ⟨fun _ h => absurd h hsucc, fun _ => ?_⟩
    unfold Query.succeeded at hsucc
    unfold Query.record handleEveryTaskIoInfo
    cases hstats : q.answers.taskstats with
    | failed e => simp [QueryResult.apply, e.code_neg]
    | answered stats =>
      rw [hstats] at hsucc
      exact absurd rfl hsucc

/-- **When no copy of a run overruns its member**: in no cycle is a name found for a query
that succeeded longer than the member that it is copied into. -/
theorem run_isSome_iff (cs : List Cycle) :
    (run cs).isSome ↔ ∀ c ∈ cs, ∀ q ∈ c.queries, q.succeeded = true → q.Fits := by
  induction cs using List.reverseRecOn with
  | nil => simp [run, runFrom]
  | append_singleton cs c ih =>
    rw [List.forall_mem_append, List.forall_mem_singleton, ← ih]
    simp only [Option.isSome_iff_exists, run, runFrom_concat]
    refine ⟨?_, ?_⟩
    · rintro ⟨m', m, hrun, hstep⟩
      refine ⟨⟨m, hrun⟩, ?_⟩
      intro q hq
      exact Query.record_isSome.1 ((IoMonitor.collectTimed_eq_some.1 hstep).1 q hq)
    · rintro ⟨⟨m, hrun⟩, hfits⟩
      refine ⟨_, m, hrun, IoMonitor.collectTimed_eq_some.2 ⟨fun q hq => ?_, rfl⟩⟩
      exact Query.record_isSome.2 (hfits q hq)

/-! ### The names of an entry -/

/-- What a member of `size` bytes and a NUL is read as, after `text` was copied into it. -/
def shownName (size : ℕ) (text : Bytes) : Option Bytes :=
  if text.length ≤ size then some text else none

/-- The text is copied whole. -/
theorem bytes_strncpy {n : ℕ} {text : Bytes} (h : 0 ∉ text) {a : CharArray n}
    (hcopy : (CharArray.zeros n).strncpy text text.length = some a) :
    a.bytes = text ++ List.replicate (n - text.length) 0 := by
  unfold CharArray.strncpy at hcopy
  split at hcopy
  · obtain rfl := Option.some.inj hcopy
    simp only [cString_eq_self h, List.take_length, Nat.sub_self, List.replicate_zero,
      List.append_nil, CharArray.zeros, List.drop_replicate]
  · cases hcopy

/-- It ends if there is room for a NUL. -/
theorem toCString_strncpy {n : ℕ} {text : Bytes} (h : 0 ∉ text) {a : CharArray (n + 1)}
    (hcopy : (CharArray.zeros (n + 1)).strncpy text text.length = some a) :
    a.toCString = shownName n text := by
  have hle : text.length ≤ n + 1 := CharArray.strncpy_isSome.1 (by rw [hcopy]; rfl)
  unfold CharArray.toCString shownName
  rw [bytes_strncpy h hcopy]
  by_cases hlength : text.length ≤ n
  · obtain ⟨k, hk⟩ : ∃ k, n + 1 - text.length = k + 1 := ⟨n - text.length, by omega⟩
    rw [if_pos hlength, hk, List.replicate_succ, if_pos (by simp), cString_append_zero h]
  · have hfull : n + 1 - text.length = 0 := by omega
    rw [if_neg hlength, hfull, List.replicate_zero, List.append_nil, if_neg h]

theorem toCString_copyCmdline {n : ℕ} {cmdline : ℤ × Bytes} (h : 0 ∉ cmdline.2)
    {a : CharArray (n + 1)} (hcopy : copyCmdline (.zeros (n + 1)) cmdline = some a) :
    a.toCString = shownName n (copied cmdline) := by
  unfold copyCmdline at hcopy
  unfold copied
  split at hcopy
  · next hread =>
    rw [if_pos hread]
    exact toCString_strncpy h hcopy
  · next hread =>
    obtain rfl := Option.some.inj hcopy
    have hzero : 0 ∈ (CharArray.zeros (n + 1)).bytes :=
      List.mem_replicate.2 ⟨Nat.succ_ne_zero n, rfl⟩
    rw [if_neg hread, CharArray.toCString, if_pos hzero]
    rfl

/-- The names in a record are those that were found. -/
structure NamesFound (q : Query) (r : TaskIoInfo) : Prop where
  userName :
    r.userName.toCString = shownName maxUserNameLength (Util.getUserName q.answers.passwd r.userId)
  shortCmdline : r.shortCmdline.toCString
    = shownName maxCommandLength (copied
      (Util.getTaskCmdline true (q.answers.shortOpens.files (toPidT q.id)) []))
  fullCmdline : r.fullCmdline.toCString
    = shownName maxCommandLength (copied
      (Util.getTaskCmdline false (q.answers.fullOpens.files (toPidT q.id)) []))

theorem Query.namesFound {q : Query} {originNs collectTmNs : UInt64} {r : TaskIoInfo}
    (hplain : ∀ id, 0 ∉ Util.getUserName q.answers.passwd id) (hsucc : q.succeeded = true)
    (h : q.record originNs collectTmNs = some r) : NamesFound q r := by
  obtain ⟨r₀, hunnamed, hrecord⟩ := Query.exists_unnamed hsucc originNs collectTmNs
  have hfill : fillNames q.answers r₀ = some r := hrecord.symm.trans h
  simp only [fillNames, Option.bind_eq_bind, Option.bind_eq_some_iff, Option.some.injEq,
    hunnamed.taskId, hunnamed.userName, hunnamed.shortCmdline, hunnamed.fullCmdline] at hfill
  obtain ⟨userName, huser, shortCmdline, hshort, fullCmdline, hfull, rfl⟩ := hfill
  exact ⟨toCString_strncpy (hplain _) huser,
    toCString_copyCmdline (Util.zero_notMem_getTaskCmdline true _) hshort,
    toCString_copyCmdline (Util.zero_notMem_getTaskCmdline false _) hfull⟩

/-! ### The system -/

/-- What the system answers with at one moment.  A nice value is in its range, and the name
of a user is a C string. -/
structure System where
  ioprioGet : ℤ → ℤ
  schedGetscheduler : ℤ → ℤ
  getpriority : ℤ → ℤ
  getpwuid : ℤ → Option Bytes
  files : ℤ → Util.ProcFiles
  getpriority_range : ∀ pid, -20 ≤ getpriority pid ∧ getpriority pid ≤ 19
  getpwuid_plain : ∀ id, ∀ name ∈ getpwuid id, 0 ∉ name

/-- `fopen`, of a file under `/proc`. -/
def System.fopen (s : System) (path : Bytes) : Option Bytes := Util.procfs s.files path

/-- Each `fopen` finds the system in one of the states `S`. -/
structure Util.FileOpens.OpenedIn (o : Util.FileOpens) (S : Set System) : Prop where
  first : ∃ s ∈ S, o.first = s.fopen
  second : ∃ s ∈ S, o.second = s.fopen

/-- Each call that is made for the query finds the system in one of the states `S`.  They
are made one after another, so no two of them need find it in the same state. -/
structure Query.AskedIn (S : Set System) (q : Query) : Prop where
  ioprioGet : ∃ s ∈ S, q.answers.ioPrio = s.ioprioGet (toPidT q.id)
  schedGetscheduler : ∃ s ∈ S, q.answers.scheduler = s.schedGetscheduler (toPidT q.id)
  getpriority : ∃ s ∈ S, q.answers.nice = s.getpriority (toPidT q.id)
  getpwuid : ∃ s ∈ S, q.answers.passwd = s.getpwuid
  shortOpens : q.answers.shortOpens.OpenedIn S
  fullOpens : q.answers.fullOpens.OpenedIn S

/-- The command line of a task, from its files as they are in two states. -/
def System.cmdline (isShort : Bool) (s s' : System) (pid : ℤ) : Bytes :=
  copied (Util.getTaskCmdline isShort ⟨(s.files pid).cmdline, (s'.files pid).status⟩ [])

theorem System.zero_notMem_getUserName (s : System) (id : ℤ) :
    0 ∉ Util.getUserName s.getpwuid id := by
  unfold Util.getUserName
  cases hname : s.getpwuid id with
  | none => decide
  | some name => exact s.getpwuid_plain id name hname

/-- The files that are opened for a command line are the task's. -/
theorem Util.FileOpens.OpenedIn.exists_files {S : Set System} {o : Util.FileOpens}
    (h : o.OpenedIn S) {pid : ℤ} (hpid : pid.natAbs ≤ 2 ^ 31) :
    ∃ s ∈ S, ∃ s' ∈ S, o.files pid = ⟨(s.files pid).cmdline, (s'.files pid).status⟩ := by
  obtain ⟨s, hs, hfirst⟩ := h.first
  obtain ⟨s', hs', hsecond⟩ := h.second
  refine ⟨s, hs, s', hs', ?_⟩
  rw [Util.FileOpens.files, hfirst, hsecond, System.fopen, System.fopen,
    Util.procfs_cmdlinePath s.files hpid, Util.procfs_statusPath s'.files hpid]

theorem Query.AskedIn.zero_notMem_getUserName {S : Set System} {q : Query} (h : q.AskedIn S)
    (id : ℤ) : 0 ∉ Util.getUserName q.answers.passwd id := by
  obtain ⟨s, -, hpasswd⟩ := h.getpwuid
  rw [hpasswd]
  exact s.zero_notMem_getUserName id

section

variable {S : Set System} {cs : List Cycle} {c : Cycle} {m : IoMonitor}
  (hrun : run (cs ++ [c]) = some m) (hasked : ∀ q ∈ c.queries, q.AskedIn S) {k : UInt64}
  {r : TaskIoInfo} (hr : m.table.lookup k = some r)

include hrun hasked hr

/-- An entry is the record of a query for its task. -/
theorem exists_query_of_run :
    ∃ q : Query, q.AskedIn S ∧ toPidT q.id = r.taskId ∧ r.taskId = toPidT k ∧ NamesFound q r ∧
      ∃ fresh, r.ioPriority = (queriedRecord q.answers fresh).ioPriority := by
  obtain ⟨m₀, -, hstep⟩ := runFrom_concat.1 hrun
  obtain ⟨-, q, hfirst, hsucc, hrecord⟩ := (IoMonitor.lookup_collectTimed hstep).1 hr
  obtain ⟨hq, rfl⟩ := firstOf_eq_some hfirst
  have htaskId := (record_spec hrecord).taskId
  refine ⟨q, hasked q hq, htaskId.symm, htaskId, ?_, _, ioPriority_handleEveryTaskIoInfo hrecord⟩
  exact Query.namesFound (hasked q hq).zero_notMem_getUserName hsucc hrecord

/-- **The names of an entry** are those of its task: of the user that the statistics name,
and from the files under `/proc` that have the number of the task.  They are whole, and end
if they are no longer than their members are meant to hold. -/
theorem names_of_run :
    r.taskId = toPidT k ∧
      (∃ s ∈ S, r.userName.toCString
        = shownName maxUserNameLength (Util.getUserName s.getpwuid r.userId)) ∧
      (∃ s ∈ S, ∃ s' ∈ S, r.shortCmdline.toCString
        = shownName maxCommandLength (System.cmdline true s s' r.taskId)) ∧
      ∃ s ∈ S, ∃ s' ∈ S, r.fullCmdline.toCString
        = shownName maxCommandLength (System.cmdline false s s' r.taskId) := by
  obtain ⟨q, hq, hid, htaskId, hfound, -⟩ := exists_query_of_run hrun hasked hr
  -- what was found is what the system had in the states in which it was asked
  refine ⟨htaskId, ?_, ?_, ?_⟩
  · obtain ⟨s, hs, hpasswd⟩ := hq.getpwuid
    refine ⟨s, hs, ?_⟩
    rw [hfound.userName, hpasswd]
  · obtain ⟨s, hs, s', hs', hfiles⟩ := hq.shortOpens.exists_files (natAbs_toPidT_le q.id)
    refine ⟨s, hs, s', hs', ?_⟩
    rw [hfound.shortCmdline, hfiles, hid]
    rfl
  · obtain ⟨s, hs, s', hs', hfiles⟩ := hq.fullOpens.exists_files (natAbs_toPidT_le q.id)
    refine ⟨s, hs, s', hs', ?_⟩
    rw [hfound.fullCmdline, hfiles, hid]
    rfl

/-- **The priority of an entry** is that of its task, and its text is read back as the class
and the level that the three calls say. -/
theorem prio_of_run :
    ∃ s₁ ∈ S, ∃ s₂ ∈ S, ∃ s₃ ∈ S, ∃ text, Util.convertIoPrioToStr r.ioPriority = some text ∧
      readIoPrio text = shownPrio (s₁.ioprioGet r.taskId) (s₂.schedGetscheduler r.taskId)
        (s₃.getpriority r.taskId) := by
  obtain ⟨q, hq, hid, -, -, fresh, hprio⟩ := exists_query_of_run hrun hasked hr
  obtain ⟨s₁, hs₁, hioPrio⟩ := hq.ioprioGet
  obtain ⟨s₂, hs₂, hscheduler⟩ := hq.schedGetscheduler
  obtain ⟨s₃, hs₃, hnice⟩ := hq.getpriority
  have hrange := s₃.getpriority_range (toPidT q.id)
  obtain ⟨text, htext⟩ := Option.isSome_iff_exists.1
    (Util.convertIoPrioToStr_isSome.2 (queriedRecord_ioPriority_nonneg q.answers fresh))
  rw [← hnice] at hrange
  refine ⟨s₁, hs₁, s₂, hs₂, s₃, hs₃, text, hprio ▸ htext, ?_⟩
  rw [readIoPrio_queriedRecord hrange.1 hrange.2 htext, hioPrio, hscheduler, hnice, hid]

end

/-! ### A run with one task -/

theorem System.openedIn (s : System) : Util.FileOpens.OpenedIn ⟨s.fopen, s.fopen⟩ {s} :=
  ⟨⟨s, rfl, rfl⟩, s, rfl, rfl⟩

/-- The answers for a task while the system stays as it is. -/
def System.answers (s : System) (pid : ℤ) (taskstats : QueryResult) : TaskAnswers where
  ioPrio := s.ioprioGet pid
  scheduler := s.schedGetscheduler pid
  nice := s.getpriority pid
  taskstats := taskstats
  passwd := s.getpwuid
  shortOpens := ⟨s.fopen, s.fopen⟩
  fullOpens := ⟨s.fopen, s.fopen⟩

theorem System.askedIn {s : System} {q : Query} {taskstats : QueryResult}
    (h : q.answers = s.answers (toPidT q.id) taskstats) : q.AskedIn {s} := by
  refine ⟨⟨s, rfl, ?_⟩, ⟨s, rfl, ?_⟩, ⟨s, rfl, ?_⟩, ⟨s, rfl, ?_⟩, ?_, ?_⟩
  · rw [h]
    rfl
  · rw [h]
    rfl
  · rw [h]
    rfl
  · rw [h]
    rfl
  · rw [h]
    exact s.openedIn
  · rw [h]
    exact s.openedIn

/-- Everything is a shell of the user `root`. -/
def shellSystem : System where
  ioprioGet _ := 0
  schedGetscheduler _ := 0
  getpriority _ := 0
  getpwuid _ := some (ascii "root")
  files _ := ⟨some (ascii "sh"), none⟩
  getpriority_range _ := by omega
  getpwuid_plain _ name hname := by
    obtain rfl := Option.some.inj hname
    decide

def shellCycle : Cycle :=
  ⟨1000000000, [⟨1, shellSystem.answers (toPidT 1) (.answered (some {})), []⟩]⟩

theorem askedIn_shellCycle : ∀ q ∈ shellCycle.queries, q.AskedIn {shellSystem} :=
  List.forall_mem_singleton.2 (System.askedIn rfl)

theorem exists_entry_shellCycle : ∃ m ∈ run [shellCycle], ∃ r, m.table.lookup 1 = some r := by
  have hrun : ∃ m ∈ run [shellCycle], (m.table.lookup 1).isSome := by decide +kernel
  obtain ⟨m, hm, hsome⟩ := hrun
  exact ⟨m, hm, Option.isSome_iff_exists.1 hsome⟩

theorem names_of_run_shellCycle :
    ∃ m ∈ run [shellCycle], ∃ r, m.table.lookup 1 = some r ∧
      r.userName.toCString = some (ascii "root") ∧ r.fullCmdline.toCString = some (ascii "sh") := by
  obtain ⟨m, hm, r, hr⟩ := exists_entry_shellCycle
  obtain ⟨-, ⟨s, rfl, huser⟩, -, s₁, rfl, s₂, rfl, hfull⟩ :=
    names_of_run (show run ([] ++ [shellCycle]) = some m from hm) askedIn_shellCycle hr
  exact ⟨m, hm, r, hr, huser, hfull⟩

theorem prio_of_run_shellCycle :
    ∃ m ∈ run [shellCycle], ∃ r, m.table.lookup 1 = some r ∧ ∃ text,
      Util.convertIoPrioToStr r.ioPriority = some text ∧ readIoPrio text = some (2, 4) := by
  obtain ⟨m, hm, r, hr⟩ := exists_entry_shellCycle
  obtain ⟨s₁, rfl, s₂, rfl, s₃, rfl, text, htext, hread⟩ :=
    prio_of_run (show run ([] ++ [shellCycle]) = some m from hm) askedIn_shellCycle hr
  exact ⟨m, hm, r, hr, text, htext, hread⟩

end IotopCpp
