import IotopCpp.Lib.Descriptors
import IotopCpp.Monitor.TaskTable
import IotopCpp.Util.TaskIds

/-!
# The descriptors of a run

The functions of `common/util.cpp` open a file or a directory, read it and close it.  Here
are the same functions again, by the descriptors that they open and close.

A directory is closed twice: `closedir` closes the descriptor that its stream was made of,
and the source then closes it by its number.  In between nothing is opened, so the second
`close` finds the number free, and is refused.

## Main definitions

* `Directory` — how far the opening of a directory gets.
* `getFileFirstLineFds`, `getTaskCmdlineFds`, `getAllThreadIdFds`, `getAllTaskIdFds` — the
  functions.
* `CycleFiles`, `collectTimedFds` — what one cycle opens.

## Main results

* `descriptors_of_run` — **over a run every descriptor is closed again**, no other one is
  closed, and one `close` is refused for each directory that was read.
-/

namespace IotopCpp

open Descriptors

namespace Util

/-! ### The functions -/

/-- `Util::get_file_first_line`: the stream is closed whether `getline` fails or not. -/
def getFileFirstLineFds (file : Option Bytes) : Prog :=
  match file with
  | none => skip
  | some _ => withOpen fun fp => seq skip (close fp)

/-- `Util::get_task_cmdline`. -/
def getTaskCmdlineFds (files : ProcFiles) : Prog :=
  let fromCmdline := getFileFirstLine files.cmdline []
  if 0 ≤ fromCmdline.1 ∧ fromCmdline.2 ≠ [] then getFileFirstLineFds files.cmdline
  else seq (getFileFirstLineFds files.cmdline) (getFileFirstLineFds files.status)

/-- A directory: `openat` fails, `fdopendir` fails, or `readdir` gives its entries. -/
inductive Directory (α : Type)
  | unopened
  | unstreamed
  | opened (entries : List α)

/-- What can be read of it. -/
def Directory.entries {α : Type} : Directory α → Option (List α)
  | opened entries => some entries
  | _ => none

/-- `Util::get_all_thread_id`. -/
def getAllThreadIdFds (dir : Directory Dirent) : Prog :=
  match dir with
  | .unopened => skip
  | .unstreamed => withOpen fun dirFd => seq skip (close dirFd)
  -- `closedir`, then `close`
  | .opened _ => withOpen fun dirFd => seq skip (seq (close dirFd) (close dirFd))

/-- An entry of `/proc`, and how the `task` directory of a process opens. -/
structure ProcDirent where
  entry : Dirent
  taskDir : UInt64 → Directory Dirent

/-- The entry, by what can be read. -/
def ProcDirent.procEntry (e : ProcDirent) : ProcEntry := ⟨e.entry, fun pid => (e.taskDir pid).entries⟩

/-- The `task` directories that the loop over `/proc` comes to. -/
def taskDirs (entries : List ProcDirent) : List (Directory Dirent) :=
  entries.foldl (fun dirs e => readdirBody e.taskDir dirs e.entry) []

/-- `Util::get_all_task_id`, with threads. -/
def getAllTaskIdFds (dir : Directory ProcDirent) : Prog :=
  match dir with
  | .unopened => skip
  | .unstreamed => withOpen fun dirFd => seq skip (close dirFd)
  | .opened entries => withOpen fun dirFd =>
    seq (seqAll ((taskDirs entries).map getAllThreadIdFds)) (seq (close dirFd) (close dirFd))

/-! ### The directories of a cycle -/

/-- A loop over `readdir` does the same whatever it adds for an id. -/
theorem map_readdirBody {α β : Type*} (f : α → β) (emplaced : UInt64 → α) (out : List α)
    (e : Dirent) : (readdirBody emplaced out e).map f = readdirBody (f ∘ emplaced) (out.map f) e := by
  unfold readdirBody
  simp only
  split
  · rfl
  · split
    · rfl
    · split
      · rfl
      · rw [List.map_append]
        rfl

/-- The threads of a process are those in its directory. -/
theorem map_snd_getAllTaskId (entries : List ProcDirent) :
    (getAllTaskId false (some (entries.map ProcDirent.procEntry))).map Prod.snd
      = (taskDirs entries).map fun dir => getAllThreadId dir.entries := by
  suffices h : ∀ (ids : List (UInt64 × List UInt64)) (dirs : List (Directory Dirent)),
      ids.map Prod.snd = dirs.map (fun dir => getAllThreadId dir.entries) →
      ((entries.map ProcDirent.procEntry).foldl
          (fun ids e => readdirBody (e.emplaced false) ids e.entry) ids).map Prod.snd
        = (entries.foldl (fun dirs e => readdirBody e.taskDir dirs e.entry) dirs).map
            fun dir => getAllThreadId dir.entries from h [] [] rfl
  induction entries with
  | nil => exact fun _ _ h => h
  | cons e entries ih =>
    intro ids dirs h
    rw [List.map_cons, List.foldl_cons, List.foldl_cons]
    refine ih _ _ ?_
    rw [map_readdirBody, map_readdirBody, h]
    rfl

theorem length_getAllTaskId (entries : List ProcDirent) :
    (getAllTaskId false (some (entries.map ProcDirent.procEntry))).length
      = (taskDirs entries).length := by
  have hlength := congrArg List.length (map_snd_getAllTaskId entries)
  rwa [List.length_map, List.length_map] at hlength

/-! ### They close what they open -/

/-- The directory was read, so it is closed twice. -/
def Directory.streams {α : Type} : Directory α → ℕ
  | opened _ => 1
  | _ => 0

theorem balanced_getFileFirstLineFds (file : Option Bytes) :
    Balanced 0 (getFileFirstLineFds file) := by
  cases file with
  | none => exact balanced_skip
  | some _ => exact balanced_withOpen fun _ => balanced_skip

theorem balanced_getTaskCmdlineFds (files : ProcFiles) : Balanced 0 (getTaskCmdlineFds files) := by
  have hcmdline := balanced_getFileFirstLineFds files.cmdline
  have hstatus := balanced_getFileFirstLineFds files.status
  unfold getTaskCmdlineFds
  simp only
  split
  · exact hcmdline
  · exact balanced_seq hcmdline hstatus

theorem balanced_getAllThreadIdFds (dir : Directory Dirent) :
    Balanced dir.streams (getAllThreadIdFds dir) := by
  cases dir with
  | unopened => exact balanced_skip
  | unstreamed => exact balanced_withOpen fun _ => balanced_skip
  | opened entries =>
    show Balanced (0 + 1) (withOpen fun dirFd => seq skip (seq (close dirFd) (close dirFd)))
    exact balanced_withOpen_twice fun _ => balanced_skip

/-- With the three standard streams open, the directory gets the next descriptor. -/
example : (getAllThreadIdFds (.opened []) {0, 1, 2}).2 = [.opened 3, .closed 3, .refused 3] := by
  decide +kernel

/-- The directories that are read while `/proc` is, and `/proc` itself. -/
def procStreams : Directory ProcDirent → ℕ
  | .opened entries => ((taskDirs entries).map Directory.streams).sum + 1
  | _ => 0

theorem balanced_getAllTaskIdFds (dir : Directory ProcDirent) :
    Balanced (procStreams dir) (getAllTaskIdFds dir) := by
  cases dir with
  | unopened => exact balanced_skip
  | unstreamed => exact balanced_withOpen fun _ => balanced_skip
  | opened entries =>
    have hthreads : Balanced ((taskDirs entries).map Directory.streams).sum
        (seqAll ((taskDirs entries).map getAllThreadIdFds)) :=
      balanced_seqAll fun dir _ => balanced_getAllThreadIdFds dir
    show Balanced (((taskDirs entries).map Directory.streams).sum + 1) (withOpen fun dirFd =>
      seq (seqAll ((taskDirs entries).map getAllThreadIdFds)) (seq (close dirFd) (close dirFd)))
    exact balanced_withOpen_twice fun _ => hthreads

end Util

/-! ### Over a whole run -/

/-- What a cycle finds: how `/proc` opens, and the answers for the tasks listed in it.  The
tasks are those that are read from the directories, and no others. -/
structure CycleFiles where
  proc : Util.Directory Util.ProcDirent
  cycle : Cycle
  listed : cycle.taskIds.map (fun p => (p.pid, p.threads.map Thread.tid))
    = Util.getAllTaskId false (proc.entries.map (List.map Util.ProcDirent.procEntry))

/-- `IoMonitor::handle_every_task_io_info`: a failed query returns before the names. -/
def handleEveryTaskIoInfoFds (q : Query) : Prog :=
  if q.succeeded then
    seq (Util.getTaskCmdlineFds (q.answers.shortOpens.files (toPidT q.id)))
      (Util.getTaskCmdlineFds (q.answers.fullOpens.files (toPidT q.id)))
  else skip

/-- `IoMonitor::collect_timed`: the tasks are listed before any is asked for. -/
def collectTimedFds (c : CycleFiles) : Prog :=
  seq (Util.getAllTaskIdFds c.proc) (seqAll (c.cycle.queries.map handleEveryTaskIoInfoFds))

theorem balanced_handleEveryTaskIoInfoFds (q : Query) : Balanced 0 (handleEveryTaskIoInfoFds q) := by
  unfold handleEveryTaskIoInfoFds
  split
  · exact balanced_seq (Util.balanced_getTaskCmdlineFds _) (Util.balanced_getTaskCmdlineFds _)
  · exact balanced_skip

theorem balanced_collectTimedFds (c : CycleFiles) :
    Balanced (Util.procStreams c.proc) (collectTimedFds c) := by
  have hqueries := balanced_seqAll fun q (_ : q ∈ c.cycle.queries) =>
    balanced_handleEveryTaskIoInfoFds q
  have hzero : (c.cycle.queries.map fun _ => 0).sum = 0 := by simp
  rw [hzero] at hqueries
  exact balanced_seq (Util.balanced_getAllTaskIdFds c.proc) hqueries

/-- There is one directory for each process, and `/proc`. -/
theorem procStreams_le (c : CycleFiles) :
    Util.procStreams c.proc ≤ c.cycle.taskIds.length + 1 := by
  have hlisted := congrArg List.length c.listed
  rw [List.length_map] at hlisted
  cases hproc : c.proc with
  | unopened => exact Nat.zero_le _
  | unstreamed => exact Nat.zero_le _
  | opened entries =>
    rw [hproc] at hlisted
    have hlength := hlisted.trans (Util.length_getAllTaskId entries)
    have hone : ∀ x ∈ (Util.taskDirs entries).map Util.Directory.streams, x ≤ 1 := by
      intro x hx
      obtain ⟨dir, -, rfl⟩ := List.mem_map.1 hx
      cases dir <;> simp [Util.Directory.streams]
    have hsum := List.sum_le_card_nsmul _ _ hone
    rw [List.length_map, nsmul_eq_mul, mul_one, Nat.cast_id] at hsum
    rw [hlength]
    exact Nat.succ_le_succ hsum

/-- **Over a run every descriptor is closed again**, and no descriptor of another part of
the program is closed; a `close` is refused for each directory that was read, which is one
for each process and one in each cycle at most. -/
theorem descriptors_of_run (cs : List CycleFiles) :
    Balanced (cs.map fun c => Util.procStreams c.proc).sum (seqAll (cs.map collectTimedFds)) ∧
      (cs.map fun c => Util.procStreams c.proc).sum
        ≤ (cs.map fun c => c.cycle.taskIds.length + 1).sum :=
  ⟨balanced_seqAll fun c _ => balanced_collectTimedFds c, List.sum_le_sum fun c _ => procStreams_le c⟩

/-- `/proc` with the directory of process 1, which has two threads, and that of process 5,
which does not open. -/
def twoProcs : Util.Directory Util.ProcDirent :=
  .opened [⟨⟨Util.dtDir, ascii "1", by decide⟩, fun _ => .opened
      [⟨Util.dtDir, ascii "1", by decide⟩, ⟨Util.dtUnknown, ascii "2", by decide⟩]⟩,
    ⟨⟨Util.dtDir, ascii "5", by decide⟩, fun _ => .unopened⟩]

/-- The cycle that finds them, and is answered for the first. -/
def twoProcsCycle : Cycle :=
  .ofTasks 0 [(1, [1, 2]), (5, [])] fun id => if id = 5 then .failed .recv else .answered (some {})

theorem listed_twoProcs :
    twoProcsCycle.taskIds.map (fun p => (p.pid, p.threads.map Thread.tid))
      = Util.getAllTaskId false (twoProcs.entries.map (List.map Util.ProcDirent.procEntry)) := by
  decide +kernel

theorem descriptors_of_run_twoProcs :
    Balanced 4 (seqAll ([⟨twoProcs, twoProcsCycle, listed_twoProcs⟩,
      ⟨twoProcs, twoProcsCycle, listed_twoProcs⟩].map collectTimedFds)) :=
  (descriptors_of_run [⟨twoProcs, twoProcsCycle, listed_twoProcs⟩,
    ⟨twoProcs, twoProcsCycle, listed_twoProcs⟩]).1

end IotopCpp
