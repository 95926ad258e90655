import IotopCpp.Util
import IotopCpp.Lib.Decimal
import IotopCpp.Lib.Picks

/-!
# Which tasks there are

`Util::get_all_task_id` and `Util::get_all_thread_id` of `common/util.cpp`: the loops
over `readdir` on `/proc` and on the `task` directory of a process.  What a directory
holds is a list of entries, or nothing for one that does not open.

The source has the body of the loop twice, the same up to the names of its variables
and what is done with an id; here it is one definition with that as a parameter.

## Main definitions

* `Dirent`, `readdirBody` — an entry, and what a loop does with it.
* `getAllThreadId`, `getAllTaskId` — the two loops.
* `TaskName`, `IsTask` — the names of tasks, and the entries that stand for one.
* `Listed` — the tasks of `/proc`, processes and threads.

## Main results

* `readdirBody_cases` — an entry is taken with its id if it stands for a task, and
  skipped otherwise.
* `tasks_listed` — the loops list the tasks of their directories, and agree.
* `mem_getAllTaskId` — what is enumerated is what is listed.
-/

namespace IotopCpp
namespace Util

open Decimal

/-! ### The loops -/

/-- `DT_DIR` and `DT_UNKNOWN` of `<dirent.h>`. -/
def dtDir : UInt8 := 4

def dtUnknown : UInt8 := 0

/-- `struct dirent`, with its name as a C string. -/
structure Dirent where
  dType : UInt8
  dName : Bytes
  zero_notMem : 0 ∉ dName

/-- `UINT64_MAX`. -/
def uint64Max : UInt64 := .ofNat (2 ^ 64 - 1)

/-- The character a `char*` points to, which is a NUL at the end of its text. -/
def charAt (s : Bytes) : UInt8 := s.headD 0

/-- The name without a leading dot, which hides a thread on some systems. -/
def skipDot (name : Bytes) : Bytes := if charAt name = dot then name.tail else name

/-- The body of a loop over `readdir` that adds `emplaced id` to its result. -/
def readdirBody {α : Type*} (emplaced : UInt64 → α) (out : List α) (entry : Dirent) : List α :=
  if entry.dType ≠ dtDir ∧ entry.dType ≠ dtUnknown then out
  else
    let name := skipDot entry.dName
    -- a `char` above 127 is negative, and compares below `'0'` rather than above `'9'`
    if charAt name < '0'.toUInt8 ∨ '9'.toUInt8 < charAt name then out
    else
      let number := strtoul name
      if number.1 = 0 ∨ number.1 = uint64Max ∨ charAt number.2 ≠ 0 then out
      else out ++ [emplaced number.1]

/-- `Util::get_all_thread_id`, from what the `task` directory of the process holds. -/
def getAllThreadId (dir : Option (List Dirent)) : List UInt64 :=
  match dir with
  | none => []
  | some entries => entries.foldl (readdirBody id) []

/-- An entry of `/proc`, and what `/proc/<pid>/task` holds for each `pid` when the loop
is at this entry. -/
structure ProcEntry where
  entry : Dirent
  taskDir : UInt64 → Option (List Dirent)

/-- The element `get_all_task_id` adds for a process. -/
def ProcEntry.emplaced (isOnlyPid : Bool) (e : ProcEntry) (pid : UInt64) :
    UInt64 × List UInt64 :=
  if !isOnlyPid then (pid, getAllThreadId (e.taskDir pid)) else (pid, [])

/-- `Util::get_all_task_id`, from what `/proc` holds. -/
def getAllTaskId (isOnlyPid : Bool) (dir : Option (List ProcEntry)) :
    List (UInt64 × List UInt64) :=
  match dir with
  | none => []
  | some entries =>
    entries.foldl (fun taskIds e => readdirBody (e.emplaced isOnlyPid) taskIds e.entry) []

/-! ### The names of tasks -/

/-- The name of task `v`: digits that are written for it, and at most a dot before.  There
may be zeros in front, and 0 and the greatest number are nobody's. -/
def TaskName (v : ℕ) (name : Bytes) : Prop :=
  ∃ ds, (name = ds ∨ name = dot :: ds) ∧ ds ≠ [] ∧ (∀ c ∈ ds, isDigit c = true) ∧
    ofDigits ds = v ∧ 1 ≤ v ∧ v ≤ 2 ^ 64 - 2

/-- The entry may be a directory, and is named for the task. -/
structure IsTask (e : Dirent) (id : UInt64) : Prop where
  dType : e.dType = dtDir ∨ e.dType = dtUnknown
  dName : TaskName id.toNat e.dName

/-- A C string is at its end where it has a NUL. -/
theorem charAt_eq_zero_iff {s : Bytes} (h : 0 ∉ s) : charAt s = 0 ↔ s = [] := by
  cases s with
  | nil => exact iff_of_true rfl rfl
  | cons c cs => exact iff_of_false (ne_of_mem_of_not_mem List.mem_cons_self h) (List.cons_ne_nil c cs)

theorem zero_notMem_skipDot (e : Dirent) : 0 ∉ skipDot e.dName := by
  unfold skipDot
  split
  · exact fun h => e.zero_notMem (List.mem_of_mem_tail h)
  · exact e.zero_notMem

theorem isDigit_charAt {s : Bytes} (hne : s ≠ []) (hs : ∀ c ∈ s, isDigit c = true) :
    isDigit (charAt s) = true := by
  obtain ⟨c, cs, rfl⟩ := List.exists_cons_of_ne_nil hne
  exact hs c List.mem_cons_self

/-- What is read of a task's name is its digits. -/
theorem taskName_iff {v : ℕ} {name : Bytes} :
    TaskName v name ↔ skipDot name ≠ [] ∧ (∀ c ∈ skipDot name, isDigit c = true) ∧
      ofDigits (skipDot name) = v ∧ 1 ≤ v ∧ v ≤ 2 ^ 64 - 2 := by
  refine ⟨?_, ?_⟩
  · intro h
    obtain ⟨ds, hname, hne, hds, hv⟩ := h
    have hskip : skipDot name = ds := by
      rcases hname with rfl | rfl
      · -- a digit is no dot
        refine if_neg ?_
        intro hdot
        have hdigit := isDigit_charAt hne hds
        rw [hdot] at hdigit
        cases hdigit
      · exact if_pos rfl
    rw [hskip]
    exact ⟨hne, hds, hv⟩
  · intro h
    obtain ⟨hne, hds, hv⟩ := h
    refine ⟨skipDot name, ?_, hne, hds, hv⟩
    by_cases hdot : charAt name = dot
    · right
      cases name with
      | nil => cases hdot
      | cons c cs =>
        rw [skipDot, if_pos hdot, List.tail_cons, show c = dot from hdot]
    · exact Or.inl (if_neg hdot).symm

/-- An entry stands for one task at most. -/
theorem IsTask.unique {e : Dirent} {id id' : UInt64} (h : IsTask e id) (h' : IsTask e id') :
    id = id' := by
  obtain ⟨-, -, hv, -⟩ := taskName_iff.1 h.dName
  obtain ⟨-, -, hv', -⟩ := taskName_iff.1 h'.dName
  exact UInt64.toNat_inj.1 (hv.symm.trans hv')

/-- The checks on a number that `strtoul` read from a digit on: it passes them if the
text is the digits of an id, and no value that saturated does. -/
theorem strtoul_accepted_iff {s : Bytes} (hzero : 0 ∉ s) (hdigit : isDigit (charAt s) = true)
    {id : UInt64} :
    ((strtoul s).1 = id ∧ ¬(id = 0 ∨ id = uint64Max ∨ charAt (strtoul s).2 ≠ 0)) ↔
      (∀ c ∈ s, isDigit c = true) ∧ ofDigits s = id.toNat ∧ 1 ≤ id.toNat ∧
        id.toNat ≤ 2 ^ 64 - 2 := by
  have hmaxNat : uint64Max.toNat = 2 ^ 64 - 1 := rfl
  have hulongMax : ulongMax = 2 ^ 64 - 1 := rfl
  obtain ⟨c, cs, rfl⟩ : ∃ c cs, s = c :: cs := by
    refine List.exists_cons_of_ne_nil ?_
    rintro rfl
    cases hdigit
  have hrest : charAt ((c :: cs).dropWhile isDigit) = 0 ↔ ∀ d ∈ c :: cs, isDigit d = true := by
    rw [charAt_eq_zero_iff fun h => hzero ((List.dropWhile_sublist _).subset h),
      List.dropWhile_eq_nil_iff]
  have hc : isDigit c = true := hdigit
  rw [strtoul_of_isDigit hc]
  simp only [not_or, ne_eq, not_not, hrest]
  refine ⟨?_, ?_⟩
  · -- a value that saturated is the greatest one, which is not accepted
    rintro ⟨rfl, hne, hmax, hall⟩
    rw [List.takeWhile_eq_self_iff.2 hall] at hne hmax ⊢
    have htoNat : (UInt64.ofNat (min (ofDigits (c :: cs)) ulongMax)).toNat
        = min (ofDigits (c :: cs)) ulongMax := by
      rw [UInt64.toNat_ofNat', Nat.mod_eq_of_lt]
      omega
    rw [← UInt64.toNat_inj, htoNat] at hne hmax
    rw [hmaxNat] at hmax
    have hnonzero : min (ofDigits (c :: cs)) ulongMax ≠ 0 := hne
    rw [htoNat]
    refine ⟨hall, ?_, ?_, ?_⟩ <;> omega
  · rintro ⟨hall, hvalue, hlow, hhigh⟩
    have hmin : min (ofDigits (c :: cs)) ulongMax = id.toNat := by omega
    rw [List.takeWhile_eq_self_iff.2 hall, hmin, UInt64.ofNat_toNat]
    refine ⟨rfl, ?_, ?_, hall⟩
    · rintro rfl
      cases hlow
    · rintro rfl
      rw [hmaxNat] at hhigh
      omega

/-- **What a loop does with an entry.** -/
theorem readdirBody_cases {α : Type*} (emplaced : UInt64 → α) (e : Dirent) :
    (∃ id, IsTask e id ∧ ∀ out, readdirBody emplaced out e = out ++ [emplaced id]) ∨
      (∀ id, ¬IsTask e id) ∧ ∀ out, readdirBody emplaced out e = out := by
  by_cases htype : e.dType ≠ dtDir ∧ e.dType ≠ dtUnknown
  · refine Or.inr ⟨fun id h => ?_, fun out => if_pos htype⟩
    exact h.dType.elim htype.1 htype.2
  by_cases hfirst : charAt (skipDot e.dName) < '0'.toUInt8 ∨ '9'.toUInt8 < charAt (skipDot e.dName)
  · -- the name of a task starts with a digit
    refine Or.inr ⟨?_, ?_⟩
    · intro id h
      obtain ⟨hne, hds, -⟩ := taskName_iff.1 h.dName
      exact not_isDigit_iff.2 hfirst (isDigit_charAt hne hds)
    · intro out
      rw [readdirBody, if_neg htype]
      exact if_pos hfirst
  have hdigit : isDigit (charAt (skipDot e.dName)) = true := by
    by_contra hdigit
    exact hfirst (not_isDigit_iff.1 hdigit)
  have hbody (out : List α) : readdirBody emplaced out e
      = if (strtoul (skipDot e.dName)).1 = 0 ∨ (strtoul (skipDot e.dName)).1 = uint64Max ∨
          charAt (strtoul (skipDot e.dName)).2 ≠ 0 then out
        else out ++ [emplaced (strtoul (skipDot e.dName)).1] := by
    rw [readdirBody, if_neg htype]
    exact if_neg hfirst
  have haccepted {id : UInt64} := @strtoul_accepted_iff _ (zero_notMem_skipDot e) hdigit id
  by_cases hnumber : (strtoul (skipDot e.dName)).1 = 0 ∨
      (strtoul (skipDot e.dName)).1 = uint64Max ∨ charAt (strtoul (skipDot e.dName)).2 ≠ 0
  · refine Or.inr ⟨?_, ?_⟩
    · intro id h
      obtain ⟨-, hds⟩ := taskName_iff.1 h.dName
      obtain ⟨rfl, hpasses⟩ := haccepted.2 hds
      exact hpasses hnumber
    · intro out
      rw [hbody, if_pos hnumber]
  · refine Or.inl ⟨(strtoul (skipDot e.dName)).1, ⟨?_, ?_⟩, ?_⟩
    · by_contra hdir
      exact htype (not_or.1 hdir)
    · refine taskName_iff.2 ⟨?_, haccepted.1 ⟨rfl, hnumber⟩⟩
      intro hnil
      rw [hnil] at hdigit
      cases hdigit
    · intro out
      rw [hbody, if_neg hnumber]

/-! ### What the loops list -/

theorem picks_getAllThreadId (entries : List Dirent) :
    Picks IsTask entries (getAllThreadId (some entries)) := by
  obtain ⟨ids, hpicks, heq⟩ := Picks.foldl (readdirBody_cases id) entries []
  rw [List.nil_append] at heq
  rwa [getAllThreadId, heq]

/-- What is added for a process is its id, whatever its threads are. -/
theorem ProcEntry.emplaced_fst (isOnlyPid : Bool) (e : ProcEntry) (pid : UInt64) :
    (e.emplaced isOnlyPid pid).1 = pid := by
  unfold ProcEntry.emplaced
  split <;> rfl

theorem picks_getAllTaskId (isOnlyPid : Bool) (entries : List ProcEntry) :
    Picks (fun e x => IsTask e.entry x.1 ∧ x = e.emplaced isOnlyPid x.1) entries
      (getAllTaskId isOnlyPid (some entries)) := by
  have hbody (e : ProcEntry) :
      (∃ x : UInt64 × List UInt64, (IsTask e.entry x.1 ∧ x = e.emplaced isOnlyPid x.1) ∧
        ∀ out, readdirBody (e.emplaced isOnlyPid) out e.entry = out ++ [x]) ∨
      (∀ x : UInt64 × List UInt64, ¬(IsTask e.entry x.1 ∧ x = e.emplaced isOnlyPid x.1)) ∧
        ∀ out, readdirBody (e.emplaced isOnlyPid) out e.entry = out := by
    rcases readdirBody_cases (e.emplaced isOnlyPid) e.entry with ⟨pid, htask, hout⟩ | ⟨hnone, hout⟩
    · refine Or.inl ⟨e.emplaced isOnlyPid pid, ?_, hout⟩
      rw [e.emplaced_fst]
      exact ⟨htask, rfl⟩
    · exact Or.inr ⟨fun x h => hnone x.1 h.1, hout⟩
  obtain ⟨ids, hpicks, heq⟩ := Picks.foldl hbody entries []
  rw [List.nil_append] at heq
  rwa [getAllTaskId, heq]

/-- **Both loops list the tasks of their directory**: in the order of its entries, one
for each entry that stands for a task, under its id; and they list the same. -/
theorem tasks_listed (isOnlyPid : Bool) (proc : List ProcEntry) (task : List Dirent) :
    Picks IsTask task (getAllThreadId (some task)) ∧
    Picks (fun e x => IsTask e.entry x.1 ∧ x = e.emplaced isOnlyPid x.1) proc
      (getAllTaskId isOnlyPid (some proc)) ∧
    (getAllTaskId isOnlyPid (some proc)).map Prod.fst
      = getAllThreadId (some (proc.map ProcEntry.entry)) := by
  have hthreads := picks_getAllThreadId (proc.map ProcEntry.entry)
  have htasks := picks_getAllTaskId isOnlyPid proc
  have hids : Picks IsTask (proc.map ProcEntry.entry)
      ((getAllTaskId isOnlyPid (some proc)).map Prod.fst) := by
    refine htasks.map (fun _ _ h => h.1) fun e pid hpid => ?_
    refine ⟨e.emplaced isOnlyPid pid, ?_⟩
    rw [e.emplaced_fst]
    exact ⟨hpid, rfl⟩
  exact ⟨picks_getAllThreadId task, htasks, hids.unique (fun _ _ _ h h' => h.unique h') hthreads⟩

/-- A hidden name with a leading zero is taken; what is no number, no directory or too
long is not. -/
example : getAllThreadId (some [⟨dtDir, ascii ".012", by decide⟩, ⟨dtDir, ascii "7x", by decide⟩,
    ⟨8, ascii "9", by decide⟩, ⟨dtUnknown, ascii "18446744073709551616", by decide⟩]) = [12] := by
  decide +kernel

/-! ### What a cycle is given -/

/-- The task `id` is listed: it is a process of `/proc`, or a thread of one. -/
def Listed (proc : Option (List ProcEntry)) (id : UInt64) : Prop :=
  ∃ entries ∈ proc, ∃ e ∈ entries, ∃ pid, IsTask e.entry pid ∧
    (id = pid ∨ ∃ task ∈ e.taskDir pid, ∃ d ∈ task, IsTask d id)

theorem mem_getAllThreadId {dir : Option (List Dirent)} {id : UInt64} :
    id ∈ getAllThreadId dir ↔ ∃ entries ∈ dir, ∃ d ∈ entries, IsTask d id := by
  cases dir with
  | none => simp [getAllThreadId]
  | some entries =>
    rw [(picks_getAllThreadId entries).mem_iff fun _ _ _ h h' => h.unique h']
    simp

/-- **What is enumerated is what is listed.** -/
theorem mem_getAllTaskId {proc : Option (List ProcEntry)} {id : UInt64} :
    (∃ t ∈ getAllTaskId false proc, id = t.1 ∨ id ∈ t.2) ↔ Listed proc id := by
  unfold Listed
  cases proc with
  | none => simp [getAllTaskId]
  | some entries =>
    have hmem (t : UInt64 × List UInt64) : t ∈ getAllTaskId false (some entries) ↔
        ∃ e ∈ entries, IsTask e.entry t.1 ∧ t = e.emplaced false t.1 := by
      refine (picks_getAllTaskId false entries).mem_iff ?_
      rintro e t t' ⟨htask, ht⟩ ⟨htask', ht'⟩
      rw [ht, ht', htask.unique htask']
    have hthreads (e : ProcEntry) (pid : UInt64) :
        (e.emplaced false pid).2 = getAllThreadId (e.taskDir pid) := rfl
    simp only [hmem, Option.mem_def, Option.some.injEq, exists_eq_left']
    -- an id is in the list of the entry whose number is its process
    refine ⟨?_, ?_⟩
    · rintro ⟨t, ⟨e, he, htask, ht⟩, hid⟩
      rw [ht, hthreads, mem_getAllThreadId, e.emplaced_fst] at hid
      exact ⟨e, he, t.1, htask, hid⟩
    · rintro ⟨e, he, pid, htask, hid⟩
      refine ⟨e.emplaced false pid, ⟨e, he, ?_⟩, ?_⟩
      · rw [e.emplaced_fst]
        exact ⟨htask, rfl⟩
      · rwa [hthreads, mem_getAllThreadId, e.emplaced_fst]

end Util
end IotopCpp
