import IotopCpp.Lib.Memory
import IotopCpp.Monitor.IoMonitor

/-!
# Names in memory

The three `strncpy` of `handle_every_task_io_info`, over the bytes of a record.
`fillNames` has no meaning for a copy that runs past its array; here such a copy
writes what it writes, into whatever member comes next.

## Main definitions

* `userNameMember`, `shortCmdlineMember`, `fullCmdlineMember` — where the names lie.
* `strncpyAt` — `strncpy`, bounded by nothing but its length.
* `copyNames` — the three copies.
* `NamesStay` — every copy stays in its member, and leaves its source there, cut to
  what fits before a NUL.

## Main results

* `namesStay_iff` — the copies stay in their members exactly when no name is longer
  than 128 bytes.
* `namesAt_copyNames` — where `fillNames` has a result, these are its names.
-/

namespace IotopCpp

open Memory

/-! ### The record in memory -/

/-- `user_name`, `short_cmdline` and `full_cmdline` in `struct TaskIoInfo`: after four
members of four bytes each, one after another. -/
def userNameMember : Member := ⟨16, maxUserNameLength + 1⟩

def shortCmdlineMember : Member := ⟨145, maxCommandLength + 1⟩

def fullCmdlineMember : Member := ⟨274, maxCommandLength + 1⟩

theorem apart_userName_short : userNameMember.Apart shortCmdlineMember := by decide

theorem apart_userName_full : userNameMember.Apart fullCmdlineMember := by decide

theorem apart_short_full : shortCmdlineMember.Apart fullCmdlineMember := by decide

/-- `strncpy(dst, src, len)`: the C string at `src`, cut to `len` and filled up with NULs
to it.  Nothing keeps it inside the member that `dst` is the start of. -/
def strncpyAt (mem : Memory) (dst : ℕ) (src : Bytes) (len : ℕ) : Memory :=
  store mem dst ((cString src).take len ++ List.replicate (len - ((cString src).take len).length) 0)

/-- The copy of the user name. -/
def copyUserName (answers : TaskAnswers) (userId : ℤ) (mem : Memory) : Memory :=
  let userName := Util.getUserName answers.passwd userId
  strncpyAt mem userNameMember.off userName userName.length

/-- The copy of a command line, if it was read. -/
def copyCmdlineAt (m : Member) (cmdline : ℤ × Bytes) (mem : Memory) : Memory :=
  if 0 ≤ cmdline.1 then strncpyAt mem m.off cmdline.2 cmdline.2.length else mem

def copyShortCmdline (answers : TaskAnswers) (taskId : ℤ) : Memory → Memory :=
  copyCmdlineAt shortCmdlineMember (Util.getTaskCmdline true (answers.shortOpens.files taskId) [])

def copyFullCmdline (answers : TaskAnswers) (taskId : ℤ) : Memory → Memory :=
  copyCmdlineAt fullCmdlineMember (Util.getTaskCmdline false (answers.fullOpens.files taskId) [])

/-- The three copies, in the order in which `handle_every_task_io_info` makes them. -/
def copyNames (answers : TaskAnswers) (taskId userId : ℤ) (mem : Memory) : Memory :=
  copyFullCmdline answers taskId (copyShortCmdline answers taskId (copyUserName answers userId mem))

/-! ### What is copied -/

/-- The bytes copied of a command line: none, if it was not read. -/
def copied (cmdline : ℤ × Bytes) : Bytes := if 0 ≤ cmdline.1 then cmdline.2 else []

theorem zero_notMem_copied {cmdline : ℤ × Bytes} (h : 0 ∉ cmdline.2) : 0 ∉ copied cmdline := by
  unfold copied
  split
  · exact h
  · simp

/-- Copying the whole of a text without NUL writes it, and no more. -/
theorem strncpyAt_length {src : Bytes} (h : 0 ∉ src) (mem : Memory) (dst : ℕ) :
    strncpyAt mem dst src src.length = store mem dst src := by
  rw [strncpyAt, cString_eq_self h, List.take_length, Nat.sub_self, List.replicate_zero,
    List.append_nil]

theorem copyUserName_eq {answers : TaskAnswers} {userId : ℤ}
    (h : 0 ∉ Util.getUserName answers.passwd userId) (mem : Memory) :
    copyUserName answers userId mem
      = store mem userNameMember.off (Util.getUserName answers.passwd userId) :=
  strncpyAt_length h mem _

theorem copyCmdlineAt_eq {cmdline : ℤ × Bytes} (h : 0 ∉ cmdline.2) (m : Member) (mem : Memory) :
    copyCmdlineAt m cmdline mem = store mem m.off (copied cmdline) := by
  unfold copyCmdlineAt copied
  split
  · exact strncpyAt_length h mem _
  · exact store_nil.symm

/-! ### One copy -/

/-- The member holds `src`, cut to what fits before a NUL. -/
structure Holds (mem : Memory) (m : Member) (src : Bytes) : Prop where
  terminated : 0 ∈ load mem m.off m.size
  content : cString (load mem m.off m.size) = src.take (m.size - 1)

/-- Nothing outside the member has changed. -/
def Frame (m : Member) (mem mem' : Memory) : Prop := ∀ a, ¬m.Contains a → mem' a = mem a

section

variable {mem mem' : Memory} {m m' : Member} {src : Bytes}

theorem frame_store (h : src.length ≤ m.size) : Frame m mem (store mem m.off src) := by
  intro a ha
  unfold Member.Contains at ha
  exact store_outside (by omega)

/-- A member that lies before or after the one written. -/
theorem Frame.load (h : Frame m mem mem')
    (hapart : m.Apart m') : load mem' m'.off m'.size = load mem m'.off m'.size := by
  refine load_congr fun a ha ha' => h a ?_
  unfold Member.Contains
  unfold Member.Apart at hapart
  omega

/-- A member of NULs holds what is written to it, unless that fills it. -/
theorem holds_store_iff (hzero : Memory.load mem m.off m.size = List.replicate m.size 0)
    (hsrc : 0 ∉ src) : Holds (store mem m.off src) m src ↔ src.length < m.size := by
  have hload : Memory.load (store mem m.off src) m.off m.size
      = src.take m.size ++ List.replicate (m.size - src.length) 0 := by
    rw [load_store, hzero, List.drop_replicate]
  refine ⟨?_, ?_⟩
  · intro h
    by_contra hlong
    have hnone : m.size - src.length = 0 := by omega
    have hmem := h.terminated
    rw [hload, hnone, List.replicate_zero, List.append_nil] at hmem
    exact hsrc (List.mem_of_mem_take hmem)
  · intro hlt
    obtain ⟨k, hk⟩ : ∃ k, m.size - src.length = k + 1 := ⟨m.size - src.length - 1, by omega⟩
    rw [hk, List.take_of_length_le (by omega), List.replicate_succ] at hload
    refine ⟨?_, ?_⟩
    · rw [hload]
      simp
    · rw [hload, cString_append_zero hsrc, List.take_of_length_le (by omega)]

end

/-! ### The three copies -/

/-- **The copies stay in their members**: each changes nothing outside its own, and
after the three each member holds its source. -/
structure NamesStay (answers : TaskAnswers) (taskId userId : ℤ) (mem : Memory) : Prop where
  ownUserName : Frame userNameMember mem (copyUserName answers userId mem)
  ownShortCmdline : Frame shortCmdlineMember (copyUserName answers userId mem)
    (copyShortCmdline answers taskId (copyUserName answers userId mem))
  ownFullCmdline : Frame fullCmdlineMember
    (copyShortCmdline answers taskId (copyUserName answers userId mem))
    (copyNames answers taskId userId mem)
  userName : Holds (copyNames answers taskId userId mem) userNameMember
    (Util.getUserName answers.passwd userId)
  shortCmdline : Holds (copyNames answers taskId userId mem) shortCmdlineMember
    (copied (Util.getTaskCmdline true (answers.shortOpens.files taskId) []))
  fullCmdline : Holds (copyNames answers taskId userId mem) fullCmdlineMember
    (copied (Util.getTaskCmdline false (answers.fullOpens.files taskId) []))

/-- A member whose bytes are NULs. -/
def Zeroed (mem : Memory) (m : Member) : Prop := load mem m.off m.size = List.replicate m.size 0

section

variable {mem mem' : Memory} {m m' : Member} {src : Bytes}

theorem Frame.zeroed (h : Frame m mem mem') (hapart : m.Apart m') (hzero : Zeroed mem m') :
    Zeroed mem' m' := (h.load hapart).trans hzero

theorem Frame.holds_iff (h : Frame m mem mem') (hapart : m.Apart m') :
    Holds mem' m' src ↔ Holds mem m' src := by
  have hload := h.load hapart
  refine ⟨fun hh => ⟨?_, ?_⟩, fun hh => ⟨?_, ?_⟩⟩
  · exact hload ▸ hh.terminated
  · exact hload ▸ hh.content
  · exact hload ▸ hh.terminated
  · exact hload ▸ hh.content

end

section

variable {answers : TaskAnswers} {taskId userId : ℤ} {mem : Memory}
  (hname : 0 ∉ Util.getUserName answers.passwd userId)

theorem copyShortCmdline_eq (mem : Memory) :
    copyShortCmdline answers taskId mem = store mem shortCmdlineMember.off
      (copied (Util.getTaskCmdline true (answers.shortOpens.files taskId) [])) :=
  copyCmdlineAt_eq (Util.zero_notMem_getTaskCmdline true (answers.shortOpens.files taskId)) _ mem

theorem copyFullCmdline_eq (mem : Memory) :
    copyFullCmdline answers taskId mem = store mem fullCmdlineMember.off
      (copied (Util.getTaskCmdline false (answers.fullOpens.files taskId) [])) :=
  copyCmdlineAt_eq (Util.zero_notMem_getTaskCmdline false (answers.fullOpens.files taskId)) _ mem

theorem zero_notMem_copied_cmdline (isShort : Bool) (files : Util.ProcFiles) :
    0 ∉ copied (Util.getTaskCmdline isShort files []) :=
  zero_notMem_copied (Util.zero_notMem_getTaskCmdline isShort files)

include hname

/-- **When the copies stay in their members**: for names of at most 128 bytes. -/
theorem namesStay_iff (huser : Zeroed mem userNameMember) (hshort : Zeroed mem shortCmdlineMember)
    (hfull : Zeroed mem fullCmdlineMember) :
    NamesStay answers taskId userId mem ↔
      (Util.getUserName answers.passwd userId).length ≤ maxUserNameLength ∧
      (copied (Util.getTaskCmdline true (answers.shortOpens.files taskId) [])).length ≤ maxCommandLength ∧
      (copied (Util.getTaskCmdline false (answers.fullOpens.files taskId) [])).length ≤ maxCommandLength := by
  have hnoNul := zero_notMem_copied_cmdline
  refine ⟨?_, ?_⟩
  · intro h
    have hshort₁ : Zeroed (copyUserName answers userId mem) shortCmdlineMember :=
      h.ownUserName.zeroed apart_userName_short hshort
    have hfull₁ : Zeroed (copyUserName answers userId mem) fullCmdlineMember :=
      h.ownUserName.zeroed apart_userName_full hfull
    have hfull₂ := h.ownShortCmdline.zeroed apart_short_full hfull₁
    -- what a member holds at the end, it holds after its own copy
    have huser₁ := (h.ownShortCmdline.holds_iff apart_userName_short.symm).1
      ((h.ownFullCmdline.holds_iff apart_userName_full.symm).1 h.userName)
    have hshort₂ := (h.ownFullCmdline.holds_iff apart_short_full.symm).1 h.shortCmdline
    have hfull₃ := h.fullCmdline
    rw [copyUserName_eq hname, holds_store_iff huser hname] at huser₁
    rw [copyShortCmdline_eq, holds_store_iff hshort₁ (hnoNul _ _)] at hshort₂
    rw [copyNames, copyFullCmdline_eq, holds_store_iff hfull₂ (hnoNul _ _)] at hfull₃
    exact ⟨Nat.le_of_lt_succ huser₁, Nat.le_of_lt_succ hshort₂, Nat.le_of_lt_succ hfull₃⟩
  · intro h
    obtain ⟨hlen₁, hlen₂, hlen₃⟩ := h
    have hown₁ : Frame userNameMember mem (copyUserName answers userId mem) := by
      rw [copyUserName_eq hname]
      exact frame_store (Nat.le_succ_of_le hlen₁)
    have hown₂ (mem : Memory) : Frame shortCmdlineMember mem (copyShortCmdline answers taskId mem) := by
      rw [copyShortCmdline_eq]
      exact frame_store (Nat.le_succ_of_le hlen₂)
    have hown₃ (mem : Memory) : Frame fullCmdlineMember mem (copyFullCmdline answers taskId mem) := by
      rw [copyFullCmdline_eq]
      exact frame_store (Nat.le_succ_of_le hlen₃)
    have hshort₁ : Zeroed (copyUserName answers userId mem) shortCmdlineMember :=
      hown₁.zeroed apart_userName_short hshort
    have hfull₁ : Zeroed (copyUserName answers userId mem) fullCmdlineMember :=
      hown₁.zeroed apart_userName_full hfull
    have hfull₂ := (hown₂ _).zeroed apart_short_full hfull₁
    refine ⟨hown₁, hown₂ _, hown₃ _, ?_, ?_, ?_⟩
    · refine ((hown₃ _).holds_iff apart_userName_full.symm).2 ?_
      refine ((hown₂ _).holds_iff apart_userName_short.symm).2 ?_
      rw [copyUserName_eq hname, holds_store_iff huser hname]
      exact Nat.lt_succ_of_le hlen₁
    · refine ((hown₃ _).holds_iff apart_short_full.symm).2 ?_
      rw [copyShortCmdline_eq, holds_store_iff hshort₁ (hnoNul _ _)]
      exact Nat.lt_succ_of_le hlen₂
    · rw [copyNames, copyFullCmdline_eq, holds_store_iff hfull₂ (hnoNul _ _)]
      exact Nat.lt_succ_of_le hlen₃

end

/-- A task with the command line `cmdline`. -/
def namedTask (cmdline : Bytes) : TaskAnswers :=
  { TaskAnswers.unnamed (.answered none) with
    shortOpens := ⟨fun _ => some cmdline, fun _ => none⟩
    fullOpens := ⟨fun _ => some cmdline, fun _ => none⟩ }

theorem namesStay_iff_namedTask :
    Zeroed (fun _ => 0) userNameMember ∧ Zeroed (fun _ => 0) shortCmdlineMember ∧
      Zeroed (fun _ => 0) fullCmdlineMember ∧
      0 ∉ Util.getUserName (namedTask [97, 0]).passwd 0 ∧
      (NamesStay (namedTask [97, 0]) 7 0 (fun _ => 0) ↔
        (Util.getUserName (namedTask [97, 0]).passwd 0).length ≤ maxUserNameLength ∧
        (copied (Util.getTaskCmdline true ((namedTask [97, 0]).shortOpens.files 7) [])).length
          ≤ maxCommandLength ∧
        (copied (Util.getTaskCmdline false ((namedTask [97, 0]).fullOpens.files 7) [])).length
          ≤ maxCommandLength) := by
  have huser : Zeroed (fun _ => 0) userNameMember := by rfl
  have hshort : Zeroed (fun _ => 0) shortCmdlineMember := by rfl
  have hfull : Zeroed (fun _ => 0) fullCmdlineMember := by rfl
  have hname : 0 ∉ Util.getUserName (namedTask [97, 0]).passwd 0 := by decide
  exact ⟨huser, hshort, hfull, hname, namesStay_iff hname huser hshort hfull⟩

/-- A command line of 135 bytes ends in the first of the counters. -/
theorem not_namesStay_namedTask :
    0 ∉ Util.getUserName (namedTask (List.replicate 135 97)).passwd 0 ∧
      copyNames (namedTask (List.replicate 135 97)) 7 0 (fun _ => 0) 408 = 97 ∧
      ¬NamesStay (namedTask (List.replicate 135 97)) 7 0 (fun _ => 0) := by
  have hcounter : copyNames (namedTask (List.replicate 135 97)) 7 0 (fun _ => 0) 408 = 97 := by
    decide +kernel
  refine ⟨by decide, hcounter, ?_⟩
  intro h
  have hkept := h.ownFullCmdline 408 (by unfold Member.Contains; decide)
  rw [hcounter] at hkept
  exact absurd hkept (by decide +kernel)

/-! ### The record the copies are made for -/

/-- The names of `r` are in memory. -/
structure NamesAt (mem : Memory) (r : TaskIoInfo) : Prop where
  userName : load mem userNameMember.off userNameMember.size = r.userName.bytes
  shortCmdline : load mem shortCmdlineMember.off shortCmdlineMember.size = r.shortCmdline.bytes
  fullCmdline : load mem fullCmdlineMember.off fullCmdlineMember.size = r.fullCmdline.bytes

section

variable {m : Member} {dst dst' : CharArray m.size} {mem : Memory}

/-- A copy that fits its array: the member gets in memory what the array gets, and
nothing else changes. -/
theorem strncpyAt_of_strncpy {src : Bytes} {len : ℕ} (h : dst.strncpy src len = some dst')
    (hload : load mem m.off m.size = dst.bytes) :
    load (strncpyAt mem m.off src len) m.off m.size = dst'.bytes ∧
      Frame m mem (strncpyAt mem m.off src len) := by
  unfold CharArray.strncpy at h
  split at h
  · next hle =>
    obtain rfl := Option.some.inj h
    have hlen : ((cString src).take len
        ++ List.replicate (len - ((cString src).take len).length) 0).length = len := by
      have htake : ((cString src).take len).length ≤ len := List.length_take_le _ _
      rw [List.length_append, List.length_replicate]
      omega
    refine ⟨?_, frame_store (hlen.trans_le hle)⟩
    rw [strncpyAt, load_store, hlen, hload, List.take_of_length_le (hlen.trans_le hle)]
  · cases h

theorem copyCmdlineAt_of_copyCmdline {cmdline : ℤ × Bytes}
    (h : copyCmdline dst cmdline = some dst') (hload : load mem m.off m.size = dst.bytes) :
    load (copyCmdlineAt m cmdline mem) m.off m.size = dst'.bytes ∧
      Frame m mem (copyCmdlineAt m cmdline mem) := by
  unfold copyCmdline at h
  unfold copyCmdlineAt
  split at h
  · next hread =>
    rw [if_pos hread]
    exact strncpyAt_of_strncpy h hload
  · next hread =>
    obtain rfl := Option.some.inj h
    rw [if_neg hread]
    exact ⟨hload, fun _ _ => rfl⟩

end

/-- Where `fillNames` has a result, its names are what the copies leave in memory. -/
theorem namesAt_copyNames {answers : TaskAnswers} {r r' : TaskIoInfo} {mem : Memory}
    (h : fillNames answers r = some r') (hat : NamesAt mem r) :
    NamesAt (copyNames answers r.taskId r.userId mem) r' := by
  simp only [fillNames, Option.bind_eq_bind, Option.bind_eq_some_iff, Option.some.injEq] at h
  obtain ⟨userName, huser, shortCmdline, hshort, fullCmdline, hfull, rfl⟩ := h
  obtain ⟨hload₁, hframe₁⟩ := strncpyAt_of_strncpy (m := userNameMember) huser hat.userName
  have hshort₁ := (hframe₁.load apart_userName_short).trans hat.shortCmdline
  obtain ⟨hload₂, hframe₂⟩ := copyCmdlineAt_of_copyCmdline (m := shortCmdlineMember) hshort hshort₁
  have hfull₁ := (hframe₁.load apart_userName_full).trans hat.fullCmdline
  have hfull₂ := (hframe₂.load apart_short_full).trans hfull₁
  obtain ⟨hload₃, hframe₃⟩ := copyCmdlineAt_of_copyCmdline (m := fullCmdlineMember) hfull hfull₂
  -- a later copy does not reach an earlier member
  have huser₂ := (hframe₂.load apart_userName_short.symm).trans hload₁
  exact ⟨(hframe₃.load apart_userName_full.symm).trans huser₂,
    (hframe₃.load apart_short_full.symm).trans hload₂, hload₃⟩

end IotopCpp
