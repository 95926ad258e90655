import IotopCpp.Util
import IotopCpp.Lib.Text

/-!
# Command lines

`/proc/<pid>/cmdline` holds the arguments of a task, each followed by a NUL.
`getTaskCmdline` reads a line of it and passes the line through a C string, so
it sees the first argument, and of that the first line.

A short command line is to be the argument without its directory.  The search is
for the first `/`, so that is what it is only for a path with a single one.  A
full command line is to hold every argument, and the name of a task without any
is to be the one in `/proc/<pid>/status`; the line's terminator stays with it.

* `getTaskCmdline_of_cmdline`, `getTaskCmdline_of_status` — what is returned.
* `shortCmdline_iff` — when the short command line is the name of the program.
* `fullCmdline_iff` — when the full command line holds every argument.
-/

namespace IotopCpp
namespace Util

open Text

/-! ### The first line -/

theorem firstLine_eq_self_of_notMem {s : Bytes} (h : newline ∉ s) : firstLine s = s := by
  induction s with
  | nil => rfl
  | cons c s ih =>
    have hne : c ≠ newline := ne_of_mem_of_not_mem List.mem_cons_self h
    simp only [firstLine, if_neg hne]
    rw [ih fun hmem => h (List.mem_cons_of_mem _ hmem)]

theorem firstLine_append_newline {p : Bytes} (h : newline ∉ p) (q : Bytes) :
    firstLine (p ++ newline :: q) = p ++ [newline] := by
  induction p with
  | nil => simp [firstLine]
  | cons c p ih =>
    have hne : c ≠ newline := ne_of_mem_of_not_mem List.mem_cons_self h
    simp only [List.cons_append, firstLine, if_neg hne]
    rw [ih fun hmem => h (List.mem_cons_of_mem _ hmem)]

theorem firstLine_isPrefix (s : Bytes) : firstLine s <+: s := by
  induction s with
  | nil => exact List.prefix_rfl
  | cons c s ih =>
    unfold firstLine
    split
    · exact ⟨s, rfl⟩
    · exact List.prefix_cons_inj c |>.2 ih

theorem firstLine_ne_nil {s : Bytes} (h : s ≠ []) : firstLine s ≠ [] := by
  cases s with
  | nil => exact absurd rfl h
  | cons c s =>
    unfold firstLine
    split <;> simp

/-- A line is the whole text when the text goes on to no second line. -/
theorem firstLine_eq_self_iff {s : Bytes} : firstLine s = s ↔ newline ∉ s.dropLast := by
  by_cases hmem : newline ∈ s
  · obtain ⟨p, q, rfl, hp⟩ := List.eq_append_cons_of_mem hmem
    rw [firstLine_append_newline hp, List.append_cancel_left_eq]
    cases q with
    | nil => simpa [List.dropLast_append_of_ne_nil] using hp
    | cons c q => simp [List.dropLast_append_of_ne_nil]
  · exact iff_of_true (firstLine_eq_self_of_notMem hmem)
      fun hdrop => hmem (List.dropLast_subset _ hdrop)

/-- The C string of a line is the line of the C string. -/
theorem cString_firstLine (content : Bytes) :
    cString (firstLine content) = firstLine (cString content) := by
  induction content with
  | nil => rfl
  | cons c content ih =>
    unfold cString at ih ⊢
    by_cases hline : c = newline
    · subst hline
      rfl
    · by_cases hzero : c = 0
      · subst hzero
        simp [firstLine, hline]
      · simp [firstLine, hline, hzero, ih]

/-- A file is read up to its first line feed or its first NUL. -/
theorem getFileFirstLine_some {content : Bytes} (h : cString content ≠ []) (line : Bytes) :
    getFileFirstLine (some content) line = (0, firstLine (cString content)) := by
  cases content with
  | nil => exact absurd rfl h
  | cons c content => simp only [getFileFirstLine, cString_firstLine]

/-- A command line that is not empty is returned, cut if it is to be short. -/
theorem getTaskCmdline_of_cmdline {content : Bytes} (h : cString content ≠ []) (isShort : Bool)
    (status : Option Bytes) (cmdline : Bytes) :
    getTaskCmdline isShort ⟨some content, status⟩ cmdline
      = (0, if isShort && startsAsPath (firstLine (cString content)) then
          afterFirst slash (firstLine (cString content)) else firstLine (cString content)) := by
  have hline := firstLine_ne_nil h
  simp only [getTaskCmdline, getFileFirstLine_some h]
  rw [if_pos ⟨le_rfl, hline⟩]

/-- Without a command line, the first line of the status file is returned, from
its tab on. -/
theorem getTaskCmdline_of_status {content : Bytes} (h : cString content ≠ []) (isShort : Bool)
    (cmdline : Bytes) :
    getTaskCmdline isShort ⟨some [], some content⟩ cmdline
      = (0, afterFirst tab (firstLine (cString content))) := by
  have hline := firstLine_ne_nil h
  -- an empty file leaves the string as it was
  have hempty : getFileFirstLine (some []) cmdline = (-2, cmdline) := rfl
  have hfails : ¬ ((0 : ℤ) ≤ -2 ∧ cmdline ≠ []) := by omega
  simp only [getTaskCmdline, hempty, getFileFirstLine_some h]
  rw [if_neg hfails, if_pos ⟨le_rfl, hline⟩]

/-! ### After the first separator -/

theorem afterFirst_append {c : UInt8} {p q : Bytes} (hp : c ∉ p) :
    afterFirst c (p ++ c :: q) = if q = [] then p ++ [c] else q := by
  have hfound : (p ++ c :: q).findIdx? (· == c) = some p.length := by
    rw [List.findIdx?_append, List.findIdx?_eq_none_iff.2 ?_]
    · simp [List.findIdx?_cons]
    · intro x hx
      simpa using ne_of_mem_of_not_mem hx hp
  simp only [afterFirst, hfound]
  by_cases hq : q = []
  · subst hq
    simp
  · have hpos : 0 < q.length := List.length_pos_iff.2 hq
    have hlt : p.length + 1 < (p ++ c :: q).length := by
      simp only [List.length_append, List.length_cons]
      omega
    rw [if_pos hlt, if_neg hq, List.drop_append]
    simp

theorem slash_mem_of_startsAsPath {s : Bytes} (h : startsAsPath s) : slash ∈ s := by
  simp only [startsAsPath, Bool.or_eq_true, List.isPrefixOf_iff_prefix] at h
  rcases h with (h | h) | h
  · exact h.subset (by simp)
  · exact h.subset (by simp)
  · exact h.subset (by simp)

/-- The path after its first `/` is the path after its last `/` when it has one
`/` only. -/
theorem afterFirst_slash_eq_iff {path : Bytes} (hslash : slash ∈ path)
    (hlast : path.getLast? ≠ some slash) :
    afterFirst slash path = afterLast slash path ↔ path.count slash = 1 := by
  obtain ⟨p, q, rfl, hp⟩ := List.eq_append_cons_of_mem hslash
  have hq : q ≠ [] := by
    rintro rfl
    simp at hlast
  rw [afterFirst_append hp, if_neg hq, afterLast_append_sep, eq_comm, afterLast_eq_self_iff,
    List.count_append, List.count_cons_self, List.count_eq_zero_of_not_mem hp,
    ← List.count_eq_zero]
  omega

/-! ### The short command line -/

/-- The short command line of a task whose first argument is `first` is the part
of it after its last `/` if it starts as a path, and all of it otherwise. -/
def ShortCmdline (files : ProcFiles) (cmdline first : Bytes) : Prop :=
  ∃ c, getTaskCmdline true files cmdline = (0, c) ∧
    if startsAsPath first then c = afterLast slash first ∧ slash ∉ c else c = first

/-- The short command line drops the directory of a path exactly when the path
has a single `/`.  The first argument, the C string at the start of the file, is
of one line, and does not name a directory. -/
theorem shortCmdline_iff {content first : Bytes} (hfirst : cString content = first)
    (hne : first ≠ []) (hline : newline ∉ first)
    (hlast : startsAsPath first → first.getLast? ≠ some slash) (status : Option Bytes)
    (cmdline : Bytes) :
    ShortCmdline ⟨some content, status⟩ cmdline first
      ↔ (startsAsPath first → first.count slash = 1) := by
  subst hfirst
  have hresult := getTaskCmdline_of_cmdline hne true status cmdline
  rw [firstLine_eq_self_of_notMem hline] at hresult
  unfold ShortCmdline
  rw [hresult]
  by_cases hpath : startsAsPath (cString content)
  · have hslash := slash_mem_of_startsAsPath hpath
    have hcut := afterFirst_slash_eq_iff hslash (hlast hpath)
    simp only [hpath, Bool.true_and, if_true, forall_true_left]
    -- what is behind the first `/` is behind the last one when there is one only
    rw [← hcut]
    refine ⟨?_, fun heq => ⟨_, rfl, heq, ?_⟩⟩
    · intro h
      obtain ⟨c, hc, hlast', -⟩ := h
      exact (Prod.mk.inj hc).2.trans hlast'
    · rw [heq]
      exact sep_notMem_afterLast
  · simp [hpath]

/-- The command line of an editor. -/
def editorPath : Bytes := ascii "/usr/bin/vi"

theorem shortCmdline_iff_editorPath :
    ShortCmdline ⟨some (editorPath ++ [0]), none⟩ [] editorPath
      ↔ (startsAsPath editorPath → editorPath.count slash = 1) :=
  shortCmdline_iff (by decide) (by decide) (by decide) (by decide) none []

/-- The editor's directory stays in its short command line. -/
theorem not_shortCmdline_editorPath :
    ¬ ShortCmdline ⟨some (editorPath ++ [0]), none⟩ [] editorPath := by
  intro h
  obtain ⟨c, hc, hname⟩ := h
  have hresult : getTaskCmdline true ⟨some (editorPath ++ [0]), none⟩ []
      = (0, ascii "usr/bin/vi") := by decide
  rw [hresult] at hc
  obtain ⟨-, rfl⟩ := Prod.mk.inj hc
  revert hname
  decide

/-! ### The full command line -/

/-- The full command line of a task holds its arguments in order. -/
def FullCmdline (files : ProcFiles) (cmdline : Bytes) (args : List Bytes) : Prop :=
  ∃ c, getTaskCmdline false files cmdline = (0, c) ∧ InOrder c args

/-- The file of a task with these arguments: each one, and a NUL. -/
def cmdlineFile (args : List Bytes) : Bytes := args.flatMap (· ++ [0])

/-- The status file of a task with this name. -/
def statusFile (name rest : Bytes) : Bytes :=
  ascii "Name:\t" ++ (name ++ newline :: rest)

theorem cString_cmdlineFile {arg : Bytes} (h : 0 ∉ arg) (args : List Bytes) :
    cString (cmdlineFile (arg :: args)) = arg := by
  have hsplit : cmdlineFile (arg :: args) = arg ++ 0 :: cmdlineFile args := by
    simp [cmdlineFile]
  rw [hsplit, cString_append_zero h]

/-- The full command line holds every argument exactly when the first argument
has no line feed before its last character, and no other argument has any text. -/
theorem holdsArguments_iff {arg : Bytes} (hne : arg ≠ []) (harg : 0 ∉ arg) (args : List Bytes)
    (status : Option Bytes) (cmdline : Bytes) :
    FullCmdline ⟨some (cmdlineFile (arg :: args)), status⟩ cmdline (arg :: args)
      ↔ newline ∉ arg.dropLast ∧ ∀ a ∈ args, a = [] := by
  have hfirst := cString_cmdlineFile harg args
  have hresult : getTaskCmdline false ⟨some (cmdlineFile (arg :: args)), status⟩ cmdline
      = (0, firstLine arg) := by
    rw [getTaskCmdline_of_cmdline (by rwa [hfirst]), hfirst]
    rfl
  have hholds : FullCmdline ⟨some (cmdlineFile (arg :: args)), status⟩ cmdline (arg :: args)
      ↔ InOrder (firstLine arg) (arg :: args) := by
    unfold FullCmdline
    rw [hresult]
    simp
  rw [hholds, inOrder_isPrefix_iff (firstLine_isPrefix arg), firstLine_eq_self_iff]

/-- The name comes with the end of its line, so it is never the name alone. -/
theorem getTaskCmdline_statusFile_ne {name : Bytes} (hname : newline ∉ name) (rest : Bytes)
    (cmdline : Bytes) :
    getTaskCmdline false ⟨some [], some (statusFile name rest)⟩ cmdline ≠ (0, name) := by
  intro h
  have hkey : (0 : UInt8) ∉ ascii "Name:\t" := by decide
  have hcontent : cString (statusFile name rest)
      = ascii "Name:\t" ++ cString (name ++ newline :: rest) := by
    unfold statusFile
    rw [cString_append hkey]
  have hne : cString (statusFile name rest) ≠ [] := by
    rw [hcontent]
    simp [ascii]
  rw [getTaskCmdline_of_status hne] at h
  obtain ⟨-, hresult⟩ := Prod.mk.inj h
  -- a name with a NUL would be cut at it
  have hzero : 0 ∉ name := by
    rw [← hresult]
    refine zero_notMem_afterFirst _ ?_
    intro hmem
    exact zero_notMem_cString _ ((firstLine_isPrefix _).subset hmem)
  have hline : firstLine (cString (statusFile name rest))
      = ascii "Name:" ++ tab :: (name ++ [newline]) := by
    have hnewline : newline ∉ ascii "Name:\t" ++ name := by
      rw [List.mem_append, not_or]
      exact ⟨by decide, hname⟩
    have hsecond : cString (newline :: rest) = newline :: cString rest := rfl
    rw [hcontent, cString_append hzero, hsecond, ← List.append_assoc,
      firstLine_append_newline hnewline]
    simp [ascii, tab]
  rw [hline, afterFirst_append (by decide), if_neg (by simp)] at hresult
  have hlength := congrArg List.length hresult
  simp at hlength

/-- When the full command line is complete.  The first part is about a task with
arguments, which hold no NUL as each ends at one; the second is about a task
without, and there is no name for which it gives the name itself. -/
theorem fullCmdline_iff (cmdline : Bytes) {arg : Bytes} {args : List Bytes} (hne : arg ≠ [])
    (hzero : ∀ a ∈ arg :: args, 0 ∉ a) (status : Option Bytes) {name : Bytes}
    (hname : newline ∉ name) (rest : Bytes) :
    (FullCmdline ⟨some (cmdlineFile (arg :: args)), status⟩ cmdline (arg :: args)
        ↔ newline ∉ arg.dropLast ∧ ∀ a ∈ args, a = [])
      ∧ getTaskCmdline false ⟨some [], some (statusFile name rest)⟩ cmdline ≠ (0, name) := by
  refine ⟨?_, ?_⟩
  · exact holdsArguments_iff hne (hzero arg List.mem_cons_self) args status cmdline
  · exact getTaskCmdline_statusFile_ne hname rest cmdline

theorem fullCmdline_iff_editor :
    (FullCmdline ⟨some (cmdlineFile [editorPath, []]), none⟩ [] [editorPath, []]
        ↔ newline ∉ editorPath.dropLast ∧ ∀ a ∈ [([] : Bytes)], a = [])
      ∧ getTaskCmdline false ⟨some [], some (statusFile (ascii "vi") [])⟩ []
        ≠ (0, ascii "vi") :=
  fullCmdline_iff [] (by decide) (by decide) none (by decide) []

/-- The name of the edited file is lost, and the name of a task without
arguments ends its line. -/
theorem not_fullCmdline_editor :
    ¬ FullCmdline ⟨some (cmdlineFile [editorPath, ascii "a"]), none⟩ []
        [editorPath, ascii "a"]
      ∧ getTaskCmdline false ⟨some [], some (statusFile (ascii "vi") [])⟩ []
        = (0, ascii "vi\n") := by
  refine ⟨?_, by decide⟩
  intro h
  obtain ⟨c, hc, horder⟩ := h
  have hresult : getTaskCmdline false
      ⟨some (cmdlineFile [editorPath, ascii "a"]), none⟩ [] = (0, editorPath) := by decide
  rw [hresult] at hc
  obtain ⟨-, rfl⟩ := Prod.mk.inj hc
  -- there is no room for the second argument after the first
  have hroom := horder.length_flatten_le
  revert hroom
  decide

end Util
end IotopCpp
