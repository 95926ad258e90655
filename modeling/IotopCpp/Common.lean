import Mathlib.Data.List.TakeWhile
import Mathlib.Data.Rat.Defs
import Mathlib.Algebra.Order.Ring.Unbundled.Rat
import IotopCpp.Lib.Bytes
import IotopCpp.Lib.MarkSweep

/-!
# The shared data model

The records of `common/common.h`, with the fixed-size character arrays they hold.

The program computes rates as `double`; here they are rationals, so that what is
proved about a rate is about the formula and not about rounding.  Counters and
timestamps keep their 64-bit type, since the program subtracts them.  An `int`
or a `pid_t` is an integer, narrowed explicitly where the program narrows.

* `CharArray n`, `CharArray.strncpy` — `char[n]` and the copy into it.
* `TaskIoInfo`, `SystemIoInfo` — the record of a task, and the table of tasks.
-/

namespace IotopCpp

/-- `MAX_COMMAND_LENGTH`: the longest command line kept. -/
def maxCommandLength : ℕ := 128

/-- `MAX_USER_NAME_LENGTH`: the longest user name kept. -/
def maxUserNameLength : ℕ := 128

/-! ### Character arrays -/

/-- A `char[n]` member. -/
structure CharArray (n : ℕ) where
  bytes : Bytes
  length_eq : bytes.length = n
  deriving DecidableEq

/-- The C string at the start of a run of bytes: what comes before the first NUL. -/
def cString (s : Bytes) : Bytes := s.takeWhile (· != 0)

theorem zero_notMem_cString (s : Bytes) : 0 ∉ cString s := by
  intro h
  have hne := List.mem_takeWhile_imp h
  simp at hne

theorem length_cString_le (s : Bytes) : (cString s).length ≤ s.length :=
  (List.takeWhile_sublist _).length_le

theorem cString_eq_self {s : Bytes} (h : 0 ∉ s) : cString s = s := by
  refine List.takeWhile_eq_self_iff.2 ?_
  intro c hc
  simpa using ne_of_mem_of_not_mem hc h

theorem cString_append {s : Bytes} (h : 0 ∉ s) (rest : Bytes) :
    cString (s ++ rest) = s ++ cString rest := by
  refine List.takeWhile_append_of_pos ?_
  intro c hc
  simpa using ne_of_mem_of_not_mem hc h

/-- The C string of a text that is followed by a NUL. -/
theorem cString_append_zero {s : Bytes} (h : 0 ∉ s) (rest : Bytes) :
    cString (s ++ 0 :: rest) = s := by
  rw [cString_append h, cString, List.takeWhile_cons_of_neg (by simp), List.append_nil]

namespace CharArray

/-- The C string a `char[n]` holds.  Without a NUL it has no end. -/
def toCString {n : ℕ} (a : CharArray n) : Option Bytes :=
  if 0 ∈ a.bytes then some (cString a.bytes) else none

/-- The initializer `{0}`. -/
def zeros (n : ℕ) : CharArray n := ⟨List.replicate n 0, List.length_replicate⟩

/-- `strncpy(dst, src, len)`: the characters of `src` up to its NUL, at most
`len` of them, then NULs up to `len`.  Nothing bounds `len` by the array, so a
longer copy runs past its end; the language gives that no meaning, and neither
does the model. -/
def strncpy {n : ℕ} (dst : CharArray n) (src : Bytes) (len : ℕ) : Option (CharArray n) :=
  if h : len ≤ n then
    some {
      bytes := (cString src).take len ++ List.replicate (len - ((cString src).take len).length) 0
        ++ dst.bytes.drop len
      length_eq := by
        have hlen : ((cString src).take len).length ≤ len := List.length_take_le _ _
        have hdst := dst.length_eq
        simp only [List.length_append, List.length_replicate, List.length_drop]
        omega }
  else none

theorem strncpy_isSome {n : ℕ} {dst : CharArray n} {src : Bytes} {len : ℕ} :
    (dst.strncpy src len).isSome ↔ len ≤ n := by
  unfold strncpy
  split <;> simp_all

end CharArray

/-! ### The record of a task -/

/-- `pid_t` from a 64-bit id: the low 32 bits, read as a signed number. -/
def toPidT (id : UInt64) : ℤ := Int.bmod id.toNat (2 ^ 32)

theorem toPidT_eq {id : UInt64} (h : id.toNat < 2 ^ 31) : toPidT id = id.toNat := by
  unfold toPidT
  rw [Int.bmod_eq_of_le] <;> omega

theorem natAbs_toPidT_le (id : UInt64) : (toPidT id).natAbs ≤ 2 ^ 31 := by
  have hlow := Int.le_bmod (x := id.toNat) (show 0 < 2 ^ 32 by decide)
  have hhigh := Int.bmod_lt (x := id.toNat) (show 0 < 2 ^ 32 by decide)
  unfold toPidT
  omega

/-- `struct TaskIoInfo`, with its default member initializers.  The names are arrays of
`char` of a fixed size, which need not end in a NUL, and the periods are rationals in
place of `double`. -/
structure TaskIoInfo where
  taskId : ℤ := -1
  /-- Set for a process, clear for a thread. -/
  isPid : Bool := false
  ioPriority : ℤ := -1
  userId : ℤ := 0
  userName : CharArray (maxUserNameLength + 1) := .zeros _
  shortCmdline : CharArray (maxCommandLength + 1) := .zeros _
  fullCmdline : CharArray (maxCommandLength + 1) := .zeros _
  ioReadCharB : UInt64 := 0
  ioWriteCharB : UInt64 := 0
  ioRealReadB : UInt64 := 0
  ioRealWriteB : UInt64 := 0
  swapinDelayTotalNs : UInt64 := 0
  blkioDelayTotalNs : UInt64 := 0
  ioReadCharPeriodBS : ℚ := 0
  ioWriteCharPeriodBS : ℚ := 0
  ioRealReadPeriodBS : ℚ := 0
  ioRealWritePeriodBS : ℚ := 0
  swapinDelayPeriodPercent : ℚ := 0
  blkioDelayPeriodPercent : ℚ := 0
  /-- Whether the record was filled in the current cycle. -/
  isUpdated : Bool := false
  deriving DecidableEq

/-- `struct SystemIoInfo`: the totals, and the records under their ids.  The order of the
table's entries is no part of an `unordered_map`; where it can be seen, it is said. -/
structure SystemIoInfo where
  currDiskReadBS : ℚ := 0
  currDiskWriteBS : ℚ := 0
  taskIoStatsTable : Table UInt64 TaskIoInfo := ∅

/-- The six counters a record keeps, and the six numbers sampled for a task. -/
structure Counters where
  readChar : UInt64 := 0
  writeChar : UInt64 := 0
  realRead : UInt64 := 0
  realWrite : UInt64 := 0
  swapinDelay : UInt64 := 0
  blkioDelay : UInt64 := 0
  deriving DecidableEq

/-- The counters of a record. -/
def TaskIoInfo.counters (r : TaskIoInfo) : Counters where
  readChar := r.ioReadCharB
  writeChar := r.ioWriteCharB
  realRead := r.ioRealReadB
  realWrite := r.ioRealWriteB
  swapinDelay := r.swapinDelayTotalNs
  blkioDelay := r.blkioDelayTotalNs

end IotopCpp
