import IotopCpp.Monitor.Presence
import IotopCpp.Monitor.Totals
import IotopCpp.View.Rows

/-!
# The summary read back

The first line of the screen has the two totals, each in a field of seven characters that a
larger number makes longer.  So it is read by its words: the numbers are the first words
after their labels.  Over a run they are the sums of the rates of all processes of the last
cycle, also of those that have no row.

* `headerText`, `headerLine_eq` — the line, which is not cut.
* `readHeader`, `readHeader_headerText` — **the totals are read back**, to half of the last
  digit shown.
* `header_of_run` — the line over a run.
-/

namespace IotopCpp
namespace ViewCurses

open Printf Decimal Columns Cxxcurses

/-! ### The line -/

def readLabel : Bytes := ascii "Current DISK READ: "

def writeLabel : Bytes := ascii "| Current DISK WRITE: "

/-- `HEADER_LINE_FORMAT`, whatever its length. -/
def headerText (currRealRead currRealWrite : ℚ) : Bytes :=
  readLabel ++ (field 7 (fixed 2 currRealRead) ++ ascii " B/s ")
    ++ (writeLabel ++ (field 7 (fixed 2 currRealWrite) ++ ascii " B/s"))

theorem snprintf_headerText (read write : ℚ) :
    headerLine read write = snprintf maxLineLength (headerText read write) := by
  have hlabel : ascii " B/s | Current DISK WRITE: " = ascii " B/s " ++ writeLabel := rfl
  simp only [headerLine, headerText, hlabel, List.append_assoc]
  rfl

variable {read write : ℚ}

/-- Totals of up to 43 digits are not cut. -/
theorem headerLine_eq (hread : 0 ≤ read ∧ read + 1 ≤ 10 ^ 43) (hwrite : 0 ≤ write ∧ write + 1 ≤ 10 ^ 43) :
    headerLine read write = headerText read write := by
  have hnumber {q : ℚ} (hq : 0 ≤ q ∧ q + 1 ≤ 10 ^ 43) : (field 7 (fixed 2 q)).length ≤ 46 := by
    have hlength := length_fixed_le (p := 2) (k := 43) (by omega) (by omega) hq.1 hq.2
    rw [length_field]
    omega
  have hlabels : readLabel.length = 19 ∧ writeLabel.length = 22 ∧ (ascii " B/s ").length = 5 ∧
      (ascii " B/s").length = 4 := ⟨rfl, rfl, rfl, rfl⟩
  have hread := hnumber hread
  have hwrite := hnumber hwrite
  rw [snprintf_headerText]
  refine snprintf_eq_self ?_
  simp only [headerText, List.length_append]
  unfold maxLineLength
  omega

/-- What the line is made of. -/
def headerChars : Bytes := numberChars ++ ascii "CurentDISKREADWT:|B/s"

theorem headerText_subset (read write : ℚ) : headerText read write ⊆ headerChars := by
  have hnumber (q : ℚ) : field 7 (fixed 2 q) ⊆ headerChars :=
    List.Subset.trans (field_subset (fixed_subset 2 q) 7) (List.subset_append_left _ _)
  have hlabels : readLabel ⊆ headerChars ∧ writeLabel ⊆ headerChars ∧ ascii " B/s " ⊆ headerChars ∧
      ascii " B/s" ⊆ headerChars := by decide
  obtain ⟨hreadLabel, hwriteLabel, hunit, hlast⟩ := hlabels
  unfold headerText
  simp only [List.append_subset, hnumber, hreadLabel, hwriteLabel, hunit, hlast, and_self]

/-- The line is printed whole. -/
theorem chars_printHeader (hline : headerLine read write = headerText read write) :
    (printHeader read write).glyphs.map GlyphString.chars = some (headerText read write) := by
  have hplain : 0 ∉ headerChars ∧ openBrace ∉ headerChars := by decide
  have hzero : 0 ∉ headerText read write := fun h => hplain.1 (headerText_subset _ _ h)
  have hbrace : openBrace ∉ headerText read write := fun h => hplain.2 (headerText_subset _ _ h)
  rw [printHeader, hline, printAt_glyphs, cString_eq_self hzero,
    Text.takeWhile_ne_eq_self_iff.2 hbrace]

/-! ### Reading it -/

/-- Read the two numbers. -/
def readHeader (text : Bytes) : Option (ℚ × ℚ) := do
  let read ← readFixed (word (text.drop readLabel.length))
  let write ← readFixed (word ((text.dropWhile (· != '|'.toUInt8)).drop writeLabel.length))
  some (read, write)

/-- **The totals are read back.** -/
theorem readHeader_headerText (read write : ℚ) :
    ∃ read' write', readHeader (headerText read write) = some (read', write') ∧
      |read' - read| ≤ 1 / (2 * 10 ^ 2) ∧ |write' - write| ≤ 1 / (2 * 10 ^ 2) := by
  obtain ⟨read', hread, hread'⟩ := exists_readFixed_fixed (p := 2) (by omega) read
  obtain ⟨write', hwrite, hwrite'⟩ := exists_readFixed_fixed (p := 2) (by omega) write
  refine ⟨read', write', ?_, hread', hwrite'⟩
  have hword (q : ℚ) (rest : Bytes) : word (field 7 (fixed 2 q) ++ ' '.toUInt8 :: rest) = fixed 2 q :=
    word_field (fixed_ne_nil 2 q) (blank_notMem_fixed 2 q) 7 rest
  have hfirst : word ((headerText read write).drop readLabel.length) = fixed 2 read := by
    have hdrop : (headerText read write).drop readLabel.length = field 7 (fixed 2 read)
        ++ ' '.toUInt8 :: (ascii "B/s " ++ (writeLabel ++ (field 7 (fixed 2 write) ++ ascii " B/s"))) := by
      unfold headerText
      rw [List.append_assoc readLabel, List.drop_left, List.append_assoc]
      rfl
    rw [hdrop, hword]
  -- the bar is in neither the label nor the number before it
  have hbefore : ∀ ch ∈ readLabel ++ (field 7 (fixed 2 read) ++ ascii " B/s "),
      (ch != '|'.toUInt8) = true := by
    have hlabels : '|'.toUInt8 ∉ readLabel ∧ '|'.toUInt8 ∉ numberChars ∧ '|'.toUInt8 ∉ ascii " B/s " := by
      decide
    intro ch hch
    rw [bne_iff_ne]
    rintro rfl
    simp only [List.mem_append] at hch
    rcases hch with h | h | h
    · exact hlabels.1 h
    · exact hlabels.2.1 (field_subset (fixed_subset 2 read) 7 h)
    · exact hlabels.2.2 h
  have hsecond : word (((headerText read write).dropWhile (· != '|'.toUInt8)).drop writeLabel.length)
      = fixed 2 write := by
    have hbar : (writeLabel ++ (field 7 (fixed 2 write) ++ ascii " B/s")).dropWhile (· != '|'.toUInt8)
        = writeLabel ++ (field 7 (fixed 2 write) ++ ascii " B/s") :=
      List.dropWhile_cons_of_neg (by decide)
    unfold headerText
    rw [List.dropWhile_append_of_pos hbefore, hbar, List.drop_left]
    exact hword write _
  simp only [readHeader, hfirst, hsecond, hread, hwrite, Option.bind_eq_bind, Option.bind_some]

/-! ### Over a whole run -/

theorem sumRates_nonneg (c : Cycle) (elapsed : ℕ) (counter : Counters → UInt64) :
    0 ≤ c.sumRates elapsed counter := by
  refine List.sum_nonneg ?_
  intro x hx
  obtain ⟨p, -, rfl⟩ := List.mem_map.1 hx
  exact rateOf_nonneg _ _

/-- The total of so many processes has 43 digits at most. -/
theorem sumRates_le {c : Cycle} (hlength : c.taskIds.length < 2 ^ 64) (elapsed : ℕ)
    (counter : Counters → UInt64) : c.sumRates elapsed counter + 1 ≤ 10 ^ 43 := by
  have hrate : ∀ x ∈ c.taskIds.map fun p =>
      rateOf elapsed (counter (p.answers.taskstats.counters.getD {})), x ≤ 10 ^ 23 := by
    intro x hx
    obtain ⟨p, -, rfl⟩ := List.mem_map.1 hx
    exact (le_add_of_nonneg_right zero_le_one).trans (rateOf_le _ _)
  have hsum := List.sum_le_card_nsmul _ _ hrate
  have hcount : (c.taskIds.length : ℚ) ≤ 2 ^ 64 := by exact_mod_cast hlength.le
  rw [List.length_map, nsmul_eq_mul] at hsum
  have hbound : (c.taskIds.length : ℚ) * 10 ^ 23 ≤ 2 ^ 64 * 10 ^ 23 :=
    mul_le_mul_of_nonneg_right hcount (by positivity)
  calc c.sumRates elapsed counter + 1 ≤ 2 ^ 64 * 10 ^ 23 + 1 := by
        have hle := hsum.trans hbound
        exact add_le_add_left hle 1
    _ ≤ 10 ^ 43 := by norm_num

/-- **The first line over a run** is printed whole and is read back as the rates that all
processes of the last cycle had since the cycle before, each to half of the last digit. -/
theorem header_of_run {cs : List Cycle} {c : Cycle} {m : IoMonitor}
    (hrun : run (cs ++ [c]) = some m) (hlength : c.taskIds.length < 2 ^ 64) :
    ∃ text read write,
      (printHeader m.ioStats.currDiskReadBS m.ioStats.currDiskWriteBS).glyphs.map GlyphString.chars
        = some text ∧ readHeader text = some (read, write) ∧
      |read - c.sumRates (elapsedNs (lastTime cs) c.collectTmNs) Counters.realRead|
        ≤ 1 / (2 * 10 ^ 2) ∧
      |write - c.sumRates (elapsedNs (lastTime cs) c.collectTmNs) Counters.realWrite|
        ≤ 1 / (2 * 10 ^ 2) := by
  obtain ⟨m₀, hbefore, hstep⟩ := Runs.runFrom_concat.1 hrun
  obtain ⟨hfilled, rfl⟩ := IoMonitor.collectTimed_eq_some.1 hstep
  rw [origin_of_run hbefore] at hfilled ⊢
  rw [rateOf_realRead.sum_built hfilled, rateOf_realWrite.sum_built hfilled]
  obtain ⟨read, write, hread, hclose⟩ := readHeader_headerText
    (c.sumRates (elapsedNs (lastTime cs) c.collectTmNs) Counters.realRead)
    (c.sumRates (elapsedNs (lastTime cs) c.collectTmNs) Counters.realWrite)
  refine ⟨_, read, write, chars_printHeader ?_, hread, hclose⟩
  exact headerLine_eq ⟨sumRates_nonneg _ _ _, sumRates_le hlength _ _⟩
    ⟨sumRates_nonneg _ _ _, sumRates_le hlength _ _⟩

theorem header_of_run_ofProcess :
    ∃ m ∈ run [.ofProcess 1000000000 1 { readBytes := 7 }], ∃ text read write,
      (printHeader m.ioStats.currDiskReadBS m.ioStats.currDiskWriteBS).glyphs.map GlyphString.chars
        = some text ∧ readHeader text = some (read, write) ∧ |read - 7| ≤ 1 / (2 * 10 ^ 2) := by
  have hrun : (run [.ofProcess 1000000000 1 { readBytes := 7 }]).isSome = true := by
    decide +kernel
  obtain ⟨m, hm⟩ := Option.isSome_iff_exists.1 hrun
  have hm' : run ([] ++ [.ofProcess 1000000000 1 { readBytes := 7 }]) = some m := hm
  have hlength : (Cycle.ofProcess 1000000000 1 { readBytes := 7 }).taskIds.length < 2 ^ 64 :=
    Nat.one_lt_two_pow (by omega)
  obtain ⟨text, read, write, htext, hread, hclose, -⟩ := header_of_run hm' hlength
  have hseven : (Cycle.ofProcess 1000000000 1 { readBytes := 7 }).sumRates
      (elapsedNs (lastTime []) 1000000000) Counters.realRead = 7 := by
    decide +kernel
  exact ⟨m, hm, text, read, write, htext, hread, hseven ▸ hclose⟩

end ViewCurses
end IotopCpp
