import IotopCpp.Monitor.TaskTable
import Mathlib.Tactic.Ring

/-!
# Rates

What the period fields of a record say about the two cycles they are taken
between.  A record is created anew in every cycle, and the counters it starts
from, the ones before the query, are those of a fresh record: zero.  The periods
are then the lifetime counters over the length of the cycle.

## Main definitions

* `DifferencePeriods` — the periods are differences of two samples over the time
  between them.
* `Counters.OneZero` — in each counter, one of two samples is zero.
* `TruePeriods` — the periods are written only when time has passed, and are then
  differences over that time.

## Main results

* `differencePeriods_iff` — over two consecutive cycles of any run, the periods
  are differences exactly when one of the two samples of each counter is zero.
* `truePeriods_iff` — for one record and any two readings of the clock, the periods
  are true unless the clock went back and the wrapped difference is used.
-/

namespace IotopCpp

open Netlink Runs

/-- The six periods of `r` are the differences of the samples `before` and `after`,
never negative, over the `tmDiffNs` nanoseconds between them. -/
structure DifferencePeriods (before after : Counters) (tmDiffNs : ℕ) (r : TaskIoInfo) : Prop where
  readChar : r.ioReadCharPeriodBS =
    max 0 ((after.readChar.toNat : ℚ) - before.readChar.toNat) / ((tmDiffNs : ℚ) / 10 ^ 9)
  writeChar : r.ioWriteCharPeriodBS =
    max 0 ((after.writeChar.toNat : ℚ) - before.writeChar.toNat) / ((tmDiffNs : ℚ) / 10 ^ 9)
  realRead : r.ioRealReadPeriodBS =
    max 0 ((after.realRead.toNat : ℚ) - before.realRead.toNat) / ((tmDiffNs : ℚ) / 10 ^ 9)
  realWrite : r.ioRealWritePeriodBS =
    max 0 ((after.realWrite.toNat : ℚ) - before.realWrite.toNat) / ((tmDiffNs : ℚ) / 10 ^ 9)
  swapinDelay : r.swapinDelayPeriodPercent =
    100 * max 0 ((after.swapinDelay.toNat : ℚ) - before.swapinDelay.toNat) / tmDiffNs
  blkioDelay : r.blkioDelayPeriodPercent =
    100 * max 0 ((after.blkioDelay.toNat : ℚ) - before.blkioDelay.toNat) / tmDiffNs

/-- In each of the six counters one of the two samples is zero. -/
structure Counters.OneZero (before after : Counters) : Prop where
  readChar : before.readChar = 0 ∨ after.readChar = 0
  writeChar : before.writeChar = 0 ∨ after.writeChar = 0
  realRead : before.realRead = 0 ∨ after.realRead = 0
  realWrite : before.realWrite = 0 ∨ after.realWrite = 0
  swapinDelay : before.swapinDelay = 0 ∨ after.swapinDelay = 0
  blkioDelay : before.blkioDelay = 0 ∨ after.blkioDelay = 0

/-! ### One counter -/

/-- A sample is its difference from an earlier one when one of the two is zero. -/
theorem eq_max_sub_iff (before after : UInt64) :
    (after.toNat : ℚ) = max 0 ((after.toNat : ℚ) - before.toNat) ↔ before = 0 ∨ after = 0 := by
  rw [← UInt64.toNat_inj, ← UInt64.toNat_inj, UInt64.toNat_zero]
  refine ⟨?_, ?_⟩
  · intro h
    rcases max_choice 0 ((after.toNat : ℚ) - before.toNat) with hmax | hmax
    · right
      rw [hmax] at h
      exact_mod_cast h
    · left
      rw [hmax, eq_comm, sub_eq_self] at h
      exact_mod_cast h
  · intro hzero
    rcases hzero with h | h
    · simp [h]
    · simp [h]

variable {elapsed : ℕ} (helapsed : 1000000 < elapsed)

include helapsed

theorem rateOf_eq_difference_iff {before after : UInt64} :
    rateOf elapsed after
        = max 0 ((after.toNat : ℚ) - before.toNat) / ((elapsed : ℚ) / 10 ^ 9) ↔
      before = 0 ∨ after = 0 := by
  have hpos : (elapsed : ℚ) / 10 ^ 9 ≠ 0 := by
    have : (elapsed : ℚ) ≠ 0 := by exact_mod_cast (by omega : elapsed ≠ 0)
    positivity
  rw [rateOf, if_pos helapsed, div_left_inj' hpos, eq_max_sub_iff]

theorem percentOf_eq_difference_iff {before after : UInt64} :
    percentOf elapsed after = 100 * max 0 ((after.toNat : ℚ) - before.toNat) / elapsed ↔
      before = 0 ∨ after = 0 := by
  have hne : (elapsed : ℚ) ≠ 0 := by exact_mod_cast (by omega : elapsed ≠ 0)
  have hscale : (after.toNat : ℚ) / elapsed * 10 ^ 2 = 100 * after.toNat / elapsed := by ring
  rw [percentOf, if_pos helapsed, hscale, div_left_inj' hne, mul_right_inj' (by norm_num),
    eq_max_sub_iff]

/-- The periods of a filled record, against an earlier sample. -/
theorem RecordSpec.differencePeriods_iff_oneZero {q : Query} {r : TaskIoInfo} (hr : RecordSpec elapsed q r)
    (before : Counters) :
    DifferencePeriods before r.counters elapsed r ↔ before.OneZero r.counters := by
  refine ⟨?_, ?_⟩
  · intro hperiods
    rcases hperiods with ⟨h₁, h₂, h₃, h₄, h₅, h₆⟩
    rw [hr.readChar, rateOf_eq_difference_iff helapsed] at h₁
    rw [hr.writeChar, rateOf_eq_difference_iff helapsed] at h₂
    rw [hr.realRead, rateOf_eq_difference_iff helapsed] at h₃
    rw [hr.realWrite, rateOf_eq_difference_iff helapsed] at h₄
    rw [hr.swapinDelay, percentOf_eq_difference_iff helapsed] at h₅
    rw [hr.blkioDelay, percentOf_eq_difference_iff helapsed] at h₆
    exact ⟨h₁, h₂, h₃, h₄, h₅, h₆⟩
  · intro h
    constructor
    · rw [hr.readChar, rateOf_eq_difference_iff helapsed]
      exact h.readChar
    · rw [hr.writeChar, rateOf_eq_difference_iff helapsed]
      exact h.writeChar
    · rw [hr.realRead, rateOf_eq_difference_iff helapsed]
      exact h.realRead
    · rw [hr.realWrite, rateOf_eq_difference_iff helapsed]
      exact h.realWrite
    · rw [hr.swapinDelay, percentOf_eq_difference_iff helapsed]
      exact h.swapinDelay
    · rw [hr.blkioDelay, percentOf_eq_difference_iff helapsed]
      exact h.blkioDelay

omit helapsed

/-! ### Two consecutive cycles -/

/-- The time a cycle takes to have passed is the time since the cycle before. -/
theorem elapsedNs_of_run {cs : List Cycle} {c₁ c₂ : Cycle} {m : IoMonitor}
    (h : run (cs ++ [c₁]) = some m) (htime : c₁.collectTmNs ≤ c₂.collectTmNs) :
    elapsedNs m.originCollectTimestampNs c₂.collectTmNs
      = c₂.collectTmNs.toNat - c₁.collectTmNs.toNat := by
  obtain ⟨m₀, -, hstep⟩ := runFrom_concat.1 h
  obtain ⟨-, rfl⟩ := IoMonitor.collectTimed_eq_some.1 hstep
  exact UInt64.toNat_sub_of_le _ _ htime

/-- **When rates are differences.**  In any run, for two consecutive cycles more than a
millisecond apart and a task the kernel answered in the second, the record built there shows
the differences from a sample exactly when in each counter one of the two is zero.  This is so
whatever the sample is, and in particular for the answer of the first cycle. -/
theorem differencePeriods_iff {cs : List Cycle} {c₁ c₂ : Cycle} {m : IoMonitor}
    (hrun : run (cs ++ [c₁]) = some m)
    (htime : c₁.collectTmNs.toNat + 1000000 < c₂.collectTmNs.toNat)
    {q : Query} {r : TaskIoInfo} (hr : (q, r) ∈ built m.originCollectTimestampNs c₂)
    (ts₁ : Taskstats) {ts₂ : Taskstats} (hts₂ : q.answers.taskstats = .answered ts₂) :
    DifferencePeriods ts₁.counters ts₂.counters (c₂.collectTmNs.toNat - c₁.collectTmNs.toNat) r ↔
      ts₁.counters.OneZero ts₂.counters := by
  have hspec := record_spec (mem_built.1 hr).2
  rw [elapsedNs_of_run hrun (UInt64.le_iff_toNat_le.2 (by omega))] at hspec
  have hcounters : r.counters = ts₂.counters := by
    rw [hspec.counters, hts₂]
    rfl
  rw [← hcounters]
  -- the first answer has no part in this: the code keeps nothing of it
  exact hspec.differencePeriods_iff_oneZero (by omega) ts₁.counters

/-- A process whose counters are `ts₁` and then, one second later, `ts₂`. -/
theorem exists_built_ofProcess (ts₁ ts₂ : Taskstats) :
    ∃ m r, run [.ofProcess 0 1 ts₁] = some m ∧ m.originCollectTimestampNs = 0 ∧
      (⟨1, true, .unnamed (.answered ts₂)⟩, r) ∈
        built m.originCollectTimestampNs (.ofProcess 1000000000 1 ts₂) := by
  have hfilled : ∀ q ∈ (Cycle.ofProcess 0 1 ts₁).queries, (q.record 0 0).isSome :=
    fun q hq => Cycle.filled_ofThreads hq 0 0
  have hfirst : ∃ m, run [.ofProcess 0 1 ts₁] = some m ∧ m.originCollectTimestampNs = 0 :=
    ⟨_, (runFrom_singleton _ _).trans (IoMonitor.collectTimed_eq_some.2 ⟨hfilled, rfl⟩), rfl⟩
  obtain ⟨m, hrun, horigin⟩ := hfirst
  obtain ⟨r, hr⟩ := Option.isSome_iff_exists.1 (Query.record_unnamed_isSome 1 true
    (.answered ts₂) m.originCollectTimestampNs (Cycle.ofProcess 1000000000 1 ts₂).collectTmNs)
  exact ⟨m, r, hrun, horigin, mem_built.2 ⟨List.mem_cons_self, hr⟩⟩

theorem differencePeriods_iff_ofProcess :
    ∃ m r, run [.ofProcess 0 1 {}] = some m ∧
      (⟨1, true, .unnamed (.answered (some { readChar := 5 }))⟩, r) ∈
        built m.originCollectTimestampNs (.ofProcess 1000000000 1 { readChar := 5 }) ∧
      (DifferencePeriods (Taskstats.counters {}) (Taskstats.counters { readChar := 5 })
          ((1000000000 : UInt64).toNat - (0 : UInt64).toNat) r ↔
        (Taskstats.counters {}).OneZero (Taskstats.counters { readChar := 5 })) := by
  obtain ⟨m, r, hrun, -, hr⟩ := exists_built_ofProcess {} { readChar := 5 }
  refine ⟨m, r, hrun, hr, ?_⟩
  have htime : (Cycle.ofProcess 0 1 {}).collectTmNs.toNat + 1000000 <
      (Cycle.ofProcess 1000000000 1 { readChar := 5 }).collectTmNs.toNat := by decide
  have hrun' : run ([] ++ [.ofProcess 0 1 {}]) = some m := hrun
  exact differencePeriods_iff hrun' htime hr {} rfl

/-- A process that has read 5 bytes, and 7 bytes a second later, is shown at 7
bytes a second. -/
theorem not_differencePeriods_ofProcess :
    ∃ m r, run [.ofProcess 0 1 { readChar := 5 }] = some m ∧
      (⟨1, true, .unnamed (.answered (some { readChar := 7 }))⟩, r) ∈
        built m.originCollectTimestampNs (.ofProcess 1000000000 1 { readChar := 7 }) ∧
      ¬DifferencePeriods (Taskstats.counters { readChar := 5 })
        (Taskstats.counters { readChar := 7 })
        ((1000000000 : UInt64).toNat - (0 : UInt64).toNat) r := by
  obtain ⟨m, r, hrun, horigin, hr⟩ := exists_built_ofProcess { readChar := 5 } { readChar := 7 }
  refine ⟨m, r, hrun, hr, ?_⟩
  intro hdiff
  have hspec := record_spec (mem_built.1 hr).2
  have hshown : r.ioReadCharPeriodBS = rateOf 1000000000 7 := by
    rw [hspec.readChar, hspec.counters, horigin]
    rfl
  have hclaimed := hdiff.readChar
  rw [hshown] at hclaimed
  exact absurd ((rateOf_eq_difference_iff (by decide)).1 hclaimed) (by decide)

/-! ### One record, and any two readings of the clock -/

/-- The six periods of two records are the same. -/
structure SamePeriods (r r' : TaskIoInfo) : Prop where
  readChar : r'.ioReadCharPeriodBS = r.ioReadCharPeriodBS
  writeChar : r'.ioWriteCharPeriodBS = r.ioWriteCharPeriodBS
  realRead : r'.ioRealReadPeriodBS = r.ioRealReadPeriodBS
  realWrite : r'.ioRealWritePeriodBS = r.ioRealWritePeriodBS
  swapinDelay : r'.swapinDelayPeriodPercent = r.swapinDelayPeriodPercent
  blkioDelay : r'.blkioDelayPeriodPercent = r.blkioDelayPeriodPercent

/-- **The periods are true**: between readings more than a millisecond apart they are
differences over the time that has passed, and otherwise they are left alone. -/
def TruePeriods (originNs collectTmNs : UInt64) (before after : Counters) (r r' : TaskIoInfo) :
    Prop :=
  if originNs.toNat + 1000000 < collectTmNs.toNat then
    DifferencePeriods before after (collectTmNs.toNat - originNs.toNat) r'
  else SamePeriods r r'

/-- The macro that saturates is a difference that is never negative. -/
theorem ullValueDiff_eq_max (after before : UInt64) :
    ((ullValueDiff after before).toNat : ℚ) = max 0 ((after.toNat : ℚ) - before.toNat) := by
  unfold ullValueDiff
  by_cases hlt : after < before
  · have hle : after.toNat ≤ before.toNat := le_of_lt (UInt64.lt_iff_toNat_lt.1 hlt)
    have hneg : (after.toNat : ℚ) - before.toNat ≤ 0 := by
      rw [sub_nonpos]
      exact_mod_cast hle
    rw [if_pos hlt, max_eq_left hneg]
    rfl
  · have hle : before ≤ after := UInt64.not_lt.1 hlt
    have hnat : before.toNat ≤ after.toNat := UInt64.le_iff_toNat_le.1 hle
    have hnonneg : 0 ≤ (after.toNat : ℚ) - before.toNat := by
      rw [sub_nonneg]
      exact_mod_cast hnat
    rw [if_neg hlt, max_eq_right hnonneg, UInt64.toNat_sub_of_le _ _ hle, Nat.cast_sub hnat]

section

variable {originNs collectTmNs : UInt64} {before after : Counters} {r r' : TaskIoInfo}

/-- The query touches the counters, and not the periods. -/
theorem samePeriods_queried (answers : TaskAnswers) (r : TaskIoInfo) :
    SamePeriods r (answers.taskstats.apply (queriedRecord answers r)).2 := by
  cases answers.taskstats with
  | failed e => exact ⟨rfl, rfl, rfl, rfl, rfl, rfl⟩
  | answered stats => cases stats <;> exact ⟨rfl, rfl, rfl, rfl, rfl, rfl⟩

/-- The names do not touch the periods. -/
theorem samePeriods_fillNames {answers : TaskAnswers} (h : fillNames answers r = some r') :
    SamePeriods r r' := by
  obtain ⟨userName, shortCmdline, fullCmdline, rfl⟩ := fillNames_eq_some h
  exact ⟨rfl, rfl, rfl, rfl, rfl, rfl⟩

theorem SamePeriods.trans {r'' : TaskIoInfo} (h : SamePeriods r r') (h' : SamePeriods r' r'') :
    SamePeriods r r'' :=
  ⟨h'.readChar.trans h.readChar, h'.writeChar.trans h.writeChar, h'.realRead.trans h.realRead,
    h'.realWrite.trans h.realWrite, h'.swapinDelay.trans h.swapinDelay,
    h'.blkioDelay.trans h.blkioDelay⟩

theorem SamePeriods.difference_iff {tmDiffNs : ℕ} (h : SamePeriods r r') :
    DifferencePeriods before after tmDiffNs r' ↔ DifferencePeriods before after tmDiffNs r := by
  have hfield {a b c : ℚ} (hab : a = b) : a = c ↔ b = c := by rw [hab]
  refine ⟨?_, ?_⟩
  · intro h'
    exact ⟨(hfield h.readChar).1 h'.readChar, (hfield h.writeChar).1 h'.writeChar,
      (hfield h.realRead).1 h'.realRead, (hfield h.realWrite).1 h'.realWrite,
      (hfield h.swapinDelay).1 h'.swapinDelay, (hfield h.blkioDelay).1 h'.blkioDelay⟩
  · intro h'
    exact ⟨(hfield h.readChar).2 h'.readChar, (hfield h.writeChar).2 h'.writeChar,
      (hfield h.realRead).2 h'.realRead, (hfield h.realWrite).2 h'.realWrite,
      (hfield h.swapinDelay).2 h'.swapinDelay, (hfield h.blkioDelay).2 h'.blkioDelay⟩

/-- Differences over one time are one set of periods. -/
theorem DifferencePeriods.samePeriods {tmDiffNs : ℕ} (h : DifferencePeriods before after tmDiffNs r)
    (h' : DifferencePeriods before after tmDiffNs r') : SamePeriods r r' :=
  ⟨h'.readChar.trans h.readChar.symm, h'.writeChar.trans h.writeChar.symm,
    h'.realRead.trans h.realRead.symm, h'.realWrite.trans h.realWrite.symm,
    h'.swapinDelay.trans h.swapinDelay.symm, h'.blkioDelay.trans h.blkioDelay.symm⟩

/-- What `fillPeriods` does, by the time the program takes to have passed. -/
theorem fillPeriods_cases (originNs collectTmNs : UInt64) (before : Counters) (r : TaskIoInfo) :
    (elapsedNs originNs collectTmNs ≤ 1000000 ∧
        fillPeriods originNs collectTmNs before r = r) ∨
      (1000000 < elapsedNs originNs collectTmNs ∧
        DifferencePeriods before r.counters (elapsedNs originNs collectTmNs)
          (fillPeriods originNs collectTmNs before r)) := by
  have hguard := guard_iff (elapsedNs originNs collectTmNs)
  unfold elapsedNs at hguard ⊢
  unfold fillPeriods
  by_cases helapsed : 1000000 < (collectTmNs - originNs).toNat
  · right
    refine ⟨helapsed, ?_⟩
    simp only [hguard.2 helapsed, if_true]
    have hpercent (d : ℚ) : d / ((collectTmNs - originNs).toNat : ℚ) * 10 ^ 2
        = 100 * d / (collectTmNs - originNs).toNat := by ring
    constructor <;> simp only [ullValueDiff_eq_max, hpercent, TaskIoInfo.counters]
  · left
    refine ⟨not_lt.1 helapsed, ?_⟩
    simp only [hguard, helapsed, if_false]

/-- **When the periods are true**: the clock did not go back, or it did and the
difference that wraps is too small to be used, or the record already shows the
differences over the wrapped time. -/
theorem truePeriods_iff {answers : TaskAnswers}
    (hquery : 0 ≤ (answers.taskstats.apply (queriedRecord answers r)).1)
    (h : handleEveryTaskIoInfo originNs answers r collectTmNs = some r') :
    TruePeriods originNs collectTmNs r.counters
        (answers.taskstats.apply (queriedRecord answers r)).2.counters r r' ↔
      originNs ≤ collectTmNs ∨ elapsedNs originNs collectTmNs ≤ 1000000 ∨
        DifferencePeriods r.counters
          (answers.taskstats.apply (queriedRecord answers r)).2.counters
          (elapsedNs originNs collectTmNs) r := by
  rcases handleEveryTaskIoInfo_cases h with ⟨hneg, -⟩ | ⟨-, hnames⟩
  · exact absurd hquery (not_le.2 hneg)
  have hsame := samePeriods_fillNames hnames
  have hqueried := samePeriods_queried answers r
  -- the readings, and the time the program takes to have passed
  have hpassed (hle : originNs ≤ collectTmNs) :
      elapsedNs originNs collectTmNs = collectTmNs.toNat - originNs.toNat :=
    UInt64.toNat_sub_of_le _ _ hle
  unfold TruePeriods
  rw [UInt64.le_iff_toNat_le] at hpassed ⊢
  rcases fillPeriods_cases originNs collectTmNs r.counters
    (answers.taskstats.apply (queriedRecord answers r)).2 with ⟨hsmall, hfill⟩ | ⟨hbig, hdiff⟩
  · refine iff_of_true ?_ (Or.inr (Or.inl hsmall))
    have hguard : ¬originNs.toNat + 1000000 < collectTmNs.toNat := by
      intro hlt
      have := hpassed (by omega)
      omega
    rw [hfill] at hsame
    rw [if_neg hguard]
    exact hqueried.trans hsame
  · have hr' := hsame.difference_iff.2 hdiff
    by_cases hle : originNs.toNat ≤ collectTmNs.toNat
    · have helapsed := hpassed hle
      rw [if_pos (by omega), ← helapsed]
      exact iff_of_true hr' (Or.inl hle)
    · -- the difference wrapped, and is used all the same
      rw [if_neg (by omega)]
      refine ⟨?_, ?_⟩
      · intro hkept
        exact Or.inr (Or.inr (hkept.difference_iff.1 hr'))
      · intro hcase
        rcases hcase with h₁ | h₂ | h₃
        · exact absurd h₁ hle
        · omega
        · exact h₃.samePeriods hr'

end

/-- What the kernel answers, and the record it answers for. -/
def sevenBytes : TaskAnswers := .unnamed (.answered (some { readChar := 7 }))

def fiveBytes : TaskIoInfo := { ioReadCharB := 5 }

theorem exists_handle_sevenBytes (originNs collectTmNs : UInt64) :
    ∃ r', handleEveryTaskIoInfo originNs sevenBytes fiveBytes collectTmNs = some r' := by
  rw [← Option.isSome_iff_exists]
  exact fillNames_unnamed_isSome _ _

/-- The clock goes on by a second, and 5 bytes become 7. -/
theorem truePeriods_iff_second :
    0 ≤ (sevenBytes.taskstats.apply (queriedRecord sevenBytes fiveBytes)).1 ∧
    ∃ r', handleEveryTaskIoInfo 0 sevenBytes fiveBytes 1000000000 = some r' ∧
      (TruePeriods 0 1000000000 fiveBytes.counters
          (sevenBytes.taskstats.apply (queriedRecord sevenBytes fiveBytes)).2.counters fiveBytes r' ↔
        (0 : UInt64) ≤ 1000000000 ∨ elapsedNs 0 1000000000 ≤ 1000000 ∨
          DifferencePeriods fiveBytes.counters
            (sevenBytes.taskstats.apply (queriedRecord sevenBytes fiveBytes)).2.counters
            (elapsedNs 0 1000000000) fiveBytes) := by
  obtain ⟨r', hr'⟩ := exists_handle_sevenBytes 0 1000000000
  have hquery : 0 ≤ (sevenBytes.taskstats.apply (queriedRecord sevenBytes fiveBytes)).1 := le_rfl
  exact ⟨hquery, r', hr', truePeriods_iff hquery hr'⟩

/-- The clock goes back by a second, and the rate is taken over the wrapped time. -/
theorem not_truePeriods_backwards :
    0 ≤ (sevenBytes.taskstats.apply (queriedRecord sevenBytes fiveBytes)).1 ∧
    ∃ r', handleEveryTaskIoInfo 1000000000 sevenBytes fiveBytes 0 = some r' ∧
      ¬TruePeriods 1000000000 0 fiveBytes.counters
        (sevenBytes.taskstats.apply (queriedRecord sevenBytes fiveBytes)).2.counters fiveBytes r' := by
  obtain ⟨r', hr'⟩ := exists_handle_sevenBytes 1000000000 0
  refine ⟨le_rfl, r', hr', ?_⟩
  intro htrue
  rw [TruePeriods, if_neg (by decide)] at htrue
  rcases handleEveryTaskIoInfo_cases hr' with ⟨hneg, -⟩ | ⟨-, hnames⟩
  · exact absurd hneg (lt_irrefl 0)
  -- the wrapped time passes the guard
  rcases fillPeriods_cases 1000000000 0 fiveBytes.counters _ with ⟨hsmall, -⟩ | ⟨-, hdiff⟩
  · exact absurd hsmall (by decide)
  have hrate := ((samePeriods_fillNames hnames).difference_iff.2 hdiff).readChar
  have hkept : r'.ioReadCharPeriodBS = 0 := htrue.readChar
  have hafter : (sevenBytes.taskstats.apply
      (queriedRecord sevenBytes fiveBytes)).2.counters.readChar.toNat = 7 := rfl
  have hbefore : fiveBytes.counters.readChar.toNat = 5 := rfl
  have helapsed : elapsedNs 1000000000 0 = 18446744072709551616 := by decide
  rw [hkept, helapsed, hbefore, hafter] at hrate
  norm_num at hrate

end IotopCpp
