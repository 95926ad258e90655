import IotopCpp.Monitor.Presence

/-!
# The clock

`Util::get_steady_now_time_ns` of `common/util.cpp` puts a reading of the monotonic clock
into 64 bits of nanoseconds.  The time between two cycles is a difference of two such
numbers, which is the true one even when the number has wrapped in between.

A rate is what a counter holds, over that time: the record it is counted from is a fresh
one, so it is the whole count of the task that is divided.

## Main definitions

* `Util.Timespec`, `Util.getSteadyNowTimeNs` — a reading, and the number it is put into.
* `PerTime` — rates that are whole counts over a time.

## Main results

* `elapsedNs_getSteadyNowTimeNs` — the difference of two readings.
* `perTime_of_run` — **what the rates of an entry are**, over a run that reads a clock.
-/

namespace IotopCpp

namespace Util

/-- `struct timespec`, as `clock_gettime` fills it in. -/
structure Timespec where
  tvSec : ℕ
  tvNsec : ℕ
  tvNsec_lt : tvNsec < 10 ^ 9

/-- The time of a reading. -/
def Timespec.ns (tm : Timespec) : ℕ := tm.tvSec * 10 ^ 9 + tm.tvNsec

/-- `Util::get_steady_now_time_ns`, from what `clock_gettime` gives. -/
def getSteadyNowTimeNs (tm : Timespec) : UInt64 :=
  UInt64.ofNat tm.tvNsec + UInt64.ofNat tm.tvSec * UInt64.ofNat (10 ^ 9)

theorem toNat_getSteadyNowTimeNs (tm : Timespec) :
    (getSteadyNowTimeNs tm).toNat = tm.ns % 2 ^ 64 := by
  unfold getSteadyNowTimeNs Timespec.ns
  rw [UInt64.toNat_add, UInt64.toNat_mul, UInt64.toNat_ofNat', UInt64.toNat_ofNat',
    UInt64.toNat_ofNat', ← Nat.mul_mod, ← Nat.add_mod, Nat.add_comm]

end Util

open Util Runs

/-- **The difference of two readings is the time between them**, as long as that is less
than 64 bits of nanoseconds. -/
theorem elapsedNs_getSteadyNowTimeNs {t t' : Timespec} (hle : t.ns ≤ t'.ns)
    (hlt : t'.ns < t.ns + 2 ^ 64) :
    elapsedNs (getSteadyNowTimeNs t) (getSteadyNowTimeNs t') = t'.ns - t.ns := by
  unfold elapsedNs
  rw [UInt64.toNat_sub, toNat_getSteadyNowTimeNs, toNat_getSteadyNowTimeNs]
  omega

/-- A rate, by the time it is over, is the counter. -/
theorem rateOf_mul {elapsed : ℕ} (h : 1000000 < elapsed) (n : UInt64) :
    rateOf elapsed n * elapsed = n.toNat * 10 ^ 9 := by
  have hpos : (0 : ℚ) < elapsed := by exact_mod_cast (by omega : 0 < elapsed)
  rw [rateOf, if_pos h]
  field_simp

theorem percentOf_mul {elapsed : ℕ} (h : 1000000 < elapsed) (n : UInt64) :
    percentOf elapsed n * elapsed = n.toNat * 10 ^ 2 := by
  have hpos : (0 : ℚ) < elapsed := by exact_mod_cast (by omega : 0 < elapsed)
  rw [percentOf, if_pos h]
  field_simp

/-- The rates of the record are its counters over so many nanoseconds: bytes in a second,
and nanoseconds in a hundred. -/
structure PerTime (ns : ℕ) (r : TaskIoInfo) : Prop where
  readChar : r.ioReadCharPeriodBS * ns = r.ioReadCharB.toNat * 10 ^ 9
  writeChar : r.ioWriteCharPeriodBS * ns = r.ioWriteCharB.toNat * 10 ^ 9
  realRead : r.ioRealReadPeriodBS * ns = r.ioRealReadB.toNat * 10 ^ 9
  realWrite : r.ioRealWritePeriodBS * ns = r.ioRealWriteB.toNat * 10 ^ 9
  swapinDelay : r.swapinDelayPeriodPercent * ns = r.swapinDelayTotalNs.toNat * 10 ^ 2
  blkioDelay : r.blkioDelayPeriodPercent * ns = r.blkioDelayTotalNs.toNat * 10 ^ 2

theorem RecordSpec.perTime {elapsed : ℕ} {q : Query} {r : TaskIoInfo} (h : RecordSpec elapsed q r)
    (helapsed : 1000000 < elapsed) : PerTime elapsed r where
  readChar := by
    rw [h.readChar, rateOf_mul helapsed]
    rfl
  writeChar := by
    rw [h.writeChar, rateOf_mul helapsed]
    rfl
  realRead := by
    rw [h.realRead, rateOf_mul helapsed]
    rfl
  realWrite := by
    rw [h.realWrite, rateOf_mul helapsed]
    rfl
  swapinDelay := by
    rw [h.swapinDelay, percentOf_mul helapsed]
    rfl
  blkioDelay := by
    rw [h.blkioDelay, percentOf_mul helapsed]
    rfl

/-- **What the rates of an entry are.**  Over a run whose last two cycles read a clock that
does not go back, more than a millisecond apart, they are the whole counts of the task over
the true time between the two readings, also where the number of nanoseconds has wrapped. -/
theorem perTime_of_run {cs : List Cycle} {c₁ c₂ : Cycle} {m : IoMonitor}
    (hrun : run (cs ++ [c₁, c₂]) = some m) {t₁ t₂ : Timespec}
    (ht₁ : c₁.collectTmNs = getSteadyNowTimeNs t₁) (ht₂ : c₂.collectTmNs = getSteadyNowTimeNs t₂)
    (hapart : t₁.ns + 1000000 < t₂.ns) (hlt : t₂.ns < t₁.ns + 2 ^ 64) {k : UInt64}
    {r : TaskIoInfo} (hr : m.table.lookup k = some r) : PerTime (t₂.ns - t₁.ns) r := by
  have hsplit : cs ++ [c₁, c₂] = cs ++ [c₁] ++ [c₂] := by rw [List.append_assoc]; rfl
  rw [hsplit] at hrun
  obtain ⟨m₀, hbefore, hstep⟩ := runFrom_concat.1 hrun
  obtain ⟨-, q, -, -, hrecord⟩ := (IoMonitor.lookup_collectTimed hstep).1 hr
  have horigin : m₀.originCollectTimestampNs = getSteadyNowTimeNs t₁ := by
    rw [origin_of_run hbefore, lastTime, List.getLast?_concat, ← ht₁]
    rfl
  have helapsed := elapsedNs_getSteadyNowTimeNs (show t₁.ns ≤ t₂.ns by omega) hlt
  have hspec := record_spec hrecord
  rw [horigin, ht₂, helapsed] at hspec
  exact hspec.perTime (by omega)

/-- Two readings two seconds apart, between which the number of nanoseconds wraps. -/
def beforeWrap : Timespec := ⟨18446744073, 0, by omega⟩

def afterWrap : Timespec := ⟨18446744075, 0, by omega⟩

theorem perTime_of_run_afterWrap :
    ∃ m ∈ run [.ofProcess (getSteadyNowTimeNs beforeWrap) 2 {},
      .ofProcess (getSteadyNowTimeNs afterWrap) 1 { readBytes := 7 }],
      ∃ r ∈ m.table.lookup 1, PerTime 2000000000 r := by
  have hrun : ∃ m ∈ run [.ofProcess (getSteadyNowTimeNs beforeWrap) 2 {},
      .ofProcess (getSteadyNowTimeNs afterWrap) 1 { readBytes := 7 }],
      (m.table.lookup 1).isSome := by
    decide +kernel
  obtain ⟨m, hm, hsome⟩ := hrun
  obtain ⟨r, hr⟩ := Option.isSome_iff_exists.1 hsome
  refine ⟨m, hm, r, hr, ?_⟩
  have hm' : run ([] ++ [.ofProcess (getSteadyNowTimeNs beforeWrap) 2 {},
      .ofProcess (getSteadyNowTimeNs afterWrap) 1 { readBytes := 7 }]) = some m := hm
  have hns : beforeWrap.ns = 18446744073000000000 ∧ afterWrap.ns = 18446744075000000000 := ⟨rfl, rfl⟩
  have hresult := perTime_of_run hm' rfl rfl (show beforeWrap.ns + 1000000 < afterWrap.ns by omega)
    (show afterWrap.ns < beforeWrap.ns + 2 ^ 64 by omega) hr
  rwa [hns.1, hns.2] at hresult

end IotopCpp
