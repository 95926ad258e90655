import Mathlib.Algebra.Order.AbsoluteValue.Basic
import Mathlib.Data.Rat.Floor
import Mathlib.Tactic.FieldSimp
import Mathlib.Tactic.Linarith
import Mathlib.Tactic.Positivity
import IotopCpp.Lib.Decimal

/-!
# Numbers read back from formatted text

What `%i` and `%.pf` wrote, read again.  An integer comes back as it was.  A fraction comes
back to the last digit written, which is within half a unit of it: the conversion rounds to
the nearest.

* `roundHalfEven_sub_le` — rounding is by a half at most.
* `readDecimal`, `readDecimal_decimal` — integers.
* `readFixed`, `readFixed_fixed` — fractions.
* `length_decimal_le`, `length_fixed_le` — how long a number is written.
-/

namespace Decimal

open Printf

/-! ### Rounding -/

/-- The nearest whole number is no farther than a half. -/
theorem roundHalfEven_sub_le {x : ℚ} (hx : 0 ≤ x) : |(roundHalfEven x : ℚ) - x| ≤ 1 / 2 := by
  have hfloor : ((x.floor.toNat : ℕ) : ℚ) = (x.floor : ℚ) := by
    have hnonneg : 0 ≤ x.floor := Rat.le_floor_iff.2 (by simpa using hx)
    exact_mod_cast Int.toNat_of_nonneg hnonneg
  have hle : (x.floor : ℚ) ≤ x := Rat.floor_le x
  have hlt : x < x.floor + 1 := by exact_mod_cast Rat.lt_floor_add_one x
  unfold roundHalfEven
  simp only
  rw [abs_le]
  -- rounded down, with at most a half left over, or up, with at least a half
  split
  · next h =>
    have hrest : x - x.floor.toNat ≤ 1 / 2 := by
      rcases h with h | h
      · exact h.le
      · exact h.1.le
    rw [hfloor] at hrest ⊢
    constructor <;> linarith
  · next h =>
    have hrest : 1 / 2 ≤ x - x.floor.toNat := by
      rw [not_or] at h
      exact not_lt.1 h.1
    rw [hfloor] at hrest
    rw [Nat.cast_add, Nat.cast_one, hfloor]
    constructor <;> linarith

/-! ### Integers -/

/-- The number that a text of digits is written for. -/
def readDigits (s : Bytes) : Option ℕ :=
  if s = [] ∨ ¬s.all isDigit then none else some (ofDigits s)

theorem readDigits_of_isDigit {s : Bytes} (hne : s ≠ []) (hs : ∀ c ∈ s, isDigit c = true) :
    readDigits s = some (ofDigits s) := by
  rw [readDigits, if_neg]
  rw [not_or, not_not]
  exact ⟨hne, List.all_eq_true.2 hs⟩

/-- A sign that was written is taken from the digits after it. -/
theorem takeSign_append {ds : Bytes} (hds : ∀ c ∈ ds.head?, isDigit c = true) (neg : Prop)
    [Decidable neg] : takeSign ((if neg then ascii "-" else []) ++ ds) = (decide neg, ds) := by
  by_cases hneg : neg
  · rw [if_pos hneg, decide_eq_true hneg]
    rfl
  · rw [if_neg hneg, List.nil_append, decide_eq_false hneg]
    cases ds with
    | nil => rfl
    | cons c cs =>
      have hdigit := isDigit_iff.1 (hds c rfl)
      have hminus : c ≠ '-'.toUInt8 := by
        rintro rfl
        exact absurd hdigit.1 (by decide)
      have hplus : c ≠ '+'.toUInt8 := by
        rintro rfl
        exact absurd hdigit.1 (by decide)
      rw [takeSign, if_neg hminus, if_neg hplus]

/-- Nor does a number start with a blank. -/
theorem blank_notMem_head? {ds : Bytes} (hne : ds ≠ []) (hds : ∀ c ∈ ds, isDigit c = true)
    (neg : Prop) [Decidable neg] (rest : Bytes) :
    ' '.toUInt8 ∉ ((if neg then ascii "-" else []) ++ ds ++ rest).head? := by
  obtain ⟨d, ds, rfl⟩ := List.exists_cons_of_ne_nil hne
  by_cases hneg : neg
  · rw [if_pos hneg]
    exact fun h => absurd (Option.some.inj h) (by decide)
  · rw [if_neg hneg, List.nil_append]
    intro h
    have hdigit := hds d List.mem_cons_self
    rw [Option.some.inj h] at hdigit
    exact absurd hdigit (by decide)

theorem blank_notMem_head?_decimal (n : ℤ) : ' '.toUInt8 ∉ (decimal n).head? := by
  have h := blank_notMem_head? (digits_ne_nil n.natAbs) (fun _ hc => isDigit_of_mem_digits hc)
    (n < 0) []
  rwa [List.append_nil] at h

theorem blank_notMem_head?_fixed (p : ℕ) (q : ℚ) : ' '.toUInt8 ∉ (fixed p q).head? := by
  unfold fixed
  simp only
  rw [List.append_assoc]
  exact blank_notMem_head? (digits_ne_nil _) (fun _ hc => isDigit_of_mem_digits hc) _ _

/-- Read `%i`. -/
def readDecimal (s : Bytes) : Option ℤ :=
  (readDigits (takeSign s).2).map fun v : ℕ => if (takeSign s).1 then -Int.ofNat v else .ofNat v

/-- **An integer is read back.** -/
theorem readDecimal_decimal (n : ℤ) : readDecimal (decimal n) = some n := by
  have hdigits (c : UInt8) (hc : c ∈ digits n.natAbs) : isDigit c = true := isDigit_of_mem_digits hc
  have htake : takeSign (decimal n) = (decide (n < 0), digits n.natAbs) :=
    takeSign_append (fun c hc => hdigits c (List.mem_of_mem_head? hc)) (n < 0)
  rw [readDecimal, htake, readDigits_of_isDigit (digits_ne_nil _) hdigits, ofDigits_digits,
    Option.map_some]
  simp only [decide_eq_true_eq, Option.some.injEq, Int.ofNat_eq_natCast]
  split <;> omega

theorem length_digits_le {n k : ℕ} (hk : 0 < k) (h : n < 10 ^ k) : (digits n).length ≤ k := by
  rw [digits, List.length_map]
  exact (Nat.length_toDigits_le_iff (by decide) hk).2 h

theorem length_decimal_le {n : ℤ} {k : ℕ} (hk : 0 < k) (h : n.natAbs < 10 ^ k) :
    (decimal n).length ≤ k + if n < 0 then 1 else 0 := by
  have hlength := length_digits_le hk h
  unfold decimal
  rw [List.length_append]
  split
  · show 1 + _ ≤ _
    omega
  · rw [List.length_nil]
    omega

/-! ### Fractions -/

/-- The digits after the point: as many as were asked for, with the value of the rest. -/
theorem length_padLeft {p n : ℕ} (hp : 0 < p) (hn : n < 10 ^ p) :
    (padLeft '0'.toUInt8 p (digits n)).length = p := by
  have hlength := length_digits_le hp hn
  rw [padLeft, List.length_append, List.length_replicate]
  omega

theorem ofDigits_padLeft (p n : ℕ) : ofDigits (padLeft '0'.toUInt8 p (digits n)) = n := by
  have hzeros (k : ℕ) (ds : Bytes) :
      ofDigits (List.replicate k '0'.toUInt8 ++ ds) = ofDigits ds := by
    induction k with
    | zero => rfl
    | succ k ih => exact ih
  rw [padLeft, hzeros, ofDigits_digits]

theorem isDigit_of_mem_padLeft {p n : ℕ} {c : UInt8}
    (hc : c ∈ padLeft '0'.toUInt8 p (digits n)) : isDigit c = true := by
  rcases List.mem_append.1 hc with hzero | hdigit
  · rw [List.eq_of_mem_replicate hzero]
    decide
  · exact isDigit_of_mem_digits hdigit

def point : UInt8 := '.'.toUInt8

/-- Read `%.pf`: a sign, digits, the point and digits. -/
def readFixed (s : Bytes) : Option ℚ := do
  let signed := takeSign s
  let whole ← readDigits (signed.2.takeWhile (· != point))
  let fraction := (signed.2.dropWhile (· != point)).tail
  let parts ← readDigits fraction
  let v : ℚ := whole + parts / 10 ^ fraction.length
  some (if signed.1 then -v else v)

/-- Digits end where the point is. -/
theorem split_point {whole : Bytes} (h : ∀ c ∈ whole, isDigit c = true) (fraction : Bytes) :
    (whole ++ point :: fraction).takeWhile (· != point) = whole ∧
      ((whole ++ point :: fraction).dropWhile (· != point)).tail = fraction := by
  -- a digit is not the point
  have hpoint (c : UInt8) (hc : c ∈ whole) : (c != point) = true := by
    rw [bne_iff_ne]
    rintro rfl
    exact absurd (h _ hc) (by decide)
  refine ⟨?_, ?_⟩
  · rw [List.takeWhile_append_of_pos hpoint, List.takeWhile_cons_of_neg (by simp),
      List.append_nil]
  · rw [List.dropWhile_append_of_pos hpoint, List.dropWhile_cons_of_neg (by simp), List.tail_cons]

/-- What is read of a fraction is what it was rounded to. -/
theorem readFixed_fixed {p : ℕ} (hp : 0 < p) (q : ℚ) :
    readFixed (fixed p q)
      = some ((if q < 0 then -1 else 1) * ((roundHalfEven (|q| * 10 ^ p) : ℚ) / 10 ^ p)) := by
  set scaled := roundHalfEven (|q| * 10 ^ p) with hscaled
  have hlt : scaled % 10 ^ p < 10 ^ p := Nat.mod_lt _ (by positivity)
  set whole := digits (scaled / 10 ^ p)
  set fraction := padLeft '0'.toUInt8 p (digits (scaled % 10 ^ p))
  have hwhole (c : UInt8) (hc : c ∈ whole) : isDigit c = true := isDigit_of_mem_digits hc
  have hne : whole ≠ [] := digits_ne_nil _
  have htext : fixed p q = (if q < 0 then ascii "-" else []) ++ (whole ++ point :: fraction) := by
    unfold fixed
    simp only [List.append_assoc]
    rfl
  have htake : takeSign (fixed p q) = (decide (q < 0), whole ++ point :: fraction) := by
    rw [htext]
    refine takeSign_append (fun c hc => ?_) _
    obtain ⟨d, ds, hd⟩ := List.exists_cons_of_ne_nil hne
    rw [hd] at hc
    obtain rfl := Option.some.inj hc
    exact hwhole d (by rw [hd]; exact List.mem_cons_self)
  obtain ⟨hbefore, hafter⟩ := split_point hwhole fraction
  have hlength : fraction.length = p := length_padLeft hp hlt
  have hfraction : fraction ≠ [] := by
    intro h
    rw [h] at hlength
    exact hp.ne hlength
  -- the digits before the point and those behind it are the number again
  have hvalue : ((scaled / 10 ^ p : ℕ) : ℚ) + ((scaled % 10 ^ p : ℕ) : ℚ) / 10 ^ p
      = (scaled : ℚ) / 10 ^ p := by
    have hsplit := congrArg (Nat.cast (R := ℚ)) (Nat.div_add_mod scaled (10 ^ p))
    push_cast at hsplit
    rw [← hsplit]
    field_simp
  simp only [readFixed, htake, hbefore, hafter, readDigits_of_isDigit hne hwhole,
    readDigits_of_isDigit hfraction fun c hc => isDigit_of_mem_padLeft hc, hlength,
    Option.bind_eq_bind, Option.bind_some, decide_eq_true_eq]
  rw [ofDigits_padLeft, ofDigits_digits, hvalue]
  split <;> simp

/-- A fraction is one word. -/
theorem blank_notMem_fixed (p : ℕ) (q : ℚ) : ' '.toUInt8 ∉ fixed p q := by
  intro h
  unfold fixed at h
  simp only [List.mem_append] at h
  have hdigit {c : UInt8} (hc : isDigit c = true) : c ≠ ' '.toUInt8 := by
    rintro rfl
    exact absurd hc (by decide)
  rcases h with ((hsign | hwhole) | hpoint) | hfraction
  · split at hsign
    · exact absurd hsign (by decide)
    · cases hsign
  · exact hdigit (isDigit_of_mem_digits hwhole) rfl
  · exact absurd hpoint (by decide)
  · exact hdigit (isDigit_of_mem_padLeft hfraction) rfl

theorem fixed_ne_nil (p : ℕ) (q : ℚ) : fixed p q ≠ [] := by
  unfold fixed
  intro h
  have hwhole := (List.append_eq_nil_iff.1 (List.append_eq_nil_iff.1
    (List.append_eq_nil_iff.1 h).1).1).2
  exact digits_ne_nil _ hwhole

/-- **A fraction is read back to the last digit written**, within half a unit. -/
theorem exists_readFixed_fixed {p : ℕ} (hp : 0 < p) (q : ℚ) :
    ∃ q', readFixed (fixed p q) = some q' ∧ |q' - q| ≤ 1 / (2 * 10 ^ p) := by
  refine ⟨_, readFixed_fixed hp q, ?_⟩
  have hpos : (0 : ℚ) < 10 ^ p := by positivity
  have hround := roundHalfEven_sub_le (show (0 : ℚ) ≤ |q| * 10 ^ p by positivity)
  set n : ℚ := (roundHalfEven (|q| * 10 ^ p) : ℚ)
  have habs : |n / 10 ^ p - (|q|)| ≤ 1 / (2 * 10 ^ p) := by
    have heq : n / 10 ^ p - (|q|) = (n - |q| * 10 ^ p) / 10 ^ p := by field_simp
    rw [heq, abs_div, abs_of_pos hpos]
    calc |n - |q| * 10 ^ p| / 10 ^ p
        ≤ 1 / 2 / 10 ^ p := div_le_div_of_nonneg_right hround hpos.le
      _ = 1 / (2 * 10 ^ p) := by rw [div_div]
  -- the sign is written apart from what is rounded
  split
  · next hneg =>
    rw [abs_of_neg hneg] at habs
    rw [neg_one_mul]
    have heq : -(n / 10 ^ p) - q = -(n / 10 ^ p - -q) := by ring
    rwa [heq, abs_neg]
  · next hnonneg =>
    rw [abs_of_nonneg (not_lt.1 hnonneg)] at habs
    rwa [one_mul]

/-- A number below `10 ^ k` is written with `k` digits before the point at most. -/
theorem length_fixed_le {p k : ℕ} (hp : 0 < p) (hk : 0 < k) {q : ℚ} (hq : 0 ≤ q)
    (hlt : q + 1 ≤ 10 ^ k) : (fixed p q).length ≤ k + 1 + p := by
  have hround := (abs_le.1 (roundHalfEven_sub_le (show (0 : ℚ) ≤ |q| * 10 ^ p by positivity))).2
  set scaled := roundHalfEven (|q| * 10 ^ p)
  have hpow : (1 : ℚ) ≤ 10 ^ p := one_le_pow₀ (by norm_num)
  -- rounding adds less than the one that is left free
  have hscaled : scaled < 10 ^ k * 10 ^ p := by
    have hcast : (scaled : ℚ) < 10 ^ k * 10 ^ p := by
      rw [abs_of_nonneg hq] at hround
      have hmul := mul_le_mul_of_nonneg_right hlt (zero_le_one.trans hpow)
      linarith
    exact_mod_cast hcast
  have hwhole : (digits (scaled / 10 ^ p)).length ≤ k :=
    length_digits_le hk ((Nat.div_lt_iff_lt_mul (by positivity)).2 hscaled)
  have hfraction : (padLeft '0'.toUInt8 p (digits (scaled % 10 ^ p))).length = p :=
    length_padLeft hp (Nat.mod_lt _ (by positivity))
  have hpoint : (ascii ".").length = 1 := rfl
  have htext : fixed p q = digits (scaled / 10 ^ p) ++ ascii "."
      ++ padLeft '0'.toUInt8 p (digits (scaled % 10 ^ p)) := by
    simp only [fixed, if_neg (not_lt.2 hq), List.nil_append]
    rfl
  rw [htext, List.length_append, List.length_append, hfraction, hpoint]
  omega

end Decimal
