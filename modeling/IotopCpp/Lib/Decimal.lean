import Mathlib.Data.List.TakeWhile
import IotopCpp.Lib.Printf

/-!
# Reading numbers

The value of a run of decimal digits, and `strtoul` in base ten as the C standard
defines it for a 64-bit `unsigned long`: blanks, a sign, then digits, with a value
that saturates.

* `isDigit`, `ofDigits` — decimal digits, and the number they are written for.
* `ofDigits_digits` — a number is read back from its digits.
* `strtoul`, `strtoul_of_isDigit` — the function, and what it does on a digit.
-/

namespace Decimal

/-- `isdigit`. -/
def isDigit (c : UInt8) : Bool := '0'.toUInt8 ≤ c && c ≤ '9'.toUInt8

/-- The number that digits are written for. -/
def ofDigits (ds : Bytes) : ℕ := ds.foldl (fun n c => 10 * n + (c.toNat - '0'.toNat)) 0

theorem isDigit_iff {c : UInt8} : isDigit c = true ↔ 48 ≤ c.toNat ∧ c.toNat ≤ 57 := by
  unfold isDigit
  rw [Bool.and_eq_true, decide_eq_true_iff, decide_eq_true_iff, UInt8.le_iff_toNat_le,
    UInt8.le_iff_toNat_le]
  rfl

theorem not_isDigit_iff {c : UInt8} :
    ¬isDigit c = true ↔ c < '0'.toUInt8 ∨ '9'.toUInt8 < c := by
  rw [isDigit_iff, not_and_or, not_le, not_le, UInt8.lt_iff_toNat_lt, UInt8.lt_iff_toNat_lt]
  rfl

/-! ### Digits that were written -/

theorem isDigit_of_mem_digits {n : ℕ} {c : UInt8} (h : c ∈ Printf.digits n) :
    isDigit c = true :=
  isDigit_iff.2 (Printf.toNat_of_mem_digits h)

/-- **A number is read back from its digits.** -/
theorem ofDigits_digits (n : ℕ) : ofDigits (Printf.digits n) = n := by
  -- bytes or characters, the digits have the same values
  have hfold (ds : List Char) (hds : ∀ d ∈ ds, d.isDigit = true) (acc : ℕ) :
      (ds.map Char.toUInt8).foldl (fun n c => 10 * n + (c.toNat - '0'.toNat)) acc
        = Nat.ofDigitChars 10 ds acc := by
    induction ds generalizing acc with
    | nil => rfl
    | cons d ds ih =>
      obtain ⟨hval, -⟩ := Printf.toNat_toUInt8_of_isDigit (hds d List.mem_cons_self)
      rw [List.map_cons, List.foldl_cons, ih fun d' hd' => hds d' (List.mem_cons_of_mem _ hd'),
        hval, Nat.ofDigitChars_cons]
  have hdigits (d : Char) (hd : d ∈ Nat.toDigits 10 n) : d.isDigit = true :=
    Nat.isDigit_of_mem_toDigits (by decide) (by decide) hd
  rw [ofDigits, Printf.digits, hfold _ hdigits, Nat.ofDigitChars_ten_toDigits]

theorem digits_ne_nil (n : ℕ) : Printf.digits n ≠ [] := by
  intro h
  exact Nat.toDigits_ne_nil (List.map_eq_nil_iff.1 h)

/-! ### `strtoul` -/

/-- `ULONG_MAX`. -/
def ulongMax : ℕ := 2 ^ 64 - 1

/-- `isspace`. -/
def isSpace (c : UInt8) : Bool := c == ' '.toUInt8 || '\t'.toUInt8 ≤ c && c ≤ '\r'.toUInt8

/-- The sign a number may start with, and what follows it. -/
def takeSign : Bytes → Bool × Bytes
  | [] => (false, [])
  | c :: cs =>
    if c = '-'.toUInt8 then (true, cs)
    else if c = '+'.toUInt8 then (false, cs)
    else (false, c :: cs)

/-- `strtoul(s, &end, 10)`: the value, and the text `end` points to.  A value that is
too great is `ULONG_MAX` whatever its sign; a negated one wraps around. -/
def strtoul (s : Bytes) : UInt64 × Bytes :=
  let subject := takeSign (s.dropWhile isSpace)
  let ds := subject.2.takeWhile isDigit
  if ds = [] then (0, s)
  else
    let rest := subject.2.dropWhile isDigit
    if ulongMax < ofDigits ds then (.ofNat ulongMax, rest)
    else if subject.1 then (-.ofNat (ofDigits ds), rest)
    else (.ofNat (ofDigits ds), rest)

/-- **A text that starts with a digit** is read up to its first character that is none. -/
theorem strtoul_of_isDigit {c : UInt8} (hc : isDigit c = true) (cs : Bytes) :
    strtoul (c :: cs) = (.ofNat (min (ofDigits ((c :: cs).takeWhile isDigit)) ulongMax),
      (c :: cs).dropWhile isDigit) := by
  have hdigit := isDigit_iff.1 hc
  -- the blanks and the signs are all below the digits
  have hother {d : UInt8} (hd : d.toNat < 48) : c ≠ d := by
    rintro rfl
    omega
  have hspace : isSpace c = false := by
    unfold isSpace
    rw [Bool.or_eq_false_iff, beq_eq_false_iff_ne, Bool.and_eq_false_iff]
    refine ⟨hother (by decide), Or.inr ?_⟩
    rw [decide_eq_false_iff_not, UInt8.le_iff_toNat_le]
    have hreturn : '\r'.toUInt8.toNat = 13 := rfl
    omega
  have hsign : takeSign (c :: cs) = (false, c :: cs) := by
    rw [takeSign, if_neg (hother (by decide)), if_neg (hother (by decide))]
  have hne : (c :: cs).takeWhile isDigit ≠ [] := by
    rw [List.takeWhile_cons_of_pos hc]
    exact List.cons_ne_nil _ _
  unfold strtoul
  rw [List.dropWhile_cons_of_neg (by simp [hspace]), hsign]
  simp only [hne, if_false]
  split
  · next hmax => rw [Nat.min_eq_right hmax.le]
  · next hmax => rw [Nat.min_eq_left (not_lt.1 hmax)]; rfl

end Decimal
