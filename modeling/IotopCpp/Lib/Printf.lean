import Mathlib.Data.Rat.Floor
import Mathlib.Tactic.IntervalCases
import IotopCpp.Lib.Bytes

/-!
# Formatted text

The conversions of `printf` that a line of a table needs: a number or a text in a
field of a least width, with the result cut to the room there is.  A number is
exact, so its digits are the correctly rounded ones; a tie goes to the even
digit.

* `padLeft fill width s` — `s`, filled on the left up to a width.
* `decimal n` — `%i`; `fixed p q` — `%.pf`.
* `snprintf size text` — the C string left in a buffer of `size` bytes.
* `decimal_subset`, `fixed_subset` — the characters a number is written with.
-/

namespace Printf

/-- A text in a field of at least this width. -/
def padLeft (fill : UInt8) (width : ℕ) (s : Bytes) : Bytes :=
  List.replicate (width - s.length) fill ++ s

/-- A text in a field that blanks fill, such as `%6s`. -/
def field (width : ℕ) (s : Bytes) : Bytes := padLeft ' '.toUInt8 width s

/-- The decimal digits of a number. -/
def digits (n : ℕ) : Bytes := (Nat.toDigits 10 n).map Char.toUInt8

/-- An integer, `%i`. -/
def decimal (n : ℤ) : Bytes := (if n < 0 then ascii "-" else []) ++ digits n.natAbs

/-- The nearest whole number, the even one of two. -/
def roundHalfEven (q : ℚ) : ℕ :=
  let below := q.floor.toNat
  let rest := q - below
  if rest < 1 / 2 ∨ rest = 1 / 2 ∧ below % 2 = 0 then below else below + 1

/-- A number with `p` digits after the point, `%.pf`. -/
def fixed (p : ℕ) (q : ℚ) : Bytes :=
  let scaled := roundHalfEven (|q| * 10 ^ p)
  (if q < 0 then ascii "-" else []) ++ digits (scaled / 10 ^ p) ++ ascii "."
    ++ padLeft '0'.toUInt8 p (digits (scaled % 10 ^ p))

/-- The C string `snprintf` leaves in a buffer of `size` bytes. -/
def snprintf (size : ℕ) (text : Bytes) : Bytes := text.take (size - 1)

theorem length_field (width : ℕ) (s : Bytes) : (field width s).length = max width s.length := by
  unfold field padLeft
  rw [List.length_append, List.length_replicate]
  omega

/-- A text the buffer has room for is not cut. -/
theorem snprintf_eq_self {size : ℕ} {text : Bytes} (h : text.length < size) :
    snprintf size text = text :=
  List.take_of_length_le (Nat.le_sub_one_of_lt h)

/-- A text that fills its field is not padded. -/
theorem field_eq_self {width : ℕ} {s : Bytes} (h : width ≤ s.length) : field width s = s := by
  rw [field, padLeft, Nat.sub_eq_zero_of_le h]
  rfl

theorem decimal_of_nonneg {n : ℤ} (h : 0 ≤ n) : decimal n = digits n.natAbs := by
  rw [decimal, if_neg (not_lt.2 h), List.nil_append]

/-! ### The characters of a number -/

/-- The characters a number in a field is written with. -/
def numberChars : Bytes := ascii " -.0123456789"

theorem padLeft_subset {fill : UInt8} {chars s : Bytes} (hfill : fill ∈ chars) (hs : s ⊆ chars)
    (width : ℕ) : padLeft fill width s ⊆ chars := by
  unfold padLeft
  refine List.append_subset.2 ⟨fun c hc => ?_, hs⟩
  rw [List.eq_of_mem_replicate hc]
  exact hfill

/-- A digit is the same character as a byte. -/
theorem toNat_toUInt8_of_isDigit {d : Char} (h : d.isDigit = true) :
    d.toUInt8.toNat = d.toNat ∧ 48 ≤ d.toNat ∧ d.toNat ≤ 57 := by
  rw [Char.isDigit, Bool.and_eq_true, decide_eq_true_iff, decide_eq_true_iff] at h
  obtain ⟨hlow, hhigh⟩ := h
  have hlow : 48 ≤ d.toNat := hlow
  have hhigh : d.toNat ≤ 57 := hhigh
  refine ⟨?_, hlow, hhigh⟩
  show d.toNat % 2 ^ 8 = d.toNat
  omega

theorem toNat_of_mem_digits {n : ℕ} {c : UInt8} (h : c ∈ digits n) :
    48 ≤ c.toNat ∧ c.toNat ≤ 57 := by
  obtain ⟨d, hd, rfl⟩ := List.mem_map.1 h
  obtain ⟨hval, hlow, hhigh⟩ :=
    toNat_toUInt8_of_isDigit (Nat.isDigit_of_mem_toDigits (by decide) (by decide) hd)
  rw [hval]
  exact ⟨hlow, hhigh⟩

theorem digits_subset (n : ℕ) : digits n ⊆ numberChars := by
  intro c hc
  obtain ⟨hlow, hhigh⟩ := toNat_of_mem_digits hc
  have hofNat : c = UInt8.ofNat c.toNat := UInt8.ofNat_toNat.symm
  rw [hofNat]
  generalize c.toNat = v at hlow hhigh
  interval_cases v <;> decide

theorem decimal_subset (n : ℤ) : decimal n ⊆ numberChars := by
  unfold decimal
  refine List.append_subset.2 ⟨?_, digits_subset _⟩
  split <;> decide

theorem fixed_subset (p : ℕ) (q : ℚ) : fixed p q ⊆ numberChars := by
  unfold fixed
  refine List.append_subset.2 ⟨List.append_subset.2 ⟨List.append_subset.2 ⟨?_, ?_⟩, ?_⟩, ?_⟩
  · split <;> decide
  · exact digits_subset _
  · decide
  · exact padLeft_subset (by decide) (digits_subset _) p

theorem field_subset {s : Bytes} (hs : s ⊆ numberChars) (width : ℕ) :
    field width s ⊆ numberChars :=
  padLeft_subset (by decide) hs width

/-- What a field holds besides blanks is its text. -/
theorem mem_field_iff {c : UInt8} (hc : c ≠ ' '.toUInt8) {width : ℕ} {s : Bytes} :
    c ∈ field width s ↔ c ∈ s := by
  unfold field padLeft
  rw [List.mem_append, List.mem_replicate]
  tauto

end Printf
