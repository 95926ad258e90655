import Mathlib.Data.List.Basic
import Mathlib.Tactic.Ring

/-!
# Little-endian fields in a byte buffer

Bounds-checked reads of fixed-width little-endian integers from a list of bytes,
the encoding they undo, and how reads move through concatenations.

* `ascii s` — the bytes of a text.
* `natLE n v` — the `n` low bytes of `v`; `leNat` — the value of a byte list.
* `readLE mem off n` — the `n`-byte integer at `off`, `none` outside `mem`.
* `readLE_append_right`, `readLE_append_left` — reads past a prefix, and reads
  that do not reach a suffix.
* `readLE_natLE` — reading back an encoded field.
* `takeLE n bs` — the `n`-byte integer `bs` starts with, and what follows it.
* `overlay mem off bs` — `mem` with `bs` written over it from `off`.
-/

/-- A run of bytes. -/
abbrev Bytes := List UInt8

/-- The bytes of a text in ASCII. -/
def ascii (s : String) : Bytes := s.toList.map Char.toUInt8

namespace LittleEndian

/-- The value of a byte list, least significant byte first. -/
def leNat : Bytes → ℕ
  | [] => 0
  | b :: bs => b.toNat + 256 * leNat bs

/-- The `n` low bytes of `v`, least significant byte first. -/
def natLE : ℕ → ℕ → Bytes
  | 0, _ => []
  | n + 1, v => UInt8.ofNat v :: natLE n (v / 256)

/-- The `n`-byte integer at offset `off`, `none` when it is not wholly inside. -/
def readLE (mem : Bytes) (off n : ℕ) : Option ℕ :=
  if off + n ≤ mem.length then some (leNat ((mem.drop off).take n)) else none

/-- The `n`-byte integer at the start of `bs`, and the rest. -/
def takeLE (n : ℕ) (bs : Bytes) : Option (ℕ × Bytes) :=
  if n ≤ bs.length then some (leNat (bs.take n), bs.drop n) else none

/-- `mem` with `bs` written over it from `off` on. -/
def overlay (mem : Bytes) (off : ℕ) (bs : Bytes) : Bytes :=
  mem.take off ++ (bs ++ mem.drop (off + bs.length))

@[simp] theorem length_natLE (n v : ℕ) : (natLE n v).length = n := by
  induction n generalizing v with
  | zero => rfl
  | succ n ih => simp [natLE, ih]

theorem leNat_natLE {n v : ℕ} (hv : v < 256 ^ n) : leNat (natLE n v) = v := by
  induction n generalizing v with
  | zero => simp at hv; simp [natLE, leNat, hv]
  | succ n ih =>
    have hdiv : v / 256 < 256 ^ n := by
      rw [Nat.div_lt_iff_lt_mul (by decide)]
      rwa [pow_succ] at hv
    rw [natLE, leNat, ih hdiv, UInt8.toNat_ofNat']
    have := Nat.mod_add_div v 256
    omega

/-- The first bytes of a number are its low ones. -/
theorem leNat_take_natLE {k n : ℕ} (h : k ≤ n) (v : ℕ) :
    leNat ((natLE n v).take k) = v % 256 ^ k := by
  induction k generalizing n v with
  | zero => simp [leNat, Nat.mod_one]
  | succ k ih =>
    cases n with
    | zero => omega
    | succ n =>
      rw [natLE, List.take_succ_cons, leNat, ih (by omega), UInt8.toNat_ofNat', pow_succ 256,
        Nat.mul_comm (256 ^ k), Nat.mod_mul]

theorem readLE_of_le {mem : Bytes} {off n : ℕ} (h : off + n ≤ mem.length) :
    readLE mem off n = some (leNat ((mem.drop off).take n)) := if_pos h

theorem readLE_isSome {mem : Bytes} {off n : ℕ} :
    (readLE mem off n).isSome ↔ off + n ≤ mem.length := by
  unfold readLE
  split <;> simp_all

/-- A read past a prefix is a read of what follows it. -/
theorem readLE_append_right (A B : Bytes) (off n : ℕ) :
    readLE (A ++ B) (A.length + off) n = readLE B off n := by
  unfold readLE
  rw [List.length_append, List.drop_append]
  have hdrop : A.drop (A.length + off) = [] := List.drop_eq_nil_of_le (by omega)
  have hiff : A.length + off + n ≤ A.length + B.length ↔ off + n ≤ B.length := by omega
  simp [hdrop, hiff]

/-- A read that does not reach a suffix does not depend on it. -/
theorem readLE_append_left (A B : Bytes) {off n : ℕ} (h : off + n ≤ A.length) :
    readLE (A ++ B) off n = readLE A off n := by
  rw [readLE_of_le h, readLE_of_le (by rw [List.length_append]; omega),
    List.drop_append_of_le_length (by omega), List.take_append_of_le_length (by simp; omega)]

/-- A read of what follows the first `k` bytes. -/
theorem readLE_drop {mem : Bytes} {k off n v : ℕ} (h : readLE mem (k + off) n = some v) :
    readLE (mem.drop k) off n = some v := by
  have hle : k + off + n ≤ mem.length := readLE_isSome.1 (by rw [h]; rfl)
  rw [readLE_of_le hle] at h
  rw [readLE_of_le (by rw [List.length_drop]; omega), List.drop_drop]
  exact h

/-- Reading back an encoded field. -/
theorem readLE_natLE (B : Bytes) {n v : ℕ} (hv : v < 256 ^ n) :
    readLE (natLE n v ++ B) 0 n = some v := by
  rw [readLE_append_left _ _ (by simp), readLE_of_le (by simp), List.drop_zero]
  have htake : (natLE n v).take n = natLE n v := List.take_of_length_le (by simp)
  rw [htake, leNat_natLE hv]

/-- Taking an encoded field leaves what follows it. -/
theorem takeLE_natLE (B : Bytes) {n v : ℕ} (hv : v < 256 ^ n) :
    takeLE n (natLE n v ++ B) = some (v, B) := by
  have hle : n ≤ (natLE n v ++ B).length := by simp
  rw [takeLE, if_pos hle, List.take_left' (length_natLE n v), List.drop_left' (length_natLE n v),
    leNat_natLE hv]

/-! ### Writing -/

theorem length_overlay {mem bs : Bytes} {off : ℕ} (h : off + bs.length ≤ mem.length) :
    (overlay mem off bs).length = mem.length := by
  simp only [overlay, List.length_append, List.length_take, List.length_drop]
  omega

/-- Writing over the part of a buffer that starts at `off` and is as long. -/
theorem overlay_append {A B C bs : Bytes} {off : ℕ} (hoff : A.length = off)
    (hlen : bs.length = B.length) : overlay (A ++ (B ++ C)) off bs = A ++ (bs ++ C) := by
  subst hoff
  have hdrop : (A ++ (B ++ C)).drop (A.length + bs.length) = C := by
    rw [hlen, ← List.append_assoc]
    exact List.drop_left' (by simp)
  rw [overlay, List.take_left, hdrop]

end LittleEndian
