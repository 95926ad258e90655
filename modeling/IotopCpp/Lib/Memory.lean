import IotopCpp.Lib.Bytes

/-!
# Byte memory

Memory as a byte at every address, and runs of bytes written to it and read from
it.  Nothing bounds a write, so what one does past the member it was meant for can
be said.

* `Memory.store`, `Memory.load` — writing and reading a run of bytes.
* `Memory.store_outside`, `Memory.load_congr` — what a write leaves alone, and what is read there.
* `Memory.load_store` — what it leaves behind, over what was there.
* `Member`, `Member.Apart` — a run of addresses, and two without a common one.
-/

/-- A byte at every address. -/
abbrev Memory := ℕ → UInt8

namespace Memory

/-- `mem` with `bs` written from `p` on. -/
def store (mem : Memory) (p : ℕ) (bs : Bytes) : Memory :=
  fun a => if p ≤ a ∧ a < p + bs.length then bs.getD (a - p) 0 else mem a

/-- The `n` bytes from `p` on. -/
def load (mem : Memory) (p n : ℕ) : Bytes := (List.range n).map fun i => mem (p + i)

variable {mem mem' : Memory} {p n : ℕ} {bs : Bytes}

@[simp] theorem length_load : (load mem p n).length = n := by simp [load]

@[simp] theorem getElem_load {i : ℕ} (h : i < (load mem p n).length) :
    (load mem p n)[i] = mem (p + i) := by simp [load]

theorem store_outside {a : ℕ} (h : a < p ∨ p + bs.length ≤ a) : store mem p bs a = mem a := by
  unfold store
  exact if_neg (by omega)

theorem store_inside {i : ℕ} (h : i < bs.length) : store mem p bs (p + i) = bs.getD i 0 := by
  unfold store
  rw [if_pos (by omega), Nat.add_sub_cancel_left]

theorem store_nil : store mem p [] = mem := by
  funext a
  exact store_outside (by simp; omega)

theorem load_congr (h : ∀ a, p ≤ a → a < p + n → mem' a = mem a) : load mem' p n = load mem p n := by
  unfold load
  refine List.map_congr_left ?_
  intro i hi
  have hi : i < n := List.mem_range.1 hi
  exact h (p + i) (by omega) (by omega)

/-- Reading from where a write started: what was written, then what was there. -/
theorem load_store : load (store mem p bs) p n = bs.take n ++ (load mem p n).drop bs.length := by
  refine List.ext_getElem ?_ ?_
  · simp only [length_load, List.length_append, List.length_take, List.length_drop]
    omega
  · intro i hi _
    rw [length_load] at hi
    by_cases hlt : i < bs.length
    · have hleft : i < (bs.take n).length := by
        rw [List.length_take]
        omega
      rw [getElem_load, store_inside hlt, List.getElem_append_left hleft, List.getElem_take,
        List.getElem_eq_getD (h := hlt) 0]
    · have hright : (bs.take n).length ≤ i := by
        rw [List.length_take]
        omega
      have hindex : bs.length + (i - (bs.take n).length) = i := by
        rw [List.length_take]
        omega
      rw [getElem_load, store_outside (by omega), List.getElem_append_right hright,
        List.getElem_drop, getElem_load, hindex]

end Memory

/-- The addresses a member of a record takes up. -/
structure Member where
  off : ℕ
  size : ℕ

namespace Member

def Contains (m : Member) (a : ℕ) : Prop := m.off ≤ a ∧ a < m.off + m.size

/-- Two members have no address in common. -/
def Apart (m m' : Member) : Prop := m.off + m.size ≤ m'.off ∨ m'.off + m'.size ≤ m.off

instance (m m' : Member) : Decidable (m.Apart m') := inferInstanceAs (Decidable (_ ∨ _))

theorem Apart.symm {m m' : Member} (h : m.Apart m') : m'.Apart m := Or.symm h

end Member
