import IotopCpp.Lib.Bytes

/-!
# Records in a byte buffer

Integer fields written at fixed places of a buffer, as the members of a structure lie in
memory.  Slots that are apart are read back, whatever order they were written in and
whatever the buffer held.

* `Slot` — where a field lies, and its value.
* `Slot.Apart`, `Slot.Fits` — fields without a common byte, and a field a buffer has
  room for.
* `writeAll` — a buffer with fields written over it.
* `readLE_writeAll` — every field is read back.
-/

open LittleEndian

namespace LittleEndian

/-- A read beside what was written over a buffer. -/
theorem readLE_overlay_apart {mem bs : Bytes} {p off n : ℕ} (hroom : p + bs.length ≤ mem.length)
    (h : off + n ≤ p ∨ p + bs.length ≤ off) :
    readLE (overlay mem p bs) off n = readLE mem off n := by
  have hp : (mem.take p).length = p := by
    rw [List.length_take]
    omega
  rcases h with hbefore | hafter
  · rw [overlay, readLE_append_left _ _ (by omega)]
    have hsplit := readLE_append_left (mem.take p) (mem.drop p) (show off + n ≤ (mem.take p).length by omega)
    rw [List.take_append_drop] at hsplit
    exact hsplit.symm
  · obtain ⟨k, rfl⟩ := Nat.exists_eq_add_of_le hafter
    have hnew := readLE_append_right (mem.take p ++ bs) (mem.drop (p + bs.length)) k n
    have hold := readLE_append_right (mem.take (p + bs.length)) (mem.drop (p + bs.length)) k n
    rw [List.length_append, hp, List.append_assoc] at hnew
    rw [List.length_take, Nat.min_eq_left hroom, List.take_append_drop] at hold
    rw [overlay, hnew, hold]

/-- A read of an integer that was written over a buffer. -/
theorem readLE_overlay_natLE {mem : Bytes} {p n v : ℕ} (hroom : p + n ≤ mem.length)
    (hv : v < 256 ^ n) : readLE (overlay mem p (natLE n v)) p n = some v := by
  have hp : (mem.take p).length = p := by
    rw [List.length_take]
    omega
  have hskip := readLE_append_right (mem.take p) (natLE n v ++ mem.drop (p + (natLE n v).length)) 0 n
  rw [hp, Nat.add_zero] at hskip
  rw [overlay, hskip, readLE_natLE _ hv]

end LittleEndian

/-- A field of a record: where it starts, how many bytes it has, and its value. -/
structure Slot where
  off : ℕ
  size : ℕ
  value : ℕ

namespace Slot

/-- Two fields have no byte in common. -/
def Apart (f g : Slot) : Prop := f.off + f.size ≤ g.off ∨ g.off + g.size ≤ f.off

instance (f g : Slot) : Decidable (f.Apart g) := inferInstanceAs (Decidable (_ ∨ _))

/-- The field lies in the first `n` bytes, and is wide enough for its value. -/
structure Fits (n : ℕ) (f : Slot) : Prop where
  inside : f.off + f.size ≤ n
  value_lt : f.value < 256 ^ f.size

/-- A buffer with the field written over it. -/
def write (mem : Bytes) (f : Slot) : Bytes := overlay mem f.off (natLE f.size f.value)

variable {mem : Bytes} {f g : Slot}

theorem length_write (h : f.Fits mem.length) : (write mem f).length = mem.length :=
  length_overlay (by rw [length_natLE]; exact h.inside)

theorem readLE_write (h : f.Fits mem.length) :
    readLE (write mem f) f.off f.size = some f.value :=
  readLE_overlay_natLE h.inside h.value_lt

theorem readLE_write_apart (h : g.Fits mem.length) (hapart : f.Apart g) :
    readLE (write mem g) f.off f.size = readLE mem f.off f.size :=
  readLE_overlay_apart (by rw [length_natLE]; exact h.inside) (by rwa [length_natLE])

end Slot

/-- A buffer with fields written over it, one after another. -/
def writeAll (mem : Bytes) (fs : List Slot) : Bytes := fs.foldl Slot.write mem

variable {mem : Bytes} {fs : List Slot}

theorem length_writeAll (h : ∀ f ∈ fs, f.Fits mem.length) : (writeAll mem fs).length = mem.length := by
  induction fs generalizing mem with
  | nil => rfl
  | cons f fs ih =>
    obtain ⟨hf, hfs⟩ := List.forall_mem_cons.1 h
    rw [writeAll, List.foldl_cons]
    rw [← Slot.length_write hf] at hfs ⊢
    exact ih hfs

/-- Writes beside a field leave it. -/
theorem readLE_writeAll_apart (h : ∀ g ∈ fs, g.Fits mem.length) {f : Slot}
    (hapart : ∀ g ∈ fs, f.Apart g) :
    readLE (writeAll mem fs) f.off f.size = readLE mem f.off f.size := by
  induction fs generalizing mem with
  | nil => rfl
  | cons g fs ih =>
    obtain ⟨hg, hfs⟩ := List.forall_mem_cons.1 h
    obtain ⟨hfg, hrest⟩ := List.forall_mem_cons.1 hapart
    rw [← Slot.length_write hg] at hfs
    rw [writeAll, List.foldl_cons, ← Slot.readLE_write_apart hg hfg]
    exact ih hfs hrest

/-- **Slots that are apart are read back.** -/
theorem readLE_writeAll (h : ∀ f ∈ fs, f.Fits mem.length) (hapart : fs.Pairwise Slot.Apart)
    {f : Slot} (hf : f ∈ fs) : readLE (writeAll mem fs) f.off f.size = some f.value := by
  induction fs generalizing mem with
  | nil => cases hf
  | cons g fs ih =>
    obtain ⟨hg, hfs⟩ := List.forall_mem_cons.1 h
    obtain ⟨hbeside, hrest⟩ := List.pairwise_cons.1 hapart
    rw [← Slot.length_write hg] at hfs
    rw [writeAll, List.foldl_cons]
    rcases List.mem_cons.1 hf with rfl | hf
    · exact (readLE_writeAll_apart hfs hbeside).trans (Slot.readLE_write hg)
    · exact ih hfs hrest hf
