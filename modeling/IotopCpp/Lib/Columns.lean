import IotopCpp.Lib.Printf

/-!
# Texts in columns

A row of a table: texts in fields of a least width, each followed by a separator.  A text
that is longer than its field moves everything after it; when none is, the row can be cut
at the places its columns have, whatever the texts are.

* `Cell`, `row` — a text in its column, and a row of them.
* `cutRow` — a text cut into columns.
* `cutRow_row` — **a row is cut into its fields** when every text fits.
* `unpad` — a field without the blanks it was filled with.
* `word` — the first word of a text.
-/

namespace Columns

open Printf

/-- A text in a column: the least width, and the separator after it. -/
structure Cell where
  width : ℕ
  text : Bytes
  sep : Bytes

/-- The text is no longer than its column is wide. -/
def Cell.Fits (c : Cell) : Prop := c.text.length ≤ c.width

/-- The width of a column, and the length of its separator. -/
def Cell.column (c : Cell) : ℕ × ℕ := (c.width, c.sep.length)

/-- A row of a table. -/
def row (cells : List Cell) : Bytes := cells.flatMap fun c => field c.width c.text ++ c.sep

/-- The fields of a row whose columns have these widths and separators, and what follows.
A reader cuts at fixed places, so a text that is wider than its column spoils the rest. -/
def cutRow : List (ℕ × ℕ) → Bytes → List Bytes × Bytes
  | [], s => ([], s)
  | (width, sep) :: columns, s =>
    let cut := cutRow columns (s.drop (width + sep))
    (s.take width :: cut.1, cut.2)

/-- A text that fits makes a field of just the width. -/
theorem Cell.Fits.length_field {c : Cell} (h : c.Fits) : (field c.width c.text).length = c.width := by
  rw [Printf.length_field, Nat.max_eq_left h]

/-- **A row is cut into its fields.** -/
theorem cutRow_row {cells : List Cell} (h : ∀ c ∈ cells, c.Fits) (rest : Bytes) :
    cutRow (cells.map Cell.column) (row cells ++ rest)
      = (cells.map fun c => field c.width c.text, rest) := by
  induction cells with
  | nil => rfl
  | cons c cells ih =>
    obtain ⟨hc, hcells⟩ := List.forall_mem_cons.1 h
    have hwidth := hc.length_field
    have hrow : row (c :: cells) ++ rest = field c.width c.text ++ (c.sep ++ (row cells ++ rest)) := by
      simp [row]
    have hafter : (row (c :: cells) ++ rest).drop (c.width + c.sep.length) = row cells ++ rest := by
      rw [hrow, ← List.append_assoc]
      exact List.drop_left' (by rw [List.length_append, hwidth])
    rw [List.map_cons, Cell.column, cutRow, hafter, ih hcells, hrow, List.take_left' hwidth,
      List.map_cons]

/-- A field without the blanks before its text. -/
def unpad (s : Bytes) : Bytes := s.dropWhile (· == ' '.toUInt8)

/-- A text that does not start with a blank is what is left of its field. -/
theorem unpad_field {s : Bytes} (h : ' '.toUInt8 ∉ s.head?) (width : ℕ) :
    unpad (field width s) = s := by
  have hblank : ∀ c ∈ List.replicate (width - s.length) ' '.toUInt8, (c == ' '.toUInt8) = true := by
    intro c hc
    rw [List.eq_of_mem_replicate hc]
    exact beq_self_eq_true _
  unfold unpad field padLeft
  rw [List.dropWhile_append_of_pos hblank]
  cases s with
  | nil => rfl
  | cons c s =>
    refine List.dropWhile_cons_of_neg ?_
    rw [beq_iff_eq]
    rintro rfl
    exact h rfl

/-- The first word of a text, without the blanks around it. -/
def word (s : Bytes) : Bytes := (unpad s).takeWhile (· != ' '.toUInt8)

/-- **A field is read as a word**, if its text is one and a blank follows. -/
theorem word_field {s : Bytes} (hne : s ≠ []) (h : ' '.toUInt8 ∉ s) (width : ℕ) (rest : Bytes) :
    word (field width s ++ ' '.toUInt8 :: rest) = s := by
  have hblank : ∀ c ∈ List.replicate (width - s.length) ' '.toUInt8, (c == ' '.toUInt8) = true := by
    intro c hc
    rw [List.eq_of_mem_replicate hc]
    exact beq_self_eq_true _
  have hword : ∀ c ∈ s, (c != ' '.toUInt8) = true := fun c hc =>
    bne_iff_ne.2 (ne_of_mem_of_not_mem hc h)
  obtain ⟨c, cs, rfl⟩ := List.exists_cons_of_ne_nil hne
  have hunpad : unpad (field width (c :: cs) ++ ' '.toUInt8 :: rest)
      = c :: cs ++ ' '.toUInt8 :: rest := by
    unfold unpad field padLeft
    rw [List.append_assoc, List.dropWhile_append_of_pos hblank, List.cons_append,
      List.dropWhile_cons_of_neg]
    have hc := bne_iff_ne.1 (hword c List.mem_cons_self)
    simpa using hc
  rw [word, hunpad, List.takeWhile_append_of_pos hword, List.takeWhile_cons_of_neg (by simp),
    List.append_nil]

theorem length_row (cells : List Cell) :
    (row cells).length = (cells.map fun c => max c.width c.text.length + c.sep.length).sum := by
  induction cells with
  | nil => rfl
  | cons c cells ih =>
    have hrow : row (c :: cells) = field c.width c.text ++ c.sep ++ row cells := by simp [row]
    rw [hrow, List.length_append, List.length_append, Printf.length_field, ih, List.map_cons,
      List.sum_cons]

end Columns
