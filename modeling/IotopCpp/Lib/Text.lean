import Mathlib.Data.List.DropRight

/-!
# Pieces of a text

A text is a list of characters of any kind.  Two things are said about one: what
follows its last separator, and that it holds a list of other texts in order.

* `afterLast sep s` — what follows the last `sep`, the whole of `s` without one.
* `InOrder text pieces` — `text` holds every piece, each after the one before.
-/

namespace Text

variable {α : Type*}

/-! ### Before the first separator, and after the last -/

section Separator

variable [DecidableEq α] {sep : α} {s : List α}

/-- What precedes the first separator is everything when there is none. -/
theorem takeWhile_ne_eq_self_iff : s.takeWhile (· ≠ sep) = s ↔ sep ∉ s := by
  rw [List.takeWhile_eq_self_iff]
  refine ⟨?_, ?_⟩
  · intro h hmem
    have hne := h sep hmem
    simp at hne
  · intro h c hc
    simpa using ne_of_mem_of_not_mem hc h

/-- What precedes the first separator of a text that begins without one. -/
theorem takeWhile_ne_append (h : sep ∉ s) (t : List α) :
    (s ++ t).takeWhile (· ≠ sep) = s ++ t.takeWhile (· ≠ sep) := by
  refine List.takeWhile_append_of_pos ?_
  intro c hc
  simpa using ne_of_mem_of_not_mem hc h

/-- A piece without the character, and without a separator, may be left out. -/
theorem mem_takeWhile_ne_append_append {c : α} {r : List α} (hsep : sep ∉ r) (hc : c ∉ r)
    (t : List α) :
    c ∈ (s ++ (r ++ t)).takeWhile (· ≠ sep) ↔ c ∈ (s ++ t).takeWhile (· ≠ sep) := by
  by_cases h : sep ∈ s
  · -- nothing behind the first separator counts
    have hcut : (s.takeWhile (· ≠ sep)).length ≠ s.length := by
      intro hlen
      exact takeWhile_ne_eq_self_iff.1 (List.takeWhile_prefix _ |>.eq_of_length hlen) h
    rw [List.takeWhile_append, if_neg hcut, List.takeWhile_append, if_neg hcut]
  · rw [takeWhile_ne_append h, takeWhile_ne_append hsep, takeWhile_ne_append h, List.mem_append,
      List.mem_append, List.mem_append]
    simp only [hc, false_or]

/-- What follows the last `sep` of a text. -/
def afterLast (sep : α) (s : List α) : List α := s.rtakeWhile (· ≠ sep)

theorem sep_notMem_afterLast : sep ∉ afterLast sep s := by
  intro h
  have hne := List.mem_rtakeWhile_imp h
  simp at hne

theorem afterLast_eq_self_iff : afterLast sep s = s ↔ sep ∉ s := by
  unfold afterLast
  rw [List.rtakeWhile_eq_self_iff]
  refine ⟨?_, ?_⟩
  · intro h hmem
    have hne := h sep hmem
    simp at hne
  · intro h c hc
    simpa using ne_of_mem_of_not_mem hc h

/-- What comes before a separator does not count. -/
theorem afterLast_append_sep (p q : List α) :
    afterLast sep (p ++ sep :: q) = afterLast sep q := by
  induction q using List.reverseRecOn with
  | nil => simp [afterLast, List.rtakeWhile_concat_neg]
  | append_singleton q c ih =>
    have hsplit : p ++ sep :: (q ++ [c]) = (p ++ sep :: q) ++ [c] := by simp
    unfold afterLast at ih ⊢
    rw [hsplit, List.rtakeWhile_concat, List.rtakeWhile_concat, ih]

end Separator

/-! ### Pieces in order -/

/-- The text holds every piece, each after the end of the one before. -/
def InOrder : List α → List (List α) → Prop
  | _, [] => True
  | text, piece :: pieces =>
    ∃ before after, text = before ++ (piece ++ after) ∧ InOrder after pieces

/-- The pieces have room in the text. -/
theorem InOrder.length_flatten_le {text : List α} {pieces : List (List α)}
    (h : InOrder text pieces) : pieces.flatten.length ≤ text.length := by
  induction pieces generalizing text with
  | nil => simp
  | cons piece pieces ih =>
    obtain ⟨before, after, rfl, hafter⟩ := h
    have hle := ih hafter
    simp only [List.flatten_cons, List.length_append]
    omega

/-- Empty pieces are in every text. -/
theorem inOrder_of_forall_eq_nil (text : List α) {pieces : List (List α)}
    (h : ∀ piece ∈ pieces, piece = []) : InOrder text pieces := by
  induction pieces with
  | nil => trivial
  | cons piece pieces ih =>
    refine ⟨[], text, ?_, ih fun p hp => h p (List.mem_cons_of_mem _ hp)⟩
    rw [h piece List.mem_cons_self, List.nil_append, List.nil_append]

/-- What a prefix of the first piece can hold of a list of pieces: all of it when
it is the whole piece, and the others are empty. -/
theorem inOrder_isPrefix_iff {text piece : List α} {pieces : List (List α)}
    (hpre : text <+: piece) :
    InOrder text (piece :: pieces) ↔ text = piece ∧ ∀ p ∈ pieces, p = [] := by
  refine ⟨?_, ?_⟩
  · intro h
    have hroom := h.length_flatten_le
    have hle := hpre.length_le
    simp only [List.flatten_cons, List.length_append] at hroom
    have hrest : pieces.flatten = [] := List.length_eq_zero_iff.1 (by omega)
    exact ⟨hpre.eq_of_length (by omega), List.flatten_eq_nil_iff.1 hrest⟩
  · intro h
    refine ⟨[], [], by simp [h.1], inOrder_of_forall_eq_nil _ h.2⟩

end Text
