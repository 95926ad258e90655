import Mathlib.Data.List.Nodup
import Mathlib.Data.List.Forall2

/-!
# Numbers for values

A table that numbers values from one, in the order in which they are first asked for.  A
number keeps its value for as long as the table grows, so what was numbered early may be
looked up late.

* `Interning.value` — the value of a number.
* `Interning.intern`, `Interning.internAll` — numbers for a value, and for a list of them.
* `Interning.value_intern`, `Interning.forall₂_internAll` — a number stands for the value
  it was given for.
* `Interning.value_of_isPrefix` — and it does so ever after.
* `Interning.mem_internAll`, `Interning.internAll_of_subset` — what a table holds, and when
  it is complete.
-/

universe u

namespace Interning

variable {α : Type u}

/-- The value of a number; zero has none. -/
def value (t : List α) (n : ℕ) : Option α := if n = 0 then none else t[n - 1]?

theorem value_succ (t : List α) (n : ℕ) : value t (n + 1) = t[n]? := by
  simp [value]

/-- **A number keeps its value.** -/
theorem value_of_isPrefix {t t' : List α} (h : t <+: t') {n : ℕ} {a : α} (ha : value t n = some a) :
    value t' n = some a := by
  cases n with
  | zero => exact ha
  | succ n =>
    rw [value_succ] at ha ⊢
    obtain ⟨rest, rfl⟩ := h
    rwa [List.getElem?_append_left (List.getElem?_eq_some_iff.1 ha).1]

theorem mem_of_value {t : List α} {n : ℕ} {a : α} (h : value t n = some a) : a ∈ t := by
  cases n with
  | zero => cases h
  | succ n =>
    rw [value_succ] at h
    exact List.mem_of_getElem? h

/-- A value has one number, in a table without repetitions. -/
theorem value_inj {t : List α} (ht : t.Nodup) {n m : ℕ} {a : α} (hn : value t n = some a)
    (hm : value t m = some a) : n = m := by
  cases n with
  | zero => cases hn
  | succ n =>
    cases m with
    | zero => cases hm
    | succ m =>
      rw [value_succ] at hn hm
      obtain ⟨hlt, -⟩ := List.getElem?_eq_some_iff.1 hn
      exact congrArg (· + 1) ((List.getElem?_inj hlt ht).1 (hn.trans hm.symm))

variable [DecidableEq α]

/-- The number of a value, and the table after it was asked for: the place of the value
if the table has it, counted from one, and a new place at the end if not. -/
def intern (t : List α) (a : α) : ℕ × List α :=
  match t.findIdx? (· == a) with
  | some pos => (pos + 1, t)
  | none => (t.length + 1, t ++ [a])

/-- A value that is in the table leaves it as it is; any other goes to its end. -/
theorem intern_snd (t : List α) (a : α) :
    (intern t a).2 = if a ∈ t then t else t ++ [a] := by
  unfold intern
  split
  · next pos hpos =>
    obtain ⟨hlt, hfound, -⟩ := List.findIdx?_eq_some_iff_getElem.1 hpos
    rw [if_pos]
    rw [← beq_iff_eq.1 hfound]
    exact List.getElem_mem hlt
  · next hnone =>
    rw [List.findIdx?_eq_none_iff] at hnone
    rw [if_neg]
    intro hmem
    simpa using hnone a hmem

theorem value_intern (t : List α) (a : α) : value (intern t a).2 (intern t a).1 = some a := by
  unfold intern
  split
  · next pos hpos =>
    obtain ⟨hlt, hfound, -⟩ := List.findIdx?_eq_some_iff_getElem.1 hpos
    rw [value_succ, List.getElem?_eq_getElem hlt, beq_iff_eq.1 hfound]
  · simp [value_succ]

theorem prefix_intern (t : List α) (a : α) : t <+: (intern t a).2 := by
  rw [intern_snd]
  split
  · exact List.prefix_rfl
  · exact List.prefix_append t [a]

theorem nodup_intern {t : List α} (ht : t.Nodup) (a : α) : (intern t a).2.Nodup := by
  rw [intern_snd]
  split
  · exact ht
  · next hmem =>
    rw [← List.concat_eq_append]
    exact (List.nodup_concat t a).2 ⟨hmem, ht⟩

theorem mem_intern {t : List α} {a b : α} : b ∈ (intern t a).2 ↔ b ∈ t ∨ b = a := by
  rw [intern_snd]
  split
  · next hmem =>
    refine ⟨Or.inl, ?_⟩
    rintro (hb | rfl)
    · exact hb
    · exact hmem
  · rw [List.mem_append, List.mem_singleton]

/-! ### Lists of values -/

/-- The numbers of the values of a list, asked for in order. -/
def internAll (t : List α) : List α → List ℕ × List α
  | [] => ([], t)
  | a :: as => ((intern t a).1 :: (internAll (intern t a).2 as).1, (internAll (intern t a).2 as).2)

theorem prefix_internAll (t as : List α) : t <+: (internAll t as).2 := by
  induction as generalizing t with
  | nil => exact List.prefix_rfl
  | cons a as ih => exact (prefix_intern t a).trans (ih _)

theorem mem_internAll {t as : List α} {b : α} : b ∈ (internAll t as).2 ↔ b ∈ t ∨ b ∈ as := by
  induction as generalizing t with
  | nil => simp [internAll]
  | cons a as ih => rw [internAll, ih, mem_intern, List.mem_cons, or_assoc]

/-- **Each number stands for the value it was given for**, in the table at the end. -/
theorem forall₂_internAll (t as : List α) :
    List.Forall₂ (fun n a => value (internAll t as).2 n = some a) (internAll t as).1 as := by
  induction as generalizing t with
  | nil => exact .nil
  | cons a as ih => exact .cons (value_of_isPrefix (prefix_internAll _ as) (value_intern t a)) (ih _)

/-- A table that has them all is complete. -/
theorem internAll_of_subset {t as : List α} (h : as ⊆ t) : (internAll t as).2 = t := by
  induction as with
  | nil => rfl
  | cons a as ih =>
    obtain ⟨ha, has⟩ := List.cons_subset.1 h
    rw [internAll, intern_snd, if_pos ha, ih has]

end Interning
