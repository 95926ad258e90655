import IotopCpp.Lib.MarkSweep
import Mathlib.Algebra.BigOperators.Group.List.Basic
import Mathlib.Algebra.Order.BigOperators.Group.List
import Mathlib.Algebra.Order.Ring.Rat
import Mathlib.Tactic.Linarith

/-!
# Totals kept beside a table

A component that adds up a total while it fills a table may count what the table
does not keep.  These are the rules for comparing the two.

* `Table.perm_values` — the values of a table, as those of a list without
  repeated keys that says what the table holds.
* `sum_filter_eq_iff` — a part of a list has the total of the whole list exactly
  when what is left out counts for nothing.
-/

universe u v w

namespace Table

variable {κ : Type u} {ν : Type v} {α : Type w} [DecidableEq κ]

/-- The values of `m` that satisfy `p` are the values `val a` of a list that has
one element for each key under which `m` holds such a value. -/
theorem perm_values {m : Table κ ν} {p : ν → Bool} {l : List α} (key : α → κ) (val : α → ν)
    (hnodup : (l.map key).Nodup)
    (h : ∀ k v, (m.lookup k = some v ∧ p v = true) ↔ ∃ a ∈ l, key a = k ∧ val a = v) :
    ((m.entries.filter fun e => p e.2).map Sigma.snd).Perm (l.map val) := by
  have hentries : (m.entries.filter fun e => p e.2).Perm
      (l.map fun a => (⟨key a, val a⟩ : Σ _ : κ, ν)) := by
    -- neither list repeats an element, so it is enough that they have the same ones
    refine (List.perm_ext_iff_of_nodup ?_ ?_).2 ?_
    · exact m.nodupKeys.nodup.filter _
    · apply List.Nodup.of_map Sigma.fst
      rwa [List.map_map]
    · rintro ⟨k, v⟩
      rw [List.mem_filter, ← AList.mem_lookup_iff, Option.mem_def, h, List.mem_map]
      constructor
      · rintro ⟨a, ha, rfl, rfl⟩
        exact ⟨a, ha, rfl⟩
      · rintro ⟨a, ha, heq⟩
        cases heq
        exact ⟨a, ha, rfl, rfl⟩
  have hvalues := hentries.map Sigma.snd
  rwa [List.map_map] at hvalues

end Table

/-- Leaving out elements leaves a total of non-negative terms as it is exactly
when each element left out counts for nothing. -/
theorem sum_filter_eq_iff {α : Type u} {f : α → ℚ} {p : α → Bool} {l : List α}
    (hf : ∀ a ∈ l, 0 ≤ f a) :
    ((l.filter p).map f).sum = (l.map f).sum ↔ ∀ a ∈ l, p a = false → f a = 0 := by
  have hle (l : List α) (hf : ∀ a ∈ l, 0 ≤ f a) : ((l.filter p).map f).sum ≤ (l.map f).sum :=
    (List.filter_sublist.map f).sum_le_sum (by simpa using hf)
  induction l with
  | nil => simp
  | cons a l ih =>
    have htail : ∀ b ∈ l, 0 ≤ f b := fun b hb => hf b (List.mem_cons_of_mem a hb)
    have hl := hle l htail
    have hiff := ih htail
    rw [List.forall_mem_cons, List.map_cons, List.sum_cons]
    cases hp : p a with
    | true =>
      rw [List.filter_cons_of_pos hp, List.map_cons, List.sum_cons, add_right_inj]
      refine ⟨?_, ?_⟩
      · intro h
        exact ⟨Bool.noConfusion, hiff.1 h⟩
      · intro hsum
        rcases hsum with ⟨-, hrest⟩
        exact hiff.2 hrest
    | false =>
      rw [List.filter_cons_of_neg (by simp [hp])]
      -- the rest alone cannot make up for a term that is left out
      have ha := hf a List.mem_cons_self
      refine ⟨?_, ?_⟩
      · intro h
        exact ⟨fun _ => by linarith, hiff.1 (by linarith)⟩
      · intro hkept
        rcases hkept with ⟨hzero, hrest⟩
        rw [hzero rfl, zero_add, hiff.2 hrest]
