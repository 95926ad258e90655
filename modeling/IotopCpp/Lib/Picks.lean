import Mathlib.Data.List.Basic

/-!
# Loops that pick

A loop over a list that skips some elements and keeps something of each of the
others, in order.  What it must return is said by a relation between an element
and what is kept of it, without saying how the loop decides.

* `Picks P as bs` — `bs` is what `P` keeps of `as`.
* `Picks.unique` — there is only one such list when `P` is a partial function.
* `Picks.mem_iff` — what it then holds.
* `Picks.foldl` — the rule for a loop that appends to its result or skips.
-/

universe u v w x

variable {α : Type u} {β : Type v} {γ : Type w} {δ : Type x}

/-- `bs` lists, in the order of `as` and one for each of them, what `P` keeps of the
elements it keeps something of. -/
inductive Picks (P : α → β → Prop) : List α → List β → Prop
  | nil : Picks P [] []
  | take {a : α} {b : β} {as : List α} {bs : List β} : P a b → Picks P as bs →
    Picks P (a :: as) (b :: bs)
  | skip {a : α} {as : List α} {bs : List β} : (∀ b, ¬P a b) → Picks P as bs →
    Picks P (a :: as) bs

namespace Picks

variable {P : α → β → Prop}

/-- What is picked is determined, if at most one thing is kept of an element. -/
theorem unique (hP : ∀ a b b', P a b → P a b' → b = b') {as : List α} {bs bs' : List β}
    (h : Picks P as bs) (h' : Picks P as bs') : bs = bs' := by
  induction h generalizing bs' with
  | nil =>
    cases h'
    rfl
  | take hab _ ih =>
    cases h' with
    | take hab' h' => rw [hP _ _ _ hab hab', ih h']
    | skip hnone _ => exact absurd hab (hnone _)
  | skip hnone _ ih =>
    cases h' with
    | take hab' _ => exact absurd hab' (hnone _)
    | skip _ h' => exact ih h'

/-- What is kept is what `P` keeps of some element, if at most one thing is kept of each. -/
theorem mem_iff (hP : ∀ a b b', P a b → P a b' → b = b') {as : List α} {bs : List β}
    (h : Picks P as bs) {b : β} : b ∈ bs ↔ ∃ a ∈ as, P a b := by
  induction h with
  | nil => simp
  | @take a b' as bs hab _ ih =>
    rw [List.mem_cons, ih, List.exists_mem_cons_iff]
    refine or_congr_left ⟨?_, fun hb => hP a b b' hb hab⟩
    rintro rfl
    exact hab
  | @skip a as bs hnone _ ih =>
    rw [ih, List.exists_mem_cons_iff]
    exact ⟨Or.inr, fun hor => hor.resolve_left (hnone b)⟩

/-- Picking from other elements, and keeping less of each. -/
theorem map {Q : γ → δ → Prop} {f : α → γ} {g : β → δ}
    (htake : ∀ a b, P a b → Q (f a) (g b)) (hskip : ∀ a d, Q (f a) d → ∃ b, P a b)
    {as : List α} {bs : List β} (h : Picks P as bs) : Picks Q (as.map f) (bs.map g) := by
  induction h with
  | nil => exact .nil
  | take hab _ ih => exact .take (htake _ _ hab) ih
  | skip hnone _ ih =>
    refine .skip (fun d hd => ?_) ih
    obtain ⟨b, hb⟩ := hskip _ d hd
    exact hnone b hb

/-- **The loop rule.**  A loop whose body appends what is kept of an element, and
leaves its result as it is where nothing is, picks. -/
theorem foldl {body : List β → α → List β}
    (hbody : ∀ a, (∃ b, P a b ∧ ∀ out, body out a = out ++ [b]) ∨
      (∀ b, ¬P a b) ∧ ∀ out, body out a = out) (as : List α) (out : List β) :
    ∃ bs, Picks P as bs ∧ as.foldl body out = out ++ bs := by
  induction as generalizing out with
  | nil => exact ⟨[], .nil, (List.append_nil out).symm⟩
  | cons a as ih =>
    rw [List.foldl_cons]
    rcases hbody a with ⟨b, hab, hout⟩ | ⟨hnone, hout⟩
    · obtain ⟨bs, hpicks, heq⟩ := ih (out ++ [b])
      refine ⟨b :: bs, .take hab hpicks, ?_⟩
      rw [hout, heq, List.append_assoc, List.singleton_append]
    · obtain ⟨bs, hpicks, heq⟩ := ih out
      refine ⟨bs, .skip hnone hpicks, ?_⟩
      rw [hout, heq]

end Picks
