import Mathlib.Data.List.Basic

/-!
# Requests answered in order

A channel on which requests are sent, answered in the order they were sent, and
whose answers are taken in the order they came.  Nothing in an answer says what it
answers; the channel keeps that beside it.

What is outstanding, answered or not, is a queue: sending adds to its end, an
answer's arrival leaves it alone, and taking an answer takes its head.

* `Fifo` — the channels.
* `Fifo.send`, `Fifo.arrive`, `Fifo.take` — what happens on one.
* `Fifo.outstanding` — the requests whose answers have not been taken.
-/

universe u v

/-- The requests not yet answered, and the answers not yet taken, oldest first.  Each
answer is kept with the request it answers, which whoever takes it is not told. -/
structure Fifo (ρ : Type u) (β : Type v) where
  pending : List ρ := []
  queue : List (ρ × β) := []

namespace Fifo

variable {ρ : Type u} {β : Type v}

def send (c : Fifo ρ β) (r : ρ) : Fifo ρ β := { c with pending := c.pending ++ [r] }

/-- The oldest request that is not answered gets the answer `b`. -/
def arrive (c : Fifo ρ β) (b : β) : Option (Fifo ρ β) :=
  match c.pending with
  | [] => none
  | r :: rs => some { pending := rs, queue := c.queue ++ [(r, b)] }

/-- The oldest answer, and the channel without it. -/
def take (c : Fifo ρ β) : Option ((ρ × β) × Fifo ρ β) :=
  match c.queue with
  | [] => none
  | a :: as => some (a, { c with queue := as })

/-- The requests whose answers have not been taken, oldest first. -/
def outstanding (c : Fifo ρ β) : List ρ := c.queue.map Prod.fst ++ c.pending

@[simp] theorem outstanding_send (c : Fifo ρ β) (r : ρ) :
    (c.send r).outstanding = c.outstanding ++ [r] := by
  simp [outstanding, send]

theorem outstanding_arrive {c c' : Fifo ρ β} {b : β} (h : c.arrive b = some c') :
    c'.outstanding = c.outstanding := by
  unfold arrive at h
  cases hp : c.pending with
  | nil => rw [hp] at h; cases h
  | cons r rs =>
    rw [hp] at h
    obtain rfl := Option.some.inj h
    simp [outstanding, hp]

/-- An answer that arrived is there to be taken. -/
theorem take_arrive {c c' : Fifo ρ β} {b : β} (h : c.arrive b = some c') : c'.take ≠ none := by
  unfold arrive at h
  cases hp : c.pending with
  | nil => rw [hp] at h; cases h
  | cons r rs =>
    rw [hp] at h
    obtain rfl := Option.some.inj h
    unfold take
    cases c.queue <;> simp

/-- **Answers are taken in request order**: the one taken answers the request that
has been outstanding longest. -/
theorem outstanding_take {c c' : Fifo ρ β} {a : ρ × β} (h : c.take = some (a, c')) :
    c.outstanding = a.1 :: c'.outstanding := by
  unfold take at h
  cases hq : c.queue with
  | nil => rw [hq] at h; cases h
  | cons a' as =>
    rw [hq] at h
    obtain ⟨rfl, rfl⟩ := Prod.mk.inj (Option.some.inj h)
    simp [outstanding, hq]

end Fifo
