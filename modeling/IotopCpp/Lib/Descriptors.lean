import Mathlib.Algebra.BigOperators.Group.List.Basic
import Mathlib.Algebra.GroupWithZero.Nat
import Mathlib.Data.Finset.Card
import Mathlib.Data.Finset.Range

/-!
# File descriptors

Programs that open and close descriptors of one process.  `open` gives the least one that
is free, so a descriptor that was closed is given again; `close` of one that is not open is
refused.  A program is balanced if it leaves open what was open and closes none of it on the
way, which is what a caller with descriptors of its own relies on.

* `Prog` — a part of a program, as what it leaves open and what it did.
* `Balanced n` — balanced, with `n` closes that are refused.
* `balanced_seq`, `balanced_seqAll` — one balanced part after another.
* `balanced_withOpen` — a part between an `open` and its `close`.
* `balanced_withOpen_twice` — **a second `close` is refused, and does no harm**, as long as
  nothing is opened between the two.
-/

namespace Descriptors

/-- What happens to a descriptor. -/
inductive Event
  | opened (fd : ℕ)
  | closed (fd : ℕ)
  /-- A `close` of a descriptor that is not open. -/
  | refused (fd : ℕ)
  deriving DecidableEq

def Event.isRefused : Event → Bool
  | refused _ => true
  | _ => false

/-- A part of a program: what it leaves open, and what it did. -/
abbrev Prog := Finset ℕ → Finset ℕ × List Event

/-- The least descriptor that is free: one of the first numbers is, up to how many are open. -/
def lowest (t : Finset ℕ) : ℕ := ((List.range (t.card + 1)).find? (· ∉ t)).getD 0

theorem lowest_notMem (t : Finset ℕ) : lowest t ∉ t := by
  unfold lowest
  cases hfind : (List.range (t.card + 1)).find? (· ∉ t) with
  | none =>
    have hall := List.find?_eq_none.1 hfind
    have hsubset : Finset.range (t.card + 1) ⊆ t := by
      intro fd hfd
      simpa using hall fd (List.mem_range.2 (Finset.mem_range.1 hfd))
    have hcard := Finset.card_le_card hsubset
    rw [Finset.card_range] at hcard
    exact absurd hcard (Nat.not_succ_le_self _)
  | some fd => simpa using List.find?_some hfind

def skip : Prog := fun t => (t, [])

def seq (p q : Prog) : Prog := fun t => ((q (p t).1).1, (p t).2 ++ (q (p t).1).2)

def seqAll (ps : List Prog) : Prog := ps.foldr seq skip

def close (fd : ℕ) : Prog := fun t =>
  if fd ∈ t then (t.erase fd, [.closed fd]) else (t, [.refused fd])

/-- `open`, and what is done with the descriptor. -/
def withOpen (body : ℕ → Prog) : Prog := fun t =>
  let out := body (lowest t) (insert (lowest t) t)
  (out.1, .opened (lowest t) :: out.2)

/-- The program leaves open what was open, closes none of it, and is refused `n` times. -/
structure Balanced (n : ℕ) (p : Prog) : Prop where
  table : ∀ t, (p t).1 = t
  own : ∀ t, ∀ fd ∈ t, .closed fd ∉ (p t).2
  refused : ∀ t, (p t).2.countP Event.isRefused = n

theorem balanced_skip : Balanced 0 skip where
  table _ := rfl
  own _ _ _ := List.not_mem_nil
  refused _ := rfl

variable {m n : ℕ} {p q : Prog}

theorem balanced_seq (hp : Balanced m p) (hq : Balanced n q) : Balanced (m + n) (seq p q) where
  table t := by
    show (q (p t).1).1 = t
    rw [hp.table, hq.table]
  own t fd hfd := by
    intro hclosed
    rcases List.mem_append.1 hclosed with h | h
    · exact hp.own t fd hfd h
    · rw [hp.table] at h
      exact hq.own t fd hfd h
  refused t := by
    show ((p t).2 ++ (q (p t).1).2).countP _ = _
    rw [List.countP_append, hp.refused, hq.refused]

theorem balanced_seqAll {α : Type*} {l : List α} {prog : α → Prog} {count : α → ℕ}
    (h : ∀ a ∈ l, Balanced (count a) (prog a)) :
    Balanced (l.map count).sum (seqAll (l.map prog)) := by
  induction l with
  | nil => exact balanced_skip
  | cons a l ih =>
    obtain ⟨ha, hl⟩ := List.forall_mem_cons.1 h
    rw [List.map_cons, List.sum_cons]
    exact balanced_seq ha (ih hl)

/-! ### A descriptor of its own -/

theorem close_insert {t : Finset ℕ} {fd : ℕ} (h : fd ∉ t) :
    close fd (insert fd t) = (t, [.closed fd]) := by
  rw [close, if_pos (Finset.mem_insert_self fd t), Finset.erase_insert h]

theorem close_of_notMem {t : Finset ℕ} {fd : ℕ} (h : fd ∉ t) : close fd t = (t, [.refused fd]) :=
  if_neg h

/-- The program opens a descriptor, does with it what leaves it open, and ends with `ends`,
which closes it. -/
theorem balanced_of_ends {body ends : ℕ → Prog} (h : ∀ fd, Balanced n (body fd))
    (events : ℕ → List Event)
    (hends : ∀ t fd, fd ∉ t → ends fd (insert fd t) = (t, .closed fd :: events fd))
    (hevents : ∀ fd fd', .closed fd' ∉ events fd) {k : ℕ}
    (hrefused : ∀ fd, (events fd).countP Event.isRefused = k) :
    Balanced (n + k) (withOpen fun fd => seq (body fd) (ends fd)) := by
  -- on every table: it is left as it was, and these are the events
  have heq (t : Finset ℕ) : withOpen (fun fd => seq (body fd) (ends fd)) t
      = (t, .opened (lowest t) :: ((body (lowest t) (insert (lowest t) t)).2
          ++ .closed (lowest t) :: events (lowest t))) := by
    simp only [withOpen, seq, (h (lowest t)).table, hends t _ (lowest_notMem t)]
  refine ⟨?_, ?_, ?_⟩
  · intro t
    rw [heq]
  · intro t fd hfd hclosed
    rw [heq] at hclosed
    simp only [List.mem_cons, List.mem_append, reduceCtorEq, false_or, Event.closed.injEq] at hclosed
    rcases hclosed with hbody | rfl | hafter
    · exact (h _).own _ fd (Finset.mem_insert_of_mem hfd) hbody
    · exact lowest_notMem t hfd
    · exact hevents _ _ hafter
  · intro t
    rw [heq]
    simp only [List.countP_cons, List.countP_append, (h _).refused, hrefused, Event.isRefused]
    simp

variable {body : ℕ → Prog} (h : ∀ fd, Balanced n (body fd))

include h

/-- **A part between an `open` and its `close`.** -/
theorem balanced_withOpen : Balanced n (withOpen fun fd => seq (body fd) (close fd)) := by
  refine balanced_of_ends h (fun _ => []) (fun t fd hfd => ?_) (fun _ _ => ?_) fun _ => rfl
  · exact close_insert hfd
  · exact List.not_mem_nil

/-- **A second `close`** is refused: nothing has been opened since the first. -/
theorem balanced_withOpen_twice :
    Balanced (n + 1) (withOpen fun fd => seq (body fd) (seq (close fd) (close fd))) := by
  refine balanced_of_ends h (fun fd => [.refused fd]) (fun t fd hfd => ?_) (fun _ _ => ?_)
    fun _ => rfl
  · simp only [seq, close_insert hfd, close_of_notMem hfd, List.singleton_append]
  · simp

end Descriptors
