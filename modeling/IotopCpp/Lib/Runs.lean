import Mathlib.Algebra.Ring.Parity
import Mathlib.Data.List.DropRight
import Mathlib.Data.List.Forall2
import Mathlib.Data.List.Induction

/-!
# Runs of a partial step function

A component that takes an event to a new state, or has no behaviour for it, is a
function `step : σ → ε → Option σ`.  Its runs are folds of that function over
lists of events.  The rules here are what statements about whole runs need: how
a run ends, what an invariant gives, and how two runs stay related.

* `Runs.runFrom` — the state a list of events leads to.
* `Runs.EveryStep` — a property of every step a run makes.
* `Runs.invariant`, `Runs.everyStep_of_invariant` — the invariant rules.
* `Runs.everyStep_of_everyStep`, `Runs.everyStep_iff_of_step` — the rules for steps
  that are assumed to satisfy something, or may fail to.
* `Runs.length_le_of_measure` — the rule for how long a run can be.
* `Runs.everyStep_cons`, `Runs.everyStep_concat` — every step of a longer run.
* `Runs.lockstep`, `Runs.lockstep_of_eq_some` — the rules for two runs over
  related events.
* `Runs.EachAfter` — a property of every entry of a log, given what precedes it.
-/

universe u v w

namespace Runs

variable {σ : Type u} {ε : Type v} {σ' : Type u} {ε' : Type w}

/-- The state `es` leads to from `s`, if every event on the way has a behaviour.  There is
none for an event that the state cannot have, and for one that the program's language
does not say what it does. -/
def runFrom (step : σ → ε → Option σ) (s : σ) (es : List ε) : Option σ := es.foldlM step s

section

variable {step : σ → ε → Option σ}

theorem runFrom_append (s : σ) (es es' : List ε) :
    runFrom step s (es ++ es') = (runFrom step s es).bind fun s' => runFrom step s' es' := by
  unfold runFrom
  rw [List.foldlM_append]
  rfl

theorem runFrom_singleton (s : σ) (e : ε) : runFrom step s [e] = step s e := by
  unfold runFrom
  rw [List.foldlM_cons]
  exact bind_pure (step s e)

theorem runFrom_cons {s s'' : σ} {e : ε} {es : List ε} :
    runFrom step s (e :: es) = some s'' ↔
      ∃ s', step s e = some s' ∧ runFrom step s' es = some s'' := by
  unfold runFrom
  rw [List.foldlM_cons, Option.bind_eq_bind, Option.bind_eq_some_iff]

/-- A run ends with a step from where the run before it ended. -/
theorem runFrom_concat {s s'' : σ} {es : List ε} {e : ε} :
    runFrom step s (es ++ [e]) = some s'' ↔
      ∃ s', runFrom step s es = some s' ∧ step s' e = some s'' := by
  rw [runFrom_append, Option.bind_eq_some_iff]
  simp only [runFrom_singleton]

/-- **The invariant rule.** -/
theorem invariant (Inv : σ → Prop) (hstep : ∀ s e s', Inv s → step s e = some s' → Inv s')
    {s s' : σ} {es : List ε} (hs : Inv s) (hrun : runFrom step s es = some s') : Inv s' := by
  induction es using List.reverseRecOn generalizing s' with
  | nil =>
    obtain rfl := Option.some.inj hrun
    exact hs
  | append_singleton es e ih =>
    obtain ⟨s₁, h₁, h₂⟩ := runFrom_concat.1 hrun
    exact hstep s₁ e s' (ih h₁) h₂

/-- **The rule for how long a run can be**: where every event but the idle ones makes the
measure smaller, a run has as many events as the measure leaves, and its idle ones. -/
theorem length_le_of_measure (Inv : σ → Prop) (measure : σ → ℕ) (idle : ε → Bool)
    (hstep : ∀ s e s', Inv s → step s e = some s' →
      Inv s' ∧ measure s' + (if idle e then 0 else 1) ≤ measure s)
    {s s' : σ} {es : List ε} (hs : Inv s) (hrun : runFrom step s es = some s') :
    es.length + measure s' ≤ measure s + es.countP idle := by
  induction es generalizing s with
  | nil =>
    obtain rfl := Option.some.inj hrun
    simp
  | cons e es ih =>
    obtain ⟨s₁, hfirst, hrest⟩ := runFrom_cons.1 hrun
    obtain ⟨hinv, hle⟩ := hstep s e s₁ hs hfirst
    have htail := ih hinv hrest
    rw [List.length_cons, List.countP_cons]
    -- an event costs a unit of the measure, or counts as idle
    cases he : idle e with
    | false =>
      simp only [he, Bool.false_eq_true, if_false] at hle ⊢
      omega
    | true =>
      simp only [he, if_true] at hle ⊢
      omega

/-! ### Properties of every step -/

/-- Every step the run of `es` from `start` makes satisfies `P`, a property of
the state before, the event, and the state after. -/
def EveryStep (step : σ → ε → Option σ) (start : σ) (es : List ε) (P : σ → ε → σ → Prop) : Prop :=
  ∀ pre e s s', pre ++ [e] <+: es → runFrom step start pre = some s → step s e = some s' →
    P s e s'

theorem everyStep_nil (start : σ) (P : σ → ε → σ → Prop) : EveryStep step start [] P := by
  intro pre e s s' hpre
  simp at hpre

/-- Every step of a run, one event longer. -/
theorem everyStep_concat {start s : σ} {es : List ε} {e : ε} {P : σ → ε → σ → Prop}
    (hrun : runFrom step start es = some s) :
    EveryStep step start (es ++ [e]) P ↔
      EveryStep step start es P ∧ ∀ s', step s e = some s' → P s e s' := by
  refine ⟨?_, ?_⟩
  · intro h
    refine ⟨?_, ?_⟩
    · intro pre e' s₁ s₂ hpre
      exact h pre e' s₁ s₂ (hpre.trans (List.prefix_append _ _))
    · intro s' hs'
      exact h es e s s' List.prefix_rfl hrun hs'
  · intro hboth pre e' s₁ s₂ hpre h₁ h₂
    rcases hboth with ⟨hes, he⟩
    -- the step is the last one, or one of the run before it
    rcases List.prefix_concat_iff.1 hpre with heq | hpre
    · obtain ⟨rfl, hsingle⟩ := List.append_inj' heq rfl
      obtain rfl := List.singleton_inj.1 hsingle
      rw [hrun] at h₁
      obtain rfl := Option.some.inj h₁
      exact he s₂ h₂
    · exact hes pre e' s₁ s₂ hpre h₁ h₂

/-- Every step of a run, after its first. -/
theorem everyStep_cons {start : σ} {e : ε} {es : List ε} {P : σ → ε → σ → Prop} :
    EveryStep step start (e :: es) P ↔
      ∀ s', step start e = some s' → P start e s' ∧ EveryStep step s' es P := by
  refine ⟨?_, ?_⟩
  · intro h s' hs'
    refine ⟨h [] e start s' (List.prefix_append [e] es) rfl hs', ?_⟩
    intro pre e' s₁ s₂ hpre hrun
    exact h (e :: pre) e' s₁ s₂ (List.cons_prefix_cons.2 ⟨rfl, hpre⟩) (runFrom_cons.2 ⟨s', hs', hrun⟩)
  · intro h pre e' s₁ s₂ hpre hrun hs₂
    cases pre with
    | nil =>
      obtain rfl := Option.some.inj hrun
      obtain ⟨rfl, -⟩ := List.cons_prefix_cons.1 hpre
      exact (h s₂ hs₂).1
    | cons e'' pre =>
      rw [List.cons_append] at hpre
      obtain ⟨rfl, hpre'⟩ := List.cons_prefix_cons.1 hpre
      obtain ⟨s', hs', hrun'⟩ := runFrom_cons.1 hrun
      exact (h s' hs').2 pre e' s₁ s₂ hpre' hrun' hs₂

/-- **The rule for what is assumed of every step**: where each step that satisfies `P`
keeps the invariant and satisfies `Q`, every step of a run that satisfies `P`
satisfies `Q`. -/
theorem everyStep_of_everyStep (Inv : σ → Prop) {P Q : σ → ε → σ → Prop}
    (hstep : ∀ s e s', Inv s → P s e s' → step s e = some s' → Inv s' ∧ Q s e s') {start : σ}
    {es : List ε} (hstart : Inv start) (hP : EveryStep step start es P) :
    EveryStep step start es Q := by
  induction es generalizing start with
  | nil => exact everyStep_nil start Q
  | cons e es ih =>
    refine everyStep_cons.2 ?_
    intro s' hs'
    obtain ⟨hfirst, hrest⟩ := everyStep_cons.1 hP s' hs'
    obtain ⟨hinv, hQ⟩ := hstep start e s' hstart hfirst hs'
    exact ⟨hQ, ih hinv hrest⟩

/-- **The rule for what a step can break**: where a step keeps `R` exactly if it
satisfies `Q`, the states a run passes through all satisfy `R` exactly if its steps
all satisfy `Q`. -/
theorem everyStep_iff_of_step (Inv R : σ → Prop) {Q : σ → ε → σ → Prop}
    (hInv : ∀ s e s', Inv s → step s e = some s' → Inv s')
    (hstep : ∀ s e s', Inv s → R s → step s e = some s' → (R s' ↔ Q s e s')) {start : σ}
    {es : List ε} (hstart : Inv start) (hR : R start) :
    EveryStep step start es (fun _ _ s' => R s') ↔ EveryStep step start es Q := by
  induction es generalizing start with
  | nil => exact iff_of_true (everyStep_nil start _) (everyStep_nil start Q)
  | cons e es ih =>
    rw [everyStep_cons, everyStep_cons]
    refine forall₂_congr ?_
    intro s' hs'
    have hinv := hInv start e s' hstart hs'
    have hiff := hstep start e s' hstart hR hs'
    refine ⟨?_, ?_⟩
    · intro hstays
      rcases hstays with ⟨hs'R, hrest⟩
      exact ⟨hiff.1 hs'R, (ih hinv hs'R).1 hrest⟩
    · intro hstays
      rcases hstays with ⟨hQ, hrest⟩
      exact ⟨hiff.2 hQ, (ih hinv (hiff.2 hQ)).2 hrest⟩

/-- Properties that agree on every step agree on every run. -/
theorem everyStep_congr {start : σ} {es : List ε} {P Q : σ → ε → σ → Prop}
    (h : ∀ s e s', e ∈ es → step s e = some s' → (P s e s' ↔ Q s e s')) :
    EveryStep step start es P ↔ EveryStep step start es Q := by
  have hmem {pre : List ε} {e : ε} (hpre : pre ++ [e] <+: es) : e ∈ es :=
    hpre.subset (List.mem_append_right pre (List.mem_singleton.2 rfl))
  refine ⟨?_, ?_⟩
  · intro hP pre e s s' hpre hrun hs'
    exact (h s e s' (hmem hpre) hs').1 (hP pre e s s' hpre hrun hs')
  · intro hQ pre e s s' hpre hrun hs'
    exact (h s e s' (hmem hpre) hs').2 (hQ pre e s s' hpre hrun hs')

/-- What every step gives of the states a run passes through. -/
theorem everyStep_of_invariant (Inv : σ → Prop) {P : σ → ε → σ → Prop} {start : σ} {es : List ε}
    (hstep : ∀ s e s', Inv s → step s e = some s' → Inv s')
    (hP : ∀ s e s', e ∈ es → Inv s → step s e = some s' → P s e s') (hstart : Inv start) :
    EveryStep step start es P := by
  intro pre e s s' hpre hrun hs'
  have he : e ∈ es := hpre.subset (List.mem_append_right pre (List.mem_singleton.2 rfl))
  exact hP s e s' he (invariant Inv hstep hstart hrun) hs'

end

/-- **Two runs in lockstep.**  A relation kept by every pair of steps over
related events holds of the states two runs over related events lead to. -/
theorem lockstep {step : σ → ε → Option σ} {step' : σ' → ε' → Option σ'} {Q : ε → ε' → Prop}
    {R : σ → σ' → Prop}
    (hstep : ∀ s s' e e', R s s' → Q e e' → Option.Rel R (step s e) (step' s' e'))
    {s : σ} {s' : σ'} {es : List ε} {es' : List ε'} (hs : R s s') (hes : List.Forall₂ Q es es') :
    Option.Rel R (runFrom step s es) (runFrom step' s' es') := by
  induction hes generalizing s s' with
  | nil => exact .some hs
  | @cons e e' es es' he hes ih =>
    unfold runFrom at ih ⊢
    rw [List.foldlM_cons, List.foldlM_cons]
    have hrel := hstep s s' e e' hs he
    -- both steps lead somewhere or neither does
    cases hse : step s e with
    | none =>
      rw [hse] at hrel
      cases hse' : step' s' e' with
      | none => exact .none
      | some t' => rw [hse'] at hrel; cases hrel
    | some t =>
      rw [hse] at hrel
      cases hse' : step' s' e' with
      | none => rw [hse'] at hrel; cases hrel
      | some t' =>
        rw [hse'] at hrel
        cases hrel with
        | some hrel => exact ih hrel

/-- The same for two runs that both have a result, when their steps are related
only where both have one. -/
theorem lockstep_of_eq_some {step : σ → ε → Option σ} {step' : σ' → ε' → Option σ'}
    {Q : ε → ε' → Prop} {R : σ → σ' → Prop}
    (hstep : ∀ s s' e e', R s s' → Q e e' → ∀ t t', step s e = some t → step' s' e' = some t' →
      R t t')
    {s t : σ} {s' t' : σ'} {es : List ε} {es' : List ε'} (hs : R s s') (hes : List.Forall₂ Q es es')
    (hrun : runFrom step s es = some t) (hrun' : runFrom step' s' es' = some t') : R t t' := by
  induction hes generalizing s s' with
  | nil =>
    obtain rfl := Option.some.inj hrun
    obtain rfl := Option.some.inj hrun'
    exact hs
  | @cons e e' es es' he _ ih =>
    obtain ⟨s₁, hs₁, hrun⟩ := runFrom_cons.1 hrun
    obtain ⟨s₁', hs₁', hrun'⟩ := runFrom_cons.1 hrun'
    exact ih (hstep s s' e e' hs he s₁ s₁' hs₁ hs₁') hrun hrun'

/-! ### Logs -/

/-- Every entry of the log `l` satisfies `P`, a property of the entries before it and of
the entry itself. -/
def EachAfter {α : Type u} (P : List α → α → Prop) (l : List α) : Prop :=
  ∀ before a after, l = before ++ a :: after → P before a

theorem eachAfter_nil {α : Type u} (P : List α → α → Prop) : EachAfter P [] := by
  intro before a after h
  simp at h

/-- A log grows at its end. -/
theorem eachAfter_concat {α : Type u} {P : List α → α → Prop} {l : List α} {a : α} :
    EachAfter P (l ++ [a]) ↔ EachAfter P l ∧ P l a := by
  refine ⟨?_, ?_⟩
  · intro h
    refine ⟨?_, h l a [] rfl⟩
    rintro before b after rfl
    exact h before b (after ++ [a]) (by simp)
  · rintro ⟨hl, ha⟩ before b after heq
    -- the entry is the last one, or one of the log before it
    rcases List.eq_nil_or_concat' after with rfl | ⟨after, c, rfl⟩
    · obtain ⟨rfl, hsingle⟩ := List.append_inj' heq rfl
      obtain rfl := List.singleton_inj.1 hsingle
      exact ha
    · rw [← List.cons_append, ← List.append_assoc] at heq
      obtain ⟨rfl, -⟩ := List.append_inj' heq rfl
      exact hl before b after rfl

/-- A run of entries at the end of a log that satisfy `p` is odd in length when the last one
does and the run before it is even. -/
theorem odd_length_rtakeWhile_concat {α : Type u} {p : α → Bool} {l : List α} {a : α} :
    Odd ((l ++ [a]).rtakeWhile p).length ↔ p a = true ∧ ¬Odd (l.rtakeWhile p).length := by
  rw [List.rtakeWhile_concat]
  by_cases ha : p a = true
  · rw [if_pos ha, List.length_append, List.length_singleton, Nat.odd_add_one]
    exact ⟨fun hodd => ⟨ha, hodd⟩, fun hboth => hboth.2⟩
  · rw [if_neg ha]
    simp [ha]

/-- The entry of a log that an element of a list in step with it goes with, where the entries
are numbered from `n` on. -/
theorem exists_of_forall₂_zipIdx {α : Type u} {β : Type v} {R : α → β × ℕ → Prop} {as : List α}
    {bs : List β} {n : ℕ} (h : List.Forall₂ R as (bs.zipIdx n)) {a : α} (ha : a ∈ as) :
    ∃ before b after, bs = before ++ b :: after ∧ R a (b, n + before.length) := by
  induction as generalizing bs n with
  | nil => cases ha
  | cons a' as ih =>
    cases bs with
    | nil => cases h
    | cons b bs =>
      rw [List.zipIdx_cons, List.forall₂_cons] at h
      obtain ⟨hhead, htail⟩ := h
      rcases List.mem_cons.1 ha with rfl | ha
      · exact ⟨[], b, bs, rfl, hhead⟩
      · obtain ⟨before, b', after, rfl, hR⟩ := ih htail ha
        refine ⟨b :: before, b', after, rfl, ?_⟩
        rwa [List.length_cons, Nat.add_comm before.length, ← Nat.add_assoc]

/-- The same the other way: what an entry of the log goes with. -/
theorem exists_of_forall₂_zipIdx_of_mem {α : Type u} {β : Type v} {R : α → β × ℕ → Prop}
    {as : List α} {bs : List β} {n : ℕ} (h : List.Forall₂ R as (bs.zipIdx n)) {b : β} (hb : b ∈ bs) :
    ∃ a ∈ as, ∃ i, R a (b, i) := by
  induction bs generalizing as n with
  | nil => cases hb
  | cons b' bs ih =>
    cases as with
    | nil => cases h
    | cons a as =>
      rw [List.zipIdx_cons, List.forall₂_cons] at h
      obtain ⟨hhead, htail⟩ := h
      rcases List.mem_cons.1 hb with rfl | hb
      · exact ⟨a, List.mem_cons_self, n, hhead⟩
      · obtain ⟨a', ha', i, hR⟩ := ih htail hb
        exact ⟨a', List.mem_cons_of_mem a ha', i, hR⟩

end Runs
