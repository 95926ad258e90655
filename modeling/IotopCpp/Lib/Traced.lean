import Mathlib.Data.List.Infix
import Mathlib.Logic.Relation

/-!
# Traced computations and fuelled loops

A small language for imperative code that is read for what it *touches* as well
as for what it returns.  A `Traced τ ε α` leaves a list of events of type `τ`
and either returns a value or stops for a reason of type `ε`; the events made
before a stop are kept, which is what a statement about "every access" needs.

Loops whose length the data decides are run on fuel.  A fuelled program is a
function `ℕ → Traced τ ε α`, and two notions make the fuel disappear from
statements: a program `Grows` when more fuel only extends what less fuel did,
and it `Yields` a trace and a value when every large enough fuel gives them.

## Main definitions

* `Traced` — the computations, a monad.
* `Traced.Extends`, `Traced.Grows` — the information order, and monotonicity in fuel.
* `Traced.Yields` — the fuel-free result.
* `Traced.Ends` — some fuel is enough, whatever the program then does.
* `Traced.ActsBy` — the program treats its parameter the same whatever it is.
* `Traced.whileLoop` — `while (cond) body`, where the body may itself use fuel.

## Main results

* `Traced.grows_whileLoop` — loops grow when their bodies do, so loops nest.
* `Traced.yields_whileLoop_step`, `Traced.yields_whileLoop_inv` — one iteration,
  built and taken apart.
* `Traced.trace_whileLoop_of_invariant`, `Traced.whileLoop_of_invariant` — the invariant
  rules, for traces and for traces with states.
* `Traced.mem_trace_whileLoop_of_reaches`, `Traced.yields_whileLoop_of_reaches` —
  whatever a reachable iteration touches, the loop touches, and where one finds
  the condition false the loop ends.
* `Traced.ends_whileLoop_of_measure`, `Traced.not_ends_whileLoop` — when a loop ends,
  and when it does not.
-/

universe u v w

/-- A computation that leaves the events `trace` and ends with `result`. -/
structure Traced (τ : Type u) (ε : Type v) (α : Type w) where
  trace : List τ
  result : Except ε α

namespace Traced

variable {τ : Type u} {ε : Type v} {α β σ : Type w}

instance : Monad (Traced τ ε) where
  pure a := ⟨[], .ok a⟩
  bind x f := match x.result with
    | .error e => ⟨x.trace, .error e⟩
    | .ok a => ⟨x.trace ++ (f a).trace, (f a).result⟩

/-- Stop for the reason `e`. -/
def stop (e : ε) : Traced τ ε α := ⟨[], .error e⟩

@[simp] theorem pure_def (a : α) : (pure a : Traced τ ε α) = ⟨[], .ok a⟩ := rfl

@[simp] theorem bind_ok (t : List τ) (a : α) (f : α → Traced τ ε β) :
    ((⟨t, .ok a⟩ : Traced τ ε α) >>= f) = ⟨t ++ (f a).trace, (f a).result⟩ := rfl

@[simp] theorem bind_error (t : List τ) (e : ε) (f : α → Traced τ ε β) :
    ((⟨t, .error e⟩ : Traced τ ε α) >>= f) = ⟨t, .error e⟩ := rfl

/-- A sequence returns exactly when both parts do, and its trace is theirs. -/
theorem bind_eq_ok {x : Traced τ ε α} {f : α → Traced τ ε β} {t : List τ} {b : β} :
    x >>= f = ⟨t, .ok b⟩ ↔
      ∃ t₁ a t₂, x = ⟨t₁, .ok a⟩ ∧ f a = ⟨t₂, .ok b⟩ ∧ t = t₁ ++ t₂ := by
  obtain ⟨t₁, r⟩ := x
  cases r with
  | error e => simp
  | ok a =>
    rw [bind_ok]
    refine ⟨?_, ?_⟩
    · intro h
      refine ⟨t₁, a, (f a).trace, rfl, ?_, ?_⟩
      · rw [← (mk.inj h).2]
      · exact (mk.inj h).1.symm
    · rintro ⟨_, a', t₂, h₁, h₂, rfl⟩
      injection h₁ with ht ha
      injection ha with ha
      subst ht ha
      rw [h₂]

theorem result_bind_eq_ok {x : Traced τ ε α} {f : α → Traced τ ε β} {b : β} :
    (x >>= f).result = .ok b ↔ ∃ a, x.result = .ok a ∧ (f a).result = .ok b := by
  obtain ⟨t, r⟩ := x
  cases r with
  | error _ => simp
  | ok a => simp

theorem mem_trace_bind {x : Traced τ ε α} {f : α → Traced τ ε β} {e : τ} :
    e ∈ (x >>= f).trace ↔ e ∈ x.trace ∨ ∃ a, x.result = .ok a ∧ e ∈ (f a).trace := by
  obtain ⟨t, r⟩ := x
  cases r with
  | error _ => simp
  | ok a => simp

theorem bind_bind {γ : Type w} (x : Traced τ ε α) (f : α → Traced τ ε β) (g : β → Traced τ ε γ) :
    (x >>= f) >>= g = x >>= fun a => f a >>= g := by
  obtain ⟨t, r⟩ := x
  cases r with
  | error _ => rfl
  | ok a =>
    rw [bind_ok, bind_ok]
    cases hf : f a with
    | mk t' r' =>
      cases r' with
      | error _ => rfl
      | ok b => simp

/-! ### The information order -/

/-- `y` extends `x`: it has at least the events of `x`, and if `x` returned then
it is `x`. -/
structure Extends (x y : Traced τ ε α) : Prop where
  trace : x.trace <+: y.trace
  result : ∀ a, x.result = .ok a → y = x

theorem Extends.refl (x : Traced τ ε α) : x.Extends x :=
  ⟨List.prefix_rfl, fun _ _ => rfl⟩

theorem Extends.bind {x y : Traced τ ε α} {f g : α → Traced τ ε β} (hxy : x.Extends y)
    (hfg : ∀ a, (f a).Extends (g a)) : (x >>= f).Extends (y >>= g) := by
  obtain ⟨t, r⟩ := x
  cases r with
  | ok a =>
    -- a program that returned is extended by itself alone
    obtain rfl := hxy.result a rfl
    rw [bind_ok, bind_ok]
    refine ⟨(List.prefix_append_right_inj t).2 (hfg a).trace, ?_⟩
    intro b hb
    rw [(hfg a).result b hb]
  | error e =>
    obtain ⟨t', r'⟩ := y
    have ht : t <+: t' := hxy.trace
    rw [bind_error]
    refine ⟨?_, by simp⟩
    -- one that stopped may be extended by one that goes on
    cases r' with
    | error _ => exact ht
    | ok a => exact ht.trans (List.prefix_append _ _)

/-- More fuel only extends what less fuel did.  Where a program stops for another reason
than the fuel, and goes on with more of it, this need not be so; no program built from
the rules below does that. -/
def Grows (p : ℕ → Traced τ ε α) : Prop :=
  ∀ ⦃n m⦄, n ≤ m → (p n).Extends (p m)

theorem grows_const (x : Traced τ ε α) : Grows fun _ => x :=
  fun _ _ _ => Extends.refl x

/-- What a program touches with some fuel, it touches with the fuel that made it return. -/
theorem Grows.mem_trace {p : ℕ → Traced τ ε α} (hp : Grows p) {n m : ℕ} {t : List τ} {a : α} {e : τ}
    (h : p n = ⟨t, .ok a⟩) (he : e ∈ (p m).trace) : e ∈ t := by
  rcases le_total n m with hnm | hmn
  · rwa [(hp hnm).result a (by rw [h]), h] at he
  · have hsub := (hp hmn).trace.subset he
    rwa [h] at hsub

theorem Grows.bind {p : ℕ → Traced τ ε α} {f : ℕ → α → Traced τ ε β} (hp : Grows p)
    (hf : ∀ a, Grows fun n => f n a) : Grows fun n => p n >>= f n :=
  fun _ _ hnm => (hp hnm).bind fun a => hf a hnm

/-! ### Fuel-free results -/

/-- Every large enough fuel gives the trace `t` and the value `a`.  This is what a
statement about the program says that is to hold of the code, which has no fuel. -/
def Yields (p : ℕ → Traced τ ε α) (t : List τ) (a : α) : Prop :=
  ∃ n, ∀ m, n ≤ m → p m = ⟨t, .ok a⟩

theorem Yields.unique {p : ℕ → Traced τ ε α} {t t' : List τ} {a a' : α} (h : Yields p t a)
    (h' : Yields p t' a') : t = t' ∧ a = a' := by
  obtain ⟨n, hn⟩ := h
  obtain ⟨n', hn'⟩ := h'
  have heq := (hn (max n n') (le_max_left _ _)).symm.trans (hn' _ (le_max_right _ _))
  exact ⟨(mk.inj heq).1, Except.ok.inj (mk.inj heq).2⟩

theorem yields_const {x : Traced τ ε α} {t : List τ} {a : α} (h : x = ⟨t, .ok a⟩) :
    Yields (fun _ => x) t a := ⟨0, fun _ _ => h⟩

theorem Grows.yields {p : ℕ → Traced τ ε α} (hp : Grows p) {n : ℕ} {t : List τ} {a : α}
    (h : p n = ⟨t, .ok a⟩) : Yields p t a :=
  ⟨n, fun m hm => by rw [(hp hm).result a (by rw [h]), h]⟩

/-- A program that returned with some fuel yields that. -/
theorem Grows.yields_result {p : ℕ → Traced τ ε α} (hp : Grows p) {n : ℕ} {a : α}
    (h : (p n).result = .ok a) : Yields p (p n).trace a :=
  hp.yields (by rw [← h])

theorem Yields.bind {p : ℕ → Traced τ ε α} {f : ℕ → α → Traced τ ε β} {t t' : List τ} {a : α}
    {b : β} (hp : Yields p t a) (hf : Yields (fun n => f n a) t' b) :
    Yields (fun n => p n >>= f n) (t ++ t') b := by
  obtain ⟨n, hn⟩ := hp
  obtain ⟨n', hn'⟩ := hf
  refine ⟨max n n', ?_⟩
  intro m hm
  have hfm : f m a = ⟨t', .ok b⟩ := hn' m (le_trans (le_max_right _ _) hm)
  show p m >>= f m = _
  rw [hn m (le_trans (le_max_left _ _) hm), bind_ok, hfm]

/-- A sequence that yields is made of two programs that yield. -/
theorem Yields.bind_inv {p : ℕ → Traced τ ε α} {f : ℕ → α → Traced τ ε β} {t : List τ} {b : β}
    (hp : Grows p) (hf : ∀ a, Grows fun n => f n a) (h : Yields (fun n => p n >>= f n) t b) :
    ∃ t₁ a t₂, Yields p t₁ a ∧ Yields (fun n => f n a) t₂ b ∧ t = t₁ ++ t₂ := by
  obtain ⟨n, hn⟩ := h
  obtain ⟨t₁, a, t₂, h₁, h₂, rfl⟩ := bind_eq_ok.1 (hn n le_rfl)
  exact ⟨t₁, a, t₂, hp.yields h₁, (hf a).yields h₂, rfl⟩

/-! ### Programs that end -/

/-- The reason `e` to stop is handed on by a sequence, and made by one of its parts. -/
theorem result_bind_ne_error {x : Traced τ ε α} {f : α → Traced τ ε β} {e : ε} :
    (x >>= f).result ≠ .error e ↔
      x.result ≠ .error e ∧ ∀ a, x.result = .ok a → (f a).result ≠ .error e := by
  obtain ⟨t, r⟩ := x
  cases r with
  | error _ => simp
  | ok a => simp

/-- Once the fuel is not what stopped the program, more of it changes nothing. -/
def Stable (out : ε) (p : ℕ → Traced τ ε α) : Prop :=
  ∀ ⦃n m⦄, n ≤ m → (p n).result ≠ .error out → p m = p n

/-- Some fuel is enough: the program returns, or stops for another reason.  A program
that does not end is one whose loop goes on for ever. -/
def Ends (out : ε) (p : ℕ → Traced τ ε α) : Prop := ∃ n, (p n).result ≠ .error out

section Ends

variable {out : ε}

theorem stable_const (x : Traced τ ε α) : Stable out fun _ => x := fun _ _ _ _ => rfl

theorem Stable.bind {p : ℕ → Traced τ ε α} {f : ℕ → α → Traced τ ε β} (hp : Stable out p)
    (hf : ∀ a, Stable out fun n => f n a) : Stable out fun n => p n >>= f n := by
  intro n m hnm h
  obtain ⟨hpn, hfn⟩ := result_bind_ne_error.1 h
  show p m >>= f m = p n >>= f n
  rw [hp hnm hpn]
  cases hr : p n with
  | mk t r =>
    cases r with
    | error e => rfl
    | ok a =>
      have hfa : f m a = f n a := hf a hnm (hfn a (by rw [hr]))
      rw [bind_ok, bind_ok, hfa]

theorem ends_const {x : Traced τ ε α} (h : x.result ≠ .error out) : Ends out fun _ => x := ⟨0, h⟩

theorem Yields.ends {p : ℕ → Traced τ ε α} {t : List τ} {a : α} (h : Yields p t a) :
    Ends out p := by
  obtain ⟨n, hn⟩ := h
  refine ⟨n, ?_⟩
  rw [hn n le_rfl]
  simp

/-- A sequence ends when its first part does, and its second from wherever that leads. -/
theorem Ends.bind {p : ℕ → Traced τ ε α} {f : ℕ → α → Traced τ ε β} (hp : Stable out p)
    (hf : ∀ a, Stable out fun n => f n a) (hend : Ends out p)
    (hrest : ∀ n a, (p n).result = .ok a → Ends out fun n => f n a) :
    Ends out fun n => p n >>= f n := by
  obtain ⟨n, hn⟩ := hend
  cases hr : (p n).result with
  | error e => exact ⟨n, result_bind_ne_error.2 ⟨hn, fun a ha => by rw [hr] at ha; cases ha⟩⟩
  | ok a =>
    -- the larger of the two fuels is enough for both parts, which it leaves as they are
    obtain ⟨m, hm⟩ := hrest n a hr
    refine ⟨max n m, ?_⟩
    have hpmax : p (max n m) = p n := hp (le_max_left n m) hn
    have hfmax : f (max n m) a = f m a := hf a (le_max_right n m) hm
    refine result_bind_ne_error.2 ⟨by rwa [hpmax], ?_⟩
    intro b hb
    rw [hpmax, hr] at hb
    obtain rfl := Except.ok.inj hb
    rwa [hfmax]

theorem Ends.left {p : ℕ → Traced τ ε α} {f : ℕ → α → Traced τ ε β}
    (h : Ends out fun n => p n >>= f n) : Ends out p := by
  obtain ⟨n, hn⟩ := h
  exact ⟨n, (result_bind_ne_error.1 hn).1⟩

theorem Ends.right {p : ℕ → Traced τ ε α} {f : ℕ → α → Traced τ ε β} (hp : Stable out p)
    {t : List τ} {a : α} (hy : Yields p t a) (h : Ends out fun n => p n >>= f n) :
    Ends out fun n => f n a := by
  obtain ⟨n, hn⟩ := h
  obtain ⟨hpn, hfn⟩ := result_bind_ne_error.1 hn
  obtain ⟨m, hm⟩ := hy
  have hmax : p (max n m) = p n := hp (le_max_left n m) hpn
  refine ⟨n, hfn a ?_⟩
  rw [← hmax, hm _ (le_max_right n m)]

end Ends

/-! ### Loops -/

section Loop

variable (cond : σ → Bool) (body : ℕ → σ → Traced τ ε σ) (out : ε)

/-- `while (cond s) s = body s`, stopped for the reason `out` when the fuel is
spent.  The body is given the fuel that is left, for the loops inside it. -/
def whileLoop : ℕ → σ → Traced τ ε σ
  | 0, s => if cond s then stop out else pure s
  | n + 1, s => if cond s then body n s >>= whileLoop n else pure s

variable {cond body out}

theorem whileLoop_of_not {s : σ} (hs : cond s = false) (n : ℕ) :
    whileLoop cond body out n s = pure s := by
  cases n <;> simp [whileLoop, hs]

theorem whileLoop_succ {s : σ} (hs : cond s = true) (n : ℕ) :
    whileLoop cond body out (n + 1) s = body n s >>= whileLoop cond body out n := by
  simp [whileLoop, hs]

theorem grows_whileLoop (hb : ∀ s, Grows fun n => body n s) (s : σ) :
    Grows fun n => whileLoop cond body out n s := by
  intro n m hnm
  induction n generalizing m s with
  | zero =>
    -- without fuel the loop returns only where it has nothing to do
    cases hs : cond s with
    | false => simp only [whileLoop_of_not hs]; exact Extends.refl _
    | true => exact ⟨by simp [whileLoop, hs, stop], by simp [whileLoop, hs, stop]⟩
  | succ n ih =>
    obtain ⟨m, rfl⟩ : ∃ m', m = m' + 1 := ⟨m - 1, by omega⟩
    have hnm' : n ≤ m := by omega
    cases hs : cond s with
    | false => simp only [whileLoop_of_not hs]; exact Extends.refl _
    | true =>
      simp only [whileLoop_succ hs]
      exact (hb s hnm').bind fun a => ih a hnm'

theorem yields_whileLoop_done {s : σ} (hs : cond s = false) :
    Yields (fun n => whileLoop cond body out n s) [] s :=
  ⟨0, fun m _ => whileLoop_of_not hs m⟩

theorem yields_whileLoop_step {s s' s'' : σ} {t t' : List τ} (hs : cond s = true)
    (hbody : Yields (fun n => body n s) t s')
    (hrest : Yields (fun n => whileLoop cond body out n s') t' s'') :
    Yields (fun n => whileLoop cond body out n s) (t ++ t') s'' := by
  obtain ⟨n, hn⟩ := hbody.bind hrest
  refine ⟨n + 1, ?_⟩
  intro m hm
  obtain ⟨m, rfl⟩ : ∃ m', m = m' + 1 := ⟨m - 1, by omega⟩
  exact (whileLoop_succ hs m).trans (hn m (by omega))

/-- A loop that yields and whose condition holds has run its body once and then
yielded from there. -/
theorem yields_whileLoop_inv {s s'' : σ} {t : List τ} (hb : ∀ s, Grows fun n => body n s)
    (hs : cond s = true) (h : Yields (fun n => whileLoop cond body out n s) t s'') :
    ∃ t₁ s' t₂, Yields (fun n => body n s) t₁ s' ∧
      Yields (fun n => whileLoop cond body out n s') t₂ s'' ∧ t = t₁ ++ t₂ := by
  obtain ⟨n, hn⟩ := h
  refine Yields.bind_inv (hb s) (fun a => grows_whileLoop hb a) ⟨n, fun m hm => ?_⟩
  exact (whileLoop_succ hs m).symm.trans (hn (m + 1) (by omega))

/-- **The invariant rule for traces.**  An invariant that the body keeps, and
under which the body's own events satisfy `Q`, gives `Q` of every event of the
loop, whatever the fuel. -/
theorem trace_whileLoop_of_invariant (Inv : σ → Prop) {Q : τ → Prop}
    (hstep : ∀ n s, Inv s → cond s = true →
      (∀ e ∈ (body n s).trace, Q e) ∧ ∀ s', (body n s).result = .ok s' → Inv s')
    (n : ℕ) {s : σ} (hs : Inv s) : ∀ e ∈ (whileLoop cond body out n s).trace, Q e := by
  induction n generalizing s with
  | zero => cases hc : cond s <;> simp [whileLoop, hc, stop]
  | succ n ih =>
    cases hc : cond s with
    | false => simp [whileLoop_of_not hc]
    | true =>
      obtain ⟨htrace, hinv⟩ := hstep n s hs hc
      intro e he
      rw [whileLoop_succ hc, mem_trace_bind] at he
      rcases he with he | ⟨s', hs', he⟩
      · exact htrace e he
      · exact ih (hinv s' hs') e he

/-- The same rule for the state a loop ends in. -/
theorem result_whileLoop_of_invariant (Inv : σ → Prop)
    (hstep : ∀ n s s', Inv s → cond s = true → (body n s).result = .ok s' → Inv s')
    (n : ℕ) {s s' : σ} (hs : Inv s) (h : (whileLoop cond body out n s).result = .ok s') :
    Inv s' ∧ cond s' = false := by
  induction n generalizing s with
  | zero =>
    cases hc : cond s with
    | false =>
      rw [whileLoop_of_not hc] at h
      obtain rfl := Except.ok.inj h
      exact ⟨hs, hc⟩
    | true => simp [whileLoop, hc, stop] at h
  | succ n ih =>
    cases hc : cond s with
    | false =>
      rw [whileLoop_of_not hc] at h
      obtain rfl := Except.ok.inj h
      exact ⟨hs, hc⟩
    | true =>
      rw [whileLoop_succ hc, result_bind_eq_ok] at h
      obtain ⟨s₁, hb, h⟩ := h
      exact ih (hstep n s s₁ hs hc hb) h

/-- The invariant rule for the events and the state together. -/
theorem whileLoop_of_invariant (Inv : List τ → σ → Prop)
    (hstep : ∀ n t s t' s', Inv t s → cond s = true → body n s = ⟨t', .ok s'⟩ → Inv (t ++ t') s')
    (n : ℕ) {t t' : List τ} {s s' : σ} (hs : Inv t s)
    (h : whileLoop cond body out n s = ⟨t', .ok s'⟩) : Inv (t ++ t') s' := by
  induction n generalizing t t' s with
  | zero =>
    cases hc : cond s with
    | false =>
      rw [whileLoop_of_not hc, pure_def] at h
      cases h
      rwa [List.append_nil]
    | true => simp [whileLoop, hc, stop] at h
  | succ n ih =>
    cases hc : cond s with
    | false =>
      rw [whileLoop_of_not hc, pure_def] at h
      cases h
      rwa [List.append_nil]
    | true =>
      rw [whileLoop_succ hc] at h
      obtain ⟨t₁, s₁, t₂, hb, hrest, rfl⟩ := bind_eq_ok.1 h
      rw [← List.append_assoc]
      exact ih (hstep n t s t₁ s₁ hs hc hb) hrest

/-- One iteration of the loop, with whatever fuel it takes. -/
def Step (cond : σ → Bool) (body : ℕ → σ → Traced τ ε σ) (s s' : σ) : Prop :=
  cond s = true ∧ ∃ t, Yields (fun n => body n s) t s'

/-- **Whatever a reachable iteration touches, the loop touches.** -/
theorem mem_trace_whileLoop_of_reaches (hb : ∀ s, Grows fun n => body n s) {s s' : σ}
    (hreach : Relation.ReflTransGen (Step cond body) s s') (hs' : cond s' = true) {n : ℕ} {e : τ}
    (he : e ∈ (body n s').trace) : ∃ m, e ∈ (whileLoop cond body out m s).trace := by
  induction hreach using Relation.ReflTransGen.head_induction_on with
  | refl =>
    refine ⟨n + 1, ?_⟩
    rw [whileLoop_succ hs', mem_trace_bind]
    exact Or.inl he
  | @head a b hab _ ih =>
    obtain ⟨ha, t, k, hk⟩ := hab
    obtain ⟨m, hm⟩ := ih
    -- fuel for the first iteration, and for what comes after it
    refine ⟨max k m + 1, ?_⟩
    have hbody : body (max k m) a = ⟨t, .ok b⟩ := hk _ (le_max_left _ _)
    rw [whileLoop_succ ha, hbody, bind_ok]
    apply List.mem_append_right
    exact (grows_whileLoop hb b (le_max_right k m)).trace.subset hm

/-- A loop yields the state in which a reachable iteration finds its condition false. -/
theorem yields_whileLoop_of_reaches {s s' : σ}
    (hreach : Relation.ReflTransGen (Step cond body) s s') (hs' : cond s' = false) :
    ∃ t, Yields (fun n => whileLoop cond body out n s) t s' := by
  induction hreach using Relation.ReflTransGen.head_induction_on with
  | refl => exact ⟨[], yields_whileLoop_done hs'⟩
  | head hab _ ih =>
    obtain ⟨ha, t, hbody⟩ := hab
    obtain ⟨t', hrest⟩ := ih
    exact ⟨t ++ t', yields_whileLoop_step ha hbody hrest⟩

/-- A loop that yields, yields the same from every state it comes to. -/
theorem Yields.of_reaches (hb : ∀ s, Grows fun n => body n s) {s s' s'' : σ}
    (hreach : Relation.ReflTransGen (Step cond body) s s') {t : List τ}
    (h : Yields (fun n => whileLoop cond body out n s) t s'') :
    ∃ t', Yields (fun n => whileLoop cond body out n s') t' s'' := by
  induction hreach with
  | refl => exact ⟨t, h⟩
  | tail _ hab ih =>
    obtain ⟨ha, t₁, hbody⟩ := hab
    obtain ⟨t', hy⟩ := ih
    obtain ⟨t₂, b', t₃, hbody', hrest, -⟩ := yields_whileLoop_inv hb ha hy
    obtain ⟨-, rfl⟩ := hbody.unique hbody'
    exact ⟨t₃, hrest⟩

/-! ### Loops that end -/

theorem stable_whileLoop (hb : ∀ s, Stable out fun n => body n s) (s : σ) :
    Stable out fun n => whileLoop cond body out n s := by
  intro n m hnm h
  induction n generalizing m s with
  | zero =>
    cases hs : cond s with
    | false => simp only [whileLoop_of_not hs]
    | true => simp [whileLoop, hs, stop] at h
  | succ n ih =>
    obtain ⟨m, rfl⟩ : ∃ m', m = m' + 1 := ⟨m - 1, by omega⟩
    have hnm' : n ≤ m := by omega
    cases hs : cond s with
    | false => simp only [whileLoop_of_not hs]
    | true =>
      simp only [whileLoop_succ hs] at h ⊢
      obtain ⟨hbody, hrest⟩ := result_bind_ne_error.1 h
      -- the body did not run out of its fuel, so it does the same with more
      have hsame : body m s = body n s := hb s hnm' hbody
      rw [hsame]
      cases hr : body n s with
      | mk t r =>
        cases r with
        | error e => rfl
        | ok a =>
          have hloop := ih a hnm' (hrest a (by rw [hr]))
          simp only at hloop
          rw [bind_ok, bind_ok, hloop]

/-- **The measure rule.**  A loop whose body ends, and makes the measure smaller
whenever it returns, ends. -/
theorem ends_whileLoop_of_measure (hb : ∀ s, Stable out fun n => body n s) (Inv : σ → Prop)
    (μ : σ → ℕ) (hend : ∀ s, Inv s → cond s = true → Ends out fun n => body n s)
    (hstep : ∀ n s s', Inv s → cond s = true → (body n s).result = .ok s' → Inv s' ∧ μ s' < μ s)
    {s : σ} (hs : Inv s) : Ends out fun n => whileLoop cond body out n s := by
  induction hμ : μ s using Nat.strong_induction_on generalizing s with
  | h k ih =>
    cases hc : cond s with
    | false => exact (yields_whileLoop_done hc).ends
    | true =>
      obtain ⟨n, hn⟩ := Ends.bind (hb s) (fun a => stable_whileLoop hb a) (hend s hs hc)
        fun n a ha => ih (μ a) (hμ ▸ (hstep n s a hs hc ha).2) (hstep n s a hs hc ha).1 rfl
      refine ⟨n + 1, ?_⟩
      show (whileLoop cond body out (n + 1) s).result ≠ .error out
      rwa [whileLoop_succ hc]

/-- A loop that ends and whose condition holds is its body and a loop, which end. -/
theorem Ends.unroll {s : σ} (h : Ends out fun n => whileLoop cond body out n s)
    (hs : cond s = true) :
    Ends out fun n => body n s >>= whileLoop cond body out n := by
  obtain ⟨n, hn⟩ := h
  simp only at hn
  cases n with
  | zero => simp [whileLoop, hs, stop] at hn
  | succ n =>
    rw [whileLoop_succ hs] at hn
    exact ⟨n, hn⟩

/-- A loop that ends, ends from every state it comes to. -/
theorem Ends.of_reaches (hb : ∀ s, Stable out fun n => body n s) {s s' : σ}
    (hreach : Relation.ReflTransGen (Step cond body) s s')
    (h : Ends out fun n => whileLoop cond body out n s) :
    Ends out fun n => whileLoop cond body out n s' := by
  induction hreach with
  | refl => exact h
  | @tail a b _ hab ih =>
    obtain ⟨ha, t, hy⟩ := hab
    exact Ends.right (hb a) hy (ih.unroll ha)

/-- A loop does not end among states each of which leads to another. -/
theorem not_ends_whileLoop (hb : ∀ s, Stable out fun n => body n s) {S : σ → Prop}
    (hS : ∀ s, S s → ∃ s', Step cond body s s' ∧ S s') {s : σ} (hs : S s) :
    ¬Ends out fun n => whileLoop cond body out n s := by
  have hout (n : ℕ) : ∀ s, S s → (whileLoop cond body out n s).result = .error out := by
    induction n with
    | zero =>
      intro s hs
      obtain ⟨s', ⟨hc, -⟩, -⟩ := hS s hs
      simp [whileLoop, hc, stop]
    | succ n ih =>
      intro s hs
      obtain ⟨s', ⟨hc, t, m, hm⟩, hs'⟩ := hS s hs
      by_contra hne
      rw [whileLoop_succ hc] at hne
      obtain ⟨hbody, hrest⟩ := result_bind_ne_error.1 hne
      -- the body returned with the fuel there was, and so returned `s'`
      have hmax : body (max n m) s = body n s := hb s (le_max_left n m) hbody
      have hreturned : body (max n m) s = ⟨t, .ok s'⟩ := hm _ (le_max_right n m)
      refine hrest s' ?_ (ih s' hs')
      rw [← hmax, hreturned]
  intro h
  obtain ⟨n, hn⟩ := h
  exact hn (hout n s hs)

end Loop

/-! ### Programs that act on a parameter -/

section ActsBy

universe x y

variable {κ κ' : Type w} {ρ : Type x} {act : κ → ρ → α} {act' : κ' → ρ → β}

/-- What the program does to its parameter is decided without looking at it. -/
def ActsBy (act : κ → ρ → α) (f : ρ → Traced τ ε α) : Prop :=
  ∃ x : Traced τ ε κ, ∀ r, f r = x >>= fun k => pure (act k r)

theorem actsBy_pure (k : κ) : ActsBy act fun r => (pure (act k r) : Traced τ ε α) :=
  ⟨pure k, fun _ => rfl⟩

/-- Something that does not depend on the parameter, and then such a program. -/
theorem ActsBy.after {γ : Type w} (y : Traced τ ε γ) {f : γ → ρ → Traced τ ε α}
    (h : ∀ c, ActsBy act (f c)) : ActsBy act fun r => y >>= fun c => f c r := by
  choose x hx using h
  refine ⟨y >>= x, ?_⟩
  intro r
  simp only [bind_bind, hx]

theorem ActsBy.bind {f : ρ → Traced τ ε α} {g : α → Traced τ ε β} (hf : ActsBy act f)
    (hg : ∀ k, ActsBy act' fun r => g (act k r)) : ActsBy act' fun r => f r >>= g := by
  obtain ⟨x, hx⟩ := hf
  choose y hy using hg
  refine ⟨x >>= y, ?_⟩
  intro r
  have hpure (k : κ) : (pure (act k r) : Traced τ ε α) >>= g = g (act k r) := by
    rw [pure_def, bind_ok, List.nil_append]
  simp only [hx, bind_bind, hpure, hy]

theorem actsBy_whileLoop {act : κ → ρ → σ} {cond : σ → Bool} {body : ℕ → σ → Traced τ ε σ}
    {out : ε} (c : κ → Bool) (hcond : ∀ k r, cond (act k r) = c k)
    (hbody : ∀ n k, ActsBy act fun r => body n (act k r)) (n : ℕ) (k : κ) :
    ActsBy act fun r => whileLoop cond body out n (act k r) := by
  induction n generalizing k with
  | zero =>
    cases hc : c k with
    | false => exact ⟨pure k, fun r => whileLoop_of_not ((hcond k r).trans hc) 0⟩
    | true => exact ⟨stop out, fun r => by simp [whileLoop, hcond, hc, stop]⟩
  | succ n ih =>
    cases hc : c k with
    | false => exact ⟨pure k, fun r => whileLoop_of_not ((hcond k r).trans hc) _⟩
    | true =>
      have hrun : (fun r => whileLoop cond body out (n + 1) (act k r))
          = fun r => body n (act k r) >>= whileLoop cond body out n := by
        funext r
        exact whileLoop_succ ((hcond k r).trans hc) n
      rw [hrun]
      exact (hbody n k).bind ih

end ActsBy

end Traced
