import Mathlib.Data.List.AList

/-!
# A table refreshed by mark, offer and sweep

A finite map that is refreshed in cycles.  A cycle makes every entry stale,
offers new values key by key, and removes the entries that are not live.  An
offer for a key the table already holds is refused, as `std::unordered_map`'s
`emplace` refuses it; that is what ties one cycle to the one before.

The law of a whole cycle is `lookup_cycle`: a key held before the cycle is lost,
whatever is offered for it, and any other key keeps the first offer made for it
if that offer is live.  The rest of a development needs only this law, mostly as
`lookup_cycle_eq_some`.

* `Table` — the finite maps.
* `Table.emplace`, `Table.mark`, `Table.sweep` — the three operations.
* `Table.offer`, `Table.cycle` — a run of offers, and a whole cycle.
-/

universe u v

/-- A finite map from `κ` to `ν`. -/
abbrev Table (κ : Type u) (ν : Type v) := AList fun _ : κ => ν

namespace Table

variable {κ : Type u} {ν : Type v}

/-- Change every value, and no key. -/
def mark (stale : ν → ν) (m : Table κ ν) : Table κ ν where
  entries := m.entries.map fun e => ⟨e.1, stale e.2⟩
  nodupKeys := by
    have hkeys : (m.entries.map fun e => (⟨e.1, stale e.2⟩ : Σ _ : κ, ν)).keys = m.keys := by
      simp [List.keys, AList.keys, Function.comp_def]
    rw [List.NodupKeys, hkeys]
    exact m.keys_nodup

/-- Remove the entries that are not live. -/
def sweep (live : ν → Bool) (m : Table κ ν) : Table κ ν where
  entries := m.entries.filter fun e => live e.2
  nodupKeys := m.nodupKeys.sublist List.filter_sublist

variable [DecidableEq κ]

/-- Insert under a key the table does not hold; do nothing under one it holds. -/
def emplace (m : Table κ ν) (k : κ) (v : ν) : Table κ ν :=
  if k ∈ m then m else m.insert k v

/-- A run of offers, in order. -/
def offer (m : Table κ ν) (os : List (κ × ν)) : Table κ ν :=
  os.foldl (fun m o => m.emplace o.1 o.2) m

/-- One cycle: every value is marked as stale, new values are offered, and what is not
live is swept away.  A value that is offered under a key that is there is lost. -/
def cycle (stale : ν → ν) (live : ν → Bool) (m : Table κ ν) (os : List (κ × ν)) : Table κ ν :=
  sweep live (offer (mark stale m) os)

/-! ### What each operation does to a lookup -/

@[simp] theorem lookup_mark (stale : ν → ν) (m : Table κ ν) (k : κ) :
    (mark stale m).lookup k = (m.lookup k).map stale := by
  apply Option.ext
  intro v
  rw [Option.map_eq_some_iff, ← Option.mem_def, AList.mem_lookup_iff]
  simp only [mark, List.mem_map, ← Option.mem_def, AList.mem_lookup_iff]
  refine ⟨?_, ?_⟩
  · intro hmarked
    rcases hmarked with ⟨⟨k', w⟩, hmem, heq⟩
    cases heq
    exact ⟨w, hmem, rfl⟩
  · intro hheld
    rcases hheld with ⟨w, hmem, rfl⟩
    exact ⟨⟨k, w⟩, hmem, rfl⟩

@[simp] theorem lookup_sweep (live : ν → Bool) (m : Table κ ν) (k : κ) :
    (sweep live m).lookup k = (m.lookup k).filter live := by
  apply Option.ext
  intro v
  rw [← Option.mem_def, AList.mem_lookup_iff, Option.filter_eq_some_iff]
  simp only [sweep, List.mem_filter, ← AList.mem_lookup_iff, Option.mem_def]

theorem lookup_emplace (m : Table κ ν) (k k' : κ) (v : ν) :
    (m.emplace k v).lookup k' = (m.lookup k').or (if k' = k then some v else none) := by
  unfold emplace
  split
  · next hk =>
    -- the key is held, and the offer is refused
    by_cases h : k' = k
    · subst h
      obtain ⟨w, hw⟩ := Option.isSome_iff_exists.1 (AList.lookup_isSome.2 hk)
      simp [hw]
    · simp [h]
  · next hk =>
    by_cases h : k' = k
    · subst h
      rw [AList.lookup_eq_none.2 hk, AList.lookup_insert]
      simp
    · rw [AList.lookup_insert_ne h]
      simp [h]

/-- After a run of offers a key has its old value, or else the first one offered. -/
theorem lookup_offer (m : Table κ ν) (os : List (κ × ν)) (k : κ) :
    (offer m os).lookup k = (m.lookup k).or (os.lookup k) := by
  induction os generalizing m with
  | nil => simp [offer]
  | cons o os ih =>
    obtain ⟨k', v⟩ := o
    have hstep : offer m ((k', v) :: os) = offer (m.emplace k' v) os := rfl
    rw [hstep, ih, lookup_emplace, Option.or_assoc, List.lookup_cons]
    by_cases h : k = k'
    · simp [h]
    · have hne : (k == k') = false := by simpa using h
      simp [h, hne]

/-! ### The law of a cycle -/

section Cycle

variable {stale : ν → ν} {live : ν → Bool} (hstale : ∀ v, live (stale v) = false)

include hstale

/-- **The law of a cycle.**  A key held before is lost; any other keeps the
first offer made for it, if that offer is live. -/
theorem lookup_cycle (m : Table κ ν) (os : List (κ × ν)) (k : κ) :
    (cycle stale live m os).lookup k = if k ∈ m then none else (os.lookup k).filter live := by
  rw [cycle, lookup_sweep, lookup_offer, lookup_mark]
  split
  · next hk =>
    -- what was held is marked, stays in the way of every offer, and is swept
    obtain ⟨w, hw⟩ := Option.isSome_iff_exists.1 (AList.lookup_isSome.2 hk)
    simp [hw, Option.filter, hstale]
  · next hk => simp [AList.lookup_eq_none.2 hk]

theorem lookup_cycle_eq_some {m : Table κ ν} {os : List (κ × ν)} {k : κ} {v : ν} :
    (cycle stale live m os).lookup k = some v ↔
      k ∉ m ∧ os.lookup k = some v ∧ live v = true := by
  rw [lookup_cycle hstale]
  by_cases hk : k ∈ m <;> simp [hk, Option.filter_eq_some_iff]

end Cycle

end Table
