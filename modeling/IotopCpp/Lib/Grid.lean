import Mathlib.Data.Int.Notation
import Mathlib.Data.List.Basic
import Mathlib.Data.List.Induction
import Mathlib.Order.Lattice

/-!
# A window of cells

What is added to a window goes where its cursor is.  A character takes the cursor a column
on, and from the last column to the next line.  The last line has no next one: there the
cursor stays in the corner, and what comes next is written over what the corner has.

The window itself is not given.  A `Grid` is the operations of some window, and `Lawful` is
what is documented of them, as far as it is used: of the corner itself nothing is said, and of
a character that moves the cursor only that it neither takes it up nor changes what is above
it.  So what is above the cursor is there to stay, whatever is added.

## Main definitions

* `Grid`, `Grid.Lawful` — the operations of a window, and their laws.
* `Grid.page` — texts from the first line on, one to a line.
* `Sheet` — the plainest window with these laws.

## Main results

* `cell_page_of_lt` — **a line above the last has its text**, whatever the other texts are.
* `cell_page` — **the whole window**, where the texts are no wider than it.
-/

namespace CellGrid

variable {h w : ℕ} {α σ : Type}

/-- The operations of a window whose states are `σ`: what is on it and where its cursor is,
moving the cursor, adding a character, and clearing it.  Nothing is said of what they do. -/
structure Grid (α σ : Type) where
  cell : σ → ℕ → ℕ → α
  y : σ → ℕ
  x : σ → ℕ
  move : σ → ℤ → ℤ → σ
  add : σ → α → σ
  clear : σ → σ

/-- A cell of a window of `h` lines and `w` columns, but for the last corner. -/
structure Inner (h w y x : ℕ) : Prop where
  y_lt : y < h
  x_lt : x < w
  not_corner : x + 1 < w ∨ y + 1 < h

namespace Grid

/-- What is documented of a window of `h` lines and `w` columns that does not scroll.  The
characters in `literal` take up a cell each.  Of a character that is not literal, which may
be written as several or move the cursor, only two laws speak: it goes no line up, and it
changes nothing above the cursor. -/
structure Lawful (G : Grid α σ) (h w : ℕ) (literal : α → Prop) (blank : α) : Prop where
  y_lt : ∀ s, G.y s < h
  x_lt : ∀ s, G.x s < w
  /-- Moving the cursor writes nothing, and is refused outside of the window. -/
  cell_move : ∀ s (y x : ℤ), G.cell (G.move s y x) = G.cell s
  move_inside : ∀ s (y x : ℕ), y < h → x < w → G.y (G.move s y x) = y ∧ G.x (G.move s y x) = x
  move_outside : ∀ s (y x : ℤ), ¬((0 ≤ y ∧ y < h) ∧ 0 ≤ x ∧ x < w) →
    G.y (G.move s y x) = G.y s ∧ G.x (G.move s y x) = G.x s
  /-- Nothing that is added goes up. -/
  add_above : ∀ s c, ∀ y < G.y s, ∀ x < w, G.cell (G.add s c) y x = G.cell s y x
  add_down : ∀ s c, G.y s ≤ G.y (G.add s c)
  /-- A literal character is written at the cursor, which goes on behind it. -/
  add_cell : ∀ s c, literal c → ∀ y x, Inner h w y x →
    G.cell (G.add s c) y x = if y = G.y s ∧ x = G.x s then c else G.cell s y x
  add_next : ∀ s c, literal c → G.x s + 1 < w → G.y (G.add s c) = G.y s ∧ G.x (G.add s c) = G.x s + 1
  add_wrap : ∀ s c, literal c → ¬ G.x s + 1 < w → G.y s + 1 < h → G.y (G.add s c) = G.y s + 1
  add_corner : ∀ s c, literal c → ¬ G.x s + 1 < w → ¬ G.y s + 1 < h →
    G.y (G.add s c) = G.y s ∧ G.x (G.add s c) = G.x s
  cell_clear : ∀ s, ∀ y < h, ∀ x < w, G.cell (G.clear s) y x = blank

variable (G : Grid α σ)

def addAll (s : σ) (cs : List α) : σ := cs.foldl G.add s

/-- Texts on the lines from `n` on. -/
def pageFrom (s : σ) (n : ℕ) : List (List α) → σ
  | [] => s
  | cs :: page => pageFrom (G.addAll (G.move s n 0) cs) (n + 1) page

/-- Texts from the first line on. -/
def page (s : σ) (page : List (List α)) : σ := G.pageFrom s 0 page

theorem addAll_cons (s : σ) (c : α) (cs : List α) :
    G.addAll s (c :: cs) = G.addAll (G.add s c) cs := rfl

theorem pageFrom_append (page page' : List (List α)) (s : σ) (n : ℕ) :
    G.pageFrom s n (page ++ page') = G.pageFrom (G.pageFrom s n page) (n + page.length) page' := by
  induction page generalizing s n with
  | nil => rfl
  | cons cs page ih =>
    rw [List.cons_append, pageFrom, ih, List.length_cons, Nat.add_right_comm, ← Nat.add_assoc]
    rfl

theorem page_concat (s : σ) (texts : List (List α)) (cs : List α) :
    G.page s (texts ++ [cs]) = G.addAll (G.move (G.page s texts) texts.length 0) cs := by
  unfold page
  rw [pageFrom_append, Nat.zero_add]
  rfl

end Grid

open Grid

section

variable {G : Grid α σ} {literal : α → Prop} {blank : α} (hG : G.Lawful h w literal blank)

include hG

/-! ### The cursor -/

theorem Grid.Lawful.zero_lt_width (s : σ) : 0 < w := Nat.zero_lt_of_lt (hG.x_lt s)

/-- A cursor that is moved to the beginning of a line. -/
theorem move_start (s : σ) {n : ℕ} (hn : n < h) : G.y (G.move s n 0) = n ∧ G.x (G.move s n 0) = 0 :=
  hG.move_inside s n 0 hn (hG.zero_lt_width s)

theorem move_below (s : σ) {n : ℕ} (hn : h ≤ n) :
    G.y (G.move s n 0) = G.y s ∧ G.x (G.move s n 0) = G.x s :=
  hG.move_outside s n 0 (by omega)

/-- The cursor is never above a line it was on. -/
theorem addAll_down (s : σ) (cs : List α) : G.y s ≤ G.y (G.addAll s cs) := by
  induction cs generalizing s with
  | nil => exact Nat.le_refl _
  | cons c cs ih => exact (hG.add_down s c).trans (ih (G.add s c))

/-! ### What is above the cursor -/

/-- **Nothing that is added changes what is above the cursor.** -/
theorem addAll_above (s : σ) (cs : List α) {y : ℕ} (hy : y < G.y s) {x : ℕ} (hx : x < w) :
    G.cell (G.addAll s cs) y x = G.cell s y x := by
  induction cs generalizing s with
  | nil => rfl
  | cons c cs ih =>
    rw [addAll_cons, ih (G.add s c) (hy.trans_le (hG.add_down s c)), hG.add_above s c y hy x hx]

/-- Nor do the texts on the lines below. -/
theorem pageFrom_above (s : σ) {n : ℕ} (page : List (List α)) {y : ℕ} (hy : y < G.y s) (hyn : y < n)
    {x : ℕ} (hx : x < w) : G.cell (G.pageFrom s n page) y x = G.cell s y x := by
  induction page generalizing s n with
  | nil => rfl
  | cons cs page ih =>
    have hmove : y < G.y (G.move s n 0) := by
      rcases Nat.lt_or_ge n h with hin | hout
      · rwa [(move_start hG s hin).1]
      · rwa [(move_below hG s hout).1]
    have hline := hmove.trans_le (addAll_down hG (G.move s n 0) cs)
    rw [pageFrom, ih _ hline (by omega), addAll_above hG _ cs hmove hx, hG.cell_move]

/-- What follows on later lines changes nothing above them: the first of these lines is in
the window, so the cursor is taken there. -/
theorem cell_pageFrom (s : σ) {n : ℕ} (hn : n < h) (page : List (List α)) {y : ℕ} (hy : y < n)
    {x : ℕ} (hx : x < w) : G.cell (G.pageFrom s n page) y x = G.cell s y x := by
  cases page with
  | nil => rfl
  | cons cs page =>
    have hstart : y < G.y (G.move s n 0) := by rwa [(move_start hG s hn).1]
    have hline := hstart.trans_le (addAll_down hG (G.move s n 0) cs)
    rw [pageFrom, pageFrom_above hG _ page hline (by omega) hx, addAll_above hG _ cs hstart hx,
      hG.cell_move]

/-! ### A text -/

/-- A text changes nothing to the left of where it begins. -/
theorem cell_literals_before {cs : List α} (hcs : ∀ c ∈ cs, literal c) (s : σ) {x : ℕ}
    (hx : x < G.x s) : G.cell (G.addAll s cs) (G.y s) x = G.cell s (G.y s) x := by
  have hxw := hG.x_lt s
  induction cs generalizing s with
  | nil => rfl
  | cons c cs ih =>
    have hc := hcs c List.mem_cons_self
    have htail := ih fun c' hc' => hcs c' (List.mem_cons_of_mem _ hc')
    have hinner : Inner h w (G.y s) x := ⟨hG.y_lt s, by omega, .inl (by omega)⟩
    have hset : G.cell (G.add s c) (G.y s) x = G.cell s (G.y s) x := by
      rw [hG.add_cell s c hc _ _ hinner, if_neg (by omega)]
    rw [addAll_cons, ← hset]
    -- the cursor goes on along the line, to the next one, or stays in the corner
    by_cases hright : G.x s + 1 < w
    · obtain ⟨hy', hx'⟩ := hG.add_next s c hc hright
      have hrest := htail (G.add s c) (by omega) (by omega)
      rwa [hy'] at hrest
    · by_cases hbelow : G.y s + 1 < h
      · have hy' := hG.add_wrap s c hc hright hbelow
        exact addAll_above hG _ cs (by omega) hinner.x_lt
      · obtain ⟨hy', hx'⟩ := hG.add_corner s c hc hright hbelow
        have hrest := htail (G.add s c) (by omega) (by omega)
        rwa [hy'] at hrest

/-- **A text stands where it is printed**, up to the end of the line, but for the corner. -/
theorem cell_literals {cs : List α} (hcs : ∀ c ∈ cs, literal c) (s : σ) {i : ℕ} {c : α}
    (hc : cs[i]? = some c) (hin : G.x s + i < w) (hcorner : G.y s + 1 < h ∨ G.x s + i + 1 < w) :
    G.cell (G.addAll s cs) (G.y s) (G.x s + i) = c := by
  induction cs generalizing s i with
  | nil => cases hc
  | cons c₀ cs ih =>
    have hc₀ := hcs c₀ List.mem_cons_self
    have hrest : ∀ c' ∈ cs, literal c' := fun c' hc' => hcs c' (List.mem_cons_of_mem _ hc')
    rw [addAll_cons]
    cases i with
    | zero =>
      obtain rfl : c₀ = c := Option.some.inj hc
      have hinner : Inner h w (G.y s) (G.x s) := ⟨hG.y_lt s, hG.x_lt s, by omega⟩
      have hset : G.cell (G.add s c₀) (G.y s) (G.x s) = c₀ := by
        rw [hG.add_cell s c₀ hc₀ _ _ hinner, if_pos ⟨rfl, rfl⟩]
      rw [Nat.add_zero]
      -- the character was written, and what comes after it is to its right or below it
      refine Eq.trans ?_ hset
      by_cases hright : G.x s + 1 < w
      · obtain ⟨hy', hx'⟩ := hG.add_next s c₀ hc₀ hright
        have hbefore : G.x s < G.x (G.add s c₀) := by omega
        have htail := cell_literals_before hG hrest (G.add s c₀) hbefore
        rwa [hy'] at htail
      · have hy' := hG.add_wrap s c₀ hc₀ hright (by omega)
        exact addAll_above hG _ cs (by omega) hinner.x_lt
    | succ i =>
      obtain ⟨hy', hx'⟩ := hG.add_next s c₀ hc₀ (by omega)
      have htail := ih hrest (G.add s c₀) hc (by omega) (by omega)
      rw [hy', hx'] at htail
      rwa [← Nat.add_right_comm, Nat.add_assoc] at htail

/-- A text that does not leave its line, because it fits or because there is no next line. -/
theorem literals_on_line {cs : List α} (hcs : ∀ c ∈ cs, literal c) (s : σ)
    (hline : G.x s + cs.length < w ∨ G.y s + 1 = h) :
    G.y (G.addAll s cs) = G.y s ∧ G.x (G.addAll s cs) = min (G.x s + cs.length) (w - 1) ∧
      ∀ y x, Inner h w y x → G.cell (G.addAll s cs) y x
        = if y = G.y s ∧ G.x s ≤ x then cs[x - G.x s]?.getD (G.cell s y x) else G.cell s y x := by
  have hx := hG.x_lt s
  have hy := hG.y_lt s
  induction cs generalizing s with
  | nil =>
    refine ⟨rfl, ?_, ?_⟩
    · rw [List.length_nil]
      show G.x s = _
      omega
    · intro y x _
      show G.cell s y x = _
      split <;> rfl
  | cons c cs ih =>
    have hc := hcs c List.mem_cons_self
    have htail := ih fun c' hc' => hcs c' (List.mem_cons_of_mem _ hc')
    rw [List.length_cons] at hline ⊢
    rw [addAll_cons]
    by_cases hright : G.x s + 1 < w
    · obtain ⟨hy', hx'⟩ := hG.add_next s c hc hright
      obtain ⟨hty, htx, htcell⟩ := htail (G.add s c) (by omega) (by omega) (by omega)
      refine ⟨by omega, by omega, ?_⟩
      intro y x hinner
      rw [htcell y x hinner, hG.add_cell s c hc y x hinner, hy', hx']
      by_cases hthere : y = G.y s ∧ G.x s ≤ x
      · rw [if_pos hthere]
        rcases hthere.2.eq_or_lt with rfl | hlt'
        · rw [if_neg (by omega), if_pos ⟨hthere.1, rfl⟩, Nat.sub_self]
          rfl
        · obtain ⟨d, rfl⟩ := Nat.exists_eq_add_of_lt hlt'
          rw [if_pos (by omega), if_neg (by omega), show G.x s + d + 1 - (G.x s + 1) = d by omega,
            show G.x s + d + 1 - G.x s = d + 1 by omega, List.getElem?_cons_succ]
      · rw [if_neg hthere, if_neg (by omega), if_neg (by omega)]
    · -- the corner: it is written over, and nothing else
      obtain ⟨hy', hx'⟩ := hG.add_corner s c hc hright (by omega)
      obtain ⟨hty, htx, htcell⟩ := htail (G.add s c) (by omega) (by omega) (by omega)
      refine ⟨by omega, by omega, ?_⟩
      intro y x hinner
      have hxw := hinner.x_lt
      have hcorner := hinner.not_corner
      rw [htcell y x hinner, hG.add_cell s c hc y x hinner, hx', if_neg (by omega), if_neg (by omega),
        if_neg (by omega)]

/-! ### A page -/

/-- **A line above the last has its text**, up to the end of the line.  The other texts can be
of any characters, and are not seen there. -/
theorem cell_page_of_lt (s : σ) {page : List (List α)} {i j : ℕ} {cs : List α} {c : α}
    (hi : i + 1 < h) (hpage : page[i]? = some cs) (hcs : ∀ c ∈ cs, literal c) (hc : cs[j]? = some c)
    (hj : j < w) : G.cell (G.page s page) i j = c := by
  obtain ⟨hlt, hget⟩ := List.getElem?_eq_some_iff.1 hpage
  have hsplit : page = page.take i ++ cs :: page.drop (i + 1) := by
    rw [← hget, List.getElem_cons_drop, List.take_append_drop]
  have hlength : (page.take i).length = i := List.length_take_of_le hlt.le
  rw [hsplit, Grid.page, pageFrom_append, hlength, Nat.zero_add, pageFrom,
    cell_pageFrom hG _ hi _ (Nat.lt_succ_self i) hj]
  obtain ⟨hy, hx⟩ := move_start hG (G.pageFrom s 0 (page.take i)) (show i < h by omega)
  have htext := cell_literals hG hcs (G.move (G.pageFrom s 0 (page.take i)) i 0) hc (by omega)
    (by omega)
  rwa [hy, hx, Nat.zero_add] at htext

end

/-- The text of a line, of a window of so many.  On the last line are all texts that are left:
the cursor is not moved to a line outside of the window, and goes on from where it is. -/
def lineOf (h : ℕ) (texts : List (List α)) (y : ℕ) : List α :=
  if y + 1 = h then (texts.drop y).flatten else texts[y]?.getD []

theorem lineOf_of_le {texts : List (List α)} {y : ℕ} (hle : texts.length ≤ y) :
    lineOf h texts y = [] := by
  unfold lineOf
  split
  · rw [List.drop_eq_nil_of_le hle, List.flatten_nil]
  · rw [List.getElem?_eq_none hle, Option.getD_none]

/-- A text on a line of its own. -/
theorem lineOf_concat_of_lt {texts : List (List α)} (text : List α) (hlt : texts.length < h) (y : ℕ) :
    lineOf h (texts ++ [text]) y = if y = texts.length then text else lineOf h texts y := by
  unfold lineOf
  rcases Nat.lt_trichotomy y texts.length with hbefore | rfl | hafter
  · rw [if_neg hbefore.ne, if_neg (by omega), if_neg (by omega), List.getElem?_append_left hbefore]
  · rw [if_pos rfl, List.drop_left, List.getElem?_concat_length, List.flatten_singleton]
    split <;> rfl
  · rw [if_neg hafter.ne', List.drop_eq_nil_of_le (by simp; omega), List.drop_eq_nil_of_le hafter.le,
      List.getElem?_eq_none (by simp; omega), List.getElem?_eq_none hafter.le]

/-- A text outside of the window. -/
theorem lineOf_concat_of_le {texts : List (List α)} (text : List α) (hle : h ≤ texts.length) {y : ℕ}
    (hy : y < h) :
    lineOf h (texts ++ [text]) y = lineOf h texts y ++ if y + 1 = h then text else [] := by
  unfold lineOf
  split
  · rw [List.drop_append_of_le_length (by omega), List.flatten_append, List.flatten_singleton]
  · rw [List.getElem?_append_left (by omega), List.append_nil]

/-- A text that goes on from where another ended. -/
theorem getElem?_goes_on (text text' : List α) (x : ℕ) (old : α) :
    (if text.length ≤ x then text'[x - text.length]?.getD (text[x]?.getD old) else text[x]?.getD old)
      = (text ++ text')[x]?.getD old := by
  split
  · next hle => rw [List.getElem?_append_right hle, List.getElem?_eq_none hle, Option.getD_none]
  · next hlt => rw [List.getElem?_append_left (by omega)]

/-- A window on which texts were printed, and where that leaves the cursor of one they fill. -/
structure Shows (G : Grid α σ) (h w : ℕ) (s : σ) (texts : List (List α)) (s' : σ) : Prop where
  cell : ∀ y x, Inner h w y x → G.cell s' y x = (lineOf h texts y)[x]?.getD (G.cell s y x)
  cursor : h ≤ texts.length →
    G.y s' + 1 = h ∧ G.x s' = min (lineOf h texts (h - 1)).length (w - 1)

section

variable {G : Grid α σ} {literal : α → Prop} {blank : α} (hG : G.Lawful h w literal blank)

include hG

namespace Shows

variable {s s' : σ} {texts : List (List α)} {text : List α}

/-- A text on a line of the window, that fits it or is the last one. -/
theorem inside (hshows : Shows G h w s texts s') (htext : ∀ c ∈ text, literal c)
    (hlt : texts.length < h) (hroom : text.length < w ∨ texts.length + 1 = h) :
    Shows G h w s (texts ++ [text]) (G.addAll (G.move s' texts.length 0) text) := by
  obtain ⟨hy', hx'⟩ := move_start hG s' hlt
  obtain ⟨hty, htx, htcell⟩ :=
    literals_on_line hG htext (G.move s' texts.length 0) (by rwa [hx', hy', Nat.zero_add])
  rw [hy'] at hty
  rw [hx', Nat.zero_add] at htx
  refine ⟨?_, ?_⟩
  · intro y x hinner
    rw [htcell y x hinner, lineOf_concat_of_lt text hlt, hy', hx', hG.cell_move,
      hshows.cell y x hinner]
    by_cases hthere : y = texts.length
    · rw [if_pos ⟨hthere, Nat.zero_le x⟩, if_pos hthere, lineOf_of_le hthere.ge, Nat.sub_zero]
      rfl
    · rw [if_neg (fun h => hthere h.1), if_neg hthere]
  · intro hfull
    rw [List.length_append, List.length_singleton] at hfull
    rw [hty, htx, lineOf_concat_of_lt text hlt, if_pos (by omega)]
    exact ⟨by omega, rfl⟩

/-- A text outside of the window goes on from where the last one ended. -/
theorem outside (hshows : Shows G h w s texts s') (htext : ∀ c ∈ text, literal c)
    (hle : h ≤ texts.length) :
    Shows G h w s (texts ++ [text]) (G.addAll (G.move s' texts.length 0) text) := by
  have hh := Nat.zero_lt_of_lt (hG.y_lt s)
  obtain ⟨hy, hx⟩ := hshows.cursor hle
  -- the move is refused: the cursor is where the last text ended
  obtain ⟨hy', hx'⟩ := move_below hG s' hle
  rw [hy.symm] at hle
  obtain ⟨hty, htx, htcell⟩ := literals_on_line hG htext (G.move s' texts.length 0) (.inr (by omega))
  rw [hy] at hle
  refine ⟨?_, ?_⟩
  · intro y x hinner
    have hcorner := hinner.not_corner
    rw [htcell y x hinner, lineOf_concat_of_le text hle hinner.y_lt, hG.cell_move,
      hshows.cell y x hinner, hy', hx']
    by_cases hlast : y + 1 = h
    · obtain rfl : y = h - 1 := by omega
      have hwhere : G.x s' ≤ x ↔ (lineOf h texts (h - 1)).length ≤ x := by omega
      rw [if_pos hlast, ← getElem?_goes_on]
      by_cases hon : (lineOf h texts (h - 1)).length ≤ x
      · rw [if_pos ⟨by omega, hwhere.2 hon⟩, if_pos hon,
          show G.x s' = (lineOf h texts (h - 1)).length by omega]
      · rw [if_neg (fun h => hon (hwhere.1 h.2)), if_neg hon]
    · rw [if_neg (by omega), if_neg hlast, List.append_nil]
  · intro _
    rw [hty, htx, hy', hx', hx, lineOf_concat_of_le text hle (by omega), if_pos (by omega),
      List.length_append]
    exact ⟨hy, by omega⟩

end Shows

theorem shows_page {texts : List (List α)} (htexts : ∀ text ∈ texts, ∀ c ∈ text, literal c) (s : σ)
    (hfit : ∀ text ∈ texts.take (h - 1), text.length < w) :
    Shows G h w s texts (G.page s texts) := by
  have hh := Nat.zero_lt_of_lt (hG.y_lt s)
  induction texts using List.reverseRecOn with
  | nil =>
    refine ⟨fun y x _ => ?_, fun hle => absurd hle (by simp; omega)⟩
    rw [lineOf_of_le (Nat.zero_le y)]
    rfl
  | append_singleton texts text ih =>
    have hshows := ih (fun t ht => htexts t (List.mem_append_left _ ht))
      fun t ht => hfit t (by rw [List.take_append]; exact List.mem_append_left _ ht)
    have htext := htexts text List.mem_concat_self
    rw [page_concat]
    rcases Nat.lt_or_ge texts.length h with hlt | hle
    · refine hshows.inside hG htext hlt (or_iff_not_imp_right.2 fun hlast => hfit text ?_)
      rw [List.take_of_length_le (by simp; omega)]
      exact List.mem_concat_self
    · exact hshows.outside hG htext hle

/-- **The whole window**, but for the corner, where no text above the last line is wider than
it: every line has its text, and behind it what was there before. -/
theorem cell_page {texts : List (List α)} (htexts : ∀ text ∈ texts, ∀ c ∈ text, literal c) (s : σ)
    (hfit : ∀ text ∈ texts.take (h - 1), text.length < w) {y x : ℕ} (hinner : Inner h w y x) :
    G.cell (G.page s texts) y x = (lineOf h texts y)[x]?.getD (G.cell s y x) :=
  (shows_page hG htexts s hfit).cell y x hinner

end

/-! ### The plainest window -/

/-- A window that writes every character as it is. -/
structure Sheet (h w : ℕ) (α : Type) where
  cell : ℕ → ℕ → α
  y : ℕ
  x : ℕ
  y_lt : y < h
  x_lt : x < w

namespace Sheet

theorem zero_lt_height (s : Sheet h w α) : 0 < h := Nat.zero_lt_of_lt s.y_lt

theorem zero_lt_width (s : Sheet h w α) : 0 < w := Nat.zero_lt_of_lt s.x_lt

theorem toNat_lt {n : ℤ} {m : ℕ} (hn : 0 ≤ n ∧ n < m) : n.toNat < m := by omega

def move (s : Sheet h w α) (y x : ℤ) : Sheet h w α :=
  if hin : (0 ≤ y ∧ y < h) ∧ 0 ≤ x ∧ x < w then
    { s with y := y.toNat, x := x.toNat, y_lt := toNat_lt hin.1, x_lt := toNat_lt hin.2 }
  else s

/-- On to the next column, or the next line, or nowhere. -/
def advance (s : Sheet h w α) : Sheet h w α :=
  if hx : s.x + 1 < w then { s with x := s.x + 1, x_lt := hx }
  else if hy : s.y + 1 < h then { s with y := s.y + 1, x := 0, y_lt := hy, x_lt := s.zero_lt_width }
  else s

def set (s : Sheet h w α) (c : α) : Sheet h w α :=
  { s with cell := fun y x => if y = s.y ∧ x = s.x then c else s.cell y x }

def add (s : Sheet h w α) (c : α) : Sheet h w α := (s.set c).advance

def clear (blank : α) (s : Sheet h w α) : Sheet h w α where
  cell := fun _ _ => blank
  y := 0
  x := 0
  y_lt := s.zero_lt_height
  x_lt := s.zero_lt_width

def grid (blank : α) : Grid α (Sheet h w α) where
  cell := cell
  y := y
  x := x
  move := move
  add := add
  clear := clear blank

theorem cell_advance (s : Sheet h w α) : s.advance.cell = s.cell := by
  unfold advance
  split
  · rfl
  · split <;> rfl

theorem advance_next (s : Sheet h w α) (hx : s.x + 1 < w) :
    s.advance.y = s.y ∧ s.advance.x = s.x + 1 := by
  unfold advance
  rw [dif_pos hx]
  exact ⟨rfl, rfl⟩

theorem advance_wrap (s : Sheet h w α) (hx : ¬ s.x + 1 < w) (hy : s.y + 1 < h) :
    s.advance.y = s.y + 1 := by
  unfold advance
  rw [dif_neg hx, dif_pos hy]

theorem advance_corner (s : Sheet h w α) (hx : ¬ s.x + 1 < w) (hy : ¬ s.y + 1 < h) :
    s.advance = s := by
  unfold advance
  rw [dif_neg hx, dif_neg hy]

theorem le_advance (s : Sheet h w α) : s.y ≤ s.advance.y := by
  unfold advance
  split
  · exact Nat.le_refl s.y
  · split
    · exact Nat.le_succ s.y
    · exact Nat.le_refl s.y

theorem cell_add (s : Sheet h w α) (c : α) (y x : ℕ) :
    (s.add c).cell y x = if y = s.y ∧ x = s.x then c else s.cell y x := by
  rw [add, cell_advance]
  rfl

/-- It has the laws, whatever characters are taken for literal ones. -/
theorem lawful (literal : α → Prop) (blank : α) :
    (grid blank : Grid α (Sheet h w α)).Lawful h w literal blank where
  y_lt := y_lt
  x_lt := x_lt
  cell_move s y x := by
    show (s.move y x).cell = s.cell
    unfold move
    split <;> rfl
  move_inside s y x hy hx := by
    show (s.move y x).y = y ∧ (s.move y x).x = x
    unfold move
    rw [dif_pos (by omega)]
    exact ⟨Int.toNat_natCast y, Int.toNat_natCast x⟩
  move_outside s y x hout := by
    show (s.move y x).y = s.y ∧ (s.move y x).x = s.x
    unfold move
    rw [dif_neg hout]
    exact ⟨rfl, rfl⟩
  add_above s c y hy x _ := by
    show (s.add c).cell y x = s.cell y x
    rw [cell_add, if_neg fun heq => absurd heq.1 (Nat.ne_of_lt hy)]
  add_down s c := le_advance (s.set c)
  add_cell s c _ y x _ := cell_add s c y x
  add_next s c _ hx := advance_next (s.set c) hx
  add_wrap s c _ hx hy := advance_wrap (s.set c) hx hy
  add_corner s c _ hx hy := by
    show (s.set c).advance.y = s.y ∧ (s.set c).advance.x = s.x
    rw [advance_corner (s.set c) hx hy]
    exact ⟨rfl, rfl⟩
  cell_clear _ _ _ _ _ := rfl

end Sheet

end CellGrid
