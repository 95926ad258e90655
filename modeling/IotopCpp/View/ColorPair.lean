import Mathlib.Data.List.Perm.Subperm
import IotopCpp.Lib.Intern
import IotopCpp.Lib.Runs
import IotopCpp.View.GlyphString

/-!
# Colour pairs

The window is told of colours by the number of a pair.  `color_pair` of
`cxxcurses/print/color_pair.hpp` looks the pair up among those it has set up, and sets it up
under the next number if it is not there.  It does so for every glyph: the formatter of
`View.GlyphString` is run here on the table of pairs, with numbers in place of colours.

The table is a numbering of pairs, so what is needed of it is in `Lib.Intern`.

## Main definitions

* `Palette` — the pairs that are set up, and the calls of `init_pair`.
* `colorPair`, `initColorPairs`, `terminal` — the functions on it.
* `Numbered.parse` — the formatter, with numbers.
* `Shows` — a glyph with a number is one with the colours.

## Main results

* `colorPairs_run` — **every number stands for the pair it was given for**, in what the
  terminal was told, and is told of once.
* `parse_refines` — the formatter with numbers prints what the one with colours does.
* `palette_of_run`, `shows_of_run` — the program needs seven pairs, and after a terminal with
  colours came up it sets up none.
-/

namespace IotopCpp
namespace Cxxcurses

open Interning Runs

/-! ### The table of pairs -/

/-- `color_pair::initialized_pairs`, and the calls of `init_pair` so far.  The number of a
pair is its place in the first, and what the terminal knows of it is in the second. -/
@[ext] structure Palette where
  initializedPairs : List ColorPair := []
  initPairs : List (ℕ × ColorPair) := []
  deriving DecidableEq

/-- The constructor of `color_pair` from two colours: the number, and the table after it. -/
def colorPair (pair : ColorPair) (p : Palette) : ℕ × Palette :=
  match p.initializedPairs.findIdx? (· == pair) with
  | some pos => (pos + 1, p)
  | none =>
    let p := { p with initPairs := p.initPairs ++ [(p.initializedPairs.length + 1, pair)] }
    let p := { p with initializedPairs := p.initializedPairs ++ [pair] }
    (p.initializedPairs.length, p)

/-- Pairs constructed one after another. -/
def colorPairs : List ColorPair → Palette → List ℕ × Palette
  | [], p => ([], p)
  | pair :: pairs, p =>
    let (pairNumber, p) := colorPair pair p
    let (pairNumbers, p) := colorPairs pairs p
    (pairNumber :: pairNumbers, p)

/-- `terminal::init_color_pairs`. -/
def initColorPairs (p : Palette) : Palette :=
  (colorPairs [{ fg := .red }, { fg := .green }, { fg := .yellow }, { fg := .blue },
    { fg := .magenta }, { fg := .cyan }, { fg := .white }] p).2

variable {p p' : Palette}

/-- The table is a numbering of the pairs. -/
theorem colorPair_eq (pair : ColorPair) (p : Palette) :
    (colorPair pair p).1 = (intern p.initializedPairs pair).1 ∧
      (colorPair pair p).2.initializedPairs = (intern p.initializedPairs pair).2 := by
  unfold colorPair intern
  cases p.initializedPairs.findIdx? (· == pair) with
  | some pos => exact ⟨rfl, rfl⟩
  | none => exact ⟨List.length_append, rfl⟩

theorem colorPairs_eq (pairs : List ColorPair) (p : Palette) :
    (colorPairs pairs p).1 = (internAll p.initializedPairs pairs).1 ∧
      (colorPairs pairs p).2.initializedPairs = (internAll p.initializedPairs pairs).2 := by
  induction pairs generalizing p with
  | nil => exact ⟨rfl, rfl⟩
  | cons pair pairs ih =>
    obtain ⟨hnumber, htable⟩ := colorPair_eq pair p
    obtain ⟨hnumbers, htables⟩ := ih (colorPair pair p).2
    rw [htable] at hnumbers htables
    simp only [colorPairs, internAll, hnumber, hnumbers, htables, and_self]

theorem colorPairs_append (pairs pairs' : List ColorPair) (p : Palette) :
    (colorPairs (pairs ++ pairs') p).2 = (colorPairs pairs' (colorPairs pairs p).2).2 := by
  induction pairs generalizing p with
  | nil => rfl
  | cons pair pairs ih => exact ih (colorPair pair p).2

/-- The pairs differ, and were set up in order, from number one on. -/
structure Palette.Inv (p : Palette) : Prop where
  nodup : p.initializedPairs.Nodup
  initPairs : p.initPairs = (p.initializedPairs.zipIdx 1).map Prod.swap

theorem Palette.inv_empty : Palette.Inv {} := ⟨List.nodup_nil, rfl⟩

theorem Palette.Inv.colorPair (h : p.Inv) (pair : ColorPair) : (colorPair pair p).2.Inv := by
  refine ⟨?_, ?_⟩
  · rw [(colorPair_eq pair p).2]
    exact nodup_intern h.nodup pair
  · unfold Cxxcurses.colorPair
    split
    · exact h.initPairs
    · simp only [h.initPairs, List.zipIdx_append, List.map_append, List.zipIdx_singleton,
        List.map_singleton, Prod.swap_prod_mk, Nat.add_comm 1]

theorem Palette.Inv.colorPairs (h : p.Inv) (pairs : List ColorPair) :
    (colorPairs pairs p).2.Inv := by
  induction pairs generalizing p with
  | nil => exact h
  | cons pair pairs ih => exact ih (h.colorPair pair)

/-- What was told of a number is the value of the numbering. -/
theorem lookup_zipIdx {pairs : List ColorPair} {k n : ℕ} :
    ((pairs.zipIdx (k + 1)).map Prod.swap).lookup (k + 1 + n) = pairs[n]? := by
  induction pairs generalizing k n with
  | nil => rfl
  | cons pair pairs ih =>
    rw [List.zipIdx_cons, List.map_cons, Prod.swap_prod_mk, List.lookup_cons]
    cases n with
    | zero => simp
    | succ n =>
      have hne : (k + 1 + (n + 1) == k + 1) = false := by simp
      rw [hne, show k + 1 + (n + 1) = k + 1 + 1 + n by omega, ih]
      rfl

theorem Palette.Inv.lookup (h : p.Inv) {n : ℕ} {pair : ColorPair}
    (hn : value p.initializedPairs n = some pair) : p.initPairs.lookup n = some pair := by
  cases n with
  | zero => cases hn
  | succ n =>
    rw [value_succ] at hn
    rw [h.initPairs, Nat.add_comm n 1, ← hn]
    exact lookup_zipIdx (k := 0)

/-- The colours, and the pairs of them. -/
def allColors : List Color :=
  [.none, .red, .green, .yellow, .blue, .magenta, .cyan, .white, .black]

def allPairs : List ColorPair := allColors.flatMap fun fg => allColors.map fun bg => { fg, bg }

theorem mem_allPairs (pair : ColorPair) : pair ∈ allPairs := by
  have hcolor (c : Color) : c ∈ allColors := by cases c <;> decide
  exact List.mem_flatMap.2 ⟨pair.fg, hcolor pair.fg, List.mem_map.2 ⟨pair.bg, hcolor pair.bg, rfl⟩⟩

/-- **What a number means.**  However many pairs are asked for, in whatever order: the
terminal is told of the numbers from one on, each once and each for another pair, a number
that was handed out is the one of the pair it was asked for, what was told is not taken
back, and there are few enough numbers for a `short`. -/
theorem colorPairs_run (pairs : List ColorPair) :
    let (pairNumbers, p) := colorPairs pairs {}
    p.initPairs.map Prod.fst = List.range' 1 p.initPairs.length ∧
      (p.initPairs.map Prod.snd).Nodup ∧
      List.Forall₂ (fun n pair => p.initPairs.lookup n = some pair) pairNumbers pairs ∧
      (∀ pairs', p.initPairs <+: (colorPairs (pairs ++ pairs') {}).2.initPairs) ∧
      p.initPairs.length < 2 ^ 15 := by
  have hinv := Palette.inv_empty.colorPairs pairs
  obtain ⟨hnumbers, htable⟩ := colorPairs_eq pairs {}
  have hlength : (colorPairs pairs {}).2.initPairs.length
      = (colorPairs pairs {}).2.initializedPairs.length := by
    rw [hinv.initPairs, List.length_map, List.length_zipIdx]
  refine ⟨?_, ?_, ?_, ?_, ?_⟩
  · rw [hlength, hinv.initPairs, List.map_map]
    exact List.zipIdx_map_snd 1 _
  · rw [hinv.initPairs, List.map_map]
    exact (List.zipIdx_map_fst 1 _).symm ▸ hinv.nodup
  · rw [hnumbers]
    refine (forall₂_internAll _ pairs).imp fun n pair hn => hinv.lookup ?_
    rwa [htable]
  · -- pairs that are asked for later are put behind those that are there
    intro pairs'
    have hprefix := prefix_internAll (colorPairs pairs {}).2.initializedPairs pairs'
    rw [← (colorPairs_eq pairs' _).2, ← colorPairs_append] at hprefix
    obtain ⟨rest, hrest⟩ := hprefix
    rw [hinv.initPairs, (Palette.inv_empty.colorPairs (pairs ++ pairs')).initPairs, ← hrest,
      List.zipIdx_append, List.map_append]
    exact List.prefix_append _ _
  · rw [hlength]
    have hle := (hinv.nodup.subperm fun pair _ => mem_allPairs pair).length_le
    exact hle.trans_lt (show allPairs.length < 2 ^ 15 by decide)

/-! ### The formatter, with numbers -/

namespace Numbered

/-- `class glyph`, as it is kept. -/
structure Glyph where
  char : UInt8
  pairNumber : ℕ
  attributes : List Attribute := []
  deriving DecidableEq

/-- The constructor of `glyph` from a character; its colour defaults to white. -/
def glyph (char : UInt8) (p : Palette) : Glyph × Palette :=
  let (pairNumber, p) := colorPair { fg := .white } p
  ({ char, pairNumber }, p)

/-- What a formatting function returns, what it leaves in `parsed`, and the table of pairs. -/
structure Formatted where
  returned : List Glyph
  parsed : List Glyph
  palette : Palette
  deriving DecidableEq

/-- The colour and the attributes of a place so far, and the table of pairs. -/
structure Style where
  colors : ℕ
  attributes : List Attribute
  palette : Palette

/-- The body of the loop of `parse_arg` over the characters of a place. -/
def Style.next (style : Style) (ch : UInt8) : Style :=
  let style := match charToColor.lookup ch with
    | some fg =>
      let (colors, palette) := colorPair { fg } style.palette
      { style with colors, palette }
    | none => style
  match charToAttribute.lookup ch with
  | some attr => { style with attributes := style.attributes ++ [attr] }
  | none => style

/-- The loop of `parse_arg` over the characters of a place. -/
def styleOf (place : Bytes) (p : Palette) : Style :=
  let (colors, palette) := colorPair { fg := .white } p
  place.foldl Style.next { colors, attributes := [], palette }

/-- An argument's text in the style of its place. -/
def styled (style : Style) (arg : Bytes) : List Glyph :=
  arg.map fun char => { char, pairNumber := style.colors, attributes := style.attributes }

/-- The body of `parse`, over the `parse_arg` for the same arguments. -/
def parseWith (parseArg : Bytes → List Glyph → Palette → Option Formatted) :
    Bytes → List Glyph → Palette → Option Formatted
  | [], parsed, palette => some { returned := parsed, parsed, palette }
  | ch :: toParse, parsed, p =>
    if ch ≠ openBrace then
      let (g, p) := glyph ch p
      parseWith parseArg toParse (parsed ++ [g]) p
    else parseArg (ch :: toParse) parsed p

/-- `parse_arg`, over the texts of the arguments. -/
def parseArg : List Bytes → Bytes → List Glyph → Palette → Option Formatted
  | [], _, parsed, palette => some { returned := [], parsed, palette }
  | arg :: args, toParse, parsed, p =>
    match toParse.findIdx? (· == closeBrace) with
    | none => none
    | some position =>
      let style := styleOf (toParse.take position) p
      parseWith (parseArg args) (toParse.drop (min (position + 1) toParse.length))
        (parsed ++ styled style arg) style.palette

/-- `parse`. -/
def parse (args : List Bytes) (toParse : Bytes) (parsed : List Glyph) (p : Palette) :
    Option Formatted :=
  parseWith (parseArg args) toParse parsed p

end Numbered

/-! ### The two formatters -/

/-- The pairs the formatter asks for: a colour that a place can name, on no background. -/
def formatPairs : List ColorPair := charToColor.map fun e => { fg := e.2 }

/-- The formatter leads from one table to the other. -/
def Palette.Leads (p p' : Palette) : Prop := ∃ pairs ⊆ formatPairs, (colorPairs pairs p).2 = p'

namespace Palette.Leads

theorem refl (p : Palette) : p.Leads p := ⟨[], List.nil_subset _, rfl⟩

theorem trans {p'' : Palette} (h : p.Leads p') (h' : p'.Leads p'') : p.Leads p'' := by
  obtain ⟨pairs, hpairs, rfl⟩ := h
  obtain ⟨pairs', hpairs', rfl⟩ := h'
  exact ⟨pairs ++ pairs', List.append_subset.2 ⟨hpairs, hpairs'⟩, colorPairs_append pairs pairs' p⟩

theorem colorPair {pair : ColorPair} (hpair : pair ∈ formatPairs) (p : Palette) :
    p.Leads (colorPair pair p).2 :=
  ⟨[pair], List.cons_subset.2 ⟨hpair, List.nil_subset _⟩, rfl⟩

theorem inv (h : p.Leads p') (hp : p.Inv) : p'.Inv := by
  obtain ⟨pairs, -, rfl⟩ := h
  exact hp.colorPairs pairs

/-- Numbers keep their pairs. -/
theorem value_eq_some (h : p.Leads p') {n : ℕ} {pair : ColorPair}
    (hn : value p.initializedPairs n = some pair) : value p'.initializedPairs n = some pair := by
  obtain ⟨pairs, -, rfl⟩ := h
  rw [(colorPairs_eq pairs p).2]
  exact value_of_isPrefix (prefix_internAll _ pairs) hn

/-- A table with all pairs of the formatter stays as it is. -/
theorem eq_of_subset (h : p.Leads p') (hp : p.Inv) (hall : formatPairs ⊆ p.initializedPairs) :
    p' = p := by
  have hp' := h.inv hp
  obtain ⟨pairs, hpairs, rfl⟩ := h
  have hkept : (colorPairs pairs p).2.initializedPairs = p.initializedPairs := by
    rw [(colorPairs_eq pairs p).2, internAll_of_subset (List.Subset.trans hpairs hall)]
  refine Palette.ext hkept ?_
  rw [hp'.initPairs, hkept, hp.initPairs]

/-- Only the pairs of the formatter are added. -/
theorem subset (h : p.Leads p') (hp : p.initializedPairs ⊆ formatPairs) :
    p'.initializedPairs ⊆ formatPairs := by
  obtain ⟨pairs, hpairs, rfl⟩ := h
  intro pair hpair
  rw [(colorPairs_eq pairs p).2, mem_internAll] at hpair
  exact hpair.elim (@hp pair) (@hpairs pair)

end Palette.Leads

/-- A glyph with a number shows what one with colours does: the terminal was told of the
number as that pair. -/
structure Shows (p : Palette) (g : Glyph) (ng : Numbered.Glyph) : Prop where
  char : ng.char = g.char
  attributes : ng.attributes = g.attributes
  color : value p.initializedPairs ng.pairNumber = some g.color

theorem Shows.of_leads {g : Glyph} {ng : Numbered.Glyph} (h : Shows p g ng) (hleads : p.Leads p') :
    Shows p' g ng := ⟨h.char, h.attributes, hleads.value_eq_some h.color⟩

/-- The result with numbers shows what the one with colours does. -/
structure ShowsAll (p : Palette) (f : Formatted) (nf : Numbered.Formatted) : Prop where
  leads : p.Leads nf.palette
  returned : List.Forall₂ (Shows nf.palette) f.returned nf.returned
  parsed : List.Forall₂ (Shows nf.palette) f.parsed nf.parsed

theorem ShowsAll.of_leads {f : Option Formatted} {nf : Option Numbered.Formatted}
    (hleads : p.Leads p') (h : Option.Rel (ShowsAll p') f nf) : Option.Rel (ShowsAll p) f nf := by
  cases h with
  | none => exact .none
  | some h => exact .some ⟨hleads.trans h.leads, h.returned, h.parsed⟩

theorem white_mem_formatPairs : { fg := .white } ∈ formatPairs := by decide

theorem mem_formatPairs {ch : UInt8} {fg : Color} (h : charToColor.lookup ch = some fg) :
    { fg } ∈ formatPairs := by
  obtain ⟨before, after, heq, -⟩ := List.lookup_eq_some_iff.1 h
  refine List.mem_map.2 ⟨(ch, fg), ?_, rfl⟩
  rw [heq]
  exact List.mem_append_right _ List.mem_cons_self

theorem value_colorPair (pair : ColorPair) (p : Palette) :
    value (colorPair pair p).2.initializedPairs (colorPair pair p).1 = some pair := by
  rw [(colorPair_eq pair p).1, (colorPair_eq pair p).2]
  exact value_intern _ pair

/-- A character of the format string. -/
theorem shows_glyph (ch : UInt8) (p : Palette) :
    p.Leads (Numbered.glyph ch p).2 ∧ Shows (Numbered.glyph ch p).2 { char := ch } (Numbered.glyph ch p).1 :=
  ⟨.colorPair white_mem_formatPairs p, rfl, rfl, value_colorPair _ p⟩

/-- The style of a place, with a number for its colour. -/
structure ShowsStyle (p : Palette) (style : ColorPair × List Attribute) (ns : Numbered.Style) :
    Prop where
  leads : p.Leads ns.palette
  attributes : ns.attributes = style.2
  color : value ns.palette.initializedPairs ns.colors = some style.1

theorem ShowsStyle.next {style : ColorPair × List Attribute} {ns : Numbered.Style}
    (h : ShowsStyle p style ns) (ch : UInt8) :
    ShowsStyle p
      (match charToColor.lookup ch with
        | some fg => { fg }
        | none => style.1,
        match charToAttribute.lookup ch with
        | some attr => style.2 ++ [attr]
        | none => style.2)
      (ns.next ch) := by
  unfold Numbered.Style.next
  have hleads := h.leads
  have hcolor := h.color
  cases hfg : charToColor.lookup ch with
  | none =>
    cases charToAttribute.lookup ch with
    | none => exact h
    | some attr => exact ⟨hleads, congrArg (· ++ [attr]) h.attributes, hcolor⟩
  | some fg =>
    have hleads' := hleads.trans (.colorPair (mem_formatPairs hfg) ns.palette)
    have hcolor' := value_colorPair { fg } ns.palette
    cases charToAttribute.lookup ch with
    | none => exact ⟨hleads', h.attributes, hcolor'⟩
    | some attr => exact ⟨hleads', congrArg (· ++ [attr]) h.attributes, hcolor'⟩

theorem showsStyle_styleOf (place : Bytes) (p : Palette) :
    ShowsStyle p (styleOf place) (Numbered.styleOf place p) := by
  have hfold (style : ColorPair × List Attribute) (ns : Numbered.Style) (h : ShowsStyle p style ns) :
      ShowsStyle p
        (place.foldl (fun style ch =>
          (match charToColor.lookup ch with
            | some fg => { fg }
            | none => style.1,
            match charToAttribute.lookup ch with
            | some attr => style.2 ++ [attr]
            | none => style.2)) style)
        (place.foldl Numbered.Style.next ns) := by
    induction place generalizing style ns with
    | nil => exact h
    | cons ch place ih => exact ih _ _ (h.next ch)
  exact hfold _ _ ⟨.colorPair white_mem_formatPairs p, rfl, value_colorPair _ p⟩

/-- An argument, in the style of its place. -/
theorem shows_styled (place arg : Bytes) (p : Palette) :
    List.Forall₂ (Shows (Numbered.styleOf place p).palette) (styled place arg)
      (Numbered.styled (Numbered.styleOf place p) arg) := by
  obtain ⟨-, hattributes, hcolor⟩ := showsStyle_styleOf place p
  rw [styled, GlyphString.ofString, List.map_map, Numbered.styled, List.forall₂_map_left_iff,
    List.forall₂_map_right_iff, List.forall₂_same]
  exact fun ch _ => ⟨rfl, hattributes, hcolor⟩

theorem parseWith_refines {parseArg : Bytes → GlyphString → Option Formatted}
    {nparseArg : Bytes → List Numbered.Glyph → Palette → Option Numbered.Formatted}
    (harg : ∀ toParse parsed nparsed p, List.Forall₂ (Shows p) parsed nparsed →
      Option.Rel (ShowsAll p) (parseArg toParse parsed) (nparseArg toParse nparsed p))
    {toParse : Bytes} {parsed : GlyphString} {nparsed : List Numbered.Glyph}
    (hparsed : List.Forall₂ (Shows p) parsed nparsed) :
    Option.Rel (ShowsAll p) (parseWith parseArg toParse parsed)
      (Numbered.parseWith nparseArg toParse nparsed p) := by
  induction toParse generalizing parsed nparsed p with
  | nil => exact .some ⟨.refl p, hparsed, hparsed⟩
  | cons ch toParse ih =>
    rw [parseWith, Numbered.parseWith]
    by_cases hch : ch ≠ openBrace
    · rw [if_pos hch, if_pos hch]
      obtain ⟨hleads, hglyph⟩ := shows_glyph ch p
      have hkept := hparsed.imp fun _ _ h => h.of_leads hleads
      exact ShowsAll.of_leads hleads (ih (List.rel_append hkept (.cons hglyph .nil)))
    · rw [if_neg hch, if_neg hch]
      exact harg _ _ _ _ hparsed

/-- **The formatter with numbers prints what the one with colours does.** -/
theorem parse_refines (args : List Bytes) (toParse : Bytes) {parsed : GlyphString}
    {nparsed : List Numbered.Glyph} (hparsed : List.Forall₂ (Shows p) parsed nparsed) :
    Option.Rel (ShowsAll p) (parse args toParse parsed) (Numbered.parse args toParse nparsed p) := by
  refine parseWith_refines ?_ hparsed
  induction args with
  | nil => exact fun _ parsed nparsed p hparsed => .some ⟨.refl p, .nil, hparsed⟩
  | cons arg args ih =>
    intro toParse parsed nparsed p hparsed
    rw [parseArg, Numbered.parseArg]
    cases toParse.findIdx? (· == closeBrace) with
    | none => exact .none
    | some position =>
      have hleads := (showsStyle_styleOf (toParse.take position) p).leads
      have hkept := hparsed.imp fun _ _ h => h.of_leads hleads
      exact ShowsAll.of_leads hleads
        (parseWith_refines ih (List.rel_append hkept (shows_styled _ arg p)))

/-! ### Over a whole run -/

/-- The table after the constructor of `terminal`. -/
def terminal (hasColors : Bool) (p : Palette) : Option Palette :=
  if !hasColors then
    (Numbered.parse [] (ascii "Your terminal does not support color") [] p).map
      Numbered.Formatted.palette
  else some (initColorPairs p)

/-- The table after a call of the formatter. -/
def formatCall (p : Palette) (call : List Bytes × Bytes) : Option Palette :=
  (Numbered.parse call.1 call.2 [] p).map Numbered.Formatted.palette

theorem leads_formatCall {call : List Bytes × Bytes} (h : formatCall p call = some p') :
    p.Leads p' := by
  obtain ⟨nf, hnf, rfl⟩ := Option.map_eq_some_iff.1 h
  have hrel := parse_refines (p := p) call.1 call.2 .nil
  rw [hnf] at hrel
  generalize parse call.1 call.2 [] = f at hrel
  cases hrel with
  | some hshows => exact hshows.leads

/-- A terminal with colours comes up with all of them. -/
theorem initColorPairs_eq : (initColorPairs {}).initializedPairs = formatPairs := by decide

/-- The terminal asks for pairs of the formatter. -/
theorem leads_terminal {hasColors : Bool} (h : terminal hasColors p = some p') : p.Leads p' := by
  unfold terminal at h
  split at h
  · have hcall : formatCall p ([], ascii "Your terminal does not support color") = some p' := h
    exact leads_formatCall hcall
  · obtain rfl := Option.some.inj h
    exact ⟨_, show _ ⊆ formatPairs by decide, rfl⟩

theorem leads_of_run {p₀ : Palette} {calls : List (List Bytes × Bytes)}
    (hrun : runFrom formatCall p₀ calls = some p) : p₀.Leads p :=
  invariant (fun p' => p₀.Leads p') (fun _ _ _ h hstep => h.trans (leads_formatCall hstep))
    (.refl p₀) hrun

section

variable {hasColors : Bool} {calls : List (List Bytes × Bytes)} {p₀ : Palette}
  (hterminal : terminal hasColors {} = some p₀) (hrun : runFrom formatCall p₀ calls = some p)

include hterminal hrun

theorem inv_of_run : p.Inv :=
  ((leads_terminal hterminal).trans (leads_of_run hrun)).inv Palette.inv_empty

/-- **The pairs that are set up.**  After any calls of the formatter there are seven pairs at
most, set up in order and each once; and where the terminal has colours, they are the ones it
came up with. -/
theorem palette_of_run : p.Inv ∧ p.initializedPairs.length ≤ 7 ∧
    (hasColors = true → p = p₀ ∧ p.initPairs = (formatPairs.zipIdx 1).map Prod.swap) := by
  have hinv := inv_of_run hterminal hrun
  have hsubset := ((leads_terminal hterminal).trans (leads_of_run hrun)).subset (List.nil_subset _)
  refine ⟨hinv, (hinv.nodup.subperm hsubset).length_le, ?_⟩
  rintro rfl
  have hinv₀ := (leads_terminal hterminal).inv Palette.inv_empty
  obtain rfl := Option.some.inj hterminal
  -- every pair that is asked for is there
  obtain rfl := (leads_of_run hrun).eq_of_subset hinv₀ (initColorPairs_eq ▸ List.Subset.refl _)
  refine ⟨rfl, ?_⟩
  rw [hinv₀.initPairs, initColorPairs_eq]

/-- **Every glyph is printed in its own colours**: the next call of the formatter prints what
the one with colours does, and the terminal was told of each number it uses as the pair of
colours the glyph has. -/
theorem shows_of_run (args : List Bytes) (str : Bytes) :
    Option.Rel (fun f nf => List.Forall₂ (fun (g : Glyph) (ng : Numbered.Glyph) =>
        ng.char = g.char ∧ ng.attributes = g.attributes ∧
          nf.palette.initPairs.lookup ng.pairNumber = some g.color) f.parsed nf.parsed)
      (parse args str []) (Numbered.parse args str [] p) := by
  have hinv := inv_of_run hterminal hrun
  have hrel := parse_refines (p := p) args str .nil
  generalize parse args str [] = f at hrel
  generalize Numbered.parse args str [] p = nf at hrel
  cases hrel with
  | none => exact .none
  | some hshows =>
    have hlater := hshows.leads.inv hinv
    exact .some (hshows.parsed.imp fun _ _ h => ⟨h.char, h.attributes, hlater.lookup h.color⟩)

end

/-- A number in bold red, and its unit. -/
def boldRed : List Bytes × Bytes := ([ascii "7"], ascii "\x7bBr\x7d B/s")

theorem exists_run_boldRed : ∃ p₀ ∈ terminal true {}, ∃ p, runFrom formatCall p₀ [boldRed] = some p := by
  have hruns : ((terminal true {}).bind fun p₀ => runFrom formatCall p₀ [boldRed]).isSome = true := by
    decide +kernel
  obtain ⟨p, hp⟩ := Option.isSome_iff_exists.1 hruns
  obtain ⟨p₀, hp₀, hrun⟩ := Option.bind_eq_some_iff.1 hp
  exact ⟨p₀, hp₀, p, hrun⟩

theorem palette_of_run_boldRed : ∃ p, ∃ p₀ ∈ terminal true {},
    runFrom formatCall p₀ [boldRed] = some p ∧ p = p₀ ∧ p.initializedPairs.length ≤ 7 := by
  obtain ⟨p₀, hterminal, p, hrun⟩ := exists_run_boldRed
  obtain ⟨-, hlength, hcolors⟩ := palette_of_run hterminal hrun
  exact ⟨p, p₀, hterminal, hrun, (hcolors rfl).1, hlength⟩

theorem shows_of_run_boldRed : ∃ p nf, Numbered.parse boldRed.1 boldRed.2 [] p = some nf ∧
    ∃ ng ∈ nf.parsed, ng.attributes = [.bold] ∧
      nf.palette.initPairs.lookup ng.pairNumber = some { fg := .red } := by
  obtain ⟨p₀, hterminal, p, hrun⟩ := exists_run_boldRed
  have hrel := shows_of_run hterminal hrun boldRed.1 boldRed.2
  have hparse : (parse boldRed.1 boldRed.2 []).bind (fun f => f.parsed.head?)
      = some { char := '7'.toUInt8, color := { fg := .red }, attributes := [.bold] } := by
    decide +kernel
  obtain ⟨f, hf, hhead⟩ := Option.bind_eq_some_iff.1 hparse
  rw [hf] at hrel
  generalize hnf : Numbered.parse boldRed.1 boldRed.2 [] p = nf at hrel
  cases hrel with
  | @some _ nf hshows =>
    obtain ⟨rest, hrest⟩ := List.head?_eq_some_iff.1 hhead
    rw [hrest] at hshows
    obtain ⟨ng, _, ⟨-, hattributes, hcolor⟩, -, hparsed⟩ := List.forall₂_cons_left_iff.1 hshows
    exact ⟨p, nf, hnf, ng, hparsed ▸ List.mem_cons_self, hattributes, hcolor⟩

end Cxxcurses
end IotopCpp
