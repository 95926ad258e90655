import Mathlib.Data.List.TakeWhile
import IotopCpp.Lib.Bytes

/-!
# Formatted text for the window

The formatter of `cxxcurses/print.hpp` and `cxxcurses/print/`.  It takes a format
string and arguments, and makes glyphs: characters with a colour and attributes.
A `{` of the format string starts a place for an argument, which goes up to the
next `}` and may choose the argument's colour and attributes in between.

The functions are templates over the list of arguments, and recur over it.

* `Glyph`, `GlyphString` — characters, and lines of them.
* `parse`, `parseArg` — the formatter.
* `parse_source` — on a format string of literal text and places, each place is
  filled with the next argument, up to the first place that has none.
* `parse_nil` — without arguments, the text stops at its first `{`.
* `parse_argument` — an argument in a place is printed as it is.
-/

namespace IotopCpp
namespace Cxxcurses

/-! ### Glyphs -/

/-- `enum class color`. -/
inductive Color where
  | none
  | red
  | green
  | yellow
  | blue
  | magenta
  | cyan
  | white
  | black
  deriving DecidableEq

/-- `enum class attribute`. -/
inductive Attribute where
  | normal
  | standout
  | underline
  | reverse
  | blink
  | dim
  | bold
  | protect
  | invisible
  deriving DecidableEq

/-- `char_to_color`. -/
def charToColor : List (UInt8 × Color) :=
  [('r'.toUInt8, .red), ('g'.toUInt8, .green), ('y'.toUInt8, .yellow), ('b'.toUInt8, .blue),
    ('m'.toUInt8, .magenta), ('c'.toUInt8, .cyan), ('w'.toUInt8, .white)]

/-- `char_to_attribute`. -/
def charToAttribute : List (UInt8 × Attribute) :=
  [('N'.toUInt8, .normal), ('S'.toUInt8, .standout), ('U'.toUInt8, .underline),
    ('R'.toUInt8, .reverse), ('X'.toUInt8, .blink), ('D'.toUInt8, .dim), ('B'.toUInt8, .bold),
    ('P'.toUInt8, .protect), ('I'.toUInt8, .invisible)]

/-- `struct color_pair`, as the two colours that its number stands for. -/
structure ColorPair where
  fg : Color := .white
  bg : Color := .none
  deriving DecidableEq

/-- `class glyph`. -/
structure Glyph where
  char : UInt8
  color : ColorPair := {}
  attributes : List Attribute := []
  deriving DecidableEq

/-- `class glyph_string`. -/
abbrev GlyphString := List Glyph

/-- The characters of a line. -/
def GlyphString.chars (glyphs : GlyphString) : Bytes := glyphs.map Glyph.char

/-- The constructor of `glyph_string` from a string and a colour. -/
def GlyphString.ofString (string : Bytes) (color : ColorPair := {}) : GlyphString :=
  string.map fun c => { char := c, color }

@[simp] theorem GlyphString.chars_ofString (string : Bytes) (color : ColorPair) :
    (GlyphString.ofString string color).chars = string := by
  simp [GlyphString.chars, GlyphString.ofString, Function.comp_def]

/-! ### The formatter -/

def openBrace : UInt8 := '{'.toUInt8

def closeBrace : UInt8 := '}'.toUInt8

/-- What a formatting function returns, and what it leaves in `parsed`. -/
structure Formatted where
  returned : GlyphString
  parsed : GlyphString
  deriving DecidableEq

/-- The loop of `parse_arg` over the characters of a place. -/
def styleOf (place : Bytes) : ColorPair × List Attribute :=
  place.foldl
    (fun style ch =>
      (match charToColor.lookup ch with
        | some fg => { fg }
        | none => style.1,
        match charToAttribute.lookup ch with
        | some attr => style.2 ++ [attr]
        | none => style.2))
    ({}, [])

/-- An argument's text in the style of its place. -/
def styled (place arg : Bytes) : GlyphString :=
  (GlyphString.ofString arg (styleOf place).1).map fun g =>
    { g with attributes := (styleOf place).2 }

/-- The body of `parse`, over the `parse_arg` for the same arguments. -/
def parseWith (parseArg : Bytes → GlyphString → Option Formatted) :
    Bytes → GlyphString → Option Formatted
  | [], parsed => some { returned := parsed, parsed }
  | ch :: toParse, parsed =>
    if ch ≠ openBrace then parseWith parseArg toParse (parsed ++ [{ char := ch }])
    else parseArg (ch :: toParse) parsed

/-- `parse_arg`, over the texts of the arguments.  It looks for the end of the
place without a bound, so a place that does not end has no meaning. -/
def parseArg : List Bytes → Bytes → GlyphString → Option Formatted
  | [], _, parsed => some { returned := [], parsed }
  | arg :: args, toParse, parsed =>
    match toParse.findIdx? (· == closeBrace) with
    | none => none
    | some position =>
      parseWith (parseArg args) (toParse.drop (min (position + 1) toParse.length))
        (parsed ++ styled (toParse.take position) arg)

/-- `parse`: characters are added up to the first `{`, and `parse_arg` goes on from there. -/
def parse (args : List Bytes) (toParse : Bytes) (parsed : GlyphString) : Option Formatted :=
  parseWith (parseArg args) toParse parsed

/-- Text before the first place is printed as it is. -/
theorem parse_append {text : Bytes} (h : openBrace ∉ text) (args : List Bytes) (rest : Bytes)
    (parsed : GlyphString) :
    parse args (text ++ rest) parsed = parse args rest (parsed ++ .ofString text) := by
  unfold parse
  induction text generalizing parsed with
  | nil => simp [GlyphString.ofString]
  | cons ch text ih =>
    have hne : ch ≠ openBrace := ne_of_mem_of_not_mem List.mem_cons_self h
    rw [List.cons_append, parseWith, if_pos hne, ih fun hmem => h (List.mem_cons_of_mem _ hmem)]
    simp [GlyphString.ofString]

/-- A place takes the next argument. -/
theorem parse_place {place : Bytes} (h : closeBrace ∉ place) (arg : Bytes) (args : List Bytes)
    (rest : Bytes) (parsed : GlyphString) :
    parse (arg :: args) (openBrace :: (place ++ closeBrace :: rest)) parsed
      = parse args rest (parsed ++ styled (openBrace :: place) arg) := by
  have hopen : openBrace ≠ closeBrace := by decide
  have hfound : (openBrace :: (place ++ closeBrace :: rest)).findIdx? (· == closeBrace)
      = some (place.length + 1) := by
    rw [List.findIdx?_cons, List.findIdx?_append, List.findIdx?_eq_none_iff.2 ?_]
    · simp [hopen, List.findIdx?_cons]
    · intro c hc
      simpa using ne_of_mem_of_not_mem hc h
  -- what is cut off is the place with both its braces
  have hmin : min (place.length + 1 + 1)
      (openBrace :: (place ++ closeBrace :: rest)).length = place.length + 2 := by
    simp only [List.length_cons, List.length_append]
    omega
  have hrest : (openBrace :: (place ++ closeBrace :: rest)).drop (place.length + 2) = rest := by
    rw [List.drop_succ_cons, ← List.drop_drop, List.drop_left]
    rfl
  unfold parse
  simp only [parseWith, ne_eq, not_true_eq_false, if_false, parseArg, hfound, hmin, hrest]
  simp

/-- A place without an argument ends the text. -/
theorem parse_nil_place (rest : Bytes) (parsed : GlyphString) :
    parse [] (openBrace :: rest) parsed = some { returned := [], parsed } := by
  simp [parse, parseWith, parseArg]

/-! ### What the formatter is for -/

/-- A piece of a format string: literal text, or a place for an argument. -/
inductive Piece where
  | text (s : Bytes) (literal : openBrace ∉ s)
  | place (s : Bytes) (closed : closeBrace ∉ s)

/-- A piece, as it is written. -/
def Piece.source : Piece → Bytes
  | .text s _ => s
  | .place s _ => openBrace :: (s ++ [closeBrace])

/-- The line a format string stands for: its text, with an argument in each
place.  It ends at the first place there is no argument for. -/
def render : List Piece → List Bytes → GlyphString
  | [], _ => []
  | .text s _ :: pieces, args => .ofString s ++ render pieces args
  | .place s _ :: pieces, arg :: args => styled (openBrace :: s) arg ++ render pieces args
  | .place _ _ :: _, [] => []

theorem parse_source (pieces : List Piece) (args : List Bytes) (parsed : GlyphString) :
    ∃ returned, parse args (pieces.flatMap Piece.source) parsed
      = some { returned, parsed := parsed ++ render pieces args } := by
  induction pieces generalizing args parsed with
  | nil => exact ⟨parsed, by simp [parse, parseWith, render]⟩
  | cons piece pieces ih =>
    rw [List.flatMap_cons]
    cases piece with
    | text s literal =>
      obtain ⟨returned, hrest⟩ := ih args (parsed ++ .ofString s)
      refine ⟨returned, ?_⟩
      rw [Piece.source, parse_append literal, hrest, render, List.append_assoc]
    | place s closed =>
      rw [Piece.source, List.cons_append, List.append_assoc, List.singleton_append]
      -- without an argument the call ends at the place
      cases args with
      | nil => exact ⟨[], by rw [parse_nil_place, render, List.append_nil]⟩
      | cons arg args =>
        obtain ⟨returned, hrest⟩ := ih args (parsed ++ styled (openBrace :: s) arg)
        refine ⟨returned, ?_⟩
        rw [parse_place closed, hrest, render, List.append_assoc]

/-- Without arguments, the text is printed up to its first `{`. -/
theorem parse_nil (text : Bytes) (parsed : GlyphString) :
    ∃ returned, parse [] text parsed
      = some { returned, parsed := parsed ++ .ofString (text.takeWhile (· ≠ openBrace)) } := by
  have hplain : openBrace ∉ text.takeWhile (· ≠ openBrace) := by
    intro h
    have hne := List.mem_takeWhile_imp h
    simp at hne
  have hsplit := List.takeWhile_append_dropWhile (p := fun c => decide (c ≠ openBrace)) (l := text)
  rw [← hsplit, parse_append hplain, hsplit]
  cases hrest : text.dropWhile (· ≠ openBrace) with
  | nil => exact ⟨_, rfl⟩
  | cons ch rest =>
    have hopen : ch = openBrace := by
      have hhead := List.head?_dropWhile_not (fun c => decide (c ≠ openBrace)) text
      rw [hrest] at hhead
      simpa using hhead
    rw [hopen, parse_nil_place]
    exact ⟨_, rfl⟩

/-- An argument is printed as it is, whatever its characters. -/
theorem parse_argument (text : Bytes) :
    (parse [text] [openBrace, closeBrace] []).map (fun f => f.parsed.chars) = some text := by
  have hplace := parse_place (List.not_mem_nil (a := closeBrace)) text [] [] []
  rw [List.nil_append] at hplace
  rw [hplace]
  simp [parse, parseWith, styled, GlyphString.chars, GlyphString.ofString, Function.comp_def]

end Cxxcurses
end IotopCpp
