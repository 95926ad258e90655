import IotopCpp.Lib.Runs
import IotopCpp.View.ViewCurses

/-!
# Placing a line

`printer`, `format` and `operator<<` of `cxxcurses/print.hpp`.  A printer collects text over
any number of calls, and is then put on a window: at the coordinates it was made with, at the
line the cursor is on if it has no line, and centred if it has no column.

The type of the column is `unsigned long`, because one side of the conditional is: a centred
column is computed from a difference that wraps, and narrowed to an `int` afterwards.

## Main definitions

* `Printer.call`, `formatCentred`, `format` — printers.
* `Printer.put` — `operator<<`.

## Main results

* `centred_run` — **where a centred line goes**: the middle if it fits the window, and to the
  left of it otherwise.
-/

namespace IotopCpp
namespace Cxxcurses

open ViewCurses Runs

/-- `struct printer`. -/
structure Printer where
  coords : Option ℤ × Option ℤ := (none, none)
  formatStr : GlyphString := []
  deriving DecidableEq

/-- `printer::operator()`: a format string, and its arguments. -/
def Printer.call (printer : Printer) (call : Bytes × List Bytes) : Option Printer :=
  (parse call.2 call.1 printer.formatStr).map fun f => { printer with formatStr := f.parsed }

/-- `format(y)`. -/
def formatCentred (y : ℤ) : Printer := { coords := (some y, none) }

/-- `format(str, args...)`. -/
def format (str : Bytes) (args : List Bytes) : Option Printer := Printer.call {} (str, args)

/-- What a window says of itself. -/
structure WindowYx where
  currentYx : ℤ × ℤ
  maxYx : ℤ × ℤ

/-- `operator<<`. -/
def Printer.put (w : WindowYx) (formatted : Printer) : Printed :=
  let x : UInt64 := match formatted.coords.2 with
    | some x => .ofInt x
    | none => (.ofInt w.maxYx.2 - .ofNat formatted.formatStr.length) / 2
  let y : ℤ := formatted.coords.1.getD w.currentYx.1
  { y, x := toInt x, glyphs := some formatted.formatStr }

/-! ### Centred lines -/

/-- Text is collected over the calls. -/
theorem call_run (printer : Printer) (calls : List (List Piece × List Bytes)) :
    runFrom Printer.call printer (calls.map fun call => (call.1.flatMap Piece.source, call.2))
      = some { printer with
        formatStr := printer.formatStr ++ calls.flatMap fun call => render call.1 call.2 } := by
  induction calls generalizing printer with
  | nil => simp [runFrom]
  | cons call calls ih =>
    obtain ⟨returned, hparse⟩ := parse_source call.1 call.2 printer.formatStr
    rw [List.map_cons, runFrom_cons]
    refine ⟨_, Option.map_eq_some_iff.2 ⟨_, hparse, rfl⟩, ?_⟩
    rw [ih, List.flatMap_cons, List.append_assoc]

/-- The column of a centred line, as it wraps and is narrowed. -/
theorem centred_column {width len : ℕ} (hwidth : width < 2 ^ 31) (hlen : len < 2 ^ 31) :
    toInt ((.ofInt width - .ofNat len) / 2)
      = if len ≤ width then ((width : ℤ) - len) / 2 else -(((len : ℤ) - width + 1) / 2) := by
  have hwidth' : (UInt64.ofInt width).toNat = width := by
    unfold UInt64.ofInt
    simp only [UInt64.toNat_ofNat']
    omega
  have hlen' : (UInt64.ofNat len).toNat = len := by
    rw [UInt64.toNat_ofNat']
    omega
  have hcolumn : ((.ofInt width - .ofNat len) / 2 : UInt64).toNat
      = (2 ^ 64 - len + width) % 2 ^ 64 / 2 := by
    rw [UInt64.toNat_div, UInt64.toNat_sub, hwidth', hlen']
    rfl
  unfold toInt toPidT
  rw [hcolumn, Int.bmod_def]
  split_ifs <;> omega

/-- **Where a centred line goes.**  Whatever calls the text comes from, a line that is no
wider than the window is put in the middle of it, the odd blank on the right; one that is
wider is put before the first column, by half of what is too much. -/
theorem centred_run (y : Option ℤ) (calls : List (List Piece × List Bytes)) (w : WindowYx)
    (width : ℕ) (hwidth : w.maxYx.2 = width) (hint : width < 2 ^ 31)
    (hlen : (calls.flatMap fun call => render call.1 call.2).length < 2 ^ 31) :
    let text := calls.flatMap fun call => render call.1 call.2
    ∃ p, runFrom Printer.call { coords := (y, none) }
        (calls.map fun call => (call.1.flatMap Piece.source, call.2)) = some p ∧
      p.put w = {
        y := y.getD w.currentYx.1
        x := if text.length ≤ width then ((width : ℤ) - text.length) / 2
          else -(((text.length : ℤ) - width + 1) / 2)
        glyphs := some text } := by
  refine ⟨_, call_run _ calls, ?_⟩
  simp only [Printer.put, List.nil_append, hwidth, centred_column hint hlen]

/-- The message of a terminal without colours, on a window of 80 columns and on one of 20. -/
def noColor : List (List Piece × List Bytes) :=
  [([.text (ascii "Your terminal does not support color") (by decide)], [])]

theorem centred_run_noColor : ∃ p p' : Printer, (p.put ⟨(3, 0), (24, 80)⟩).x = 22 ∧
    (p'.put ⟨(3, 0), (24, 20)⟩).x = -8 := by
  obtain ⟨p, -, hp⟩ := centred_run none noColor ⟨(3, 0), (24, 80)⟩ 80 rfl (by decide) (by decide)
  obtain ⟨p', -, hp'⟩ := centred_run none noColor ⟨(3, 0), (24, 20)⟩ 20 rfl (by decide) (by decide)
  exact ⟨p, p', (congrArg Printed.x hp).trans (by decide), (congrArg Printed.x hp').trans (by decide)⟩

end Cxxcurses
end IotopCpp
