import Stencil.Field.Basic
import Stencil.Number.Numeral

/-!
# Styles of writing a number

A type code asks for a style: whole digits, a fixed number of places, a power of ten, or a power of
two behind hexadecimal digits. The general codes choose between fixed and scientific by the size of
the number once it is rounded.

* `Quantity` — a number that is to be written.
* `Quantity.digits`, `Quantity.toInt` — its digits in a base, and the whole number that it is.
* `Figure` — its digits in a style, or one of the numbers that have no digits.
* `General` — the settings by which the general codes choose and round.
* `Quantity.figure` — the figure a type code asks for.
-/

namespace Stencil

/-- A number that is to be written. -/
inductive Quantity where
  | integer (v : Int)
  | float (x : Binary64)
  deriving DecidableEq, Repr

/-- How the digits of a number are laid out. -/
inductive Style where
  | integer
  | fixed
  /-- One digit before the point, and a power of ten behind `e`. -/
  | scientific
  /-- Hexadecimal digits, and a power of two behind `p`. -/
  | hexadecimal
  deriving DecidableEq, Repr

/-- A number ready to be written. -/
inductive Figure where
  | finite (numeral : Numeral) (style : Style)
  | infinite (negative : Bool)
  | notANumber
  deriving DecidableEq, Repr

/-! ## Digits of a quantity -/

namespace Quantity

/-- The digits in a base. Those of a whole number are exact; those of a double are its shortest
decimal, all its binary digits, or in any other base what is left without its fraction. -/
def digits (q : Quantity) (base : Nat) : Except Obstacle Numeral :=
  match q with
  | integer v => .ok (Numeral.ofInt base v)
  | float x =>
    if base = 10 then Numeral.ofFloat x
    else if base = 2 then Numeral.ofFloatBinary x
    else
      match x.truncated? with
      | some v => .ok (Numeral.ofInt base v)
      | none => .error (.broken "float outside integer range")

/-- Decimal digits: all those of a whole number, the shortest that read back of a double. -/
def decimal (q : Quantity) : Except Obstacle Numeral :=
  q.digits 10

/-- The exact binary digits. -/
def binary (q : Quantity) : Except Obstacle Numeral :=
  q.digits 2

/-- The whole number a quantity is, exact also for doubles of any size. -/
def toInt : Quantity → Except Obstacle Int
  | integer v => .ok v
  | float x =>
    if x.isFinite && x.isWhole then
      match x.truncated? with
      | some v => .ok v
      | none => .error (.broken "float outside integer range")
    else .error .fractional

end Quantity

/-! ## Whole numbers, fixed places and powers -/

namespace Figure

/-- All digits of a whole number in a radix. -/
def whole (q : Quantity) (radix : Nat) : Except Obstacle Figure := do
  let v ← q.toInt
  let n ← (Numeral.ofInt radix v).toInteger
  return finite n .integer

/-- Exactly `places` digits after the point. -/
def fixedPlaces (n : Numeral) (places : Nat) : Except Obstacle Figure := do
  let n ← n.toFixed
  return finite (n.roundPlaces places).trimWhole .fixed

/-- One digit before the point and exactly `places` after it. -/
def scientific (n : Numeral) (places : Nat) : Except Obstacle Figure := do
  let n ← n.roundSignificant (places + 1)
  return finite n .scientific

/-- Hexadecimal digits, all of them or exactly `places` after the point. -/
def hexadecimal (n : Numeral) (places : Option Nat) : Except Obstacle Figure := do
  let n ← n.toHex
  match places with
  | some places => return finite (n.roundPlaces places) .hexadecimal
  | none => return finite n .hexadecimal

end Figure

/-! ## General notation -/

/-- How the general codes round a number and choose its style. -/
structure General where
  /-- Significant digits, at least one. -/
  precision : Nat
  /-- Exponents from -4 up to this one, exclusive, are written with fixed places. -/
  switch : Int
  /-- Whether the digits are rounded to the precision. -/
  round : Bool
  /-- Whether zeros at the end of the fraction go. -/
  strip : Bool
  /-- Digits after the point that fixed places keep even if they are zero. -/
  leastFraction : Nat
  deriving DecidableEq, Repr

namespace General

/-- `g`: six digits unless the field says otherwise. -/
def coded (precision : Option Nat) (alternate : Bool) : General :=
  let p := max (precision.getD 6) 1
  { precision := p, switch := p, round := true, strip := !alternate, leastFraction := 0 }

/-- Significant digits of the shortest decimals that are still written with fixed places. -/
def shortestThreshold : Nat := 17

/-- No code on a double: as `g`, but scientific one digit earlier and never without a fraction;
with no precision either, all digits of the shortest decimal. -/
def uncoded (precision : Option Nat) (alternate : Bool) : General :=
  match precision with
  | some p =>
    let p := max p 1
    { precision := p, switch := p - 1, round := true, strip := !alternate, leastFraction := 1 }
  | none =>
    { precision := shortestThreshold, switch := shortestThreshold - 1, round := false,
      strip := true, leastFraction := 1 }

end General

namespace Figure

/-- Fixed places if the exponent of the rounded number is moderate, else scientific. -/
def general (n : Numeral) (g : General) : Except Obstacle Figure := do
  let attempt ← if g.round then n.roundSignificant g.precision else .ok n
  if -4 ≤ attempt.exponent ∧ attempt.exponent < g.switch then
    let fixed ← n.toFixed
    let places := (g.precision : Int) - 1 - attempt.exponent
    let fixed := if g.round then fixed.roundPlaces places.toNat else fixed
    let fixed := if g.strip then fixed.stripFraction g.leastFraction else fixed
    return finite (fixed.padFraction g.leastFraction) .fixed
  else
    return finite (if g.strip then attempt.stripFraction 0 else attempt) .scientific

/-- A finite number whose zero has lost its sign. -/
def dropZeroSign : Figure → Figure
  | finite n style => finite n.dropZeroSign style
  | other => other

end Figure

/-! ## The figure of a type code -/

/-- Places of the codes `e`, `f` and `%` when the field gives none. -/
def defaultPlaces : Nat := 6

namespace Quantity

/-- The infinity or not-a-number a quantity is, if it has no digits. -/
def nonFinite? : Quantity → Option Figure
  | integer _ => none
  | float x =>
    if x.isFinite then none
    else if x.isNaN then some .notANumber
    else some (.infinite x.negative)

/-- The figure of a number with digits, under a code that is not one of the integer codes. -/
def finiteFigure (q : Quantity) (element : Element Nat) : Except Obstacle Figure := do
  let places := element.precision.getD defaultPlaces
  match element.type with
  | .byKind =>
    match q with
    | integer _ => Figure.whole q 10
    | float _ =>
      Figure.general (← q.decimal) (General.uncoded element.precision element.alternate)
  | .fixed _ => Figure.fixedPlaces (← q.decimal) places
  | .percent =>
    let n ← q.decimal
    Figure.fixedPlaces { n with exponent := n.exponent + 2 } places
  | .exponent _ => Figure.scientific (← q.decimal) places
  | .general _ => Figure.general (← q.decimal) (General.coded element.precision element.alternate)
  | .hexFloat _ => Figure.hexadecimal (← q.binary) element.precision
  | _ => .error (.broken "non-numeric type code in number conversion")

/-- The figure a presentation asks for. -/
def figure (q : Quantity) (element : Element Nat) : Except Obstacle Figure :=
  match element.type.radix? with
  | some radix => Figure.whole q radix
  | none =>
    match q.nonFinite? with
    | some figure => .ok figure
    | none => do
      let figure ← q.finiteFigure element
      return if element.positiveZero then figure.dropZeroSign else figure

end Quantity

end Stencil
