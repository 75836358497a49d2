import Stencil.Checked.DigitArray
import Stencil.Number.Style

/-!
# Styles of digits in an array

The choice of a style and its rounding, as for numerals, on arrays of digits. Precisions become
numbers of digits and places here, by sums and differences that are checked.

* `Layout` — a figure with its digits in an array.
* `whole`, `fixedPlaces`, `scientific`, `hexadecimal`, `general` — the styles.
* `Layout.ofQuantity` — the layout that a presentation asks for.
-/

namespace Stencil

open Checked

/-- A figure with its digits in an array. -/
inductive Layout where
  | finite (array : DigitArray) (style : Style)
  | infinite (negative : Bool)
  | notANumber
  deriving DecidableEq, Repr

/-- The layout of a figure. -/
def Figure.layout : Figure → Layout
  | finite n style => .finite n.array style
  | infinite negative => .infinite negative
  | notANumber => .notANumber

/-! ## Digits of a quantity -/

namespace DigitArray

/-- The digits in a base. Those of a whole number are exact; those of a double are its shortest
decimal, all its binary digits, or in any other base what is left without its fraction. -/
def ofQuantity (q : Quantity) (base : Nat) : Checked Obstacle DigitArray :=
  match q with
  | .integer v => ofInt base v
  | .float x =>
    if base = 10 then ofFloat x
    else if base = 2 then ofFloatBinary x
    else
      match x.truncated? with
      | some v => ofInt base v
      | none => ofResult (.error (.broken "float outside integer range"))

/-- Decimal digits: all those of a whole number, the shortest that read back of a double. -/
def decimal (q : Quantity) : Checked Obstacle DigitArray :=
  ofQuantity q 10

/-- The exact binary digits. -/
def binary (q : Quantity) : Checked Obstacle DigitArray :=
  ofQuantity q 2

end DigitArray

/-! ## Settings of the general codes -/

namespace Checked

variable {ε : Type}

/-- The settings of `g`. -/
def coded (precision : Option Nat) (alternate : Bool) : Checked ε General := do
  let settings := General.coded precision alternate
  let switch ← signed settings.precision
  return { settings with switch }

/-- The settings of a double without a code. -/
def uncoded (precision : Option Nat) (alternate : Bool) : Checked ε General := do
  let settings := General.uncoded precision alternate
  let digits ← signed settings.precision
  let switch ← signed (digits - 1)
  return { settings with switch }

/-- Places after the point that leave as many digits as the precision, if the first digit has this
exponent. -/
def placesFor (g : General) (exponent : Int) : Checked ε Nat := do
  let digits ← signed g.precision
  let places ← signed (digits - 1)
  let places ← signed (places - exponent)
  return places.toNat

end Checked

namespace Layout

/-! ## Whole numbers, fixed places and powers -/

/-- All digits of a whole number in a radix. -/
def whole (q : Quantity) (radix : Nat) : Checked Obstacle Layout := do
  let v ← ofResult q.toInt
  let a ← DigitArray.ofInt radix v
  let a ← a.toInteger
  return finite a .integer

/-- Exactly `places` digits after the point. -/
def fixedPlaces (a : DigitArray) (places : Nat) : Checked Obstacle Layout := do
  let a ← a.toFixed
  let a ← a.roundPlaces places
  let a ← a.trimWhole
  return finite a .fixed

/-- One digit before the point and exactly `places` after it. -/
def scientific (a : DigitArray) (places : Nat) : Checked Obstacle Layout := do
  let count ← sum places 1
  let a ← a.roundSignificant count
  return finite a .scientific

/-- Hexadecimal digits, all of them or exactly `places` after the point. -/
def hexadecimal (a : DigitArray) (places : Option Nat) : Checked Obstacle Layout := do
  let a ← a.toHex
  match places with
  | some places =>
    let a ← a.roundPlaces places
    return finite a .hexadecimal
  | none => return finite a .hexadecimal

/-! ## General notation -/

/-- The digits by whose exponent the style is chosen. -/
def attempt (a : DigitArray) (g : General) : Checked Obstacle DigitArray :=
  if g.round then a.roundSignificant g.precision else .ok a

/-- The digits rounded to the precision, where the first digit of the rounded number has this
exponent. -/
def roundFor (a : DigitArray) (g : General) (exponent : Int) : Checked Obstacle DigitArray :=
  if g.round then do
    let places ← placesFor g exponent
    a.roundPlaces places
  else .ok a

/-- The digits without the zeros that the settings leave out. -/
def stripFor (a : DigitArray) (g : General) (least : Nat) : Checked Obstacle DigitArray :=
  if g.strip then a.stripFraction least else .ok a

/-- The general notation with fixed places. -/
def generalFixed (a : DigitArray) (g : General) (exponent : Int) : Checked Obstacle Layout := do
  let a ← a.toFixed
  let a ← roundFor a g exponent
  let a ← stripFor a g g.leastFraction
  let a ← a.padFraction g.leastFraction
  return finite a .fixed

/-- The general notation with a power of ten. -/
def generalScientific (a : DigitArray) (g : General) : Checked Obstacle Layout := do
  let a ← stripFor a g 0
  return finite a .scientific

/-- Fixed places if the exponent of the rounded number is moderate, else scientific. -/
def general (a : DigitArray) (g : General) : Checked Obstacle Layout := do
  let attempt ← attempt a g
  if -4 ≤ attempt.exponent ∧ attempt.exponent < g.switch then
    generalFixed a g attempt.exponent
  else generalScientific attempt g

/-! ## The layout of a type code -/

/-- A finite number whose zero has lost its sign. -/
def dropZeroSign : Layout → Layout
  | finite a style => finite a.dropZeroSign style
  | other => other

/-- The layout of a number with digits, under a code that is not one of the integer codes. -/
def ofFinite (q : Quantity) (element : Element Nat) : Checked Obstacle Layout := do
  let places := element.precision.getD defaultPlaces
  match element.type with
  | .byKind =>
    match q with
    | .integer _ => whole q 10
    | .float _ =>
      let a ← DigitArray.decimal q
      let g ← uncoded element.precision element.alternate
      general a g
  | .fixed _ =>
    let a ← DigitArray.decimal q
    fixedPlaces a places
  | .percent =>
    let a ← DigitArray.decimal q
    let exponent ← signed (a.exponent + 2)
    fixedPlaces { a with exponent } places
  | .exponent _ =>
    let a ← DigitArray.decimal q
    scientific a places
  | .general _ =>
    let a ← DigitArray.decimal q
    let g ← coded element.precision element.alternate
    general a g
  | .hexFloat _ =>
    let a ← DigitArray.binary q
    hexadecimal a element.precision
  | _ => ofResult (.error (.broken "non-numeric type code in number conversion"))

/-- The layout a presentation asks for. -/
def ofQuantity (q : Quantity) (element : Element Nat) : Checked Obstacle Layout :=
  match element.type.radix? with
  | some radix => whole q radix
  | none =>
    match q.nonFinite? with
    | some figure => .ok figure.layout
    | none => do
      let layout ← ofFinite q element
      return if element.positiveZero then layout.dropZeroSign else layout

end Layout

end Stencil
