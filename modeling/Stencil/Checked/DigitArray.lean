import Stencil.Checked.Machine
import Stencil.Number.Numeral

/-!
# Digits in an array

A numeral whose digits stand in one array with the position of its point. Every change of form that
numerals have is made here on the array, by positions, and every position, range, sum and difference
is checked.

* `DigitArray` — a number as an array; `Numeral.array` puts a numeral into one.
* `ofInt`, `ofFloat`, `ofFloatBinary` — numbers in scientific form.
* `toFixed`, `roundPlaces`, `roundSignificant`, `toInteger`, `toHex` — changes of form.
* `stripFraction`, `padFraction`, `trimWhole`, `dropZeroSign` — changes that keep the number.
-/

namespace Stencil

open Checked

/-- A number as an array of digits, `dot` of which stand before the point. -/
structure DigitArray where
  negative : Bool
  digits : List Nat
  dot : Nat
  exponent : Int
  base : Nat
  radix : Nat
  deriving DecidableEq, Repr

/-- A numeral with its digits in an array. -/
def Numeral.array (n : Numeral) : DigitArray where
  negative := n.negative
  digits := n.digits
  dot := n.whole.length
  exponent := n.exponent
  base := n.base
  radix := n.radix

namespace DigitArray

variable {ε : Type}

/-! ## Scientific form -/

/-- Zero in scientific form. -/
def zero (negative : Bool) (base : Nat) : DigitArray where
  negative := negative
  digits := [0]
  dot := 1
  exponent := 0
  base := base
  radix := base

/-- Whether every digit is zero. -/
def isZero (a : DigitArray) : Bool :=
  Digits.allZero a.digits

/-- The digits without zeros at the end, but for the first `least` digits. -/
def stripFrom (least : Nat) (digits : List Nat) : List Nat :=
  digits.take least ++ Digits.trimTrailing (digits.drop least)

/-- The same number with one non-zero digit before the point and no zeros at the end. -/
def normalize (a : DigitArray) : Checked ε DigitArray :=
  let leading := (a.digits.takeWhile (· == 0)).length
  if leading = a.digits.length then .ok (zero a.negative a.base)
  else do
    let kept ← span a.digits leading a.digits.length
    let dot ← signed a.dot
    let leading ← signed leading
    let moved ← signed (dot - leading)
    let moved ← signed (moved - 1)
    let exponent ← signed (a.exponent + moved)
    return { a with digits := stripFrom 1 kept, dot := 1, exponent }

/-- The digits of a whole number, in scientific form. -/
def ofDigits (negative : Bool) (digits : List Nat) (base : Nat) : Checked ε DigitArray :=
  normalize
    { negative, digits, dot := max digits.length 1, exponent := 0, base, radix := base }

/-- A whole number in scientific form. -/
def ofInt (base : Nat) (v : Int) : Checked ε DigitArray :=
  ofDigits (v < 0) (Digits.ofNat base v.natAbs) base

/-- The shortest decimal of a finite double, from its text. -/
def ofFloat (x : Binary64) : Checked Obstacle DigitArray :=
  if x.isFinite then do
    let (digits, exponent) ← ofResult (Numeral.readExponential x.exponential)
    normalize { negative := x.negative, digits, dot := 1, exponent, base := 10, radix := 10 }
  else ofResult (.error (.broken "non-finite value in decimal digitization"))

/-- The exact binary digits of a finite double. -/
def ofFloatBinary (x : Binary64) : Checked Obstacle DigitArray :=
  if x.isFinite then do
    let a ← ofDigits x.negative (Digits.ofNat 2 x.significand) 2
    if a.isZero then return a
    else
      let exponent ← signed (a.exponent + x.scale)
      return { a with exponent }
  else ofResult (.error (.broken "non-finite value in binary digitization"))

/-! ## Moving the point -/

/-- The same number with exponent zero: the point moves, over added zeros where digits end. -/
def toFixed (a : DigitArray) : Checked Obstacle DigitArray :=
  if a.radix ≠ a.base then
    ofResult (.error (.broken "fixed shift on mixed-radix digits"))
  else do
    let dot ← signed a.dot
    let point ← signed (dot + a.exponent)
    if point ≤ 0 then
      let padding ← signed (1 - point)
      let padding ← unsigned padding
      return { a with digits := List.replicate padding 0 ++ a.digits, dot := 1, exponent := 0 }
    else
      let point ← unsigned point
      return { a with digits := Digits.padTrailing point a.digits, dot := point, exponent := 0 }

/-- The digits before the point. -/
def whole (a : DigitArray) : Checked ε (List Nat) :=
  span a.digits 0 a.dot

/-- The digits after the point. -/
def fraction (a : DigitArray) : Checked ε (List Nat) :=
  span a.digits a.dot a.digits.length

/-! ## Rounding half up -/

/-- Exactly `places` digits after the point; a carry out of the first digit adds one before it. -/
def roundPlaces (a : DigitArray) (places : Nat) : Checked ε DigitArray := do
  let keep ← sum a.dot places
  if a.digits.length ≤ keep then return { a with digits := Digits.padTrailing keep a.digits }
  else
    let next ← item a.digits keep
    let kept := a.digits.take keep
    if next < Digits.half a.base then return { a with digits := kept }
    else
      match Digits.increment a.base kept with
      | (false, digits) => return { a with digits }
      | (true, digits) =>
        let dot ← sum a.dot 1
        return { a with digits := 1 :: digits, dot }

/-- Exactly `count` digits of a number in scientific form; a carry out of the first digit goes into
the exponent. -/
def roundSignificant (a : DigitArray) (count : Nat) : Checked Obstacle DigitArray :=
  if count = 0 then ofResult (.error (.broken "zero significant digits requested"))
  else if a.dot ≠ 1 then
    ofResult (.error (.broken "significant rounding outside scientific form"))
  else if a.digits.length ≤ count then
    .ok { a with digits := Digits.padTrailing count a.digits }
  else do
    let next ← item a.digits count
    let kept := a.digits.take count
    if next < Digits.half a.base then return { a with digits := kept }
    else
      match Digits.increment a.base kept with
      | (false, digits) => return { a with digits }
      | (true, digits) =>
        let exponent ← signed (a.exponent + 1)
        return { a with digits := (1 :: digits).dropLast, exponent }

/-! ## Changes that keep the number -/

/-- No zeros at the end of the fraction beyond its first `least` digits. -/
def stripFraction (a : DigitArray) (least : Nat) : Checked ε DigitArray := do
  let least ← sum a.dot least
  return { a with digits := stripFrom least a.digits }

/-- At least `least` digits after the point. -/
def padFraction (a : DigitArray) (least : Nat) : Checked ε DigitArray := do
  let wanted ← sum a.dot least
  return { a with digits := Digits.padTrailing wanted a.digits }

/-- No zeros at the front of the whole part, but for a single zero. -/
def trimWhole (a : DigitArray) : Checked ε DigitArray := do
  let last ← difference a.dot 1
  let front ← span a.digits 0 last
  let removable := (front.takeWhile (· == 0)).length
  let digits ← span a.digits removable a.digits.length
  let dot ← difference a.dot removable
  return { a with digits, dot }

/-- A zero loses its sign. -/
def dropZeroSign (a : DigitArray) : DigitArray :=
  { a with negative := a.negative && !a.isZero }

/-! ## Whole numbers and hexadecimal digits -/

/-- The number without a fraction, which has to be zero. -/
def toInteger (a : DigitArray) : Checked Obstacle DigitArray := do
  let fixed ← a.toFixed
  let fraction ← fixed.fraction
  if Digits.allZero fraction then
    let trimmed ← { fixed with digits := fixed.digits.take fixed.dot }.trimWhole
    return trimmed.dropZeroSign
  else ofResult (.error .fractional)

/-- Binary digits `1.bbbb…` as hexadecimal digits `1.hhh…`; the exponent stays binary. -/
def toHex (a : DigitArray) : Checked Obstacle DigitArray :=
  if a.base ≠ 2 ∨ a.dot ≠ 1 then
    ofResult (.error (.broken "hex regrouping needs normalized binary digits"))
  else if a.isZero then .ok { zero a.negative 16 with radix := 2 }
  else do
    let lead ← item a.digits 0
    let rest ← span a.digits 1 a.digits.length
    let hex := { a with digits := lead :: Numeral.nibbles rest, base := 16, radix := 2 }
    hex.stripFraction 0

end DigitArray

end Stencil
