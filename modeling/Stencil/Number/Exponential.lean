import Stencil.Number.Digits
import Stencil.Number.Shortest

/-!
# Decimals with a power of ten

A decimal is written with a power of ten as `d.ddde-n`: a digit, a point if more digits follow, and
the power behind `e`. The digits of a double are not computed but read from such a text, that of its
shortest decimal.

* `Digits.signedDecimal`, `Digits.exponential` — a whole number with its sign, and digits with a
  power of ten.
* `Binary64.shortestDigits`, `Binary64.exponential` — the shortest decimal of a double and its text.
* `Text.splitOnce?`, `Digits.signedWord?`, `Digits.decimalDigit?` — what such a text is read with.
-/

namespace Stencil

/-! ## Writing -/

namespace Digits

/-- A whole number in decimal, behind a minus sign if it is negative. -/
def signedDecimal (v : Int) : List Char :=
  if v < 0 then '-' :: decimal v.natAbs else decimal v.natAbs

/-- Digits with a point behind the first of them, if there are more. -/
def pointed : List Char → List Char
  | [] => []
  | [lead] => [lead]
  | lead :: rest => lead :: '.' :: rest

/-- Digits and a power of ten as `d.ddde-n`. -/
def exponential (digits : List Char) (exponent : Int) : List Char :=
  pointed digits ++ 'e' :: signedDecimal exponent

end Digits

namespace Binary64

/-- The digits of the shortest decimal of a finite double, with no zero behind the first at the end,
and the power of ten that the first of them counts. -/
def shortestDigits (x : Binary64) : List Nat × Int :=
  let (coefficient, scale) := x.shortest
  let digits := Digits.ofNat 10 coefficient
  (digits.take 1 ++ Digits.trimTrailing (digits.drop 1), scale + digits.length - 1)

/-- The shortest decimal of a finite double, sign aside, with a power of ten. -/
def exponential (x : Binary64) : List Char :=
  let (digits, exponent) := x.shortestDigits
  Digits.exponential (Digits.chars digits) exponent

end Binary64

/-! ## Reading -/

/-- The parts of a text on either side of the first mark in it. -/
def Text.splitOnce? (mark : Char) (text : List Char) : Option (List Char × List Char) :=
  match text.dropWhile (· != mark) with
  | _ :: back => some (text.takeWhile (· != mark), back)
  | [] => none

namespace Digits

/-- The decimal digit that a character is. -/
def decimalDigit? (c : Char) : Option Nat :=
  if c.isDigit then some (c.toNat - '0'.toNat) else none

/-- The number of a text that is nothing but decimal digits, and at least one. -/
def natural? (text : List Char) : Option Nat :=
  if text.isEmpty then none else (text.mapM decimalDigit?).map (value 10)

/-- The number of a text of decimal digits behind at most one sign, if a signed word of 64 bits can
hold it. -/
def signedWord? (text : List Char) : Option Int :=
  let number : Option Int :=
    match text with
    | '-' :: digits => (natural? digits).map fun n => -Int.ofNat n
    | '+' :: digits => (natural? digits).map Int.ofNat
    | digits => (natural? digits).map Int.ofNat
  number.filter fun v => -(Nat.pow 2 63 : Int) ≤ v ∧ v < Nat.pow 2 63

end Digits

end Stencil
