import Stencil.Number.Exponential

/-!
# Numerals

A numeral is a number on its way to being written: a sign, digits on both sides of a point, and a
power that scales them. Every notation is reached by moving the point, rounding half up and
trimming zeros, so no rounding happens but on these digits.

* `Numeral` — sign, digits, exponent; the exponent counts powers of `radix`, which differs from
  `base` only in hexadecimal digits with a binary exponent.
* `readExponential` — the digits and the power of ten of a decimal from its text.
* `ofInt`, `ofFloat`, `ofFloatBinary` — numbers in scientific form: one digit before the point, not
  zero unless the number is.
* `toFixed`, `roundPlaces`, `roundSignificant`, `toInteger`, `toHex` — changes of form.
* `stripFraction`, `padFraction`, `trimWhole`, `dropZeroSign` — changes that keep the number.
* `Obstacle` — why a numeral has no form of the wanted kind.
-/

namespace Stencil

/-- Why a numeral has no form of the wanted kind: it is not whole, or it is not of the shape that
the change of form starts from. -/
inductive Obstacle where
  | fractional
  | broken (law : String)
  deriving DecidableEq, Repr

/-- A number as digits: `whole . fraction` in base `base`, times `radix ^ exponent`. -/
structure Numeral where
  negative : Bool
  whole : List Nat
  fraction : List Nat
  exponent : Int
  base : Nat
  radix : Nat
  deriving DecidableEq, Repr

namespace Numeral

/-! ## Scientific form -/

/-- Zero in scientific form. -/
def zero (negative : Bool) (base : Nat) : Numeral where
  negative := negative
  whole := [0]
  fraction := []
  exponent := 0
  base := base
  radix := base

/-- All digits, regardless of the point. -/
def digits (n : Numeral) : List Nat :=
  n.whole ++ n.fraction

/-- Whether every digit is zero. -/
def isZero (n : Numeral) : Bool :=
  Digits.allZero n.digits

/-- The same number with one non-zero digit before the point and no zeros at the end. -/
def normalize (n : Numeral) : Numeral :=
  match Digits.trimLeading n.digits with
  | [] => zero n.negative n.base
  | lead :: rest =>
    { n with
      whole := [lead]
      fraction := Digits.trimTrailing rest
      exponent := n.exponent + n.whole.length - (n.digits.length - rest.length : Nat) }

/-- `m * base ^ exponent` in scientific form. -/
def ofScaled (negative : Bool) (base m : Nat) (exponent : Int) : Numeral :=
  normalize
    { negative, whole := Digits.ofNat base m, fraction := [], exponent, base, radix := base }

/-- A whole number in scientific form. -/
def ofInt (base : Nat) (v : Int) : Numeral :=
  ofScaled (v < 0) base v.natAbs 0

/-- The digits of a decimal that is written with a power of ten, and the power that the first of
them counts. -/
def readExponential (text : List Char) : Except Obstacle (List Nat × Int) :=
  match Text.splitOnce? 'e' text with
  | none => .error (.broken "missing exponent in shortest form")
  | some (mantissa, power) =>
    match Digits.signedWord? power with
    | none => .error (.broken "malformed exponent in shortest form")
    | some exponent =>
      match (mantissa.filter (· != '.')).mapM Digits.decimalDigit? with
      | none => .error (.broken "malformed mantissa in shortest form")
      | some digits => .ok (digits, exponent)

/-- The shortest decimal of a finite double, from its text. -/
def ofFloat (x : Binary64) : Except Obstacle Numeral :=
  if x.isFinite then do
    let (digits, exponent) ← readExponential x.exponential
    return normalize
      { negative := x.negative, whole := digits.take 1, fraction := digits.drop 1, exponent,
        base := 10, radix := 10 }
  else .error (.broken "non-finite value in decimal digitization")

/-- The exact binary digits of a finite double. -/
def ofFloatBinary (x : Binary64) : Except Obstacle Numeral :=
  if x.isFinite then .ok (ofScaled x.negative 2 x.significand x.scale)
  else .error (.broken "non-finite value in binary digitization")

/-! ## Moving the point -/

/-- The same number with exponent zero: the point moves, over added zeros where digits end. -/
def toFixed (n : Numeral) : Except Obstacle Numeral :=
  if n.radix ≠ n.base then .error (.broken "fixed shift on mixed-radix digits")
  else
    let point : Int := n.whole.length + n.exponent
    if point ≤ 0 then
      .ok { n with
        whole := [0]
        fraction := List.replicate (-point).toNat 0 ++ n.digits
        exponent := 0 }
    else
      let digits := Digits.padTrailing point.toNat n.digits
      .ok { n with
        whole := digits.take point.toNat
        fraction := digits.drop point.toNat
        exponent := 0 }

/-! ## Rounding half up -/

/-- The digits with one unit added in the last place. -/
def increment (n : Numeral) : Numeral :=
  match Digits.increment n.base n.fraction with
  | (false, fraction) => { n with fraction }
  | (true, fraction) =>
    match Digits.increment n.base n.whole with
    | (false, whole) => { n with whole, fraction }
    | (true, whole) => { n with whole := 1 :: whole, fraction }

/-- Exactly `places` digits after the point; a carry out of the first digit adds one before it. -/
def roundPlaces (n : Numeral) (places : Nat) : Numeral :=
  match n.fraction.drop places with
  | [] => { n with fraction := Digits.padTrailing places n.fraction }
  | next :: _ =>
    let kept := { n with fraction := n.fraction.take places }
    if next < Digits.half n.base then kept else kept.increment

/-- Exactly `count` digits of a numeral in scientific form; a carry out of the first digit goes
into the exponent. -/
def roundSignificant (n : Numeral) (count : Nat) : Except Obstacle Numeral :=
  if count = 0 then .error (.broken "zero significant digits requested")
  else if n.whole.length ≠ 1 then
    .error (.broken "significant rounding outside scientific form")
  else
    let rounded := n.roundPlaces (count - 1)
    if rounded.whole.length = 1 then .ok rounded
    else .ok { rounded with whole := [1], exponent := rounded.exponent + 1 }

/-! ## Changes that keep the number -/

/-- No zeros at the end of the fraction beyond its first `least` digits. -/
def stripFraction (n : Numeral) (least : Nat) : Numeral :=
  { n with fraction := n.fraction.take least ++ Digits.trimTrailing (n.fraction.drop least) }

/-- At least `least` digits after the point. -/
def padFraction (n : Numeral) (least : Nat) : Numeral :=
  { n with fraction := Digits.padTrailing least n.fraction }

/-- No zeros at the front of the whole part, but for a single zero. -/
def trimWhole (n : Numeral) : Numeral :=
  match Digits.trimLeading n.whole with
  | [] => { n with whole := [0] }
  | whole => { n with whole }

/-- A zero loses its sign. -/
def dropZeroSign (n : Numeral) : Numeral :=
  { n with negative := n.negative && !n.isZero }

/-! ## Whole numbers and hexadecimal digits -/

/-- The numeral without a fraction, which has to be zero. -/
def toInteger (n : Numeral) : Except Obstacle Numeral := do
  let fixed ← n.toFixed
  if Digits.allZero fixed.fraction then
    .ok { fixed with fraction := [] }.trimWhole.dropZeroSign
  else .error .fractional

/-- Binary digits in groups of four, the last one filled up with zeros, as hexadecimal digits. -/
def nibbles : List Nat → List Nat
  | a :: b :: c :: d :: rest => Digits.value 2 [a, b, c, d] :: nibbles rest
  | [] => []
  | short => [Digits.value 2 (Digits.padTrailing 4 short)]

/-- Binary digits `1.bbbb…` as hexadecimal digits `1.hhh…`; the exponent stays binary. -/
def toHex (n : Numeral) : Except Obstacle Numeral :=
  if n.base ≠ 2 ∨ n.whole.length ≠ 1 then
    .error (.broken "hex regrouping needs normalized binary digits")
  else if n.isZero then .ok { zero n.negative 16 with radix := 2 }
  else
    .ok { n with fraction := Digits.trimTrailing (nibbles n.fraction), base := 16, radix := 2 }

end Numeral

end Stencil
