import Stencil.Number.Grouping
import Stencil.Number.Style
import Stencil.Options
import Stencil.Text.Padding

/-!
# Written numbers

A figure becomes text in two parts. The *lead* is the sign and the radix mark. The *body* is the
whole part in its groups, and a tail of fraction, exponent and percent sign. Sign-aware alignment
pads between the two; where it pads grouped digits with zeros, the zeros are grouped too.

* `Separators` — the point and the grouping that a presentation asks for.
* `signText`, `radixMark` — the lead.
* `tailText`, `wholeText` — the body.
* `Figure.written` — the whole, in the letters of the type code and padded to the width.
-/

namespace Stencil

/-! ## Separators -/

/-- The point and the digit groups of one number. -/
structure Separators where
  point : Char
  grouping : Option Grouping
  deriving DecidableEq, Repr

namespace Separators

/-- The separators of a locale; no grouping without a separator or without sizes. -/
def ofLocale (locale : Locale) : Separators where
  point := locale.decimalPoint
  grouping :=
    match locale.groupSeparator with
    | some separator => if locale.grouping = [] then none else some ⟨separator, locale.grouping⟩
    | none => none

/-- A plain point, and groups of three decimal digits or of four digits in other bases. -/
def plain (separator : Option Char) (base : Nat) : Separators where
  point := '.'
  grouping := separator.map fun c => ⟨c, [if base = 10 then 3 else 4]⟩

/-- The separators a presentation asks for. -/
def resolve (element : Element Nat) (base : Nat) (locale : Locale) : Separators :=
  if element.type = .localeInteger ∨ element.localized then ofLocale locale
  else plain element.grouping base

end Separators

/-! ## Sign and radix mark -/

/-- The sign of a number under a sign mode. -/
def signText (negative : Bool) (mode : Option SignMode) : List Char :=
  if negative then ['-']
  else
    match mode with
    | some .always => ['+']
    | some .space => [' ']
    | _ => []

/-- The mark of the radix, which the alternate form asks for. -/
def radixMark (element : Element Nat) (isZero : Bool) (mark : OctalMark) : List Char :=
  if element.alternate then
    match element.type with
    | .binary _ => ['0', 'b']
    | .octal =>
      match mark with
      | .letter => ['0', 'o']
      | .bareZero => if isZero then [] else ['0']
    | .hex _ | .hexFloat _ => ['0', 'x']
    | _ => []
  else []

/-! ## Tail and whole part -/

/-- The point and the digits after it; the alternate form of a decimal notation keeps the point
even with no digits after it. -/
def fractionText (n : Numeral) (style : Style) (alternate : Bool) (point : Char) : List Char :=
  if n.fraction ≠ [] then point :: Digits.chars n.fraction
  else if alternate ∧ (style = .fixed ∨ style = .scientific) then [point]
  else []

/-- The sign of an exponent, and its digits with zeros in front up to the given number. -/
def exponentDigits (exponent : Int) (least : Nat) : List Char :=
  let digits := Digits.decimal exponent.natAbs
  (if exponent < 0 then '-' else '+') :: (List.replicate (least - digits.length) '0' ++ digits)

/-- The exponent of the styles that have one. -/
def exponentText (n : Numeral) : Style → List Char
  | .scientific => 'e' :: exponentDigits n.exponent 2
  | .hexadecimal => 'p' :: exponentDigits n.exponent 1
  | .integer | .fixed => []

/-- The sign behind a percentage. -/
def percentText (type : TypeCode) : List Char :=
  if type = .percent then ['%'] else []

/-- Everything behind the whole part. -/
def tailText (n : Numeral) (style : Style) (element : Element Nat) (point : Char) : List Char :=
  fractionText n style element.alternate point ++ exponentText n style ++ percentText element.type

/-- The fill of a number: the one given, or a zero or a space by the flag `0`. -/
def Element.numberFill (element : Element Nat) : Char :=
  element.fill.getD (if element.zeroPad then '0' else ' ')

/-- The alignment of a number: the one given, or by the flag `0`. -/
def Element.numberAlign (element : Element Nat) : Align :=
  element.align.getD (if element.zeroPad then .signAware else .right)

/-- The whole part in its groups. Where the padding is zeros between sign and digits, the zeros are
part of the groups, and `taken` is how much of the width is used up otherwise. -/
def wholeText (n : Numeral) (element : Element Nat) (grouping : Option Grouping) (taken : Nat) :
    List Char :=
  let digits := Digits.chars n.whole
  match grouping with
  | none => digits
  | some g =>
    if element.numberFill = '0' ∧ element.numberAlign = .signAware then
      g.zeroFill digits (element.width.getD 0 - taken)
    else g.apply digits

/-! ## The whole number -/

/-- A text in the letters of a case. -/
def LetterCase.apply : LetterCase → List Char → List Char
  | lower, text => text
  | upper, text => text.map Char.toUpper

namespace Figure

/-- The lead and the body of a figure, in small letters. -/
def parts (figure : Figure) (element : Element Nat) (options : Options) :
    List Char × List Char :=
  match figure with
  | notANumber => (signText false element.sign, "nan".toList ++ percentText element.type)
  | infinite negative => (signText negative element.sign, "inf".toList ++ percentText element.type)
  | finite n style =>
    let lead := signText n.negative element.sign ++ radixMark element n.isZero options.octalMark
    let separators := Separators.resolve element n.base options.locale
    let tail := tailText n style element separators.point
    let whole := wholeText n element separators.grouping (lead.length + tail.length)
    (lead, whole ++ tail)

/-- A figure as text, padded to the width of its presentation. -/
def written (figure : Figure) (element : Element Nat) (options : Options) : List Char :=
  let (lead, body) := figure.parts element options
  let letters := element.type.letters
  Text.padParts (letters.apply lead) (letters.apply body) element.width element.numberFill
    element.numberAlign

end Figure

end Stencil
