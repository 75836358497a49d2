import Stencil.Checked.Notation
import Stencil.Number.Written

/-!
# Written numbers by positions

Digits are cut into groups and padded by positions in the text, which are checked.

* `groupSizes`, `groupedLength`, `pieces`, `applyGroups`, `zeroFill` — digit groups.
* `padParts`, `pad` — padding to a width.
* `Layout.written` — a number as text.
-/

namespace Stencil

namespace Checked

variable {ε : Type}

/-! ## Digit groups -/

/-- The sizes of the groups of the digits that remain, rightmost first; `last` is the size of the
group before them. -/
def groupSizes (last : Nat) (sizes : List Nat) (remaining : Nat) : Checked ε (List Nat) := do
  let size := sizes.headD last
  if size = 0 ∨ remaining ≤ size then return [remaining]
  else
    let left ← difference remaining size
    if _h : left < remaining then
      let groups ← groupSizes size sizes.tail left
      return size :: groups
    else .error (.breach .stalled)
termination_by remaining

/-- The length of `count` digits with their separators. -/
def groupedLength (g : Grouping) (count : Nat) : Checked ε Nat := do
  let groups ← groupSizes 0 g.sizes count
  let length ← sum count groups.length
  difference length 1

/-- Cuts groups of the given sizes off the end of a run, and puts each before those that are cut
already. -/
def cut (run : List Char) : List Nat → Nat → List (List Char) → Checked ε (List (List Char))
  | [], _, done => .ok done
  | size :: sizes, stop, done => do
    let start ← difference stop size
    let piece ← span run start stop
    cut run sizes start (piece :: done)

/-- A run of digits with a separator between its groups. -/
def applyGroups (g : Grouping) (digits : List Char) : Checked ε (List Char) := do
  let sizes ← groupSizes 0 g.sizes digits.length
  let pieces ← cut digits sizes digits.length []
  return List.intercalate [g.separator] pieces

/-- The least number of digits, at least `count`, whose grouped length reaches the width. -/
def fillCount (g : Grouping) (width count : Nat) : Checked ε Nat := do
  let length ← groupedLength g count
  if width ≤ length then return count
  else
    let more ← sum count 1
    if _h : width - more < width - count then fillCount g width more
    else .error (.breach .stalled)
termination_by width - count

/-- A run of digits with the fewest zeros in front that bring the grouped text to the width. -/
def zeroFill (g : Grouping) (digits : List Char) (width : Nat) : Checked ε (List Char) := do
  let count ← fillCount g width digits.length
  let zeros ← difference count digits.length
  applyGroups g (List.replicate zeros '0' ++ digits)

/-! ## Padding -/

/-- The lead and the body as one text of at least the given width. -/
def padParts (lead body : List Char) (width : Option Nat) (fill : Char) (align : Align) :
    Checked ε (List Char) := do
  let length ← sum lead.length body.length
  let count := Text.missing width length
  match align with
  | .left => return lead ++ body ++ List.replicate count fill
  | .right => return List.replicate count fill ++ lead ++ body
  | .center =>
    let right ← difference count (count / 2)
    return List.replicate (count / 2) fill ++ lead ++ body ++ List.replicate right fill
  | .signAware => return lead ++ List.replicate count fill ++ body

/-- A text without a lead, brought to at least the given width. -/
def pad (text : List Char) (width : Option Nat) (fill : Char) (align : Align) :
    Checked ε (List Char) :=
  padParts [] text width fill align

/-! ## Parts of a number -/

/-- How much of the width is left beside lead and tail. -/
def widthLeft (width : Option Nat) (lead tail : List Char) : Checked ε Nat :=
  match width with
  | some width => do
    let taken ← sum lead.length tail.length
    return width - taken
  | none => .ok 0

/-- The whole part in its groups, which are filled up with zeros where the padding is zeros between
sign and digits. -/
def wholeText (n : Numeral) (element : Element Nat) (grouping : Option Grouping)
    (lead tail : List Char) : Checked ε (List Char) :=
  let digits := Digits.chars n.whole
  match grouping with
  | none => .ok digits
  | some g =>
    if element.numberFill = '0' ∧ element.numberAlign = .signAware then do
      let width ← widthLeft element.width lead tail
      zeroFill g digits width
    else applyGroups g digits

end Checked

open Checked

variable {ε : Type}

/-- The numeral whose digits stand in an array, cut at its point. -/
def DigitArray.numeral (a : DigitArray) : Checked ε Numeral := do
  let whole ← a.whole
  let fraction ← a.fraction
  return {
    negative := a.negative, whole, fraction, exponent := a.exponent, base := a.base,
    radix := a.radix }

namespace Layout

/-- The lead and the body of a layout, in small letters. -/
def parts (layout : Layout) (element : Element Nat) (options : Options) :
    Checked ε (List Char × List Char) :=
  match layout with
  | notANumber => .ok (Figure.notANumber.parts element options)
  | infinite negative => .ok ((Figure.infinite negative).parts element options)
  | finite a style => do
    let n ← a.numeral
    let lead := signText n.negative element.sign ++ radixMark element n.isZero options.octalMark
    let separators := Separators.resolve element n.base options.locale
    let tail := tailText n style element separators.point
    let whole ← Checked.wholeText n element separators.grouping lead tail
    return (lead, whole ++ tail)

/-- A layout as text, padded to the width of its presentation. -/
def written (layout : Layout) (element : Element Nat) (options : Options) :
    Checked ε (List Char) := do
  let (lead, body) ← layout.parts element options
  let letters := element.type.letters
  padParts (letters.apply lead) (letters.apply body) element.width element.numberFill
    element.numberAlign

end Layout

end Stencil
