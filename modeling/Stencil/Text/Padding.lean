import Stencil.Field.Basic

/-!
# Padding to a width

A text shorter than the width it is given receives copies of a fill character. Where they go is
the alignment's business: behind the text, before it, on both sides with the smaller half in front,
or between a *lead* (a sign and radix mark) and the *body* behind it. A text that is long enough
already is left alone, and widths count characters.

* `padParts` — pads a lead and a body.
* `pad` — pads a text that has no lead.
-/

namespace Stencil.Text

/-- How many fill characters bring a text of the given length to the width. -/
def missing (width : Option Nat) (length : Nat) : Nat :=
  width.getD 0 - length

/-- The lead and the body as one text of at least the given width. -/
def padParts (lead body : List Char) (width : Option Nat) (fill : Char) (align : Align) :
    List Char :=
  let count := missing width (lead.length + body.length)
  match align with
  | .left => lead ++ body ++ List.replicate count fill
  | .right => List.replicate count fill ++ lead ++ body
  | .center =>
    List.replicate (count / 2) fill ++ lead ++ body ++ List.replicate (count - count / 2) fill
  | .signAware => lead ++ List.replicate count fill ++ body

/-- A text without a lead, brought to at least the given width. -/
def pad (text : List Char) (width : Option Nat) (fill : Char) (align : Align) : List Char :=
  padParts [] text width fill align

/-- Padding brings a text to the width, and leaves a longer one at its length. -/
theorem length_padParts (lead body : List Char) (width : Option Nat) (fill : Char)
    (align : Align) :
    (padParts lead body width fill align).length =
      max (width.getD 0) (lead.length + body.length) := by
  cases align <;> simp [padParts, missing] <;> omega

/-- Without a width nothing is added. -/
theorem padParts_none (lead body : List Char) (fill : Char) (align : Align) :
    padParts lead body none fill align = lead ++ body := by
  cases align <;> simp [padParts, missing]

end Stencil.Text
