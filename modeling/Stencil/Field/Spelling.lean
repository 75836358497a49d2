import Stencil.Field.Basic
import Stencil.Number.Digits

/-!
# How fields are written

Every field has a plain spelling: the selector, a colon, each layer closed by a colon, and the
element. Specifiers stand in a fixed order, absent ones are left out, and numbers are in plain
decimal. A field that says nothing but its selector needs no colon.

* `Selector.spell`, `Count.spell`, `Layer.spell`, `Element.spell` — the parts.
* `Field.spell` — the text between the braces.
-/

namespace Stencil

/-- The text of a selector. -/
def Selector.spell : Selector → List Char
  | auto => []
  | index position => Digits.decimal position
  | name key => key.toList

/-- The text of a count: a number, or a selector in braces. -/
def Count.spell : Count → List Char
  | literal n => Digits.decimal n
  | ref selector => '{' :: selector.spell ++ ['}']

/-- The text of an optional part. -/
def spellOption {α : Type} (spell : α → List Char) : Option α → List Char
  | some a => spell a
  | none => []

/-- The text of a flag. -/
def spellFlag (c : Char) (on : Bool) : List Char :=
  if on then [c] else []

/-- The text of a fill and an alignment. -/
def spellPadding (fill : Option Char) (align : Option Align) : List Char :=
  fill.toList ++ (align.map Align.char).toList

/-- The text of a layer, without the colon that closes it. -/
def Layer.spell (layer : Layer Count) : List Char :=
  spellPadding layer.fill layer.align ++ spellOption Count.spell layer.width ++
    layer.kind.char?.toList

/-- The text of an element. -/
def Element.spell (element : Element Count) : List Char :=
  spellPadding element.fill element.align ++
  (element.sign.map SignMode.char).toList ++
  spellFlag 'z' element.positiveZero ++
  spellFlag '#' element.alternate ++
  spellFlag '0' element.zeroPad ++
  spellOption Count.spell element.width ++
  element.grouping.toList ++
  spellOption (fun c => '.' :: Count.spell c) element.precision ++
  spellFlag 'L' element.localized ++
  element.type.char?.toList

/-- The text of layers and element, each layer closed by a colon. -/
def spellPresentation (layers : List (Layer Count)) (element : Element Count) : List Char :=
  layers.flatMap (fun layer => layer.spell ++ [':']) ++ element.spell

/-- The text of a field between its braces. -/
def Field.spell (field : Field) : List Char :=
  if field.layers = [] ∧ field.element = {} then field.selector.spell
  else field.selector.spell ++ ':' :: spellPresentation field.layers field.element

end Stencil
