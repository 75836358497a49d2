import Stencil.Field.Rules
import Stencil.Number.Written
import Stencil.Value

/-!
# Scalars

A type code decides what a scalar has to be. Text codes take strings, characters and truth values;
`c` takes a single character or a code point; number codes take numbers and truth values, the
integer codes also a single character for its code point. Without a code the kind of the value
decides, and the rules of the element are checked against it.

* `text?`, `singleChar?`, `quantity?`, `codePoint?` — what a value is as text, character, number.
* `renderText`, `renderQuantity` — text and numbers in their presentation.
* `renderScalar` — any value that is not a container.
-/

namespace Stencil

namespace Value

/-! ## What a value is -/

/-- The text a value stands for. -/
def text? : Value → Option (List Char)
  | bool b => some (if b then "true" else "false").toList
  | char c => some [c]
  | text s => some s.toList
  | _ => none

/-- The one character of a character or of a string of length one. -/
def singleChar? : Value → Option Char
  | char c => some c
  | text s =>
    match s.toList with
    | [c] => some c
    | _ => none
  | _ => none

/-- The number a value stands for; truth values count as one and zero. -/
def quantity? : Value → Option Quantity
  | bool b => some (.integer (if b then 1 else 0))
  | int v | big v => some (.integer v)
  | float x => some (.float x)
  | _ => none

/-- The whole number a value stands for; a double is not one. -/
def integer? (v : Value) : Option Int :=
  match v.quantity? with
  | some (.integer n) => some n
  | _ => none

end Value

/-- The character of a code point. -/
def charOfPoint? (v : Int) : Option Char :=
  if 0 ≤ v ∧ v.toNat.isValidChar then some (Char.ofNat v.toNat) else none

/-! ## Presentations -/

/-- A text cut to the precision and padded to the width, on the right unless told otherwise. -/
def renderText (text : List Char) (element : Element Nat) : List Char :=
  let cut :=
    match element.precision with
    | some most => text.take most
    | none => text
  Text.pad cut element.width (element.fill.getD ' ') (element.align.getD .left)

/-- The fault of a value whose number has no form of the wanted kind. -/
def Obstacle.fault (v : Value) : Obstacle → Fault
  | fractional => .notAnInteger (String.ofList v.display)
  | broken law => .internal law

/-- A number that stands for the given value, in its presentation. -/
def renderQuantity (q : Quantity) (v : Value) (element : Element Nat) (options : Options) :
    Except Fault (List Char) :=
  match q.figure element with
  | .ok figure => .ok (figure.written element options)
  | .error obstacle => .error (obstacle.fault v)

/-- The fault of a value that a type code does not take. -/
def unsupported (v : Value) (type : TypeCode) : Fault :=
  .unsupportedType type v.kind (String.ofList v.display)

/-- A value under `c`. -/
def renderCharacter (v : Value) (element : Element Nat) : Except Fault (List Char) :=
  match v.singleChar? with
  | some c => .ok (renderText [c] element)
  | none =>
    match v.integer? with
    | some point =>
      match charOfPoint? point with
      | some c => .ok (renderText [c] element)
      | none => .error (.invalidCodePoint (String.ofList v.display))
    | none => .error (unsupported v element.type)

/-- The class of a number. -/
def Quantity.valueClass : Quantity → ValueClass
  | integer _ => .integer
  | float _ => .float

/-- A value without a type code. -/
def renderByKind (v : Value) (element : Element Nat) (options : Options) :
    Except Fault (List Char) :=
  match v.text? with
  | some text => do
    element.checkFor .text
    return renderText text element
  | none =>
    match v.quantity? with
    | some q => do
      element.checkFor q.valueClass
      renderQuantity q v element options
    | none => .error (unsupported v element.type)

/-- A value under a code that takes numbers. -/
def renderNumber (v : Value) (element : Element Nat) (options : Options) :
    Except Fault (List Char) :=
  match v.quantity? with
  | some q => renderQuantity q v element options
  | none => .error (unsupported v element.type)

/-- A value that is not a container, in its presentation. -/
def renderScalar (v : Value) (element : Element Nat) (options : Options) :
    Except Fault (List Char) :=
  match element.type with
  | .byKind => renderByKind v element options
  | .text =>
    match v.text? with
    | some text => .ok (renderText text element)
    | none => .error (unsupported v element.type)
  | .character => renderCharacter v element
  | .decimal | .localeInteger | .binary _ | .octal | .hex _ =>
    match v.singleChar? with
    | some c => renderQuantity (.integer c.toNat) v element options
    | none => renderNumber v element options
  | .exponent _ | .fixed _ | .percent | .general _ | .hexFloat _ => renderNumber v element options

end Stencil
