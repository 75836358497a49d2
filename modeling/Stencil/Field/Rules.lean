import Stencil.Field.Reader

/-!
# Rules of fields

Not every specifier makes sense with every type code. A field is checked as soon as it is read:
widths are not zero, counts stay within the limit, there is one source of digit groups, whole
numbers take no precision, and the type code admits every specifier that is used. Without a type
code the last two rules wait for the argument.

* `TypeCode.admits` — the specifiers of each type code.
* `Element.uses` — the specifiers an element has.
* `Field.check` — the rules of a field as it stands.
* `ValueClass`, `Element.checkFor` — the rules of an element without a type code.
* `Field.parse` — reading and checking in one.
-/

namespace Stencil

/-! ## Specifiers -/

/-- Whether a type code makes sense of a specifier. -/
def TypeCode.admits : TypeCode → Specifier → Bool
  | .text, s => (s matches .fillOrAlign | .width | .precision)
  | .character, s => (s matches .fillOrAlign | .width)
  | .decimal, s => !(s matches .positiveZero | .precision)
  | .localeInteger, s => !(s matches .positiveZero | .precision | .grouping | .localized)
  | .binary _, s | .octal, s | .hex _, s => !(s matches .positiveZero | .precision | .localized)
  | .hexFloat _, s => !(s matches .grouping | .localized)
  | .byKind, _ | .exponent _, _ | .fixed _, _ | .percent, _ | .general _, _ => true

namespace Element

variable {κ : Type}

/-- Whether an element has a specifier. -/
def uses (element : Element κ) : Specifier → Bool
  | .fillOrAlign => element.fill.isSome || element.align.isSome
  | .sign => element.sign.isSome
  | .positiveZero => element.positiveZero
  | .alternate => element.alternate
  | .zeroPad => element.zeroPad
  | .width => element.width.isSome
  | .grouping => element.grouping.isSome
  | .precision => element.precision.isSome
  | .localized => element.localized
  | .signAware => element.align == some .signAware

/-- Refuses the first specifier that the given type code does not admit. -/
def checkSpecifiers (element : Element κ) (rules : TypeCode) : Except Fault Unit :=
  match Specifier.all.find? fun s => element.uses s && !rules.admits s with
  | some s => .error (.specifierNotAllowed s element.type)
  | none => .ok ()

end Element

/-! ## A field as it stands -/

namespace Field

/-- The widths of a field: that of its element, then those of its layers. -/
def widths (field : Field) : List Count :=
  field.element.width.toList ++ field.layers.filterMap (·.width)

/-- The counts of a field in the order in which they are measured: width, precision, layers. -/
def counts (field : Field) : List Count :=
  field.element.width.toList ++ field.element.precision.toList ++
    field.layers.filterMap (·.width)

/-- The first count that is written as a number above the limit. -/
def excessiveCount? (field : Field) : Option Nat :=
  (field.counts.filterMap Count.literal?).find? (maxCount < ·)

/-- Checks the rules that do not depend on the argument. -/
def check (field : Field) : Except Fault Unit :=
  if .literal 0 ∈ field.widths then .error .zeroWidth
  else
    match field.excessiveCount? with
    | some n => .error (.countTooLarge n maxCount)
    | none =>
      let element := field.element
      if element.grouping.isSome && element.localized then .error .groupingWithLocale
      else if element.precision.isSome && (element.type.isInteger || element.type == .character)
        then .error .precisionOnInteger
      else element.checkSpecifiers element.type

/-- The field of a text between braces, if it follows the grammar and the rules. -/
def parse (raw : String) : Except Fault Field := do
  let field ← read raw
  field.check
  return field

end Field

/-! ## Elements without a type code -/

/-- What kind of argument an element without a type code is given. -/
inductive ValueClass where
  /-- Strings, characters and truth values. -/
  | text
  | integer
  | float
  deriving DecidableEq, Repr

/-- Checks an element without a type code, once the class of the argument is known. -/
def Element.checkFor {κ : Type} (element : Element κ) : ValueClass → Except Fault Unit
  | .text => element.checkSpecifiers .text
  | .integer =>
    if element.precision.isSome then .error .precisionOnInteger
    else element.checkSpecifiers .decimal
  | .float => .ok ()

end Stencil
