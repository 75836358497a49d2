import Stencil.Field.Basic

/-!
# Why formatting fails

A template fails as a whole if its braces do not match. Every other failure has a *fault* and
belongs to a field, whose text it carries.

* `Specifier` — the parts of an element that a type code can refuse.
* `Fault` — what is wrong with a field or its argument.
* `FormatError` — a failure, with its place.
* `kind`, `field?`, `message` — the name, the field and the full text of a failure.
-/

namespace Stencil

/-- The parts of an element that a type code can refuse, in the order in which they are checked. -/
inductive Specifier where
  | fillOrAlign
  | sign
  | positiveZero
  | alternate
  | zeroPad
  | width
  | grouping
  | precision
  | localized
  | signAware
  deriving DecidableEq, Repr

namespace Specifier

/-- Every specifier, in order. -/
def all : List Specifier :=
  [fillOrAlign, sign, positiveZero, alternate, zeroPad, width, grouping, precision, localized,
    signAware]

/-- What diagnostics call a specifier. -/
def name : Specifier → String
  | fillOrAlign => "fill/alignment"
  | sign => "sign"
  | positiveZero => "'z'"
  | alternate => "'#'"
  | zeroPad => "'0'"
  | width => "width"
  | grouping => "grouping"
  | precision => "precision"
  | localized => "'L'"
  | signAware => "'=' alignment"

end Specifier

/-- What is wrong with a field or with the argument it is given. -/
inductive Fault where
  /-- The text does not follow the grammar of fields. -/
  | malformed (reason : String)
  /-- A width is written as zero. -/
  | zeroWidth
  | specifierNotAllowed (specifier : Specifier) (type : TypeCode)
  /-- Both a group separator and the locale's grouping are asked for. -/
  | groupingWithLocale
  | precisionOnInteger
  | indexOutOfRange (index available : Nat)
  | unknownName (name : String)
  /-- Some fields take the next argument and others give a position. -/
  | mixedNumbering
  /-- A width or precision is taken from an argument that is not a natural number. -/
  | invalidReference (observed : String)
  | countTooLarge (count limit : Nat)
  | unsupportedType (type : TypeCode) (kind value : String)
  | notAnInteger (value : String)
  | invalidCodePoint (value : String)
  | nestingTooDeep (limit : Nat)
  /-- A law of the library does not hold. -/
  | internal (law : String)
  deriving DecidableEq, Repr

/-- A failure of formatting. -/
inductive FormatError where
  | unbalancedBrace (template : String) (position : Nat)
  | inField (raw : String) (fault : Fault)
  deriving DecidableEq, Repr

namespace Fault

/-- The reason of a field whose selector is followed by something else than a colon. -/
def afterSelector (rest : List Char) : Fault :=
  malformed ("unexpected '" ++ String.ofList rest ++ "' after argument selector")

/-- The reason of a field with text that no specifier can use. -/
def unconsumed (rest : List Char) : Fault :=
  malformed ("unconsumed specifier text '" ++ String.ofList rest ++ "'")

/-- The name of a fault. -/
def kind : Fault → String
  | malformed _ => "InvalidField"
  | zeroWidth => "InvalidWidth"
  | specifierNotAllowed _ _ => "SpecifierNotAllowedWithType"
  | groupingWithLocale => "GroupingLocaleConflict"
  | precisionOnInteger => "PrecisionNotAllowedForIntegerType"
  | indexOutOfRange _ _ => "IndexOutOfRange"
  | unknownName _ => "UnknownField"
  | mixedNumbering => "MixedFieldNumbering"
  | invalidReference _ => "InvalidFieldReference"
  | countTooLarge _ _ => "CountTooLarge"
  | unsupportedType _ _ _ => "InvalidArgumentType"
  | notAnInteger _ => "NotAnInteger"
  | invalidCodePoint _ => "InvalidCodePoint"
  | nestingTooDeep _ => "NestingTooDeep"
  | internal _ => "Internal"

/-- The text of a fault in the field of the given text. -/
def message (fault : Fault) (raw : String) : String :=
  let place := "'\x7b" ++ raw ++ "\x7d'"
  match fault with
  | malformed reason => "Invalid field " ++ place ++ ": " ++ reason
  | zeroWidth => "Width must be at least 1 in " ++ place
  | specifierNotAllowed specifier type =>
    specifier.name ++ " not allowed with type " ++ type.quoted ++ " in " ++ place
  | groupingWithLocale => "Grouping separator and 'L' cannot be combined in " ++ place
  | precisionOnInteger => "Precision not allowed for integer type in " ++ place
  | indexOutOfRange index available =>
    "Argument index " ++ toString index ++ " out of range (" ++ toString available ++
      " given) in " ++ place
  | unknownName name => "Unknown named field '" ++ name ++ "' in " ++ place
  | mixedNumbering => "Cannot mix automatic and manual field numbering at " ++ place
  | invalidReference observed =>
    "Width/precision argument must be a non-negative integer, got " ++ observed ++ " in " ++ place
  | countTooLarge count limit =>
    "Width/precision " ++ toString count ++ " exceeds the limit of " ++ toString limit ++ " in " ++
      place
  | unsupportedType type kind value =>
    "Cannot format " ++ kind ++ " " ++ value ++ " with type " ++ type.quoted ++ " in " ++ place
  | notAnInteger value => "Value " ++ value ++ " is not an integer in " ++ place
  | invalidCodePoint value => "Value " ++ value ++ " is not a valid code point in " ++ place
  | nestingTooDeep limit => "Container nesting exceeds " ++ toString limit ++ " levels in " ++ place
  | internal law => "Internal error (" ++ law ++ ") in " ++ place

end Fault

namespace FormatError

/-- The name of a failure. -/
def kind : FormatError → String
  | unbalancedBrace _ _ => "UnbalancedBrace"
  | inField _ fault => fault.kind

/-- The text of the field a failure belongs to. -/
def field? : FormatError → Option String
  | unbalancedBrace _ _ => none
  | inField raw _ => some raw

/-- The full text of a failure. -/
def message : FormatError → String
  | unbalancedBrace template position =>
    "Unbalanced brace at position " ++ toString position ++ " in '" ++ template ++ "'"
  | inField raw fault => fault.message raw

end FormatError

end Stencil
