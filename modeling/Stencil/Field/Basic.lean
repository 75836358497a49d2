/-!
# Fields

A field is what a template says about one argument: which argument it is, how each level of a
container is laid out, and how a scalar is presented. Widths and precisions may be written as
numbers or taken from further arguments, so layers and elements are parametric in what stands for
a count: `Count` while they are as written, `Nat` once every reference has been looked up.

* `Align`, `SignMode`, `TypeCode`, `ContainerKind` — the single-character choices of a field.
* `Selector`, `Count` — how a field names an argument, and how it gives a number.
* `Layer`, `Element`, `Field` — the presentation of a container level, of a scalar, and the whole.
-/

namespace Stencil

/-! ## Alignment and sign -/

/-- Where the fill goes when a text is padded; `signAware` puts it behind sign and radix mark. -/
inductive Align where
  | left
  | center
  | right
  | signAware
  deriving DecidableEq, Repr

namespace Align

/-- The character that writes an alignment. -/
def char : Align → Char
  | left => '<'
  | center => '^'
  | right => '>'
  | signAware => '='

/-- The alignment a character writes. -/
def ofChar? : Char → Option Align
  | '<' => some left
  | '^' => some center
  | '>' => some right
  | '=' => some signAware
  | _ => none

/-- A character writes an alignment exactly if it is that alignment's character. -/
theorem ofChar?_eq_some_iff {c : Char} {a : Align} : ofChar? c = some a ↔ c = a.char := by
  constructor
  · intro h
    unfold ofChar? at h
    split at h <;> first | (cases h; rfl) | simp at h
  · rintro rfl
    cases a <;> rfl

end Align

/-- What is written before a number that is not negative; a negative one always has its `-`. -/
inductive SignMode where
  | always
  | negativeOnly
  | space
  deriving DecidableEq, Repr

namespace SignMode

/-- The character that writes a sign mode. -/
def char : SignMode → Char
  | always => '+'
  | negativeOnly => '-'
  | space => ' '

/-- The sign mode a character writes. -/
def ofChar? : Char → Option SignMode
  | '+' => some always
  | '-' => some negativeOnly
  | ' ' => some space
  | _ => none

/-- A character writes a sign mode exactly if it is that mode's character. -/
theorem ofChar?_eq_some_iff {c : Char} {m : SignMode} : ofChar? c = some m ↔ c = m.char := by
  constructor
  · intro h
    unfold ofChar? at h
    split at h <;> first | (cases h; rfl) | simp at h
  · rintro rfl
    cases m <;> rfl

end SignMode

/-! ## Type codes -/

/-- Whether the letters of a number are written small or as capitals. -/
inductive LetterCase where
  | lower
  | upper
  deriving DecidableEq, Repr

/-- The presentation of a scalar; `byKind` leaves it to the kind of the argument. -/
inductive TypeCode where
  | byKind
  | text
  | character
  | decimal
  | localeInteger
  | binary (letters : LetterCase)
  | octal
  | hex (letters : LetterCase)
  | exponent (letters : LetterCase)
  | fixed (letters : LetterCase)
  | percent
  | general (letters : LetterCase)
  | hexFloat (letters : LetterCase)
  deriving DecidableEq, Repr

namespace TypeCode

/-- The character that writes a type code; the code by kind is written by leaving it out. -/
def char? : TypeCode → Option Char
  | byKind => none
  | text => some 's'
  | character => some 'c'
  | decimal => some 'd'
  | localeInteger => some 'n'
  | binary .lower => some 'b'
  | binary .upper => some 'B'
  | octal => some 'o'
  | hex .lower => some 'x'
  | hex .upper => some 'X'
  | exponent .lower => some 'e'
  | exponent .upper => some 'E'
  | fixed .lower => some 'f'
  | fixed .upper => some 'F'
  | percent => some '%'
  | general .lower => some 'g'
  | general .upper => some 'G'
  | hexFloat .lower => some 'a'
  | hexFloat .upper => some 'A'

/-- The type code a character writes. -/
def ofChar? : Char → Option TypeCode
  | 's' => some text
  | 'c' => some character
  | 'd' => some decimal
  | 'n' => some localeInteger
  | 'b' => some (binary .lower)
  | 'B' => some (binary .upper)
  | 'o' => some octal
  | 'x' => some (hex .lower)
  | 'X' => some (hex .upper)
  | 'e' => some (exponent .lower)
  | 'E' => some (exponent .upper)
  | 'f' => some (fixed .lower)
  | 'F' => some (fixed .upper)
  | '%' => some percent
  | 'g' => some (general .lower)
  | 'G' => some (general .upper)
  | 'a' => some (hexFloat .lower)
  | 'A' => some (hexFloat .upper)
  | _ => none

/-- A character writes a type code exactly if it is that code's character. -/
theorem ofChar?_eq_some_iff {c : Char} {code : TypeCode} :
    ofChar? c = some code ↔ code.char? = some c := by
  constructor
  · intro h
    unfold ofChar? at h
    split at h <;> first | (cases h; rfl) | simp at h
  · intro h
    unfold char? at h
    split at h <;> cases h <;> rfl

/-- A type code between quotes, as diagnostics show it. -/
def quoted (code : TypeCode) : String :=
  "'" ++ String.ofList code.char?.toList ++ "'"

/-- The radix of the codes that present whole numbers. -/
def radix? : TypeCode → Option Nat
  | decimal | localeInteger => some 10
  | binary _ => some 2
  | octal => some 8
  | hex _ => some 16
  | _ => none

/-- Whether a code presents whole numbers only. -/
def isInteger (code : TypeCode) : Bool :=
  code.radix?.isSome

/-- Whether a code is one of the notations for fractional numbers. -/
def isFloat : TypeCode → Bool
  | exponent _ | fixed _ | percent | general _ | hexFloat _ => true
  | _ => false

/-- The case of the letters a code writes. -/
def letters : TypeCode → LetterCase
  | binary c | hex c | exponent c | fixed c | general c | hexFloat c => c
  | _ => .lower

end TypeCode

/-! ## Arguments and counts -/

/-- Which argument is meant: the next one, one by position, or one by name in the mapping that is
passed first. -/
inductive Selector where
  | auto
  | index (position : Nat)
  | name (key : String)
  deriving DecidableEq, Repr

/-- A width or precision: written as a number, or taken from another argument. -/
inductive Count where
  | literal (n : Nat)
  | ref (selector : Selector)
  deriving DecidableEq, Repr

/-- Positions, widths and precisions are 64-bit words: numbers from here on do not count as such. -/
def wordLimit : Nat := Nat.pow 2 64

/-- The largest width or precision a field may ask for. -/
def maxCount : Nat := 100000

/-- The number of a count that is written as a number. -/
def Count.literal? : Count → Option Nat
  | literal n => some n
  | ref _ => none

/-! ## Presentations -/

/-- Brackets and joints of a container level. -/
inductive ContainerKind where
  /-- `[a, b]` for lists and `{k: v}` for mappings. -/
  | plain
  /-- `{a, b}` and `{k: v}`. -/
  | brace
  /-- `[a, b]` and `[{k, v}]`. -/
  | tuple
  /-- `a, b` and `k: v`, without brackets. -/
  | bare
  /-- `ab` and `k v`, without brackets or commas. -/
  | flat
  deriving DecidableEq, Repr

namespace ContainerKind

/-- The character that writes a container kind; the plain one is written by leaving it out. -/
def char? : ContainerKind → Option Char
  | plain => none
  | brace => some 'm'
  | tuple => some 't'
  | bare => some 'n'
  | flat => some 's'

/-- The container kind a character writes. -/
def ofChar? : Char → Option ContainerKind
  | 'm' => some brace
  | 't' => some tuple
  | 'n' => some bare
  | 's' => some flat
  | _ => none

/-- A character writes a container kind exactly if it is that kind's character. -/
theorem ofChar?_eq_some_iff {c : Char} {kind : ContainerKind} :
    ofChar? c = some kind ↔ kind.char? = some c := by
  constructor
  · intro h
    unfold ofChar? at h
    split at h <;> first | (cases h; rfl) | simp at h
  · intro h
    unfold char? at h
    split at h <;> cases h <;> rfl

end ContainerKind

/-- The presentation of one nesting level of a list or mapping. -/
structure Layer (κ : Type) where
  fill : Option Char := none
  align : Option Align := none
  width : Option κ := none
  kind : ContainerKind := .plain
  deriving DecidableEq, Repr

/-- The presentation of a scalar. -/
structure Element (κ : Type) where
  fill : Option Char := none
  align : Option Align := none
  /-- Absent, it works like `-`, yet only a sign that is written can be refused. -/
  sign : Option SignMode := none
  /-- A negative number that comes out as zero loses its sign (`z`). -/
  positiveZero : Bool := false
  /-- The alternate form (`#`): radix marks, a point and zeros that would be left out. -/
  alternate : Bool := false
  /-- Zeros between sign and digits unless the field says otherwise (`0`). -/
  zeroPad : Bool := false
  width : Option κ := none
  grouping : Option Char := none
  precision : Option κ := none
  /-- Point and digit groups of the locale (`L`). -/
  localized : Bool := false
  type : TypeCode := .byKind
  deriving DecidableEq, Repr

namespace Element

/-- The element with the fill, alignment and width of a container level and no zeros of its own. -/
def paddedLike {κ : Type} (element : Element κ) (layer : Layer κ) : Element κ :=
  { element with
    fill := layer.fill
    align := layer.align
    width := layer.width
    zeroPad := false }

end Element

/-- What a template says about one argument; `raw` is the text between the braces. -/
structure Field where
  raw : String
  selector : Selector := .auto
  /-- Outermost level first. -/
  layers : List (Layer Count) := []
  element : Element Count := {}
  deriving DecidableEq, Repr

end Stencil
