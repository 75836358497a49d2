import Stencil.Number.Exponential
import Stencil.Text.Quoted

/-!
# Argument values

* `Value` — what a template can be given.
* `kind`, `isContainer`, `get?` — what a value is, and what a mapping holds under a name.
* `display` — a value as diagnostics show it.
* `ofNat`, `ofInt` — numbers, in the width that holds them.
-/

namespace Stencil

/-- An argument. Whole numbers come in a machine width of 128 bits and without limit; the two are
distinct values even if they are the same number. -/
inductive Value where
  | bool (b : Bool)
  | char (c : Char)
  | text (s : String)
  | int (v : Int)
  | big (v : Int)
  | float (x : Binary64)
  | list (items : List Value)
  /-- Entries in the order in which they are shown; keys may be any values and may repeat. -/
  | map (entries : List (Value × Value))

namespace Value

/-! ## Kinds and lookup -/

/-- The kind of a value, as diagnostics name it. -/
def kind : Value → String
  | bool _ => "bool"
  | char _ => "char"
  | text _ => "string"
  | int _ | big _ => "integer"
  | float _ => "float"
  | list _ => "list"
  | map _ => "map"

/-- Whether a value holds other values. -/
def isContainer : Value → Bool
  | list _ | map _ => true
  | _ => false

/-- What a mapping holds under a name: the value of the first key that is this string. -/
def get? (v : Value) (name : String) : Option Value :=
  match v with
  | map entries =>
    entries.findSome? fun
      | (text key, item) => if key = name then some item else none
      | _ => none
  | _ => none

/-- A natural number, in machine width if it fits there. -/
def ofNat (n : Nat) : Value :=
  if n < Nat.pow 2 127 then int n else big n

/-! ## Display -/

/-- Digits with a point behind the first `point` of them, over zeros where there are none, and at
least one digit on either side. -/
def displayPositional (digits : List Char) (point : Int) : List Char :=
  if point ≤ 0 then
    '0' :: '.' :: (List.replicate (-point).toNat '0' ++ digits)
  else
    let whole := digits.take point.toNat
    let rest := digits.drop point.toNat
    whole ++ List.replicate (point.toNat - whole.length) '0' ++
      '.' :: (if rest.isEmpty then ['0'] else rest)

/-- The magnitude of a finite double: its shortest decimal, positional from `1e-4` up to `1e16`,
exclusive, and for zero. -/
def displayMagnitude (x : Binary64) : List Char :=
  let (digits, exponent) := x.shortestDigits
  if x.significand = 0 ∨ (-4 ≤ exponent ∧ exponent < 16) then
    displayPositional (Digits.chars digits) (exponent + 1)
  else x.exponential

/-- A double. -/
def displayFloat (x : Binary64) : List Char :=
  if x.isNaN then "NaN".toList
  else
    let magnitude := if x.isFinite then displayMagnitude x else "inf".toList
    if x.negative then '-' :: magnitude else magnitude

mutual

/-- A value as diagnostics show it. -/
def display : Value → List Char
  | bool b => (if b then "true" else "false").toList
  | char c => Text.quoteChar c
  | text s => Text.quoteString s.toList
  | int v => Digits.signedDecimal v
  | big v => Digits.signedDecimal v
  | float x => displayFloat x
  | list items => '[' :: List.intercalate [',', ' '] (displayItems items) ++ [']']
  | map entries => '{' :: List.intercalate [',', ' '] (displayEntries entries) ++ ['}']

/-- The items of a list, each as diagnostics show it. -/
def displayItems : List Value → List (List Char)
  | [] => []
  | v :: rest => display v :: displayItems rest

/-- The entries of a mapping, each as diagnostics show it. -/
def displayEntries : List (Value × Value) → List (List Char)
  | [] => []
  | (k, v) :: rest => (display k ++ ':' :: ' ' :: display v) :: displayEntries rest

end

end Value

end Stencil
