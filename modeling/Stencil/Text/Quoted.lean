import Stencil.Text.Printable

/-!
# Quoted text

Diagnostics show strings between double quotes and characters between single quotes. Inside, a
character stands for itself unless it could be misread: the mark in use, the backslash and the
usual control characters are escaped by a letter, and whatever has no visible form of its own is
written by its code point in braces.

* `escapeChar` — how one character is written under a given mark.
* `quoteString`, `quoteChar` — a whole text between its marks.
-/

namespace Stencil.Text

/-- The lower-case hexadecimal digits of a number. -/
def hexDigits (n : Nat) : List Char :=
  Nat.toDigits 16 n

/-- A character inside quotation marks `mark`; the mark not in use needs no escape. -/
def escapeChar (mark c : Char) : List Char :=
  if c = '\x00' then ['\\', '0']
  else if c = '\t' then ['\\', 't']
  else if c = '\r' then ['\\', 'r']
  else if c = '\n' then ['\\', 'n']
  else if c = '\\' ∨ c = mark then ['\\', c]
  else if isShown c then [c]
  else ['\\', 'u', '{'] ++ hexDigits c.toNat ++ ['}']

/-- A string between double quotes. -/
def quoteString (s : List Char) : List Char :=
  '"' :: s.flatMap (escapeChar '"') ++ ['"']

/-- A character between single quotes. -/
def quoteChar (c : Char) : List Char :=
  '\x27' :: escapeChar '\x27' c ++ ['\x27']

end Stencil.Text
