import Stencil.Locale

/-!
# Options of a formatting call

* `OctalMark` — the radix mark of alternate octal numbers.
* `Options` — the locale, the octal mark and the deepest nesting that is rendered.
-/

namespace Stencil

/-- The radix mark of alternate octal numbers: `0o17`, or the older `017`, where zero stays `0`. -/
inductive OctalMark where
  | letter
  | bareZero
  deriving DecidableEq, Repr

/-- What one formatting call can choose; two calls with different options do not disturb each
other. -/
structure Options where
  locale : Locale := {}
  octalMark : OctalMark := .letter
  /-- The greatest number of containers inside each other. -/
  maxDepth : Nat := 64
  deriving DecidableEq, Repr

/-- Default options with the locale of a tag. -/
def Options.forLocale (tag : String) : Except LocaleError Options := do
  return { locale := ← Locale.resolve tag }

end Stencil
