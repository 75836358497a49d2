/-!
# Locales

A locale says which character stands between whole part and fraction, and how digits are grouped.
A table holds the locales that are known by tag, such as `de_DE`; a tag may also use a hyphen, or
name a language alone, which stands for the first of its territories.

* `Locale` — decimal point, group separator and group sizes.
* `table`, `tags` — the known locales in the order of their tags.
* `resolve` — the locale of a tag.
* `LocaleError` — why a locale cannot be had.
-/

namespace Stencil

/-- The separators used by the type `n` and the flag `L`. -/
structure Locale where
  decimalPoint : Char := '.'
  /-- None disables grouping. -/
  groupSeparator : Option Char := some ','
  /-- Sizes from the point leftward; the last one repeats and a zero ends grouping. -/
  grouping : List Nat := [3]
  deriving DecidableEq, Repr

/-- Why a locale cannot be had. -/
inductive LocaleError where
  | notFound (tag : String)
  | malformedTable (reason : String)
  deriving DecidableEq, Repr

/-- The text of a locale error. -/
def LocaleError.message : LocaleError → String
  | notFound tag => "Locale not found: " ++ tag
  | malformedTable reason => "Error parsing locale data: " ++ reason

namespace Locale

/-- No grouping at all. -/
def ungrouped : Locale := { groupSeparator := none, grouping := [] }

/-- A comma as decimal point and the given separator between groups of three. -/
def withComma (separator : Char) : Locale :=
  { decimalPoint := ',', groupSeparator := some separator }

/-- The first group has three digits, all others two. -/
def indian : Locale := { grouping := [3, 2] }

/-- The known locales, in the order of their tags. -/
def table : List (String × Locale) :=
  [("C", ungrouped),
   ("POSIX", ungrouped),
   ("de_AT", withComma '\u00a0'),
   ("de_CH", { groupSeparator := some '\x27' }),
   ("de_DE", withComma '.'),
   ("en_GB", {}),
   ("en_IN", indian),
   ("en_US", {}),
   ("es_ES", withComma '.'),
   ("es_MX", {}),
   ("fr_CA", withComma '\u202f'),
   ("fr_FR", withComma '\u202f'),
   ("hi_IN", indian),
   ("it_IT", withComma '.'),
   ("ja_JP", {}),
   ("ko_KR", {}),
   ("nl_NL", withComma '.'),
   ("pl_PL", withComma '\u00a0'),
   ("pt_BR", withComma '.'),
   ("pt_PT", withComma '\u00a0'),
   ("ru_RU", withComma '\u00a0'),
   ("sv_SE", withComma '\u00a0'),
   ("zh_CN", {}),
   ("zh_TW", {})]

/-- The tags of the known locales, in order. -/
def tags : List String :=
  table.map (·.1)

/-- A tag with underscores for hyphens. -/
def normalizeTag (tag : List Char) : List Char :=
  tag.map fun c => if c = '-' then '_' else c

/-- The locale of a tag: an exact match, else the first territory of a bare language. -/
def resolve (tag : String) : Except LocaleError Locale :=
  let wanted := normalizeTag tag.toList
  let exact := table.find? fun entry => entry.1.toList == wanted
  let territory :=
    if '_' ∈ wanted then none
    else table.find? fun entry => (wanted ++ ['_']).isPrefixOf entry.1.toList
  match exact.or territory with
  | some (_, locale) => .ok locale
  | none => .error (.notFound tag)

end Locale

end Stencil
