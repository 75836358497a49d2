import Stencil.Field.Rules
import Stencil.Template.Token

/-!
# Templates

A compiled template is a list of segments: literal text, and the fields that have been read and
checked. What stands for a field is a parameter, so that fields can be shared between templates.

* `Segment`, `Template` — a compiled template.
* `parseField`, `compile` — fields and templates from their text.
-/

namespace Stencil

/-- A segment of a compiled template. -/
inductive Segment (φ : Type) where
  | literal (text : String)
  | field (content : φ)
  deriving DecidableEq, Repr

/-- A compiled template. -/
abbrev Template (φ : Type) := List (Segment φ)

/-- A segment with another kind of field in it. -/
def Segment.map {φ ψ : Type} (f : φ → ψ) : Segment φ → Segment ψ
  | literal text => literal text
  | field content => field (f content)

/-- The field of a text between braces. -/
def parseField (raw : String) : Except FormatError Field :=
  (Field.parse raw).mapError (.inField raw)

/-- The tokens of a template. -/
def tokenize (template : String) : Except FormatError (List Token) :=
  (Token.scan template.toList).mapError (.unbalancedBrace template)

/-- The segment of a token. -/
def compileToken : Token → Except FormatError (Segment Field)
  | .literal text => .ok (.literal (String.ofList text))
  | .field text => (parseField (String.ofList text)).map .field

/-- The segments of a template: its braces have to match, and then its fields are read in order. -/
def compile (template : String) : Except FormatError (Template Field) := do
  let tokens ← tokenize template
  tokens.mapM compileToken

end Stencil
