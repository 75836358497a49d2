import Stencil.Render.Arguments
import Stencil.Render.Container
import Stencil.Template.Basic

/-!
# Rendering templates

* `Field.render` — a field with its arguments.
* `Template.render` — a compiled template, from left to right up to the first failure.
* `formatWith`, `format` — a template from its text, with options or without.
-/

namespace Stencil

/-- The text of a field. -/
def Field.render (options : Options) (args : List Value) (field : Field) : Picking (List Char) := do
  let request ← field.request args
  renderValue options request.layers request.element request.value

/-- The text of the segments from a cursor on. -/
def renderFrom (options : Options) (args : List Value) :
    Cursor → Template Field → Except FormatError (List Char)
  | _, [] => .ok []
  | cursor, .literal text :: rest => do
    let rest ← renderFrom options args cursor rest
    return text.toList ++ rest
  | cursor, .field field :: rest => do
    let (text, cursor) ← (field.render options args cursor).mapError (.inField field.raw)
    let rest ← renderFrom options args cursor rest
    return text ++ rest

/-- The text of a compiled template; the first argument doubles as the mapping of named fields. -/
def Template.render (template : Template Field) (args : List Value) (options : Options) :
    Except FormatError String :=
  (renderFrom options args {} template).map String.ofList

/-- The text of a template with options. -/
def formatWith (template : String) (args : List Value) (options : Options) :
    Except FormatError String := do
  let compiled ← compile template
  Template.render compiled args options

/-- The text of a template with default options. -/
def format (template : String) (args : List Value) : Except FormatError String :=
  formatWith template args {}

end Stencil
