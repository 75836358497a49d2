import Stencil.Checked.Container
import Stencil.Render.Template

/-!
# Templates by positions

A template is scanned by offsets in bytes, its fields take arguments by positions, and its text is
put together from left to right, every offset, position and count checked.

* `fieldEnd`, `scanFrom`, `tokenize` — the tokens of a template.
* `Picking`, `pick`, `request` — the arguments of a field.
* `render` — a compiled template.
* `formatWith` — a template from its text.
-/

namespace Stencil.Checked

variable {ε : Type}

/-! ## Scanning -/

/-- How many bytes of a text that has `depth` braces open stand before the brace that closes them;
none if a third brace opens or the text ends. -/
def fieldEnd (depth offset : Nat) : List Char → Checked ε (Option Nat)
  | [] => .ok none
  | '{' :: text => do
    let depth ← sum depth 1
    if 2 < depth then return none else fieldEnd depth (offset + 1) text
  | '}' :: text => do
    let depth ← difference depth 1
    if depth = 0 then return some offset else fieldEnd depth (offset + 1) text
  | c :: text => fieldEnd depth (offset + c.utf8Size) text

/-- Refuses a template for the brace at an offset; the position counts characters. -/
def unbalanced {α : Type} (template : List Char) (offset : Nat) : Checked Nat α := do
  let front ← upTo offset template
  ofResult (.error front.length)

/-- The text of the field that opens at an offset of the template, and the text behind it. -/
def field (template : List Char) (opening : Nat) : Checked Nat (List Char × List Char) := do
  let text ← behind opening template
  match ← fieldEnd 0 0 text with
  | none => unbalanced template opening
  | some length =>
    let closing ← sum opening length
    let start ← sum opening 1
    let inner ← between start closing template
    let after ← sum closing 1
    let rest ← behind after template
    return (inner, rest)

/-- The tokens of the part of a template that is left. -/
def scanFrom (template : List Char) : List Char → Checked Nat (List Token)
  | [] => .ok []
  | '{' :: '{' :: text => do
    let rest ← behind 2 ('{' :: '{' :: text)
    if _h : rest.length ≤ text.length then
      let tokens ← scanFrom template rest
      return Token.consChar '{' tokens
    else .error (.breach .stalled)
  | '}' :: '}' :: text => do
    let rest ← behind 2 ('}' :: '}' :: text)
    if _h : rest.length ≤ text.length then
      let tokens ← scanFrom template rest
      return Token.consChar '}' tokens
    else .error (.breach .stalled)
  | '}' :: text => do
    let offset ← difference (bytes template) (bytes ('}' :: text))
    unbalanced template offset
  | '{' :: text => do
    let offset ← difference (bytes template) (bytes ('{' :: text))
    let (inner, rest) ← field template offset
    if _h : rest.length ≤ text.length then
      let tokens ← scanFrom template rest
      return .field inner :: tokens
    else .error (.breach .stalled)
  | c :: text => do
    let tokens ← scanFrom template text
    return Token.consChar c tokens
termination_by text => text.length
decreasing_by all_goals simp only [List.length_cons]; omega

/-- The tokens of a template. -/
def tokenize (template : String) : Checked FormatError (List Token) :=
  mapRefusal (.unbalancedBrace template) (scanFrom template.toList template.toList)

/-- The segments of a template. -/
def compile (template : String) : Checked FormatError (Template Field) := do
  let tokens ← tokenize template
  ofResult (tokens.mapM compileToken)

/-! ## Picking arguments -/

/-- A step that picks arguments. -/
abbrev Picking := StateT Cursor (Checked Fault)

/-- A step that has no arithmetic to check. -/
def ofPicking {α : Type} (step : Stencil.Picking α) : Picking α := fun cursor =>
  ofResult (step cursor)

/-- The position of the next argument in order. -/
def advance : Picking Nat := fun cursor => do
  let next ← sum cursor.next 1
  return (cursor.next, { cursor with next })

section Picking

variable (args : List Value)

/-- The argument of a selector. -/
def pick : Selector → Picking Value
  | .auto => do
    ofPicking (Stencil.Picking.enter .automatic)
    let index ← advance
    ofResult (Stencil.Picking.positional args index)
  | .index index => ofPicking (Stencil.Picking.pick args (.index index))
  | .name name => ofPicking (Stencil.Picking.pick args (.name name))

/-- The number behind a width or precision. -/
def pickCount : Option Count → Picking (Option Nat)
  | none => return none
  | some (.literal n) => return some n
  | some (.ref selector) => do
    let v ← pick args selector
    let n ← ofResult (Stencil.Picking.countOf v)
    return some n

/-- A layer with its width looked up. -/
def pickLayer (layer : Layer Count) : Picking (Layer Nat) := do
  let width ← pickCount args layer.width
  return { fill := layer.fill, align := layer.align, width, kind := layer.kind }

/-- An element with its width and precision looked up, in this order. -/
def pickElement (element : Element Count) : Picking (Element Nat) := do
  let width ← pickCount args element.width
  let precision ← pickCount args element.precision
  return { element with width, precision }

/-- Looks up everything a field refers to. -/
def request (field : Field) : Picking Request := do
  let value ← pick args field.selector
  let layers ← field.layers.mapM (pickLayer args)
  let element ← pickElement args field.element
  return { value, layers, element }

end Picking

/-! ## Rendering -/

/-- The text of a field. -/
def renderField (options : Options) (args : List Value) (field : Field) : Picking (List Char) := do
  let request ← request args field
  renderValue options request.layers request.element request.value

/-- The text of the segments from a cursor on. -/
def renderFrom (options : Options) (args : List Value) :
    Cursor → Template Field → Checked FormatError (List Char)
  | _, [] => .ok []
  | cursor, .literal text :: rest => do
    let rest ← renderFrom options args cursor rest
    return text.toList ++ rest
  | cursor, .field field :: rest => do
    let (text, cursor) ← mapRefusal (.inField field.raw) (renderField options args field cursor)
    let rest ← renderFrom options args cursor rest
    return text ++ rest

/-- The text of a compiled template. -/
def render (template : Template Field) (args : List Value) (options : Options) :
    Checked FormatError String :=
  (renderFrom options args {} template).map String.ofList

/-- The text of a template with options. -/
def formatWith (template : String) (args : List Value) (options : Options) :
    Checked FormatError String := do
  let compiled ← compile template
  render compiled args options

end Stencil.Checked
