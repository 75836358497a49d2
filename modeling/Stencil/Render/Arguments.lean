import Stencil.Error
import Stencil.Value

/-!
# Picking arguments

Fields are served in order. A field without a selector takes the next argument, a position takes
that argument, and the two do not mix in one template. A name looks into the mapping that is passed
first. Widths and precisions are picked the same way, right after the value of their field: those of
the layers, outermost first, then width and precision of the element.

* `Cursor` — what has been picked so far.
* `Picking` — a step that moves the cursor or fails.
* `pick`, `pickCount` — an argument, and the number behind a count.
* `Request` — a field with everything it refers to.
-/

namespace Stencil

/-- How a template refers to arguments by position. -/
inductive Numbering where
  | automatic
  | manual
  deriving DecidableEq, Repr

/-- The next argument in order, and the numbering that is in use. -/
structure Cursor where
  next : Nat := 0
  numbering : Option Numbering := none
  deriving DecidableEq, Repr

/-- A step that picks arguments. -/
abbrev Picking := StateT Cursor (Except Fault)

/-- The natural number a value is, if it fits a machine word. -/
def Value.word? : Value → Option Nat
  | .int v | .big v => if 0 ≤ v ∧ v.toNat < wordLimit then some v.toNat else none
  | _ => none

namespace Picking

variable (args : List Value)

/-- Decides on a numbering; it has to be the one that is in use. -/
def enter (numbering : Numbering) : Picking Unit := fun cursor =>
  match cursor.numbering with
  | none => .ok ((), { cursor with numbering := some numbering })
  | some current => if current = numbering then .ok ((), cursor) else .error .mixedNumbering

/-- The position of the next argument in order. -/
def advance : Picking Nat := fun cursor =>
  .ok (cursor.next, { cursor with next := cursor.next + 1 })

/-- The argument at a position. -/
def positional (index : Nat) : Except Fault Value :=
  match args[index]? with
  | some v => .ok v
  | none => .error (.indexOutOfRange index args.length)

/-- What the first argument holds under a name. -/
def named (name : String) : Except Fault Value :=
  match args.head?.bind (·.get? name) with
  | some v => .ok v
  | none => .error (.unknownName name)

/-- The argument of a selector. -/
def pick : Selector → Picking Value
  | .auto => do
    enter .automatic
    let index ← advance
    positional args index
  | .index index => do
    enter .manual
    positional args index
  | .name name => named args name

/-- The number that an argument gives for a width or precision. -/
def countOf (v : Value) : Except Fault Nat :=
  match v.word? with
  | some n => if maxCount < n then .error (.countTooLarge n maxCount) else .ok n
  | none => .error (.invalidReference (v.kind ++ " " ++ String.ofList v.display))

/-- The number behind a width or precision. -/
def pickCount : Option Count → Picking (Option Nat)
  | none => return none
  | some (.literal n) => return some n
  | some (.ref selector) => do
    let v ← pick args selector
    let n ← countOf v
    return some n

/-- A layer with its width looked up. -/
def pickLayer (layer : Layer Count) : Picking (Layer Nat) := do
  let width ← pickCount args layer.width
  return { fill := layer.fill, align := layer.align, width, kind := layer.kind }

/-- An element with its width and precision looked up, in this order. -/
def pickElement (element : Element Count) : Picking (Element Nat) := do
  let width ← pickCount args element.width
  let precision ← pickCount args element.precision
  return { element with width, precision }

end Picking

/-- A field with its value and all its numbers. -/
structure Request where
  value : Value
  layers : List (Layer Nat)
  element : Element Nat

/-- Looks up everything a field refers to. -/
def Field.request (args : List Value) (field : Field) : Picking Request := do
  let value ← Picking.pick args field.selector
  let layers ← field.layers.mapM (Picking.pickLayer args)
  let element ← Picking.pickElement args field.element
  return { value, layers, element }

end Stencil
