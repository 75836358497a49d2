import Stencil.Checked.Written
import Stencil.Render.Container

/-!
# Values by positions

Scalars, and containers whose depth is counted and whose layers are found by their positions. All
counts, differences and positions are checked.

* `renderScalar` — any value that is not a container.
* `depthUpTo` — how deep a value is nested, up to a limit.
* `Frame.layerAt`, `Frame.elementAt` — the layer of a level, and the element of a scalar on it.
* `layOutContainer`, `layOut`, `renderValue` — a container and any value at a level, and a value in
  the presentation of its field.
-/

namespace Stencil.Checked

/-! ## Scalars -/

/-- A text cut to the precision and padded to the width, on the right unless told otherwise. -/
def renderText (text : List Char) (element : Element Nat) : Checked Fault (List Char) :=
  let cut :=
    match element.precision with
    | some most => text.take most
    | none => text
  pad cut element.width (element.fill.getD ' ') (element.align.getD .left)

/-- A number that stands for the given value, in its presentation. -/
def renderQuantity (q : Quantity) (v : Value) (element : Element Nat) (options : Options) :
    Checked Fault (List Char) := do
  let layout ← mapRefusal (Obstacle.fault v) (Layout.ofQuantity q element)
  layout.written element options

/-- A value under `c`. -/
def renderCharacter (v : Value) (element : Element Nat) : Checked Fault (List Char) :=
  match v.singleChar? with
  | some c => renderText [c] element
  | none =>
    match v.integer? with
    | some point =>
      match charOfPoint? point with
      | some c => renderText [c] element
      | none => ofResult (.error (.invalidCodePoint (String.ofList v.display)))
    | none => ofResult (.error (unsupported v element.type))

/-- A value without a type code. -/
def renderByKind (v : Value) (element : Element Nat) (options : Options) :
    Checked Fault (List Char) :=
  match v.text? with
  | some text => do
    ofResult (element.checkFor .text)
    renderText text element
  | none =>
    match v.quantity? with
    | some q => do
      ofResult (element.checkFor q.valueClass)
      renderQuantity q v element options
    | none => ofResult (.error (unsupported v element.type))

/-- A value under a code that takes numbers. -/
def renderNumber (v : Value) (element : Element Nat) (options : Options) :
    Checked Fault (List Char) :=
  match v.quantity? with
  | some q => renderQuantity q v element options
  | none => ofResult (.error (unsupported v element.type))

/-- A value that is not a container, in its presentation. -/
def renderScalar (v : Value) (element : Element Nat) (options : Options) :
    Checked Fault (List Char) :=
  match element.type with
  | .byKind => renderByKind v element options
  | .text =>
    match v.text? with
    | some text => renderText text element
    | none => ofResult (.error (unsupported v element.type))
  | .character => renderCharacter v element
  | .decimal | .localeInteger | .binary _ | .octal | .hex _ =>
    match v.singleChar? with
    | some c => renderQuantity (.integer c.toNat) v element options
    | none => renderNumber v element options
  | .exponent _ | .fixed _ | .percent | .general _ | .hexFloat _ => renderNumber v element options

/-! ## Depth -/

section Depth

variable {ε : Type}

mutual

/-- The depth of a value, looking at most `limit + 1` levels below it. -/
def depthUpTo (limit : Nat) : Value → Checked ε Nat
  | .list items => do
    let below ← itemsDepthUpTo limit items
    sum 1 below
  | .map entries => do
    let below ← entriesDepthUpTo limit entries
    sum 1 below
  | _ => .ok 0

/-- The greatest depth among the items of a list, looking at most `limit` levels below them. -/
def itemsDepthUpTo (limit : Nat) : List Value → Checked ε Nat
  | [] => .ok 0
  | v :: rest => do
    let here ←
      if limit = 0 then .ok v.isContainer.toNat
      else
        let less ← difference limit 1
        depthUpTo less v
    let others ← itemsDepthUpTo limit rest
    return max here others

/-- The greatest depth among the values of entries, looking at most `limit` levels below them. -/
def entriesDepthUpTo (limit : Nat) : List (Value × Value) → Checked ε Nat
  | [] => .ok 0
  | (_, v) :: rest => do
    let here ←
      if limit = 0 then .ok v.isContainer.toNat
      else
        let less ← difference limit 1
        depthUpTo less v
    let others ← entriesDepthUpTo limit rest
    return max here others

end

end Depth

/-! ## Frames -/

/-- The layer of a level, counted from the innermost one. -/
def layerAt (frame : Frame) (level : Nat) : Checked Fault (Layer Nat) := do
  let fromInnermost ← difference frame.depth level
  if fromInnermost ≤ frame.layers.length then
    let position ← difference frame.layers.length fromInnermost
    item frame.layers position
  else return {}

/-- The element of a scalar at a level. -/
def elementAt (frame : Frame) (level : Nat) : Checked Fault (Element Nat) :=
  if level = frame.depth then .ok frame.element
  else do
    let deepest ← difference frame.depth 1
    let innermost ← layerAt frame deepest
    return frame.element.paddedLike innermost

/-- How many layers are left over at the outer end. -/
def leftOver (layers : List (Layer Nat)) (depth : Nat) : Checked Fault Nat :=
  if depth < layers.length then difference layers.length depth else .ok 0

/-- The frame of a value, if the value is not nested too deep. Layers that are left over are
counted and have no further use. -/
def frameOf (options : Options) (layers : List (Layer Nat)) (element : Element Nat) (v : Value) :
    Checked Fault Frame := do
  let depth ← depthUpTo options.maxDepth v
  if options.maxDepth < depth then ofResult (.error (.nestingTooDeep options.maxDepth))
  else
    let _ ← leftOver layers depth
    return { layers, element, depth }

/-- The parts of a container under a layer: joined, in brackets and padded. -/
def wrap (layer : Layer Nat) (ofMap : Bool) (parts : List (List Char)) :
    Checked Fault (List Char) :=
  pad (layer.kind.enclose ofMap (layer.kind.join parts)) layer.width (layer.fill.getD ' ')
    (layer.align.getD .left)

/-! ## Values -/

mutual

/-- A container at a level of a frame. -/
def layOutContainer (options : Options) (frame : Frame) (level : Nat) :
    Value → Checked Fault (List Char)
  | .list items => do
    let layer ← layerAt frame level
    let below ← sum level 1
    let parts ← layOutItems options frame below items
    wrap layer false parts
  | .map entries => do
    let layer ← layerAt frame level
    let below ← sum level 1
    let parts ← layOutEntries options frame below layer.kind entries
    wrap layer true parts
  | _ => ofResult (.error (.internal "scalar value at a container level"))

/-- The items of a list. -/
def layOutItems (options : Options) (frame : Frame) (level : Nat) :
    List Value → Checked Fault (List (List Char))
  | [] => .ok []
  | v :: rest => do
    let part ←
      (if v.isContainer then layOutContainer options frame level v
      else do
        let element ← elementAt frame level
        renderScalar v element options)
    let parts ← layOutItems options frame level rest
    return part :: parts

/-- The entries of a mapping; the key comes before the value. -/
def layOutEntries (options : Options) (frame : Frame) (level : Nat) (kind : ContainerKind) :
    List (Value × Value) → Checked Fault (List (List Char))
  | [] => .ok []
  | (k, v) :: rest => do
    let key ←
      (if k.isContainer then do
        let own ← frameOf options [] {} k
        layOutContainer options own 0 k
      else renderScalar k {} options)
    let item ←
      (if v.isContainer then layOutContainer options frame level v
      else do
        let element ← elementAt frame level
        renderScalar v element options)
    let parts ← layOutEntries options frame level kind rest
    return kind.entry key item :: parts

end

/-- A value at a level of a frame. -/
def layOut (options : Options) (frame : Frame) (level : Nat) (v : Value) :
    Checked Fault (List Char) :=
  if v.isContainer then layOutContainer options frame level v
  else do
    let element ← elementAt frame level
    renderScalar v element options

/-- A value in the presentation of its field. -/
def renderValue (options : Options) (layers : List (Layer Nat)) (element : Element Nat)
    (v : Value) : Checked Fault (List Char) :=
  if v.isContainer then do
    let frame ← frameOf options layers element v
    layOutContainer options frame 0 v
  else renderScalar v element options

end Stencil.Checked
