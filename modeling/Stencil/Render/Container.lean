import Stencil.Render.Nesting
import Stencil.Render.Scalar

/-!
# Containers

The layers of a field are matched with the levels of a value from the inside out: the last layer
belongs to the deepest level, and levels that are left over are plain. Scalars at the deepest level
take the element of the field; one that stands higher up is padded like the innermost container.
Keys are rendered as values of their own, without any presentation.

* `Frame` — what stays the same inside one value: layers, element and depth.
* `ContainerKind.entry`, `ContainerKind.enclose` — joints and brackets.
* `Value.layOutContainer`, `Value.layOut` — a container, and any value, at a level of a frame.
* `renderValue` — a value in the presentation of its field.
-/

namespace Stencil

/-! ## Brackets and joints -/

namespace ContainerKind

/-- A key and a value as one part. -/
def entry (kind : ContainerKind) (key item : List Char) : List Char :=
  match kind with
  | .tuple => '{' :: key ++ [',', ' '] ++ item ++ ['}']
  | .flat => key ++ [' '] ++ item
  | .plain | .brace | .bare => key ++ [':', ' '] ++ item

/-- The parts of a container, joined. -/
def join (kind : ContainerKind) (parts : List (List Char)) : List Char :=
  List.intercalate (if kind = .flat then [] else [',', ' ']) parts

/-- The joined parts between the brackets of the kind. -/
def enclose (kind : ContainerKind) (ofMap : Bool) (text : List Char) : List Char :=
  match kind with
  | .bare | .flat => text
  | .tuple => '[' :: text ++ [']']
  | .brace => '{' :: text ++ ['}']
  | .plain => if ofMap then '{' :: text ++ ['}'] else '[' :: text ++ [']']

end ContainerKind

/-- The parts of a container under a layer: joined, in brackets and padded. -/
def Layer.wrap (layer : Layer Nat) (ofMap : Bool) (parts : List (List Char)) : List Char :=
  Text.pad (layer.kind.enclose ofMap (layer.kind.join parts)) layer.width (layer.fill.getD ' ')
    (layer.align.getD .left)

/-! ## Frames -/

/-- The presentation of a value and the depth that its layers are matched with. -/
structure Frame where
  layers : List (Layer Nat)
  element : Element Nat
  depth : Nat

namespace Frame

/-- The layer of a level, the value itself being level 0. Layers are counted from the deepest level,
which the last of them belongs to. -/
def layerAt (frame : Frame) (level : Nat) : Layer Nat :=
  let fromInnermost := frame.depth - level
  if fromInnermost ≤ frame.layers.length then
    frame.layers.getD (frame.layers.length - fromInnermost) {}
  else {}

/-- The element of the scalars at a level. -/
def elementAt (frame : Frame) (level : Nat) : Element Nat :=
  if level = frame.depth then frame.element
  else frame.element.paddedLike (frame.layerAt (frame.depth - 1))

/-- The frame of a value, if the value is not nested too deep. -/
def of (options : Options) (layers : List (Layer Nat)) (element : Element Nat) (v : Value) :
    Except Fault Frame :=
  let depth := v.depthUpTo options.maxDepth
  if options.maxDepth < depth then .error (.nestingTooDeep options.maxDepth)
  else .ok { layers, element, depth }

/-- The frame of a key: no layers, and a plain element. -/
def ofKey (options : Options) (key : Value) : Except Fault Frame :=
  of options [] {} key

end Frame

/-! ## Values -/

mutual

/-- A container at a level of a frame. -/
def Value.layOutContainer (options : Options) (frame : Frame) (level : Nat) :
    Value → Except Fault (List Char)
  | .list items => do
    let parts ← layOutItems options frame (level + 1) items
    return (frame.layerAt level).wrap false parts
  | .map entries => do
    let layer := frame.layerAt level
    let parts ← layOutEntries options frame (level + 1) layer.kind entries
    return layer.wrap true parts
  | _ => .error (.internal "scalar value at a container level")

/-- The items of a list. -/
def layOutItems (options : Options) (frame : Frame) (level : Nat) :
    List Value → Except Fault (List (List Char))
  | [] => .ok []
  | v :: rest => do
    let part ←
      (if v.isContainer then v.layOutContainer options frame level
      else renderScalar v (frame.elementAt level) options)
    let parts ← layOutItems options frame level rest
    return part :: parts

/-- The entries of a mapping; the key comes before the value. -/
def layOutEntries (options : Options) (frame : Frame) (level : Nat) (kind : ContainerKind) :
    List (Value × Value) → Except Fault (List (List Char))
  | [] => .ok []
  | (k, v) :: rest => do
    let key ←
      (if k.isContainer then do
        let own ← Frame.ofKey options k
        k.layOutContainer options own 0
      else renderScalar k {} options)
    let item ←
      (if v.isContainer then v.layOutContainer options frame level
      else renderScalar v (frame.elementAt level) options)
    let parts ← layOutEntries options frame level kind rest
    return kind.entry key item :: parts

end

/-- A value at a level of a frame. -/
def Value.layOut (options : Options) (frame : Frame) (level : Nat) (v : Value) :
    Except Fault (List Char) :=
  if v.isContainer then v.layOutContainer options frame level
  else renderScalar v (frame.elementAt level) options

/-- A value in the presentation of its field. -/
def renderValue (options : Options) (layers : List (Layer Nat)) (element : Element Nat)
    (v : Value) : Except Fault (List Char) :=
  if v.isContainer then do
    let frame ← Frame.of options layers element v
    v.layOutContainer options frame 0
  else renderScalar v element options

end Stencil
