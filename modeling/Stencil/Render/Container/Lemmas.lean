import Stencil.Render.Container

/-!
# Steps of laying out

A value at a level is a container there or a scalar, and so is each item, each value of an entry and
each key. The lemmas say this without the case: what is laid out inside a container is laid out as
any value is, and a value is rendered at the first level of its frame. No scalar is taken for a
container on the way.

* `layOut_list`, `layOut_map`, `layOut_scalar` — a value, by what it is.
* `layOutItems_cons`, `layOutEntries_cons` — the first item, and the first entry.
* `renderValue_eq` — a value in the presentation of its field.
-/

namespace Stencil

variable (options : Options) (frame : Frame) (level : Nat)

theorem Value.layOut_list (items : List Value) :
    (Value.list items).layOut options frame level = do
      let parts ← layOutItems options frame (level + 1) items
      return (frame.layerAt level).wrap false parts := by
  rw [layOut, isContainer, if_pos rfl, layOutContainer]

theorem Value.layOut_map (entries : List (Value × Value)) :
    (Value.map entries).layOut options frame level = do
      let parts ← layOutEntries options frame (level + 1) (frame.layerAt level).kind entries
      return (frame.layerAt level).wrap true parts := by
  rw [layOut, isContainer, if_pos rfl, layOutContainer]

theorem Value.layOut_scalar {v : Value} (hv : v.isContainer = false) :
    v.layOut options frame level = renderScalar v (frame.elementAt level) options := by
  rw [layOut, hv]
  rfl

/-- A scalar is never nested too deep. -/
theorem Frame.of_scalar (layers : List (Layer Nat)) (element : Element Nat) {v : Value}
    (hv : v.isContainer = false) :
    Frame.of options layers element v = .ok { layers, element, depth := 0 } := by
  have hdepth : v.depthUpTo options.maxDepth = 0 := by
    cases v with
    | list items => cases hv
    | map entries => cases hv
    | _ => rfl
  rw [Frame.of, hdepth]
  rfl

/-- A value is rendered at the first level of its frame. -/
theorem renderValue_eq (layers : List (Layer Nat)) (element : Element Nat) (v : Value) :
    renderValue options layers element v = (do
      let frame ← Frame.of options layers element v
      v.layOut options frame 0) := by
  cases hv : v.isContainer with
  | true =>
    rw [renderValue, hv, if_pos rfl]
    simp only [Value.layOut, hv, if_true]
  | false =>
    rw [renderValue, hv, Frame.of_scalar options layers element hv]
    exact (v.layOut_scalar options { layers, element, depth := 0 } 0 hv).symm

theorem layOutItems_cons (v : Value) (rest : List Value) :
    layOutItems options frame level (v :: rest) = do
      let part ← v.layOut options frame level
      let parts ← layOutItems options frame level rest
      return part :: parts := by
  rw [layOutItems]
  rfl

theorem layOutEntries_cons (kind : ContainerKind) (k v : Value) (rest : List (Value × Value)) :
    layOutEntries options frame level kind ((k, v) :: rest) = do
      let own ← Frame.ofKey options k
      let key ← k.layOut options own 0
      let item ← v.layOut options frame level
      let parts ← layOutEntries options frame level kind rest
      return kind.entry key item :: parts := by
  have hkey := renderValue_eq options [] {} k
  rw [renderValue] at hkey
  rw [layOutEntries]
  simp only [Frame.ofKey, hkey, bind_assoc]
  rfl

end Stencil
