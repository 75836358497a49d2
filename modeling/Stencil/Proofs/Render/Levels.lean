import Mathlib.Data.List.Basic
import Stencil.Render.Container.Lemmas

/-!
# Layers and levels

The renderer measures a value once and then finds the layer of a level by counting from the end of
the layer list. Here the same is done from the outside in, without counting: the list is first
brought to one layer for every level, then each container takes the head and leaves the tail to what
it holds.

* `levelLayers` — one layer for every level, outermost first.
* `Value.dress` — a value under the layers of its own level and of those below it.
* `Value.Holds` — what stands how many levels below a value.
* `layOut_eq_dress` — the two agree as long as the levels suffice for the value.
* `renderValue_levels` — they agree on every value that is not nested too deep, and the renderer
  never looks for a layer where there is none.
-/

namespace Stencil

/-! ## Depth -/

namespace Value

theorem isContainer_toNat (v : Value) : v.isContainer.toNat = min v.depth 1 := by
  cases v <;> simp [isContainer, depth]

mutual

/-- The bounded depth is the depth, cut off two levels past the limit. -/
theorem depthUpTo_eq_min (limit : Nat) (v : Value) :
    v.depthUpTo limit = min v.depth (limit + 2) := by
  cases v with
  | list items =>
    have hitems := itemsDepthUpTo_eq_min limit items
    simp only [depthUpTo, depth]
    omega
  | map entries =>
    have hentries := entriesDepthUpTo_eq_min limit entries
    simp only [depthUpTo, depth]
    omega
  | _ => simp [depthUpTo, depth]

theorem itemsDepthUpTo_eq_min (limit : Nat) (items : List Value) :
    itemsDepthUpTo limit items = min (itemsDepth items) (limit + 1) := by
  cases items with
  | nil => simp [itemsDepthUpTo, itemsDepth]
  | cons v rest =>
    have hrest := itemsDepthUpTo_eq_min limit rest
    have hv := depthUpTo_eq_min (limit - 1) v
    have hflat := isContainer_toNat v
    simp only [itemsDepthUpTo, itemsDepth]
    split <;> omega

theorem entriesDepthUpTo_eq_min (limit : Nat) (entries : List (Value × Value)) :
    entriesDepthUpTo limit entries = min (entriesDepth entries) (limit + 1) := by
  cases entries with
  | nil => simp [entriesDepthUpTo, entriesDepth]
  | cons entry rest =>
    obtain ⟨k, v⟩ := entry
    have hrest := entriesDepthUpTo_eq_min limit rest
    have hv := depthUpTo_eq_min (limit - 1) v
    have hflat := isContainer_toNat v
    simp only [entriesDepthUpTo, entriesDepth]
    split <;> omega

end

theorem depth_pos {v : Value} (h : v.isContainer = true) : 0 < v.depth := by
  have hflat := isContainer_toNat v
  rw [h, Bool.toNat_true] at hflat
  omega

theorem depth_le_itemsDepth {items : List Value} {v : Value} (h : v ∈ items) :
    v.depth ≤ itemsDepth items := by
  induction items with
  | nil => cases h
  | cons w rest ih =>
    simp only [itemsDepth]
    rcases List.mem_cons.1 h with rfl | h
    · omega
    · have := ih h
      omega

theorem depth_le_entriesDepth {entries : List (Value × Value)} {k v : Value}
    (h : (k, v) ∈ entries) : v.depth ≤ entriesDepth entries := by
  induction entries with
  | nil => cases h
  | cons entry rest ih =>
    obtain ⟨k', w⟩ := entry
    simp only [entriesDepth]
    rcases List.mem_cons.1 h with h | h
    · cases h
      omega
    · have := ih h
      omega

/-- A value holds another one a number of levels below itself, through items of lists and values of
entries. -/
inductive Holds : Value → Nat → Value → Prop where
  | here (v : Value) : Holds v 0 v
  | item {items : List Value} {v w : Value} {k : Nat} (hv : v ∈ items) (h : Holds v k w) :
      Holds (list items) (k + 1) w
  | entry {entries : List (Value × Value)} {key v w : Value} {k : Nat}
      (hv : (key, v) ∈ entries) (h : Holds v k w) : Holds (map entries) (k + 1) w

/-- What a value holds fits into its depth. -/
theorem Holds.add_depth_le {v w : Value} {k : Nat} (h : v.Holds k w) : k + w.depth ≤ v.depth := by
  induction h with
  | here v => omega
  | item hv _ ih =>
    have hitem := depth_le_itemsDepth hv
    simp only [depth]
    omega
  | entry hv _ ih =>
    have hentry := depth_le_entriesDepth hv
    simp only [depth]
    omega

end Value

/-! ## A layer for every level -/

/-- The last `depth` layers, behind plain ones where there are fewer. -/
def levelLayers (depth : Nat) (layers : List (Layer Nat)) : List (Layer Nat) :=
  List.replicate (depth - layers.length) ({} : Layer Nat) ++ layers.drop (layers.length - depth)

@[simp]
theorem length_levelLayers (depth : Nat) (layers : List (Layer Nat)) :
    (levelLayers depth layers).length = depth := by
  rw [levelLayers, List.length_append, List.length_replicate, List.length_drop]
  omega

/-- Counted from the outside, a level is as far from the end of the list as the layer is that the
renderer counts off from the inside. -/
theorem getElem?_levelLayers {depth level : Nat} (layers : List (Layer Nat)) (h : level < depth) :
    (levelLayers depth layers)[level]? = some (layers.reverse[depth - 1 - level]?.getD {}) := by
  rw [levelLayers, List.getElem?_append, List.length_replicate]
  split
  · rename_i hplain
    rw [List.getElem?_replicate, if_pos hplain, List.getElem?_eq_none]
    · rfl
    · rw [List.length_reverse]
      omega
  · have hindex : depth - 1 - level < layers.length := by omega
    rw [List.getElem?_drop, List.getElem?_reverse hindex]
    have hsame : layers.length - depth + (level - (depth - layers.length)) =
        layers.length - 1 - (depth - 1 - level) := by omega
    have hlt : layers.length - 1 - (depth - 1 - level) < layers.length := by omega
    rw [hsame, List.getElem?_eq_getElem hlt, Option.getD_some]

theorem getElem?_levelLayers_of_le {depth level : Nat} {layers : List (Layer Nat)}
    (h : level < depth) (hlisted : depth - level ≤ layers.length) :
    (levelLayers depth layers)[level]? = layers[layers.length - (depth - level)]? := by
  have hskip : depth - layers.length ≤ level := by omega
  have hsame : layers.length - depth + (level - (depth - layers.length)) =
      layers.length - (depth - level) := by omega
  rw [levelLayers, List.getElem?_append_right (by simpa using hskip), List.getElem?_drop,
    List.length_replicate, hsame]

/-- Layers are the same for every level if they are when counted from the inside. -/
theorem levelLayers_congr {depth : Nat} {layers layers' : List (Layer Nat)}
    (h : ∀ i < depth, layers.reverse[i]?.getD {} = layers'.reverse[i]?.getD {}) :
    levelLayers depth layers = levelLayers depth layers' := by
  refine List.ext_getElem? fun level => ?_
  by_cases hlevel : level < depth
  · rw [getElem?_levelLayers layers hlevel, getElem?_levelLayers layers' hlevel,
      h _ (by omega)]
  · rw [List.getElem?_eq_none (by simpa using hlevel), List.getElem?_eq_none (by simpa using hlevel)]

theorem levelLayers_append {depth : Nat} (outer : List (Layer Nat)) {layers : List (Layer Nat)}
    (h : depth ≤ layers.length) :
    levelLayers depth (outer ++ layers) = levelLayers depth layers := by
  refine levelLayers_congr fun i hi => ?_
  rw [List.reverse_append, List.getElem?_append_left (by rw [List.length_reverse]; omega)]

theorem levelLayers_replicate_append (depth n : Nat) (layers : List (Layer Nat)) :
    levelLayers depth (List.replicate n ({} : Layer Nat) ++ layers) = levelLayers depth layers := by
  refine levelLayers_congr fun i _ => ?_
  rw [List.reverse_append, List.reverse_replicate, List.getElem?_append]
  split
  · rfl
  · rename_i hi
    rw [List.getElem?_eq_none (Nat.le_of_not_lt hi), List.getElem?_replicate]
    split <;> rfl

/-! ## From the outside in -/

/-- The element of a scalar that has these layers left: none at the deepest level, where it is the
element of the field; anywhere else it is padded like the innermost container. -/
def Element.under (element : Element Nat) (layers : List (Layer Nat)) : Element Nat :=
  match layers.getLast? with
  | none => element
  | some innermost => element.paddedLike innermost

mutual

/-- A value under the layers from its own level on. A container takes the first of them and leaves
the others to what it holds. -/
def Value.dress (options : Options) (element : Element Nat) (layers : List (Layer Nat)) :
    Value → Except Fault (List Char)
  | .list items => do
    let parts ← dressItems options element layers.tail items
    return (layers.headD {}).wrap false parts
  | .map entries => do
    let parts ← dressEntries options element layers.tail (layers.headD {}).kind entries
    return (layers.headD {}).wrap true parts
  | v => renderScalar v (element.under layers) options

/-- The items of a list, from left to right. -/
def dressItems (options : Options) (element : Element Nat) (layers : List (Layer Nat)) :
    List Value → Except Fault (List (List Char))
  | [] => .ok []
  | v :: rest => do
    let part ← Value.dress options element layers v
    let parts ← dressItems options element layers rest
    return part :: parts

/-- The entries of a mapping, from left to right and keys first. Keys have a depth of their own and
nothing but plain layers. -/
def dressEntries (options : Options) (element : Element Nat) (layers : List (Layer Nat))
    (kind : ContainerKind) : List (Value × Value) → Except Fault (List (List Char))
  | [] => .ok []
  | (k, v) :: rest => do
    let key ←
      if options.maxDepth < k.depth then .error (.nestingTooDeep options.maxDepth)
      else Value.dress options {} (levelLayers k.depth []) k
    let item ← Value.dress options element layers v
    let parts ← dressEntries options element layers kind rest
    return kind.entry key item :: parts

end

/-! ## Frames -/

/-- The frame of a value, whatever its depth is. -/
def Value.frame (v : Value) (layers : List (Layer Nat)) (element : Element Nat) : Frame :=
  { layers, element, depth := v.depth }

namespace Frame

/-- The layers of a frame from a level on. -/
def below (frame : Frame) (level : Nat) : List (Layer Nat) :=
  (levelLayers frame.depth frame.layers).drop level

@[simp]
theorem tail_below (frame : Frame) (level : Nat) :
    (frame.below level).tail = frame.below (level + 1) := by
  rw [below, below, List.tail_drop]

/-- Above the deepest level the renderer finds the layer of a level. -/
theorem getElem?_layerAt (frame : Frame) {level : Nat} (h : level < frame.depth) :
    (levelLayers frame.depth frame.layers)[level]? = some (frame.layerAt level) := by
  rw [layerAt]
  split
  · rename_i hlisted
    have hposition : frame.layers.length - (frame.depth - level) < frame.layers.length := by omega
    rw [getElem?_levelLayers_of_le h hlisted, List.getElem?_eq_getElem hposition,
      List.getD_eq_getElem?_getD, List.getElem?_eq_getElem hposition, Option.getD_some]
  · rw [getElem?_levelLayers frame.layers h, List.getElem?_eq_none]
    · rfl
    · rw [List.length_reverse]
      omega

theorem layerAt_eq_head {frame : Frame} {level : Nat} (h : level < frame.depth) :
    frame.layerAt level = (frame.below level).headD {} := by
  rw [below, List.headD_eq_head?_getD, List.head?_drop, frame.getElem?_layerAt h, Option.getD_some]

theorem elementAt_of_lt (frame : Frame) {level : Nat} (h : level < frame.depth) :
    frame.elementAt level = frame.element.paddedLike (frame.layerAt (frame.depth - 1)) :=
  if_neg (Nat.ne_of_lt h)

theorem elementAt_eq_under {frame : Frame} {level : Nat} (h : level ≤ frame.depth) :
    frame.elementAt level = frame.element.under (frame.below level) := by
  rw [Element.under, below, List.getLast?_drop, length_levelLayers]
  rcases Nat.eq_or_lt_of_le h with hlevel | hlevel
  · rw [if_pos (Nat.le_of_eq hlevel.symm), elementAt, if_pos hlevel]
  · have hlast : frame.depth - 1 < frame.depth := by omega
    rw [if_neg (Nat.not_le_of_lt hlevel), List.getLast?_eq_getElem?, length_levelLayers,
      frame.getElem?_layerAt hlast, frame.elementAt_of_lt hlevel]

theorem of_eq (options : Options) (layers : List (Layer Nat)) (element : Element Nat) (v : Value) :
    Frame.of options layers element v =
      if options.maxDepth < v.depth then .error (.nestingTooDeep options.maxDepth)
      else .ok (v.frame layers element) := by
  have hdepth := v.depthUpTo_eq_min options.maxDepth
  simp only [Frame.of]
  by_cases h : options.maxDepth < v.depth
  · rw [if_pos h, if_pos (by omega)]
  · have hsame : v.depthUpTo options.maxDepth = v.depth := by omega
    rw [if_neg h, hsame, if_neg h, Value.frame]

end Frame

/-! ## Agreement -/

mutual

/-- A value at a level comes out as under the layers from that level on. -/
theorem layOut_eq_dress (options : Options) (frame : Frame) (level : Nat) (v : Value)
    (h : level + v.depth ≤ frame.depth) :
    v.layOut options frame level = v.dress options frame.element (frame.below level) := by
  cases v with
  | list items =>
    rw [Value.depth] at h
    rw [Value.layOut_list, Value.dress, Frame.layerAt_eq_head (by omega), Frame.tail_below,
      ← layOutItems_eq_dressItems options frame (level + 1) items (by omega)]
  | map entries =>
    rw [Value.depth] at h
    rw [Value.layOut_map, Value.dress, Frame.layerAt_eq_head (by omega), Frame.tail_below,
      ← layOutEntries_eq_dressEntries options frame (level + 1) _ entries (by omega)]
  | _ =>
    have hlevel : level ≤ frame.depth := by omega
    rw [Value.layOut_scalar options frame level rfl, Frame.elementAt_eq_under hlevel]
    rfl

theorem layOutItems_eq_dressItems (options : Options) (frame : Frame) (level : Nat)
    (items : List Value) (h : level + Value.itemsDepth items ≤ frame.depth) :
    layOutItems options frame level items =
      dressItems options frame.element (frame.below level) items := by
  cases items with
  | nil => rfl
  | cons v rest =>
    rw [Value.itemsDepth] at h
    rw [layOutItems_cons, dressItems, layOut_eq_dress options frame level v (by omega),
      layOutItems_eq_dressItems options frame level rest (by omega)]

theorem layOutEntries_eq_dressEntries (options : Options) (frame : Frame) (level : Nat)
    (kind : ContainerKind) (entries : List (Value × Value))
    (h : level + Value.entriesDepth entries ≤ frame.depth) :
    layOutEntries options frame level kind entries =
      dressEntries options frame.element (frame.below level) kind entries := by
  cases entries with
  | nil => rfl
  | cons entry rest =>
    obtain ⟨k, v⟩ := entry
    rw [Value.entriesDepth] at h
    -- the key has a frame of its own, so its levels suffice whatever the level of the entry is
    have hkey := layOut_eq_dress options (k.frame [] {}) 0 k (by simp [Value.frame])
    rw [layOutEntries_cons, dressEntries, layOut_eq_dress options frame level v (by omega),
      layOutEntries_eq_dressEntries options frame level kind rest (by omega), Frame.ofKey,
      Frame.of_eq]
    split
    · rfl
    · simp only [bind, Except.bind, hkey]
      rfl

end

/-- A value is measured once, and then laid out from the outside in. -/
theorem renderValue_eq_ite (options : Options) (layers : List (Layer Nat)) (element : Element Nat)
    (v : Value) : renderValue options layers element v =
      if options.maxDepth < v.depth then .error (.nestingTooDeep options.maxDepth)
      else v.dress options element (levelLayers v.depth layers) := by
  have hlayOut := layOut_eq_dress options (v.frame layers element) 0 v (by simp [Value.frame])
  rw [renderValue_eq, Frame.of_eq]
  split
  · rfl
  · exact hlayOut

theorem renderValue_eq_dress {options : Options} (layers : List (Layer Nat)) (element : Element Nat)
    {v : Value} (h : v.depth ≤ options.maxDepth) :
    renderValue options layers element v = v.dress options element (levelLayers v.depth layers) := by
  rw [renderValue_eq_ite, if_neg (Nat.not_lt.2 h)]

/-- A value that is not nested too deep is laid out from the outside in, with a layer for each of
its levels. The renderer finds the layer of every container in the list or behind its end, it pads
scalars above the deepest level like the innermost container, and neither the layers that are left
over nor plain layers in front of the list make a difference. -/
theorem renderValue_levels {options : Options} (layers : List (Layer Nat)) (element : Element Nat)
    {v : Value} (h : v.depth ≤ options.maxDepth) :
    renderValue options layers element v = v.dress options element (levelLayers v.depth layers) ∧
      (∀ k w, v.Holds k w → w.isContainer = true →
        k < v.depth ∧ ∃ layer, (levelLayers v.depth layers)[k]? = some layer ∧
          (v.frame layers element).layerAt k = layer ∧
          (v.depth - k ≤ layers.length → layers[layers.length - (v.depth - k)]? = some layer)) ∧
      (∀ k w, v.Holds k w → w.isContainer = false →
        (k = v.depth ∧ (v.frame layers element).elementAt k = element) ∨
          (k < v.depth ∧ ∃ innermost, (levelLayers v.depth layers)[v.depth - 1]? = some innermost ∧
            (v.frame layers element).elementAt k = element.paddedLike innermost ∧
            (1 ≤ layers.length → layers[layers.length - 1]? = some innermost))) ∧
      (∀ outer, v.depth ≤ layers.length →
        renderValue options (outer ++ layers) element v = renderValue options layers element v) ∧
      ∀ n, renderValue options (List.replicate n ({} : Layer Nat) ++ layers) element v =
        renderValue options layers element v := by
  have hlisted {k : Nat} {layer : Layer Nat} (hk : k < v.depth)
      (hlayer : (levelLayers v.depth layers)[k]? = some layer)
      (hle : v.depth - k ≤ layers.length) :
      layers[layers.length - (v.depth - k)]? = some layer := by
    rw [← getElem?_levelLayers_of_le hk hle]
    exact hlayer
  refine ⟨renderValue_eq_dress layers element h, ?_, ?_, ?_, ?_⟩
  · intro k w hw hcontainer
    have hfits := hw.add_depth_le
    have hpos := Value.depth_pos hcontainer
    have hk : k < v.depth := by omega
    have hlayer := Frame.getElem?_layerAt (v.frame layers element) hk
    exact ⟨hk, _, hlayer, rfl, hlisted hk hlayer⟩
  · intro k w hw _
    have hfits := hw.add_depth_le
    rcases Nat.eq_or_lt_of_le (show k ≤ v.depth by omega) with hk | hk
    · exact .inl ⟨hk, if_pos hk⟩
    · have hlast : v.depth - 1 < v.depth := by omega
      have hlayer := Frame.getElem?_layerAt (v.frame layers element) hlast
      refine .inr ⟨hk, _, hlayer, Frame.elementAt_of_lt (v.frame layers element) hk, fun hle => ?_⟩
      have hposition := hlisted hlast hlayer (by omega)
      rwa [Nat.sub_sub_self (by omega : 1 ≤ v.depth)] at hposition
  · intro outer hlayers
    rw [renderValue_eq_dress _ element h, renderValue_eq_dress _ element h,
      levelLayers_append outer hlayers]
  · intro n
    rw [renderValue_eq_dress _ element h, renderValue_eq_dress _ element h,
      levelLayers_replicate_append]

/-- A mapping with a list inside a list, a number above them, and a list as a key. -/
def raggedValue : Value :=
  .map [(.text "a", .list [.int 1, .list [.int 2, .int 3]]), (.list [.int 4], .int 5)]

theorem renderValue_ragged :
    raggedValue.depth ≤ Options.maxDepth {} ∧
      renderValue {} [{ kind := .tuple }, { fill := some '*', width := some 12 }]
        { zeroPad := true, width := some 3 } raggedValue =
          .ok "\x7ba: [***********1, [002, 003]**], [4]: ***********5\x7d".toList := by
  have hdepth : raggedValue.depth ≤ Options.maxDepth {} := by decide +kernel
  refine ⟨hdepth, (renderValue_levels _ _ hdepth).1.trans ?_⟩
  decide +kernel

end Stencil
