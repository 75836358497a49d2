import Stencil.Checked.Container
import Stencil.Proofs.Checked.Written
import Stencil.Proofs.Render.Levels

/-!
# Values that follow positions

A value whose numbers and nesting can be held is rendered by positions as it is without them. The
layer of a level is inside the list since no level lies below the depth of the frame, which is the
depth of the value.

* `Value.extent` — what holding a value takes: the binary digits of its numbers, and its nesting.
* `Element.Limited`, `Frame.Limited` — presentations whose counts are within the limit.
* `renderScalar_eq_ofResult` — scalars.
* `depthUpTo_eq_ok`, `layerAt_eq_ok`, `elementAt_eq_ok` — depth, layers and elements.
* `layOut_eq_ofResult`, `renderValue_eq_ofResult` — values at a level, and in the presentation of
  their field.
-/

namespace Stencil

open Checked

/-! ## What can be held -/

namespace Value

mutual

/-- The most binary digits of a whole number in a value, with the containers around it. -/
def extent : Value → Nat
  | int v => v.natAbs.log2
  | big v => v.natAbs.log2
  | list items => 1 + itemsExtent items
  | map entries => 1 + entriesExtent entries
  | _ => 0

/-- The greatest extent among the items of a list. -/
def itemsExtent : List Value → Nat
  | [] => 0
  | v :: rest => max (extent v) (itemsExtent rest)

/-- The greatest extent among the keys and values of entries. -/
def entriesExtent : List (Value × Value) → Nat
  | [] => 0
  | (k, v) :: rest => max (max (extent k) (extent v)) (entriesExtent rest)

end

/-- The binary digits of the numbers in a value can be held, and so can its containers. -/
def Addressable (v : Value) : Prop := v.extent < spaceLimit

instance : DecidablePred Addressable := fun v => inferInstanceAs (Decidable (v.extent < spaceLimit))

mutual

theorem depth_le_extent (v : Value) : v.depth ≤ v.extent := by
  cases v with
  | list items =>
    have hitems := itemsDepth_le_itemsExtent items
    rw [depth, extent]
    omega
  | map entries =>
    have hentries := entriesDepth_le_entriesExtent entries
    rw [depth, extent]
    omega
  | _ => exact Nat.zero_le _

theorem itemsDepth_le_itemsExtent (items : List Value) : itemsDepth items ≤ itemsExtent items := by
  cases items with
  | nil => exact Nat.le_refl 0
  | cons v rest =>
    have hv := depth_le_extent v
    have hrest := itemsDepth_le_itemsExtent rest
    rw [itemsDepth, itemsExtent]
    omega

theorem entriesDepth_le_entriesExtent (entries : List (Value × Value)) :
    entriesDepth entries ≤ entriesExtent entries := by
  cases entries with
  | nil => exact Nat.le_refl 0
  | cons entry rest =>
    obtain ⟨k, v⟩ := entry
    have hv := depth_le_extent v
    have hrest := entriesDepth_le_entriesExtent rest
    rw [entriesDepth, entriesExtent]
    omega

end

theorem extent_le_entriesExtent {entries : List (Value × Value)} {k v : Value}
    (h : (k, v) ∈ entries) : v.extent ≤ entriesExtent entries := by
  induction entries with
  | nil => cases h
  | cons entry rest ih =>
    obtain ⟨k', w⟩ := entry
    rw [entriesExtent]
    rcases List.mem_cons.1 h with h | h
    · cases h
      omega
    · have hrest := ih h
      omega

variable {v : Value}

/-- What a mapping holds under a name can be held if the mapping can. -/
theorem Addressable.get? (h : v.Addressable) {name : String} {w : Value}
    (hw : v.get? name = some w) : w.Addressable := by
  cases v with
  | map entries =>
    rw [Value.get?] at hw
    obtain ⟨⟨k, item⟩, hmem, hsome⟩ := List.exists_of_findSome?_eq_some hw
    have hitem : item = w := by
      cases k <;> simp at hsome
      exact hsome.2
    have hle := extent_le_entriesExtent hmem
    rw [Addressable, extent] at h
    rw [← hitem, Addressable]
    omega
  | _ => cases hw

theorem Addressable.fits (h : v.Addressable) {q : Quantity} (hq : v.quantity? = some q) :
    q.Fits := by
  cases v with
  | bool b =>
    cases hq
    show (if b then (1 : Int) else 0).natAbs.log2 < spaceLimit
    cases b <;> decide
  | int n => cases hq; exact h
  | big n => cases hq; exact h
  | float x => cases hq; trivial
  | _ => cases hq

end Value

theorem Quantity.fits_char (c : Char) : (Quantity.integer c.toNat).Fits := by
  have hlog := Nat.log2_le_self c.toNat
  have hchar : c.toNat < 2 ^ 32 := c.val.toNat_lt
  have hlimit : 2 ^ 32 < spaceLimit := by decide
  show ((c.toNat : Int).natAbs).log2 < spaceLimit
  rw [Int.natAbs_natCast]
  omega

/-! ## Limited presentations -/

/-- A layer whose width is within the limit. -/
def Layer.Limited (layer : Layer Nat) : Prop := ∀ width ∈ layer.width, width ≤ maxCount

/-- An element whose width and precision are within the limit. -/
structure Element.Limited (element : Element Nat) : Prop where
  width_le : ∀ width ∈ element.width, width ≤ maxCount
  precision_le : ∀ precision ∈ element.precision, precision ≤ maxCount

theorem Element.limited_default : Element.Limited {} :=
  ⟨by simp, by simp⟩

theorem Layer.limited_default : Layer.Limited {} := by
  simp [Layer.Limited]

/-- A frame of limited presentations, whose depth can be held. -/
structure Frame.Limited (frame : Frame) : Prop where
  element : frame.element.Limited
  layers : ∀ layer ∈ frame.layers, layer.Limited
  depth_lt : frame.depth < spaceLimit

namespace Checked

variable {v : Value} {element : Element Nat}

/-! ## Scalars -/

theorem renderText_eq_ok (text : List Char) (element : Element Nat) :
    renderText text element = .ok (Stencil.renderText text element) :=
  pad_eq_ok _ _ _ _

theorem renderQuantity_eq_ofResult {q : Quantity} (hq : q.Fits) (v : Value)
    (helement : element.Limited) (htype : element.type.PresentsNumbers) (options : Options) :
    renderQuantity q v element options = ofResult (Stencil.renderQuantity q v element options) := by
  rw [renderQuantity, Stencil.renderQuantity]
  rcases ofQuantity_laysOut hq helement.precision_le htype with
    ⟨figure, hfigure, hlayout, hwithin⟩ | ⟨hfigure, hlayout⟩
  · rw [hfigure, hlayout, mapRefusal_ok, ok_bind,
      Figure.written_layout hwithin helement.width_le options]
    rfl
  · rw [hfigure, hlayout]
    rfl

theorem renderNumber_eq_ofResult (hv : v.Addressable) (helement : element.Limited)
    (htype : element.type.PresentsNumbers) (options : Options) :
    renderNumber v element options = ofResult (Stencil.renderNumber v element options) := by
  rw [renderNumber, Stencil.renderNumber]
  cases hq : v.quantity? with
  | none => rfl
  | some q => exact renderQuantity_eq_ofResult (hv.fits hq) v helement htype options

theorem renderCharacter_eq_ofResult (v : Value) (element : Element Nat) :
    renderCharacter v element = ofResult (Stencil.renderCharacter v element) := by
  rw [renderCharacter, Stencil.renderCharacter]
  cases v.singleChar? with
  | some c => exact renderText_eq_ok [c] element
  | none =>
    cases v.integer? with
    | none => rfl
    | some point =>
      dsimp only
      cases charOfPoint? point with
      | some c => exact renderText_eq_ok [c] element
      | none => rfl

theorem renderByKind_eq_ofResult (hv : v.Addressable) (helement : element.Limited)
    (htype : element.type.PresentsNumbers) (options : Options) :
    renderByKind v element options = ofResult (Stencil.renderByKind v element options) := by
  rw [renderByKind, Stencil.renderByKind]
  cases v.text? with
  | some text =>
    dsimp only
    rw [ofResult_bind, renderText_eq_ok]
    rfl
  | none =>
    cases hq : v.quantity? with
    | none => rfl
    | some q =>
      dsimp only
      rw [ofResult_bind, renderQuantity_eq_ofResult (hv.fits hq) v helement htype options]

/-- A scalar comes out as it does without positions. -/
theorem renderScalar_eq_ofResult (hv : v.Addressable) (helement : element.Limited)
    (options : Options) :
    renderScalar v element options = ofResult (Stencil.renderScalar v element options) := by
  unfold renderScalar Stencil.renderScalar
  cases htype : element.type with
  | text =>
    dsimp only
    cases v.text? with
    | some text => exact renderText_eq_ok text element
    | none => rfl
  | character => exact renderCharacter_eq_ofResult v element
  | byKind => exact renderByKind_eq_ofResult hv helement (by rw [htype]; trivial) options
  | decimal | localeInteger | octal | binary letters | hex letters =>
    have hnumbers : element.type.PresentsNumbers := by rw [htype]; trivial
    dsimp only
    cases v.singleChar? with
    | some c => exact renderQuantity_eq_ofResult (Quantity.fits_char c) v helement hnumbers options
    | none => exact renderNumber_eq_ofResult hv helement hnumbers options
  | _ => exact renderNumber_eq_ofResult hv helement (by rw [htype]; trivial) options

/-! ## Depth -/

section Depth

variable {ε : Type}

mutual

/-- Depth is counted without leaving the words as long as the value is not deeper than a word. -/
theorem depthUpTo_eq_ok (limit : Nat) (v : Value) (h : v.depth < wordLimit) :
    (depthUpTo limit v : Checked ε Nat) = .ok (v.depthUpTo limit) := by
  cases v with
  | list items =>
    rw [Value.depth] at h
    have hle := Value.itemsDepthUpTo_eq_min limit items
    rw [depthUpTo, itemsDepthUpTo_eq_ok limit items (by omega), ok_bind, sum_eq_ok (by omega),
      Value.depthUpTo]
  | map entries =>
    rw [Value.depth] at h
    have hle := Value.entriesDepthUpTo_eq_min limit entries
    rw [depthUpTo, entriesDepthUpTo_eq_ok limit entries (by omega), ok_bind, sum_eq_ok (by omega),
      Value.depthUpTo]
  | _ => rfl

theorem itemsDepthUpTo_eq_ok (limit : Nat) (items : List Value)
    (h : Value.itemsDepth items < wordLimit) :
    (itemsDepthUpTo limit items : Checked ε Nat) = .ok (Value.itemsDepthUpTo limit items) := by
  cases items with
  | nil => rfl
  | cons v rest =>
    rw [Value.itemsDepth] at h
    rw [itemsDepthUpTo, Value.itemsDepthUpTo, itemsDepthUpTo_eq_ok limit rest (by omega)]
    split_ifs with hlimit
    · rfl
    · rw [difference_eq_ok (by omega), ok_bind, depthUpTo_eq_ok (limit - 1) v (by omega)]
      rfl

theorem entriesDepthUpTo_eq_ok (limit : Nat) (entries : List (Value × Value))
    (h : Value.entriesDepth entries < wordLimit) :
    (entriesDepthUpTo limit entries : Checked ε Nat) =
      .ok (Value.entriesDepthUpTo limit entries) := by
  cases entries with
  | nil => rfl
  | cons entry rest =>
    obtain ⟨k, v⟩ := entry
    rw [Value.entriesDepth] at h
    rw [entriesDepthUpTo, Value.entriesDepthUpTo, entriesDepthUpTo_eq_ok limit rest (by omega)]
    split_ifs with hlimit
    · rfl
    · rw [difference_eq_ok (by omega), ok_bind, depthUpTo_eq_ok (limit - 1) v (by omega)]
      rfl

end

end Depth

/-! ## Frames -/

theorem leftOver_eq_ok (layers : List (Layer Nat)) (depth : Nat) :
    leftOver layers depth = .ok (layers.length - depth) := by
  rw [leftOver]
  split_ifs with h
  · exact difference_eq_ok (Nat.le_of_lt h)
  · rw [Nat.sub_eq_zero_of_le (Nat.le_of_not_lt h)]

theorem frameOf_eq_ofResult (options : Options) (layers : List (Layer Nat)) (element : Element Nat)
    (hv : v.Addressable) :
    frameOf options layers element v = ofResult (Frame.of options layers element v) := by
  obtain ⟨hword, -, -⟩ := limits
  have hdepth := v.depth_le_extent
  rw [Value.Addressable] at hv
  rw [frameOf, depthUpTo_eq_ok _ v (by omega), ok_bind, leftOver_eq_ok, ok_bind, Frame.of]
  split_ifs <;> rfl

theorem Frame.limited_frame (hv : v.Addressable) {layers : List (Layer Nat)}
    (hlayers : ∀ layer ∈ layers, layer.Limited) (helement : element.Limited) :
    (v.frame layers element).Limited :=
  ⟨helement, hlayers, v.depth_le_extent.trans_lt hv⟩

variable {frame : Frame} {level : Nat}

/-- Above the deepest level there is a layer, and its position is inside the list. -/
theorem layerAt_eq_ok (hframe : frame.Limited) (h : level < frame.depth) :
    layerAt frame level = .ok (frame.layerAt level) ∧ (frame.layerAt level).Limited := by
  have hlayer := frame.getElem?_layerAt h
  rw [layerAt, difference_eq_ok (Nat.le_of_lt h), ok_bind]
  split_ifs with hlisted
  · rw [getElem?_levelLayers_of_le h hlisted] at hlayer
    rw [difference_eq_ok hlisted, ok_bind, item_eq_ok hlayer]
    exact ⟨rfl, hframe.layers _ (List.mem_of_getElem? hlayer)⟩
  · have hplain : frame.layerAt level = {} := if_neg hlisted
    rw [hplain]
    exact ⟨rfl, Layer.limited_default⟩

theorem elementAt_eq_ok (hframe : frame.Limited) (h : level ≤ frame.depth) :
    elementAt frame level = .ok (frame.elementAt level) ∧ (frame.elementAt level).Limited := by
  rw [elementAt, Frame.elementAt]
  split_ifs with hlevel
  · exact ⟨rfl, hframe.element⟩
  · obtain ⟨hchecked, hlimited⟩ :=
      layerAt_eq_ok hframe (show frame.depth - 1 < frame.depth by omega)
    rw [difference_eq_ok (by omega), ok_bind, hchecked]
    exact ⟨rfl, hlimited, hframe.element.precision_le⟩

theorem wrap_eq_ok (layer : Layer Nat) (ofMap : Bool) (parts : List (List Char)) :
    wrap layer ofMap parts = .ok (layer.wrap ofMap parts) :=
  pad_eq_ok _ _ _ _

/-! ## Steps of laying out -/

section Steps

variable (options : Options) (frame : Frame) (level : Nat)

theorem layOut_list (items : List Value) :
    layOut options frame level (.list items) = (do
      let layer ← layerAt frame level
      let below ← sum level 1
      let parts ← layOutItems options frame below items
      wrap layer false parts) := by
  rw [layOut, Value.isContainer, if_pos rfl, layOutContainer]

theorem layOut_map (entries : List (Value × Value)) :
    layOut options frame level (.map entries) = (do
      let layer ← layerAt frame level
      let below ← sum level 1
      let parts ← layOutEntries options frame below layer.kind entries
      wrap layer true parts) := by
  rw [layOut, Value.isContainer, if_pos rfl, layOutContainer]

theorem layOut_scalar {v : Value} (hv : v.isContainer = false) :
    layOut options frame level v = (do
      let element ← elementAt frame level
      renderScalar v element options) := by
  rw [layOut, hv]
  rfl

/-- A scalar is never nested too deep. -/
theorem frameOf_scalar (element : Element Nat) {v : Value} (hv : v.isContainer = false) :
    frameOf options [] element v = .ok { layers := [], element, depth := 0 } := by
  have hdepth : (depthUpTo options.maxDepth v : Checked Fault Nat) = .ok 0 := by
    cases v with
    | list items => cases hv
    | map entries => cases hv
    | _ => rfl
  rw [frameOf, hdepth]
  rfl

theorem layOutItems_cons (v : Value) (rest : List Value) :
    layOutItems options frame level (v :: rest) = do
      let part ← layOut options frame level v
      let parts ← layOutItems options frame level rest
      return part :: parts := by
  rw [layOutItems]
  rfl

/-- A key is laid out at the first level of a frame of its own. -/
theorem layOutEntries_cons (kind : ContainerKind) (k v : Value) (rest : List (Value × Value)) :
    layOutEntries options frame level kind ((k, v) :: rest) = do
      let own ← frameOf options [] {} k
      let key ← layOut options own 0 k
      let item ← layOut options frame level v
      let parts ← layOutEntries options frame level kind rest
      return kind.entry key item :: parts := by
  have hkey : (if k.isContainer then do
      let own ← frameOf options [] {} k
      layOutContainer options own 0 k
      else renderScalar k {} options) = (do
        let own ← frameOf options [] {} k
        layOut options own 0 k) := by
    cases hk : k.isContainer with
    | true => simp only [layOut, hk, if_true]
    | false =>
      rw [frameOf_scalar options {} hk, ok_bind]
      exact (layOut_scalar options { layers := [], element := {}, depth := 0 } 0 hk).symm
  rw [layOutEntries, hkey, bind_assoc]
  rfl

end Steps

/-! ## Values -/

mutual

/-- A value at a level comes out as it does without positions. -/
theorem layOut_eq_ofResult (options : Options) {frame : Frame} (hframe : frame.Limited)
    (level : Nat) (v : Value) (hlevel : level + v.depth ≤ frame.depth)
    (hv : v.extent < spaceLimit) :
    layOut options frame level v = ofResult (v.layOut options frame level) := by
  obtain ⟨hword, -, -⟩ := limits
  have hdepth := hframe.depth_lt
  cases v with
  | list items =>
    rw [Value.depth] at hlevel
    rw [Value.extent] at hv
    obtain ⟨hchecked, -⟩ := layerAt_eq_ok hframe (show level < frame.depth by omega)
    rw [layOut_list, Value.layOut_list, hchecked, ok_bind, sum_eq_ok (by omega), ok_bind,
      layOutItems_eq_ofResult options hframe (level + 1) items (by omega) (by omega)]
    simp only [wrap_eq_ok]
    exact (ofResult_bind_pure _ ((frame.layerAt level).wrap false)).symm
  | map entries =>
    rw [Value.depth] at hlevel
    rw [Value.extent] at hv
    obtain ⟨hchecked, -⟩ := layerAt_eq_ok hframe (show level < frame.depth by omega)
    rw [layOut_map, Value.layOut_map, hchecked, ok_bind, sum_eq_ok (by omega), ok_bind,
      layOutEntries_eq_ofResult options hframe (level + 1) _ entries (by omega) (by omega)]
    simp only [wrap_eq_ok]
    exact (ofResult_bind_pure _ ((frame.layerAt level).wrap true)).symm
  | _ =>
    obtain ⟨hchecked, hlimited⟩ := elementAt_eq_ok hframe (show level ≤ frame.depth by omega)
    rw [layOut_scalar options frame level rfl, Value.layOut_scalar options frame level rfl,
      hchecked, ok_bind]
    exact renderScalar_eq_ofResult hv hlimited options

theorem layOutItems_eq_ofResult (options : Options) {frame : Frame} (hframe : frame.Limited)
    (level : Nat) (items : List Value) (hlevel : level + Value.itemsDepth items ≤ frame.depth)
    (hitems : Value.itemsExtent items < spaceLimit) :
    layOutItems options frame level items =
      ofResult (Stencil.layOutItems options frame level items) := by
  cases items with
  | nil => rfl
  | cons v rest =>
    rw [Value.itemsDepth] at hlevel
    rw [Value.itemsExtent] at hitems
    rw [layOutItems_cons, Stencil.layOutItems_cons, ofResult_bind,
      layOut_eq_ofResult options hframe level v (by omega) (by omega),
      layOutItems_eq_ofResult options hframe level rest (by omega) (by omega)]
    refine congrArg (ofResult _ >>= ·) (funext fun part => ?_)
    exact (ofResult_bind_pure _ _).symm

theorem layOutEntries_eq_ofResult (options : Options) {frame : Frame} (hframe : frame.Limited)
    (level : Nat) (kind : ContainerKind) (entries : List (Value × Value))
    (hlevel : level + Value.entriesDepth entries ≤ frame.depth)
    (hentries : Value.entriesExtent entries < spaceLimit) :
    layOutEntries options frame level kind entries =
      ofResult (Stencil.layOutEntries options frame level kind entries) := by
  cases entries with
  | nil => rfl
  | cons entry rest =>
    obtain ⟨k, v⟩ := entry
    rw [Value.entriesDepth] at hlevel
    rw [Value.entriesExtent] at hentries
    have hk : k.Addressable := by
      rw [Value.Addressable]
      omega
    have hown : (k.frame [] {}).Limited :=
      Frame.limited_frame hk (List.forall_mem_nil _) Element.limited_default
    rw [layOutEntries_cons, Stencil.layOutEntries_cons, frameOf_eq_ofResult options [] {} hk,
      Frame.ofKey, Frame.of_eq, layOut_eq_ofResult options hframe level v (by omega) (by omega),
      layOutEntries_eq_ofResult options hframe level kind rest (by omega) (by omega)]
    split_ifs with hdeep
    · rfl
    · -- the key has a frame of its own, as deep as the key
      have hkey := layOut_eq_ofResult options hown 0 k (by simp [Value.frame]) (by omega)
      rw [ofResult_ok, ok_bind, hkey]
      show _ = ofResult (Value.layOut options (k.frame [] {}) 0 k >>= _)
      rw [ofResult_bind]
      refine congrArg (ofResult _ >>= ·) (funext fun key => ?_)
      rw [ofResult_bind]
      refine congrArg (ofResult _ >>= ·) (funext fun item => ?_)
      exact (ofResult_bind_pure _ _).symm

end

/-- A value in the presentation of its field comes out as it does without positions. -/
theorem renderValue_eq_ofResult (options : Options) {layers : List (Layer Nat)}
    (hlayers : ∀ layer ∈ layers, layer.Limited) (helement : element.Limited)
    (hv : v.Addressable) :
    renderValue options layers element v =
      ofResult (Stencil.renderValue options layers element v) := by
  cases hcontainer : v.isContainer with
  | true =>
    have hrun := layOut_eq_ofResult options (Frame.limited_frame hv hlayers helement) 0 v
      (by simp [Value.frame]) hv
    rw [layOut, Value.layOut, hcontainer, if_pos rfl, if_pos rfl] at hrun
    rw [renderValue, Stencil.renderValue, hcontainer, if_pos rfl, if_pos rfl,
      frameOf_eq_ofResult options layers element hv, Frame.of_eq]
    split_ifs
    · rfl
    · exact hrun
  | false =>
    rw [renderValue, Stencil.renderValue, hcontainer]
    exact renderScalar_eq_ofResult hv helement options

end Checked

end Stencil
