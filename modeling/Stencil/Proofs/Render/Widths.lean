import Mathlib.Data.List.Basic
import Stencil.Proofs.Field.WellFormed
import Stencil.Proofs.Render.Levels
import Stencil.Proofs.Render.ZeroFill

/-!
# Widths only pad

Text, numbers and containers are rendered first and padded at the end. So a rendering with a width
is the one without it, with as many fill characters put in as are missing; where they go, and which
they are, does not depend on the text. The one exception are grouped digits filled with zeros, whose
zeros are digits.

* `Padding` — a fill character, where it goes, and the lead that it does not go in front of.
* `PadsTo` — one rendering is another one padded to a width, or fails with the same fault.
* `Value.padding`, `Layer.padding` — how values and containers are padded.
* `renderScalar_padsTo`, `dress_padsTo` — a scalar and a container with a width and without.
* `unsizeLevel`, `levelLayers_unsizeLevel` — the width of one level taken away.
* `layOut_padsTo` — the width of a level only pads the containers of that level.
* `rendering_padsTo` — scalars, and containers of all levels.
-/

namespace Stencil

/-! ## Padding -/

/-- What a text is padded with and where. Sign-aware padding goes behind the lead. -/
structure Padding where
  fill : Char
  align : Align
  lead : List Char

namespace Padding

/-- A text with the fill characters that it misses for a width. -/
def apply (padding : Padding) (width : Nat) (text : List Char) : List Char :=
  let fills (count : Nat) := List.replicate count padding.fill
  let missing := width - text.length
  match padding.align with
  | .left => text ++ fills missing
  | .right => fills missing ++ text
  | .center => fills (missing / 2) ++ text ++ fills (missing - missing / 2)
  | .signAware => padding.lead ++ fills missing ++ text.drop padding.lead.length

/-- Padding a lead and a body is padding the text they are, behind the lead. -/
theorem apply_append (padding : Padding) (width : Nat) (body : List Char) :
    padding.apply width (padding.lead ++ body) =
      Text.padParts padding.lead body (some width) padding.fill padding.align := by
  cases halign : padding.align <;>
    simp [apply, Text.padParts, Text.missing, halign, List.length_append]

/-- The text reaches the width, and a longer one keeps its length. -/
theorem length_apply {padding : Padding} {text : List Char} (h : padding.lead <+: text)
    (width : Nat) : (padding.apply width text).length = max width text.length := by
  obtain ⟨body, rfl⟩ := h
  rw [apply_append, Text.length_padParts, List.length_append, Option.getD_some]

end Padding

/-- A rendering with a width is the one without it, padded, and it fails as that one does. -/
structure PadsTo (width : Nat) (padding : Padding) (plain sized : Except Fault (List Char)) :
    Prop where
  eq : sized = plain.map (padding.apply width)
  lead : ∀ text, plain = .ok text → padding.lead <+: text
  length : ∀ text, plain = .ok text →
    ∃ padded, sized = .ok padded ∧ padded.length = max width text.length

theorem PadsTo.intro {width : Nat} {padding : Padding} {plain sized : Except Fault (List Char)}
    (heq : sized = plain.map (padding.apply width))
    (hlead : ∀ text, plain = .ok text → padding.lead <+: text) :
    PadsTo width padding plain sized where
  eq := heq
  lead := hlead
  length := by
    intro text htext
    exact ⟨_, by rw [heq, htext]; rfl, Padding.length_apply (hlead text htext) width⟩

/-- A rendering that fails with and without the width is not padded. -/
theorem PadsTo.error (width : Nat) (padding : Padding) (fault : Fault) :
    PadsTo width padding (.error fault) (.error fault) := by
  refine .intro rfl fun text htext => ?_
  cases htext

/-! ## Elements without their width -/

/-- An element without a width. -/
def Element.unsized (element : Element Nat) : Element Nat :=
  { element with width := none }

/-- The type codes of text and whole numbers admit every width. -/
theorem Element.checkFor_unsized (element : Element Nat) (c : ValueClass) :
    element.unsized.checkFor c = element.checkFor c := by
  have hspecifiers : ∀ rules : TypeCode, rules.admits .width = true →
      element.unsized.checkSpecifiers rules = element.checkSpecifiers rules := by
    intro rules hadmits
    refine checkSpecifiers_congr rfl fun s hs => ?_
    cases s with
    | width =>
      rw [hadmits] at hs
      cases hs
    | _ => rfl
  cases c with
  | text => exact hspecifiers .text rfl
  | integer =>
    rw [checkFor, checkFor, hspecifiers .decimal rfl]
    rfl
  | float => rfl

theorem Value.numberUnder?_unsized (v : Value) (element : Element Nat) :
    v.numberUnder? element.unsized = v.numberUnder? element := by
  simp only [numberUnder?, Element.checkFor_unsized]
  rfl

theorem Quantity.figure_unsized (q : Quantity) (element : Element Nat) :
    q.figure element.unsized = q.figure element := rfl

/-! ## Numbers -/

/-- The sign and the radix mark of a figure. -/
def Figure.lead (figure : Figure) (element : Element Nat) (options : Options) : List Char :=
  match figure with
  | finite n _ => n.lead element options
  | infinite negative => signText negative element.sign
  | notANumber => signText false element.sign

/-- The digits of a figure are grouped, and what pads them is zeros between the sign and the
digits. -/
def Figure.FillsGroups (figure : Figure) (element : Element Nat) (options : Options) : Prop :=
  ∃ n style, figure = finite n style ∧
    (Separators.resolve element n.base options.locale).grouping ≠ none ∧
    element.numberFill = '0' ∧ element.numberAlign = .signAware

/-- The padding of a figure. -/
def Figure.padding (figure : Figure) (element : Element Nat) (options : Options) : Padding where
  fill := element.numberFill
  align := element.numberAlign
  lead := element.type.letters.apply (figure.lead element options)

section

variable {figure : Figure} {element : Element Nat} {options : Options}

theorem Figure.parts_fst (figure : Figure) (element : Element Nat) (options : Options) :
    (figure.parts element options).1 = figure.lead element options := by
  cases figure <;> rfl

/-- The width has a part in the digits only where zeros fill the groups. -/
theorem Figure.parts_unsized (h : ¬ figure.FillsGroups element options) :
    figure.parts element.unsized options = figure.parts element options := by
  cases figure with
  | finite n style =>
    have hwhole : ∀ taken, wholeText n element.unsized
        (Separators.resolve element n.base options.locale).grouping taken = wholeText n element
          (Separators.resolve element n.base options.locale).grouping taken := by
      intro taken
      cases hgroups : (Separators.resolve element n.base options.locale).grouping with
      | none => rfl
      | some g =>
        have hplain : ¬ (element.numberFill = '0' ∧ element.numberAlign = .signAware) := by
          rintro ⟨hfill, halign⟩
          exact h ⟨n, style, rfl, by simp [hgroups], hfill, halign⟩
        exact (if_neg hplain).trans (if_neg hplain).symm
    have hparts := hwhole ((n.lead element options).length + (n.tail style element options).length)
    exact congrArg (fun whole => (n.lead element options, whole ++ n.tail style element options))
      hparts
  | infinite negative => rfl
  | notANumber => rfl

/-- Without a width a figure is its lead and its body. -/
theorem Figure.written_unsized (h : ¬ figure.FillsGroups element options) :
    figure.written element.unsized options =
      (figure.padding element options).lead ++
        element.type.letters.apply (figure.parts element options).2 := by
  have hnone := Text.padParts_none (element.type.letters.apply (figure.parts element options).1)
    (element.type.letters.apply (figure.parts element options).2) element.numberFill
    element.numberAlign
  rw [written, parts_unsized h]
  exact hnone.trans (by rw [parts_fst]; rfl)

/-- With a width it is that text, padded. -/
theorem Figure.written_sized {width : Nat} (hwidth : element.width = some width)
    (h : ¬ figure.FillsGroups element options) :
    figure.written element options =
      (figure.padding element options).apply width (figure.written element.unsized options) := by
  rw [written_unsized h, Padding.apply_append, written, ← hwidth]
  simp only [parts_fst]
  rfl

end

/-! ## Scalars -/

/-- The padding of text: spaces behind it, unless the element says otherwise. -/
def Element.textPadding (element : Element Nat) : Padding where
  fill := element.fill.getD ' '
  align := element.align.getD .left
  lead := []

/-- The figure of a value that an element presents as a number. -/
def Value.figureUnder? (v : Value) (element : Element Nat) : Option Figure :=
  (v.numberUnder? element).bind fun q => (q.figure element).toOption

/-- The padding of a value under an element. The flag `0` pads numbers with zeros behind the sign
and the radix mark, unless fill or alignment are given; without it numbers go to the right. All
else goes to the left. -/
def Value.padding (v : Value) (element : Element Nat) (options : Options) : Padding :=
  let number := v.figureUnder? element
  { fill := element.fill.getD (if number.isSome ∧ element.zeroPad then '0' else ' ')
    align := element.align.getD
      (if number.isNone then .left else if element.zeroPad then .signAware else .right)
    lead := element.type.letters.apply (number.elim [] (·.lead element options)) }

/-- A value is presented as a number whose grouped digits are filled with zeros. -/
def Value.FillsGroups (v : Value) (element : Element Nat) (options : Options) : Prop :=
  ∃ figure, v.figureUnder? element = some figure ∧ figure.FillsGroups element options

section

variable {v : Value} {element : Element Nat} {width : Nat} {options : Options}

theorem renderText_sized (hwidth : element.width = some width) (text : List Char) :
    renderText text element =
      element.textPadding.apply width (renderText text element.unsized) := by
  have hunsized (cut : List Char) :
      Text.pad cut none (element.fill.getD ' ') (element.align.getD .left) = cut :=
    Text.padParts_none _ _ _ _
  have hsized (cut : List Char) := element.textPadding.apply_append width cut
  simp only [renderText, hwidth]
  exact ((congrArg _ (hunsized _)).trans (hsized _)).symm

theorem renderCharacter_sized (hwidth : element.width = some width) (v : Value) :
    renderCharacter v element =
      (renderCharacter v element.unsized).map (element.textPadding.apply width) := by
  unfold renderCharacter
  cases v.singleChar? with
  | some c => exact congrArg Except.ok (renderText_sized hwidth [c])
  | none =>
    cases v.integer? with
    | none => rfl
    | some point =>
      dsimp only
      cases charOfPoint? point with
      | some c => exact congrArg Except.ok (renderText_sized hwidth [c])
      | none => rfl

/-- Without a type code text is padded, and a number that the element does not admit is refused with
a width and without. -/
theorem renderByKind_sized_text (hwidth : element.width = some width)
    (htype : element.type = .byKind) (hv : v.numberUnder? element = none) (options : Options) :
    renderByKind v element options =
      (renderByKind v element.unsized options).map (element.textPadding.apply width) := by
  simp only [renderByKind, Element.checkFor_unsized]
  cases htext : v.text? with
  | some text =>
    cases element.checkFor .text with
    | ok checked => exact congrArg Except.ok (renderText_sized hwidth text)
    | error fault => rfl
  | none =>
    simp only [Value.numberUnder?, htype, htext, Option.filter_eq_none_iff] at hv
    cases hnumber : v.quantity? with
    | none => rfl
    | some q =>
      cases hcheck : element.checkFor q.valueClass with
      | ok checked => exact absurd (congrArg Except.isOk hcheck) (hv q hnumber)
      | error fault =>
        simp only [hcheck]
        rfl

theorem Value.figureUnder?_of_number {q : Quantity} (hv : v.numberUnder? element = some q)
    {figure : Figure} (hfigure : q.figure element = .ok figure) :
    v.figureUnder? element = some figure := by
  rw [figureUnder?, hv, Option.bind_some, hfigure]
  rfl

theorem Value.padding_of_text (hv : v.numberUnder? element = none) (options : Options) :
    v.padding element options = element.textPadding := by
  have hnone : v.figureUnder? element = none := by rw [figureUnder?, hv, Option.bind_none]
  have hempty : element.type.letters.apply [] = [] := by cases element.type.letters <;> rfl
  simp [padding, Element.textPadding, hnone, hempty]

theorem Value.padding_of_figure {figure : Figure} (hv : v.figureUnder? element = some figure)
    (options : Options) : v.padding element options = figure.padding element options := by
  simp [padding, Figure.padding, Element.numberFill, Element.numberAlign, hv]

/-- A value that is not presented as a number is padded like text. -/
theorem renderScalar_sized_text (hwidth : element.width = some width)
    (hv : v.numberUnder? element = none) (options : Options) :
    renderScalar v element options =
      (renderScalar v element.unsized options).map (element.textPadding.apply width) := by
  unfold renderScalar
  simp only [show element.unsized.type = element.type from rfl]
  cases htype : element.type with
  | byKind => exact renderByKind_sized_text hwidth htype hv options
  | text =>
    cases v.text? with
    | some text => exact congrArg Except.ok (renderText_sized hwidth text)
    | none => rfl
  | character => exact renderCharacter_sized hwidth v
  | decimal | localeInteger | binary letters | octal | hex letters =>
    simp only [Value.numberUnder?, htype] at hv
    cases hchar : v.singleChar? with
    | some c => simp [hchar] at hv
    | none =>
      simp only [hchar] at hv
      simp only [renderNumber, hv]
      rfl
  | exponent letters | fixed letters | percent | general letters | hexFloat letters =>
    simp only [Value.numberUnder?, htype] at hv
    simp only [renderNumber, hv]
    rfl

/-- A scalar with a width is the one without it, padded. -/
theorem renderScalar_padsTo (hwidth : element.width = some width)
    (h : ¬ v.FillsGroups element options) :
    PadsTo width (v.padding element options) (renderScalar v element.unsized options)
      (renderScalar v element options) := by
  cases hv : v.numberUnder? element with
  | none =>
    rw [Value.padding_of_text hv]
    exact .intro (renderScalar_sized_text hwidth hv options) fun _ _ => List.nil_prefix
  | some q =>
    have hsized := renderScalar_of_numberUnder? hv options
    have hplain := renderScalar_of_numberUnder? ((v.numberUnder?_unsized element).trans hv) options
    rw [renderQuantity] at hsized hplain
    rw [Quantity.figure_unsized] at hplain
    cases hfigure : q.figure element with
    | error obstacle =>
      simp only [hfigure] at hsized hplain
      rw [hsized, hplain]
      exact .error ..
    | ok figure =>
      have hunder := Value.figureUnder?_of_number hv hfigure
      have hgroups : ¬ figure.FillsGroups element options :=
        fun hfills => h ⟨figure, hunder, hfills⟩
      simp only [hfigure] at hsized hplain
      rw [hsized, hplain, Value.padding_of_figure hunder]
      refine .intro (congrArg Except.ok (Figure.written_sized hwidth hgroups)) fun text htext => ?_
      obtain rfl := Except.ok.inj htext
      exact ⟨_, (Figure.written_unsized hgroups).symm⟩

end

/-! ## Containers -/

/-- A layer without a width. -/
def Layer.unsized (layer : Layer Nat) : Layer Nat :=
  { layer with width := none }

/-- The padding of a container: spaces behind it, unless its layer says otherwise. -/
def Layer.padding (layer : Layer Nat) : Padding where
  fill := layer.fill.getD ' '
  align := layer.align.getD .left
  lead := []

theorem Layer.wrap_sized {layer : Layer Nat} {width : Nat} (hwidth : layer.width = some width)
    (ofMap : Bool) (parts : List (List Char)) :
    layer.wrap ofMap parts = layer.padding.apply width (layer.unsized.wrap ofMap parts) := by
  have hunsized :
      layer.unsized.wrap ofMap parts = layer.kind.enclose ofMap (layer.kind.join parts) :=
    Text.padParts_none _ _ _ _
  have hsized := layer.padding.apply_append width (layer.kind.enclose ofMap (layer.kind.join parts))
  rw [hunsized, wrap, hwidth]
  exact hsized.symm

/-- A container under a layer with a width is the one without it, padded. What it holds has the
layers behind that one. -/
theorem dress_padsTo {v : Value} (hv : v.isContainer = true) {layer : Layer Nat} {width : Nat}
    (hwidth : layer.width = some width) (options : Options) (element : Element Nat)
    (below : List (Layer Nat)) :
    PadsTo width layer.padding (v.dress options element (layer.unsized :: below))
      (v.dress options element (layer :: below)) := by
  refine .intro ?_ fun _ _ => List.nil_prefix
  cases v with
  | list items =>
    rw [Value.dress, Value.dress, List.tail_cons, List.tail_cons]
    cases dressItems options element below items with
    | ok parts => exact congrArg Except.ok (Layer.wrap_sized hwidth false parts)
    | error fault => rfl
  | map entries =>
    rw [Value.dress, Value.dress, List.tail_cons, List.tail_cons, List.headD_cons, List.headD_cons]
    simp only [show layer.unsized.kind = layer.kind from rfl]
    cases dressEntries options element below layer.kind entries with
    | ok parts => exact congrArg Except.ok (Layer.wrap_sized hwidth true parts)
    | error fault => rfl
  | _ => cases hv

/-! ## Levels -/

/-- Layers with the width of one of `depth` levels taken away; the last layer is that of the deepest
level. -/
def unsizeLevel (depth level : Nat) (layers : List (Layer Nat)) : List (Layer Nat) :=
  layers.modify (layers.length - (depth - level)) Layer.unsized

/-- Only a layer that is in the list has a width. -/
theorem le_length_of_width {depth level : Nat} {layers : List (Layer Nat)} {layer : Layer Nat}
    (hlayer : (levelLayers depth layers)[level]? = some layer) (hwidth : layer.width ≠ none) :
    depth - level ≤ layers.length := by
  by_contra hlisted
  rw [levelLayers, List.getElem?_append_left (by rw [List.length_replicate]; omega),
    List.getElem?_replicate, if_pos (by omega)] at hlayer
  obtain rfl := Option.some.inj hlayer
  exact hwidth rfl

/-- Exactly the layer of the level loses its width. -/
theorem levelLayers_unsizeLevel {depth level : Nat} {layers : List (Layer Nat)}
    (h : level < depth) (hlisted : depth - level ≤ layers.length) :
    levelLayers depth (unsizeLevel depth level layers) =
      (levelLayers depth layers).modify level Layer.unsized := by
  refine List.ext_getElem? fun j => ?_
  rw [List.getElem?_modify, levelLayers, levelLayers, unsizeLevel, List.length_modify,
    List.getElem?_append, List.getElem?_append, List.length_replicate]
  split
  · rename_i hplain
    have hother : level ≠ j := by omega
    simp [hother]
  · rename_i hreach
    have hsame : (layers.length - (depth - level) =
        layers.length - depth + (j - (depth - layers.length))) ↔ level = j := by omega
    simp only [List.getElem?_drop, List.getElem?_modify, hsame]

/-- At its level a container has its layer first, and those of the levels below behind it. -/
theorem Frame.below_eq_cons (frame : Frame) {level : Nat} {layer : Layer Nat}
    (hlayer : (levelLayers frame.depth frame.layers)[level]? = some layer) :
    frame.below level = layer :: frame.below (level + 1) := by
  obtain ⟨hlevel, rfl⟩ := List.getElem?_eq_some_iff.1 hlayer
  exact List.drop_eq_getElem_cons hlevel

/-- The levels below keep their layers. -/
theorem Frame.below_unsizeLevel {v : Value} {layers : List (Layer Nat)} (element : Element Nat)
    {level : Nat} {layer : Layer Nat} (hlayer : (levelLayers v.depth layers)[level]? = some layer)
    (hwidth : layer.width ≠ none) :
    (v.frame (unsizeLevel v.depth level layers) element).below level =
      layer.unsized :: (v.frame layers element).below (level + 1) := by
  have hlevel : level < v.depth := by
    obtain ⟨hlevel, -⟩ := List.getElem?_eq_some_iff.1 hlayer
    rwa [length_levelLayers] at hlevel
  have hchanged := levelLayers_unsizeLevel hlevel (le_length_of_width hlayer hwidth)
  have hhead : (levelLayers v.depth (unsizeLevel v.depth level layers))[level]? =
      some layer.unsized := by
    rw [hchanged, List.getElem?_modify_eq, hlayer]
    rfl
  rw [below_eq_cons (v.frame (unsizeLevel v.depth level layers) element) hhead, below,
    below]
  simp only [Value.frame, hchanged, List.drop_modify_of_lt _ _ _ _ (Nat.lt_succ_self level)]

/-! ## Renderings -/

/-- The layer of a level, if it has a width, only pads the containers of that level: what a
container comes out as is what it comes out as without the width, padded. -/
theorem layOut_padsTo {v inner : Value} {level : Nat} (hheld : v.Holds level inner)
    (hinner : inner.isContainer = true) {layers : List (Layer Nat)} {layer : Layer Nat}
    {element : Element Nat} (hlayer : (v.frame layers element).layerAt level = layer)
    {width : Nat} (hwidth : layer.width = some width) (options : Options) :
    PadsTo width layer.padding
      (inner.layOut options (v.frame (unsizeLevel v.depth level layers) element) level)
      (inner.layOut options (v.frame layers element) level) := by
  have hfits := hheld.add_depth_le
  have hpos := Value.depth_pos hinner
  have hlevel : level < (v.frame layers element).depth := by
    change level < v.depth
    omega
  have hfound : (levelLayers v.depth layers)[level]? = some layer := by
    rw [← hlayer]
    exact (v.frame layers element).getElem?_layerAt hlevel
  rw [layOut_eq_dress options (v.frame layers element) level inner hfits,
    layOut_eq_dress options (v.frame (unsizeLevel v.depth level layers) element) level inner hfits,
    Frame.below_eq_cons (v.frame layers element) hfound,
    Frame.below_unsizeLevel element hfound (by simp [hwidth])]
  exact dress_padsTo hinner hwidth options element _

/-- A scalar with a width is what it is without it, padded, and so is a container, whatever level of
a value it stands at: exactly as many copies of the fill are put in as the text without the width is
short of characters. Grouped digits that are filled with zeros are excepted. A value counts as a
number here if it is presented as one: a truth value is under `d`, and a whole number is not under
`c`. -/
theorem rendering_padsTo (options : Options) :
    (∀ (v : Value) (element : Element Nat) (width : Nat), element.width = some width →
      ¬ v.FillsGroups element options →
        PadsTo width (v.padding element options) (renderScalar v element.unsized options)
          (renderScalar v element options)) ∧
    (∀ (v inner : Value) (level : Nat) (layers : List (Layer Nat)) (element : Element Nat)
      (layer : Layer Nat) (width : Nat), v.Holds level inner → inner.isContainer = true →
      (v.frame layers element).layerAt level = layer → layer.width = some width →
        PadsTo width layer.padding
          (inner.layOut options (v.frame (unsizeLevel v.depth level layers) element) level)
          (inner.layOut options (v.frame layers element) level)) ∧
    ∀ (v : Value) (layers : List (Layer Nat)) (element : Element Nat) (layer : Layer Nat)
      (width : Nat), v.isContainer = true → (v.frame layers element).layerAt 0 = layer →
      layer.width = some width →
        PadsTo width layer.padding (renderValue options (unsizeLevel v.depth 0 layers) element v)
          (renderValue options layers element v) := by
  refine ⟨fun v element width hwidth hgroups => renderScalar_padsTo hwidth hgroups, ?_, ?_⟩
  · intro v inner level layers element layer width hheld hinner hlayer hwidth
    exact layOut_padsTo hheld hinner hlayer hwidth options
  · intro v layers element layer width hv hlayer hwidth
    rw [renderValue_eq, renderValue_eq, Frame.of_eq, Frame.of_eq]
    split
    · exact .error ..
    · exact layOut_padsTo (.here v) hv hlayer hwidth options

/-- Zeros behind the mark of a hexadecimal number, and stars in front of a list and of the list that
it holds. -/
theorem rendering_padsTo_each :
    let number : Element Nat :=
      { alternate := true, zeroPad := true, width := some 8, type := .hex .upper }
    let starred : Layer Nat := { fill := some '*', align := some .right, width := some 9 }
    let v := Value.list [.list [.int 1, .int 2]]
    renderScalar (.int (-255)) number {} = .ok "-0X000FF".toList ∧
      (Value.list [.int 1, .int 2]).layOut {} (v.frame [starred] {}) 1 =
        .ok "***[1, 2]".toList ∧
      renderValue {} [starred, {}] {} v = .ok "*[[1, 2]]".toList := by
  intro number starred v
  obtain ⟨hscalar, hheld, hroot⟩ := rendering_padsTo {}
  have hgroups : ¬ (Value.int (-255)).FillsGroups number {} := by
    rintro ⟨figure, -, n, style, -, hgroups, -⟩
    exact hgroups rfl
  refine ⟨(hscalar _ number 8 rfl hgroups).eq.trans ?_, ?_, ?_⟩
  · decide +kernel
  · have hinner : v.Holds 1 (.list [.int 1, .int 2]) := .item List.mem_cons_self (.here _)
    refine (hheld v _ 1 [starred] {} starred 9 hinner rfl rfl rfl).eq.trans ?_
    decide +kernel
  · refine (hroot v [starred, {}] {} starred 9 rfl rfl rfl).eq.trans ?_
    decide +kernel

end Stencil
