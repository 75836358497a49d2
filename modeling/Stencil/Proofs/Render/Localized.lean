import Stencil.Proofs.Render.Independence
import Stencil.Proofs.Render.Respelled
import Stencil.Proofs.Render.Untyped

/-!
# Numbers of a locale

There are two ways to the point and the separators of a locale: the code `n` and the flag `L`. On
whole numbers they are the same, and the flag gives the characters of the locale to what a separator
gives plain ones.

* `Field.localize`, `Field.grouped` — a field with the flag, and with a separator instead.
* `Field.request_eq_map` — fields that refer to the same arguments, in presentations of their own.
* `SameKind` — the same result, or faults of the same kind.
* `dress_sameKind` — elements that come out alike do so in all containers.
* `render_localized` — both laws, for the rules of a field and for its text.
-/

namespace Stencil

/-! ## Fields -/

def Field.localize (field : Field) : Field :=
  { field with element := field.element.localize }

def Field.grouped (field : Field) (separator : Option Char) : Field :=
  { field with element := field.element.grouped separator }

/-- Where there is one source of digit groups, the last rules are those of the type code. -/
theorem Field.check_of_one_source {field : Field}
    (h : (field.element.grouping.isSome && field.element.localized) = false) :
    field.check =
      if .literal 0 ∈ field.widths then .error .zeroWidth
      else
        match field.excessiveCount? with
        | some n => .error (.countTooLarge n maxCount)
        | none => field.element.checkTyped := by
  simp only [check, h]
  rfl

/-- A field is accepted with the flag where it is with a separator, if its code admits both. -/
theorem Field.check_localize {field : Field}
    (hlocalized : field.element.type.admits .localized = true)
    (hgrouping : field.element.type.admits .grouping = true) (separator : Option Char) :
    field.localize.check = (field.grouped separator).check := by
  have hrules : field.element.localize.checkTyped =
      (field.element.grouped separator).checkTyped := by
    have htype : field.element.localize.type = field.element.type := rfl
    rw [Element.checkTyped, htype,
      field.element.checkSpecifiers_localize hlocalized hgrouping separator]
    rfl
  rw [check_of_one_source (show (none.isSome && true) = false from rfl),
    check_of_one_source (Bool.and_false _)]
  simp only [localize, grouped, widths, excessiveCount?, counts, hrules]
  rfl

/-! ## Looking a field up -/

section Requests

variable (args : List Value)

/-- A request with another presentation of its scalars. -/
def Request.presented (change : Element Nat → Element Nat) (request : Request) : Request :=
  { request with element := change request.element }

/-- Fields that refer to the same arguments have the same requests, but for the presentation. -/
theorem Field.request_eq_map {field other : Field} {change : Element Nat → Element Nat}
    (hselector : other.selector = field.selector) (hlayers : other.layers = field.layers)
    (hwidth : other.element.width = field.element.width)
    (hprecision : other.element.precision = field.element.precision)
    (hchange : ∀ width precision : Option Nat,
      { other.element with width, precision } = change { field.element with width, precision }) :
    other.request args = Request.presented change <$> field.request args := by
  have helement : Picking.pickElement args other.element =
      change <$> Picking.pickElement args field.element := by
    simp only [Picking.pickElement, hwidth, hprecision, map_bind, map_pure, ← hchange]
  simp only [request, hselector, hlayers, helement, map_bind, map_pure, bind_map_left]
  rfl

/-- So they render what their request asks for, in a presentation of their own. -/
theorem Field.render_of_request {field other : Field} {change : Element Nat → Element Nat}
    (h : other.request args = Request.presented change <$> field.request args)
    (options : Options) (c : Cursor) :
    other.render options args c =
      (field.request args c).bind fun (request, d) =>
        (renderValue options request.layers (change request.element) request.value).map
          fun text => (text, d) := by
  rw [render, h, bind_map_left]
  simp only [Bind.bind, StateT.bind]
  cases field.request args c with
  | error fault => rfl
  | ok result =>
    obtain ⟨request, d⟩ := result
    simp only [Except.bind, Request.presented]
    cases renderValue options request.layers (change request.element) request.value <;> rfl

/-- The value of a field is picked first. -/
theorem Field.exists_pick_of_request {field : Field} {c d : Cursor} {request : Request}
    (h : field.request args c = .ok (request, d)) :
    ∃ d', Picking.pick args field.selector c = .ok (request.value, d') := by
  simp only [Field.request, Bind.bind, StateT.bind] at h
  obtain ⟨⟨v, d'⟩, hpick, h⟩ := bind_eq_ok h
  obtain ⟨_, -, h⟩ := bind_eq_ok h
  obtain ⟨_, -, h⟩ := bind_eq_ok h
  cases h
  exact ⟨d', hpick⟩

end Requests

/-! ## Results of the same kind -/

/-- The same result, or faults of the same kind. -/
def SameKind {α : Type} (first second : Except Fault α) : Prop :=
  first.mapError Fault.kind = second.mapError Fault.kind

namespace SameKind

variable {α β : Type}

theorem refl (result : Except Fault α) : SameKind result result := rfl

theorem bind {first second : Except Fault α} {f g : α → Except Fault β}
    (h : SameKind first second) (hf : ∀ a, SameKind (f a) (g a)) :
    SameKind (first >>= f) (second >>= g) := by
  cases first with
  | error fault =>
    cases second with
    | error other => exact congrArg Except.error (Except.error.inj h)
    | ok a => cases h
  | ok a =>
    cases second with
    | error fault => cases h
    | ok b =>
      obtain rfl := Except.ok.inj h
      exact hf a

theorem map {first second : Except Fault α} (h : SameKind first second) (f : α → β) :
    SameKind (first.map f) (second.map f) :=
  h.bind fun a => .refl (.ok (f a))

end SameKind

section Kinds

variable {options : Options} {element other : Element Nat}

mutual

/-- Elements under which all scalars come out alike, whatever they are padded like, do so in all
containers. -/
theorem dress_sameKind
    (h : ∀ layers v, SameKind (renderScalar v (element.under layers) options)
      (renderScalar v (other.under layers) options)) (layers : List (Layer Nat)) (v : Value) :
    SameKind (v.dress options element layers) (v.dress options other layers) := by
  cases v with
  | list items =>
    rw [Value.dress, Value.dress]
    exact (dressItems_sameKind h layers.tail items).bind fun _ => .refl _
  | map entries =>
    rw [Value.dress, Value.dress]
    exact (dressEntries_sameKind h layers.tail _ entries).bind fun _ => .refl _
  | _ =>
    simp only [Value.dress]
    exact h layers _

theorem dressItems_sameKind
    (h : ∀ layers v, SameKind (renderScalar v (element.under layers) options)
      (renderScalar v (other.under layers) options)) (layers : List (Layer Nat))
    (items : List Value) :
    SameKind (dressItems options element layers items) (dressItems options other layers items) := by
  cases items with
  | nil => exact .refl _
  | cons v rest =>
    rw [dressItems, dressItems]
    exact (dress_sameKind h layers v).bind fun _ =>
      (dressItems_sameKind h layers rest).bind fun _ => .refl _

theorem dressEntries_sameKind
    (h : ∀ layers v, SameKind (renderScalar v (element.under layers) options)
      (renderScalar v (other.under layers) options)) (layers : List (Layer Nat))
    (kind : ContainerKind) (entries : List (Value × Value)) :
    SameKind (dressEntries options element layers kind entries)
      (dressEntries options other layers kind entries) := by
  cases entries with
  | nil => exact .refl _
  | cons entry rest =>
    obtain ⟨k, v⟩ := entry
    rw [dressEntries, dressEntries]
    split_ifs
    · rfl
    · -- keys are not rendered under the element of the field
      refine SameKind.bind (.refl _) fun _ => ?_
      exact (dress_sameKind h layers v).bind fun _ =>
        (dressEntries_sameKind h layers kind rest).bind fun _ => .refl _

end

theorem renderValue_sameKind
    (h : ∀ layers v, SameKind (renderScalar v (element.under layers) options)
      (renderScalar v (other.under layers) options)) (layers : List (Layer Nat)) (v : Value) :
    SameKind (renderValue options layers element v) (renderValue options layers other v) := by
  rw [renderValue_eq_ite, renderValue_eq_ite]
  split_ifs
  · exact .refl _
  · exact dress_sameKind h _ v

end Kinds

/-! ## The code and the flag -/

section LocaleInteger

variable {element : Element Nat} {options : Options}

/-- The code `n` on an element without separator and flag. -/
def Element.localeInteger {κ : Type} (element : Element κ) : Element κ :=
  (element.grouped none).typed .localeInteger

/-- The code `d` and the flag. -/
def Element.localDecimal {κ : Type} (element : Element κ) : Element κ :=
  (element.typed .decimal).localize

theorem Figure.written_localeInteger (figure : Figure) (element : Element Nat) (options : Options) :
    figure.written element.localeInteger options = figure.written element.localDecimal options := by
  have hparts : figure.parts element.localeInteger options =
      figure.parts element.localDecimal options := by
    have hcode (base : Nat) : Separators.resolve element.localeInteger base options.locale =
        Separators.ofLocale options.locale := if_pos (.inl rfl)
    have hflag (base : Nat) : Separators.resolve element.localDecimal base options.locale =
        Separators.ofLocale options.locale := if_pos (.inr rfl)
    cases figure with
    | finite n style =>
      simp only [parts, hcode, hflag]
      rfl
    | infinite negative => rfl
    | notANumber => rfl
  rw [written, written, hparts]
  rfl

theorem renderScalar_localeInteger (v : Value) (element : Element Nat) (options : Options) :
    SameKind (renderScalar v element.localeInteger options)
      (renderScalar v element.localDecimal options) := by
  have hquantity (q : Quantity) : renderQuantity q v element.localeInteger options =
      renderQuantity q v element.localDecimal options := by
    have hfigure : q.figure element.localeInteger = q.figure element.localDecimal := rfl
    rw [renderQuantity, renderQuantity, hfigure]
    split
    · rw [Figure.written_localeInteger]
    · rfl
  have hcode : element.localeInteger.type = .localeInteger := rfl
  have hflag : element.localDecimal.type = .decimal := rfl
  rw [renderScalar, renderScalar, hcode, hflag]
  dsimp only
  cases v.singleChar? with
  | some c =>
    dsimp only
    rw [hquantity]
    exact .refl _
  | none =>
    dsimp only
    rw [renderNumber, renderNumber]
    cases v.quantity? with
    | some q =>
      dsimp only
      rw [hquantity]
      exact .refl _
    | none => rfl

theorem Element.localeInteger_under (element : Element Nat) (layers : List (Layer Nat)) :
    element.localeInteger.under layers = (element.under layers).localeInteger := by
  unfold under
  split <;> rfl

theorem Element.localDecimal_under (element : Element Nat) (layers : List (Layer Nat)) :
    element.localDecimal.under layers = (element.under layers).localDecimal := by
  unfold under
  split <;> rfl

end LocaleInteger

/-! ## Both laws -/

/-- The rules refuse the code `n` for what they refuse `d` with the flag for. -/
theorem Element.checkTyped_localeInteger {κ : Type} (element : Element κ) :
    SameKind element.localeInteger.checkTyped element.localDecimal.checkTyped := by
  have hrefused : ∀ s, (element.localeInteger.uses s && !TypeCode.localeInteger.admits s) =
      (element.localDecimal.uses s && !TypeCode.decimal.admits s) := by
    intro s
    cases s <;> rfl
  have hspecifiers : SameKind (element.localeInteger.checkSpecifiers .localeInteger)
      (element.localDecimal.checkSpecifiers .decimal) := by
    simp only [checkSpecifiers, hrefused]
    split <;> rfl
  by_cases hprecision : element.precision.isSome = true
  · have hcode : element.localeInteger.checkTyped = .error .precisionOnInteger :=
      if_pos (by rw [Bool.and_eq_true]; exact ⟨hprecision, rfl⟩)
    have hflag : element.localDecimal.checkTyped = .error .precisionOnInteger :=
      if_pos (by rw [Bool.and_eq_true]; exact ⟨hprecision, rfl⟩)
    rw [hcode, hflag]
    exact .refl _
  · have hcode : element.localeInteger.checkTyped =
        element.localeInteger.checkSpecifiers .localeInteger :=
      if_neg fun h => hprecision (Bool.and_eq_true_iff.1 h).1
    have hflag : element.localDecimal.checkTyped = element.localDecimal.checkSpecifiers .decimal :=
      if_neg fun h => hprecision (Bool.and_eq_true_iff.1 h).1
    rwa [hcode, hflag]

theorem Field.check_localeInteger (field : Field) :
    SameKind ((field.grouped none).typed .localeInteger).check
      (field.typed .decimal).localize.check := by
  have hcode : ((field.grouped none).typed .localeInteger).check = _ := check_of_one_source rfl
  have hflag : (field.typed .decimal).localize.check = _ := check_of_one_source rfl
  have hwidths : ((field.grouped none).typed .localeInteger).widths =
      (field.typed .decimal).localize.widths := rfl
  have hcounts : ((field.grouped none).typed .localeInteger).excessiveCount? =
      (field.typed .decimal).localize.excessiveCount? := rfl
  rw [hcode, hflag, hwidths, hcounts]
  split_ifs
  · exact .refl _
  · cases (field.typed .decimal).localize.excessiveCount? with
    | some n => exact .refl _
    | none => exact field.element.checkTyped_localeInteger

/-- A field of a number, under a code that admits the flag as well as a separator, and with a fill
that is no separator. -/
structure Field.ShowsNumber (field : Field) (args : List Value) (c : Cursor) : Prop where
  localized : field.element.type.admits .localized = true
  grouping : field.element.type.admits .grouping = true
  comma : field.element.fill ≠ some ','
  dot : field.element.fill ≠ some '.'
  number : ∀ v d, Picking.pick args field.selector c = .ok (v, d) →
    v.IsNumber field.element.type

/-- A number comes out under the flag as it does with a separator, with other characters. -/
theorem Field.render_respelled {f : Char → Char} (h : Respells f) {field : Field}
    {args : List Value} {c : Cursor} (hfield : field.ShowsNumber args c) {options : Options}
    {separator : Option Char}
    (hlocale : Separators.ofLocale options.locale = (Separators.plain separator 10).respelled f) :
    field.localize.render options args c =
      ((field.grouped separator).render options args c).map fun (text, d) => (text.map f, d) := by
  have hlocalized : field.localize.request args =
      Request.presented Element.localize <$> field.request args :=
    field.request_eq_map args rfl rfl rfl rfl fun _ _ => rfl
  have hgrouped : (field.grouped separator).request args =
      Request.presented (Element.grouped · separator) <$> field.request args :=
    field.request_eq_map args rfl rfl rfl rfl fun _ _ => rfl
  rw [render_of_request args hlocalized, render_of_request args hgrouped]
  cases hrequest : field.request args c with
  | error fault => rfl
  | ok result =>
    obtain ⟨request, d⟩ := result
    obtain ⟨_, hpick⟩ := exists_pick_of_request args hrequest
    obtain ⟨width, precision, helement⟩ := exists_element_of_request hrequest
    have hnumber := hfield.number _ _ hpick
    have hscalar : request.value.isContainer = false := by
      obtain ⟨q, hq⟩ := Option.isSome_iff_exists.1 hnumber.1
      exact isContainer_of_quantity? hq
    have hrender : renderScalar request.value request.element.localize options =
        (renderScalar request.value (request.element.grouped separator) options).map
          (List.map f) := by
      rw [helement]
      exact renderScalar_respelled h (h.numberFill hfield.comma hfield.dot) hfield.localized hlocale
        hnumber
    simp only [Except.bind, renderValue_scalar _ hscalar, hrender]
    cases renderScalar request.value (request.element.grouped separator) options <;> rfl

/-- The code `n` is `d` with the flag, for every value: it renders the same text, or fails for the
same kind of fault. Under a locale that groups by threes, a number under the flag is accepted and
refused as it is with commas, and its text is the one with commas, in which each comma is the
separator of the locale and the point is its point; without a separator it is the text without
groups, with this point. -/
theorem render_localized (field : Field) (args : List Value) (options : Options) (c : Cursor) :
    SameKind ((field.grouped none).typed .localeInteger).check
        (field.typed .decimal).localize.check ∧
      SameKind (((field.grouped none).typed .localeInteger).render options args c)
        ((field.typed .decimal).localize.render options args c) ∧
      (field.ShowsNumber args c → options.locale.grouping = [3] →
        options.locale.decimalPoint.isAlpha = false →
          (∀ s, options.locale.groupSeparator = some s → s.isAlpha = false →
            field.localize.check = (field.grouped (some ',')).check ∧
              field.localize.render options args c =
                ((field.grouped (some ',')).render options args c).map fun (text, d) =>
                  (text.map (respell s options.locale.decimalPoint), d)) ∧
          (options.locale.groupSeparator = none →
            field.localize.check = (field.grouped none).check ∧
              field.localize.render options args c =
                ((field.grouped none).render options args c).map fun (text, d) =>
                  (text.map (respell ',' options.locale.decimalPoint), d))) := by
  refine ⟨field.check_localeInteger, ?_, fun hfield hsizes hpoint =>
    ⟨fun s hs hletter => ?_, fun hnone => ?_⟩⟩
  · have hcode : ((field.grouped none).typed .localeInteger).request args =
        Request.presented Element.localeInteger <$> field.request args :=
      field.request_eq_map args rfl rfl rfl rfl fun _ _ => rfl
    have hflag : (field.typed .decimal).localize.request args =
        Request.presented Element.localDecimal <$> field.request args :=
      field.request_eq_map args rfl rfl rfl rfl fun _ _ => rfl
    rw [Field.render_of_request args hcode, Field.render_of_request args hflag]
    refine SameKind.bind (.refl _) fun result => SameKind.map ?_ _
    refine renderValue_sameKind (fun layers v => ?_) _ _
    rw [Element.localeInteger_under, Element.localDecimal_under]
    exact renderScalar_localeInteger v _ options
  · refine ⟨Field.check_localize hfield.localized hfield.grouping _, ?_⟩
    refine Field.render_respelled (respells_respell hletter hpoint) hfield ?_
    simp only [Separators.ofLocale, hs, hsizes]
    rfl
  · refine ⟨Field.check_localize hfield.localized hfield.grouping _, ?_⟩
    refine Field.render_respelled (respells_respell (by decide) hpoint) hfield ?_
    simp only [Separators.ofLocale, hnone]
    rfl

/-- A number with both separators, filled with zeros that are grouped too. -/
theorem render_localized_padded :
    let field : Field :=
      { raw := ":014.2Lf"
        element :=
          { zeroPad := true, width := some (.literal 14), precision := some (.literal 2),
            type := .fixed .lower } }
    let options : Options := { locale := .withComma '.' }
    let args : List Value := [.float ⟨0x4132D68780000000⟩]
    let cursor : Cursor := { next := 1, numbering := some .automatic }
    field.ShowsNumber args {} ∧
      (field.grouped (some ',')).render options args {} = .ok ("001,234,567.50".toList, cursor) ∧
      field.localize.render options args {} = .ok ("001.234.567,50".toList, cursor) := by
  intro field options args cursor
  have hfield : field.ShowsNumber args {} := by
    refine ⟨rfl, rfl, nofun, nofun, fun v d hpick => ?_⟩
    have hpicked : Picking.pick args field.selector {} =
        .ok (.float ⟨0x4132D68780000000⟩, cursor) := rfl
    rw [hpicked] at hpick
    cases hpick
    exact ⟨rfl, fun _ => rfl⟩
  have hcommas : (field.grouped (some ',')).render options args {} =
      .ok ("001,234,567.50".toList, cursor) := by decide +kernel
  refine ⟨hfield, hcommas, ?_⟩
  have hlocalized := ((render_localized field args options {}).2.2 hfield rfl rfl).1 '.' rfl rfl
  rw [hlocalized.2, hcommas]
  rfl

end Stencil
