import Stencil.Proofs.Render.Levels
import Stencil.Proofs.Template.Scanning
import Stencil.Render.Template

/-!
# What the options have a say in

The locale is asked for by numbers under the code `n` or the flag `L`, the octal mark by alternate
octal numbers, and the limit by containers. Where a template comes to none of these, options that
differ there give the same result. A greater limit lets pass what was nested too deep, and changes
nothing else.

* `Element.UsesLocale`, `Element.UsesOctalMark` — elements that ask for the locale and for the mark.
* `Options.Extends` — options that answer an element like others do, with a limit that is no less.
* `Stays` — a result that stays what it is, or an error that is lifted.
* `dress_stays`, `renderFrom_stays` — values and templates, under options that extend others.
* `render_options_agree` — the result does not depend on options that are not asked for.
-/

namespace Stencil

/-! ## What an element asks for -/

section Uses

variable {κ : Type}

/-- An element with point and digit groups of the locale. -/
def Element.UsesLocale (element : Element κ) : Prop :=
  element.type = .localeInteger ∨ element.localized = true

/-- An element with a radix mark in front of octal digits. -/
def Element.UsesOctalMark (element : Element κ) : Prop :=
  element.type = .octal ∧ element.alternate = true

instance (element : Element κ) : Decidable element.UsesLocale :=
  inferInstanceAs (Decidable (element.type = .localeInteger ∨ element.localized = true))

instance (element : Element κ) : Decidable element.UsesOctalMark :=
  inferInstanceAs (Decidable (element.type = .octal ∧ element.alternate = true))

/-- Options that give an element the locale and the octal mark that others give it, if it asks for
them, and that let containers be nested no less deep. -/
structure Options.Extends (wide narrow : Options) (element : Element κ) : Prop where
  locale : element.UsesLocale → wide.locale = narrow.locale
  octalMark : element.UsesOctalMark → wide.octalMark = narrow.octalMark
  maxDepth : narrow.maxDepth ≤ wide.maxDepth

end Uses

namespace Options.Extends

variable {κ : Type} {wide narrow : Options} {element : Element Nat}

/-- An element without type code and flags asks for nothing. -/
theorem plain {given : Element κ} (h : wide.Extends narrow given) :
    wide.Extends narrow ({} : Element Nat) :=
  ⟨fun huses => absurd huses (by decide), fun huses => absurd huses (by decide), h.maxDepth⟩

/-- Padding has no part in what an element asks for. -/
theorem under (h : wide.Extends narrow element) (layers : List (Layer Nat)) :
    wide.Extends narrow (element.under layers) := by
  rw [Element.under]
  split
  · exact h
  · exact ⟨h.locale, h.octalMark, h.maxDepth⟩

/-- Nor has where its width and precision come from. -/
theorem resolved {given : Element κ} (h : wide.Extends narrow given)
    (width precision : Option Nat) : wide.Extends narrow { given with width, precision } :=
  ⟨h.locale, h.octalMark, h.maxDepth⟩

end Options.Extends

/-! ## Scalars -/

theorem Separators.resolve_congr {element : Element Nat} {locale other : Locale}
    (h : element.UsesLocale → locale = other) (base : Nat) :
    Separators.resolve element base locale = Separators.resolve element base other := by
  rw [resolve, resolve]
  split_ifs with huses
  · rw [h huses]
  · rfl

theorem radixMark_congr {element : Element Nat} {mark other : OctalMark}
    (h : element.UsesOctalMark → mark = other) (isZero : Bool) :
    radixMark element isZero mark = radixMark element isZero other := by
  by_cases huses : element.UsesOctalMark
  · rw [h huses]
  · unfold radixMark
    cases halternate : element.alternate with
    | false => rfl
    | true =>
      cases htype : element.type with
      | octal => exact absurd ⟨htype, halternate⟩ huses
      | _ => rfl

section Scalar

variable {wide narrow : Options} {element : Element Nat}

theorem Figure.written_congr (h : wide.Extends narrow element) (figure : Figure) :
    figure.written element wide = figure.written element narrow := by
  have hparts : figure.parts element wide = figure.parts element narrow := by
    cases figure with
    | finite n style =>
      simp only [Figure.parts, Separators.resolve_congr h.locale, radixMark_congr h.octalMark]
    | infinite negative => rfl
    | notANumber => rfl
  rw [written, written, hparts]

theorem renderQuantity_congr (h : wide.Extends narrow element) (q : Quantity) (v : Value) :
    renderQuantity q v element wide = renderQuantity q v element narrow := by
  rw [renderQuantity, renderQuantity]
  split
  · rw [Figure.written_congr h]
  · rfl

theorem renderScalar_congr (h : wide.Extends narrow element) (v : Value) :
    renderScalar v element wide = renderScalar v element narrow := by
  simp only [renderScalar, renderByKind, renderNumber, renderQuantity_congr h]

end Scalar

/-! ## Results that stay -/

section Stays

variable {ε ε' α β : Type} {lifted : ε → Prop}

/-- Of two results, the second is the first again, unless the first is an error that is lifted. -/
def Stays (lifted : ε → Prop) (first second : Except ε α) : Prop :=
  second = first ∨ ∃ e, lifted e ∧ first = .error e

namespace Stays

theorem refl (result : Except ε α) : Stays lifted result result := .inl rfl

theorem bind {first second : Except ε α} {f g : α → Except ε β} (h : Stays lifted first second)
    (hf : ∀ a, Stays lifted (f a) (g a)) : Stays lifted (first >>= f) (second >>= g) := by
  rcases h with rfl | ⟨e, hlifted, rfl⟩
  · cases second with
    | error e => exact .inl rfl
    | ok a => exact hf a
  · exact .inr ⟨e, hlifted, rfl⟩

theorem mapError {first second : Except ε α} {lifted' : ε' → Prop} {f : ε → ε'}
    (h : Stays lifted first second) (hf : ∀ e, lifted e → lifted' (f e)) :
    Stays lifted' (first.mapError f) (second.mapError f) := by
  rcases h with rfl | ⟨e, hlifted, rfl⟩
  · exact .inl rfl
  · exact .inr ⟨f e, hf e hlifted, rfl⟩

end Stays

end Stays

/-- The fault of a nesting that is too deep for options, yet perhaps not for others. -/
def Options.Lifts (wide narrow : Options) (fault : Fault) : Prop :=
  narrow.maxDepth < wide.maxDepth ∧ fault = .nestingTooDeep narrow.maxDepth

/-- Such a fault in the field of a template. -/
def Options.LiftsIn (wide narrow : Options) (e : FormatError) : Prop :=
  ∃ raw fault, wide.Lifts narrow fault ∧ e = .inField raw fault

/-! ## Values -/

section Values

variable {wide narrow : Options}

/-- A value is measured against both limits before it is laid out. -/
theorem stays_measured {α : Type} (hle : narrow.maxDepth ≤ wide.maxDepth) (depth : Nat)
    {first second : Except Fault α} (h : Stays (wide.Lifts narrow) first second) :
    Stays (wide.Lifts narrow)
      (if narrow.maxDepth < depth then .error (.nestingTooDeep narrow.maxDepth) else first)
      (if wide.maxDepth < depth then .error (.nestingTooDeep wide.maxDepth) else second) := by
  by_cases hdeep : narrow.maxDepth < depth
  · rw [if_pos hdeep]
    rcases Nat.eq_or_lt_of_le hle with hsame | hless
    · rw [← hsame, if_pos hdeep]
      exact .refl _
    · exact .inr ⟨_, ⟨hless, rfl⟩, rfl⟩
  · rw [if_neg hdeep, if_neg (by omega)]
    exact h

mutual

theorem dress_stays {element : Element Nat} (h : wide.Extends narrow element)
    (layers : List (Layer Nat)) (v : Value) :
    Stays (wide.Lifts narrow) (v.dress narrow element layers) (v.dress wide element layers) := by
  cases v with
  | list items =>
    rw [Value.dress, Value.dress]
    exact (dressItems_stays h layers.tail items).bind fun _ => .refl _
  | map entries =>
    rw [Value.dress, Value.dress]
    exact (dressEntries_stays h layers.tail _ entries).bind fun _ => .refl _
  | _ =>
    simp only [Value.dress]
    exact .inl (renderScalar_congr (h.under layers) _)

theorem dressItems_stays {element : Element Nat} (h : wide.Extends narrow element)
    (layers : List (Layer Nat)) (items : List Value) :
    Stays (wide.Lifts narrow) (dressItems narrow element layers items)
      (dressItems wide element layers items) := by
  cases items with
  | nil => exact .refl _
  | cons v rest =>
    rw [dressItems, dressItems]
    exact (dress_stays h layers v).bind fun _ =>
      (dressItems_stays h layers rest).bind fun _ => .refl _

theorem dressEntries_stays {element : Element Nat} (h : wide.Extends narrow element)
    (layers : List (Layer Nat)) (kind : ContainerKind) (entries : List (Value × Value)) :
    Stays (wide.Lifts narrow) (dressEntries narrow element layers kind entries)
      (dressEntries wide element layers kind entries) := by
  cases entries with
  | nil => exact .refl _
  | cons entry rest =>
    obtain ⟨k, v⟩ := entry
    rw [dressEntries, dressEntries]
    refine stays_measured h.maxDepth k.depth ((dress_stays h.plain _ k).bind fun _ => ?_)
    exact (dress_stays h layers v).bind fun _ =>
      (dressEntries_stays h layers kind rest).bind fun _ => .refl _

end

theorem renderValue_stays {element : Element Nat} (h : wide.Extends narrow element)
    (layers : List (Layer Nat)) (v : Value) :
    Stays (wide.Lifts narrow) (renderValue narrow layers element v)
      (renderValue wide layers element v) := by
  rw [renderValue_eq_ite, renderValue_eq_ite]
  exact stays_measured h.maxDepth v.depth (dress_stays h _ v)

end Values

/-! ## Templates -/

/-- Looking a field up gives its element numbers for its width and its precision, and nothing
else. -/
theorem Field.exists_element_of_request {args : List Value} {field : Field} {c d : Cursor}
    {request : Request} (h : field.request args c = .ok (request, d)) :
    ∃ width precision, request.element = { field.element with width, precision } := by
  simp only [Field.request, Picking.pickElement, Bind.bind, StateT.bind] at h
  obtain ⟨_, -, h⟩ := bind_eq_ok h
  obtain ⟨_, -, h⟩ := bind_eq_ok h
  obtain ⟨⟨resolved, _⟩, helement, h⟩ := bind_eq_ok h
  obtain ⟨⟨width, _⟩, -, helement⟩ := bind_eq_ok helement
  obtain ⟨⟨precision, _⟩, -, helement⟩ := bind_eq_ok helement
  cases helement
  cases h
  exact ⟨width, precision, rfl⟩

section Templates

variable {wide narrow : Options} (args : List Value)

theorem render_stays {field : Field} (h : wide.Extends narrow field.element) (c : Cursor) :
    Stays (wide.Lifts narrow) (field.render narrow args c) (field.render wide args c) := by
  simp only [Field.render, Bind.bind, StateT.bind]
  cases hrequest : field.request args c with
  | error fault => exact .refl _
  | ok result =>
    obtain ⟨request, d⟩ := result
    obtain ⟨width, precision, helement⟩ := Field.exists_element_of_request hrequest
    have hextends : wide.Extends narrow request.element := helement ▸ h.resolved width precision
    exact (renderValue_stays hextends request.layers request.value).bind fun _ => .refl _

/-- A template renders alike under options that extend others for all its fields, unless a nesting
that was too deep is lifted. -/
theorem renderFrom_stays {template : Template Field}
    (h : ∀ field, .field field ∈ template → wide.Extends narrow field.element) (c : Cursor) :
    Stays (wide.LiftsIn narrow) (renderFrom narrow args c template)
      (renderFrom wide args c template) := by
  induction template generalizing c with
  | nil => exact .refl _
  | cons segment rest ih =>
    have hrest := ih fun field hfield => h field (List.mem_cons_of_mem _ hfield)
    cases segment with
    | literal text =>
      rw [renderFrom, renderFrom]
      exact (hrest c).bind fun _ => .refl _
    | field field =>
      have hfield : Stays (wide.LiftsIn narrow)
          ((field.render narrow args c).mapError (.inField field.raw))
          ((field.render wide args c).mapError (.inField field.raw)) :=
        (render_stays args (h field List.mem_cons_self) c).mapError fun fault hlifted =>
          ⟨field.raw, fault, hlifted, rfl⟩
      rw [renderFrom, renderFrom]
      exact hfield.bind fun result => (hrest result.2).bind fun _ => .refl _

theorem template_render_stays {template : Template Field}
    (h : ∀ field, .field field ∈ template → wide.Extends narrow field.element) :
    Stays (wide.LiftsIn narrow) (template.render args narrow) (template.render args wide) := by
  rcases renderFrom_stays args h {} with hsame | ⟨e, hlifted, herror⟩
  · exact .inl (congrArg (Except.map String.ofList) hsame)
  · exact .inr ⟨e, hlifted, congrArg (Except.map String.ofList) herror⟩

end Templates

/-- Options have a say only where they are asked for. Without the code `n` and the flag `L` the
locale makes no difference, and without alternate octal numbers the octal mark makes none. A greater
limit gives the same result, text or failure, unless the smaller one is exceeded. -/
theorem render_options_agree (template : Template Field) (args : List Value) (A B : Options) :
    (B = { A with locale := B.locale } →
      (∀ field, .field field ∈ template → ¬ field.element.UsesLocale) →
        template.render args B = template.render args A) ∧
    (B = { A with octalMark := B.octalMark } →
      (∀ field, .field field ∈ template → ¬ field.element.UsesOctalMark) →
        template.render args B = template.render args A) ∧
    (B = { A with maxDepth := B.maxDepth } → A.maxDepth ≤ B.maxDepth →
      (∀ raw limit, template.render args A ≠ .error (.inField raw (.nestingTooDeep limit))) →
        template.render args B = template.render args A) := by
  refine ⟨fun hB hlocale => ?_, fun hB hmark => ?_, fun hB hle hdeep => ?_⟩
  · have hmax : B.maxDepth = A.maxDepth := by rw [hB]
    have hextends : ∀ field, .field field ∈ template → B.Extends A field.element :=
      fun field hfield => ⟨fun huses => absurd huses (hlocale field hfield),
        fun _ => by rw [hB], Nat.le_of_eq hmax.symm⟩
    rcases template_render_stays args hextends with hsame | ⟨e, ⟨_, _, ⟨hless, -⟩, -⟩, -⟩
    · exact hsame
    · omega
  · have hmax : B.maxDepth = A.maxDepth := by rw [hB]
    have hextends : ∀ field, .field field ∈ template → B.Extends A field.element :=
      fun field hfield => ⟨fun _ => by rw [hB],
        fun huses => absurd huses (hmark field hfield), Nat.le_of_eq hmax.symm⟩
    rcases template_render_stays args hextends with hsame | ⟨e, ⟨_, _, ⟨hless, -⟩, -⟩, -⟩
    · exact hsame
    · omega
  · have hextends : ∀ field, .field field ∈ template → B.Extends A field.element :=
      fun field _ => ⟨fun _ => by rw [hB], fun _ => by rw [hB], hle⟩
    rcases template_render_stays args hextends with hsame | ⟨e, ⟨raw, _, ⟨-, rfl⟩, rfl⟩, herror⟩
    · exact hsame
    · exact absurd herror (hdeep raw _)

/-- An alternate number that is not octal, an octal one that is not alternate, and digit groups that
are not those of the locale. -/
def unaskedTemplate : Template Field :=
  [.field {
      raw := ":+#x"
      element := { sign := some .always, alternate := true, type := .hex .lower } },
    .literal ", ",
    .field { raw := ":o", element := { type := .octal } },
    .literal ", ",
    .field { raw := ":,d", element := { grouping := some ',', type := .decimal } }]

/-- The last argument is a mapping as deep as the limit, with a list for its key. -/
theorem render_options_agree_keyed :
    let args : List Value :=
      [.int 255, .int 8, .map [(.list [.list [.int 7]], .list [.big 1234567])]]
    let A : Options := { maxDepth := 2 }
    let text := "+0xff, 10, \x7b[[7]]: [1,234,567]\x7d"
    compile "\x7b:+#x\x7d, \x7b:o\x7d, \x7b:,d\x7d" = .ok unaskedTemplate ∧
      (∀ field, .field field ∈ unaskedTemplate → ¬ field.element.UsesLocale) ∧
      (∀ field, .field field ∈ unaskedTemplate → ¬ field.element.UsesOctalMark) ∧
      unaskedTemplate.render args A = .ok text ∧
      unaskedTemplate.render args { A with locale := .withComma '.' } = .ok text ∧
      unaskedTemplate.render args { A with octalMark := .bareZero } = .ok text ∧
      unaskedTemplate.render args { A with maxDepth := 64 } = .ok text := by
  intro args A text
  have hlocale : ∀ field, .field field ∈ unaskedTemplate → ¬ field.element.UsesLocale := by
    intro field hfield
    simp only [unaskedTemplate, List.mem_cons, Segment.field.injEq, reduceCtorEq, false_or,
      List.not_mem_nil, or_false] at hfield
    rcases hfield with rfl | rfl | rfl <;> decide
  have hmark : ∀ field, .field field ∈ unaskedTemplate → ¬ field.element.UsesOctalMark := by
    intro field hfield
    simp only [unaskedTemplate, List.mem_cons, Segment.field.injEq, reduceCtorEq, false_or,
      List.not_mem_nil, or_false] at hfield
    rcases hfield with rfl | rfl | rfl <;> decide
  have htext : unaskedTemplate.render args A = .ok text := by decide +kernel
  have hdeep : ∀ raw limit, unaskedTemplate.render args A ≠
      .error (.inField raw (.nestingTooDeep limit)) := by
    intro raw limit h
    rw [htext] at h
    cases h
  refine ⟨by decide +kernel, hlocale, hmark, htext, ?_, ?_, ?_⟩
  · exact ((render_options_agree unaskedTemplate args A _).1 rfl hlocale).trans htext
  · exact ((render_options_agree unaskedTemplate args A _).2.1 rfl hmark).trans htext
  · exact ((render_options_agree unaskedTemplate args A _).2.2 rfl (by decide) hdeep).trans htext

end Stencil
