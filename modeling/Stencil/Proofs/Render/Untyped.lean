import Stencil.Proofs.Field.Grammar
import Stencil.Proofs.Number.Whole
import Stencil.Proofs.Render.SingleField

/-!
# Fields without a type code

Without a type code the last rules of a field wait for the argument: text is held to the rules of
`s` and whole numbers to those of `d`. These rules are the same as if the code had been written, and
so is the text that comes out.

* `Value.ownType?` — the code that a value without one is presented by.
* `Element.typed`, `Field.typed` — an element or a field with a type code written out.
* `Element.checkTyped` — the rules of a field that wait for the argument.
* `Field.check_typed` — once a field without a code is accepted, these rules decide about it with
  one.
* `renderScalar_byKind` — rendering without a code checks them and then goes on as with one.
* `render_byKind` — so it is for fields whose counts are written as numbers.
-/

namespace Stencil

/-! ## Type codes written out -/

/-- The type code by which a value is presented where there is none; a double has its own form. -/
def Value.ownType? : Value → Option TypeCode
  | bool _ | char _ | text _ => some .text
  | int _ | big _ => some .decimal
  | float _ | list _ | map _ => none

/-- An element with a type code written out. -/
def Element.typed {κ : Type} (element : Element κ) (type : TypeCode) : Element κ :=
  { element with type }

@[simp]
theorem Element.type_typed {κ : Type} (element : Element κ) (type : TypeCode) :
    (element.typed type).type = type := rfl

/-- A field with a type code written out. -/
def Field.typed (field : Field) (type : TypeCode) : Field :=
  { field with element := field.element.typed type }

/-- A fault as it is reported where another type code stands. -/
def Fault.reportedWith (type : TypeCode) : Fault → Fault
  | specifierNotAllowed specifier _ => specifierNotAllowed specifier type
  | fault => fault

theorem Fault.kind_reportedWith (type : TypeCode) (fault : Fault) :
    (fault.reportedWith type).kind = fault.kind := by
  cases fault <;> rfl

/-! ## Rules -/

namespace Element

variable {κ : Type}

/-- The rules that wait for the argument where there is no type code: whole numbers take no
precision, and the code admits every specifier that is used. -/
def checkTyped (element : Element κ) : Except Fault Unit :=
  if element.precision.isSome && (element.type.isInteger || element.type == .character) then
    .error .precisionOnInteger
  else element.checkSpecifiers element.type

/-- The rules of a code refuse the same specifier whatever code stands in the element. -/
theorem checkSpecifiers_typed (element : Element κ) (rules type : TypeCode) :
    element.checkSpecifiers rules =
      ((element.typed type).checkSpecifiers rules).mapError (Fault.reportedWith element.type) := by
  have huses : ∀ s, (element.typed type).uses s = element.uses s := by
    intro s
    cases s <;> rfl
  simp only [checkSpecifiers, huses]
  split <;> rfl

/-- Rules look at which counts there are and not at how they are given. -/
theorem checkTyped_congr {κ' : Type} (element : Element κ) (other : Element κ')
    (huses : ∀ s, element.uses s = other.uses s) (htype : element.type = other.type) :
    element.checkTyped = other.checkTyped := by
  have hprecision : element.precision.isSome = other.precision.isSome := huses .precision
  have hspecifiers (rules : TypeCode) : element.checkSpecifiers rules =
      other.checkSpecifiers rules := checkSpecifiers_congr htype fun s _ => huses s
  rw [checkTyped, checkTyped, hspecifiers, htype, hprecision]

end Element

/-- Where a field without a type code is accepted, only the rules that have waited can refuse it
with one. -/
theorem Field.check_typed {field : Field} (h : field.check = .ok ()) (type : TypeCode) :
    (field.typed type).check = (field.element.typed type).checkTyped := by
  obtain ⟨hzero, hcount, hgroup, -⟩ := of_check_eq_ok h
  have hzero : .literal 0 ∉ (field.typed type).widths := hzero
  have hcount : (field.typed type).excessiveCount? = none := hcount
  rw [check, if_neg hzero, hcount]
  refine if_neg ?_
  rwa [Bool.and_eq_true]

/-! ## Scalars -/

section Scalar

variable {v : Value} {type : TypeCode} {element : Element Nat}

/-- The type code has a part in the digits' surroundings only through the radix mark, the separators
and the percent sign. -/
theorem Figure.parts_typed
    (hmark : ∀ isZero mark, radixMark (element.typed type) isZero mark =
      radixMark element isZero mark)
    (hseparators : ∀ base locale, Separators.resolve (element.typed type) base locale =
      Separators.resolve element base locale)
    (hpercent : percentText type = percentText element.type) (figure : Figure)
    (options : Options) :
    figure.parts (element.typed type) options = figure.parts element options := by
  cases figure with
  | finite n style =>
    simp only [parts, hmark, hseparators, tailText, Element.type_typed, hpercent]
    rfl
  | infinite negative =>
    simp only [parts, Element.type_typed, hpercent]
    rfl
  | notANumber =>
    simp only [parts, Element.type_typed, hpercent]
    rfl

/-- A figure is written under `d` as it is without a code. -/
theorem Figure.written_typed_decimal (htype : element.type = .byKind) (figure : Figure)
    (options : Options) :
    figure.written (element.typed .decimal) options = figure.written element options := by
  have hparts : figure.parts (element.typed .decimal) options = figure.parts element options := by
    refine figure.parts_typed (fun isZero mark => ?_) (fun base locale => ?_) ?_ options
    · simp only [radixMark, htype]
      rfl
    · simp only [Separators.resolve, Element.type_typed, htype, reduceCtorEq]
      rfl
    · rw [htype]
      rfl
  rw [written, written, hparts, Element.type_typed, htype]
  rfl

theorem Figure.whole_integer (n : Int) :
    Figure.whole (.integer n) 10 = .ok (.finite (Numeral.integer 10 n) .integer) :=
  Figure.whole_of_equals rfl (by decide)

/-- Without a code a whole number has all its digits in decimal, as under `d`. -/
theorem figure_integer_byKind (htype : element.type = .byKind)
    (hflag : element.positiveZero = false) (n : Int) :
    (Quantity.integer n).figure element = Figure.whole (.integer n) 10 := by
  simp only [Quantity.figure, htype, TypeCode.radix?, Quantity.nonFinite?, Quantity.finiteFigure,
    Figure.whole_integer, hflag]
  rfl

/-- A whole number is presented under `d` as it is without a code, but for the flag `z`, which `d`
does not admit. -/
theorem renderQuantity_typed_decimal (htype : element.type = .byKind)
    (hflag : element.positiveZero = false) (n : Int) (v : Value) (options : Options) :
    renderQuantity (.integer n) v (element.typed .decimal) options =
      renderQuantity (.integer n) v element options := by
  have hfigure : (Quantity.integer n).figure (element.typed .decimal) =
      (Quantity.integer n).figure element := by
    rw [figure_integer_byKind htype hflag]
    rfl
  rw [renderQuantity, renderQuantity, hfigure]
  split
  · rw [Figure.written_typed_decimal htype]
  · rfl

/-- Text without a code is held to the rules of `s`. -/
theorem renderByKind_text {text : List Char} (htype : element.type = .byKind)
    (htext : v.text? = some text) (options : Options) :
    renderByKind v element options =
      match (element.typed .text).checkTyped with
      | .ok () => .ok (renderText text element)
      | .error fault => .error (fault.reportedWith .byKind) := by
  have hrules : (element.typed .text).checkTyped = (element.typed .text).checkSpecifiers .text :=
    if_neg (by simp [TypeCode.isInteger, TypeCode.radix?])
  rw [renderByKind, htext]
  dsimp only
  rw [Element.checkFor, element.checkSpecifiers_typed .text .text, htype, hrules]
  cases (element.typed .text).checkSpecifiers .text <;> rfl

/-- A whole number without a code is held to the rules of `d`. -/
theorem renderByKind_integer {n : Int} (htype : element.type = .byKind) (htext : v.text? = none)
    (hnumber : v.quantity? = some (.integer n)) (options : Options) :
    renderByKind v element options =
      match (element.typed .decimal).checkTyped with
      | .ok () => renderQuantity (.integer n) v element options
      | .error fault => .error (fault.reportedWith .byKind) := by
  have hrules : (element.typed .decimal).checkTyped =
      if element.precision.isSome then .error .precisionOnInteger
      else (element.typed .decimal).checkSpecifiers .decimal := by
    simp [Element.checkTyped, TypeCode.isInteger, TypeCode.radix?]
    rfl
  rw [renderByKind, htext, hnumber, hrules]
  dsimp only
  rw [Quantity.valueClass, Element.checkFor, element.checkSpecifiers_typed .decimal .decimal, htype]
  split_ifs
  · rfl
  · cases (element.typed .decimal).checkSpecifiers .decimal <;> rfl

/-- `d` does not admit the flag `z`. -/
theorem positiveZero_of_checkTyped (h : (element.typed .decimal).checkTyped = .ok ()) :
    element.positiveZero = false := by
  rw [Element.checkTyped] at h
  split at h
  · cases h
  · rw [← Bool.not_eq_true]
    intro hflag
    have hadmitted := Element.admits_of_checkSpecifiers h (s := .positiveZero) hflag
    simp [TypeCode.specifiers] at hadmitted

/-- Without a type code a value is held to the rules of its own code, and then it is rendered as
under that code. -/
theorem renderScalar_byKind (htype : element.type = .byKind) (hv : v.ownType? = some type)
    (options : Options) :
    renderScalar v element options =
      match (element.typed type).checkTyped with
      | .ok () => renderScalar v (element.typed type) options
      | .error fault => .error (fault.reportedWith .byKind) := by
  have hscalar : renderScalar v element options = renderByKind v element options := by
    rw [renderScalar, htype]
  rw [hscalar]
  cases v with
  | bool b | char c | text s =>
    obtain rfl := Option.some.inj hv
    exact renderByKind_text htype rfl options
  | int n | big n =>
    obtain rfl := Option.some.inj hv
    rw [renderByKind_integer htype rfl rfl]
    cases hrules : (element.typed .decimal).checkTyped with
    | error fault => rfl
    | ok checked =>
      have hflag := positiveZero_of_checkTyped hrules
      exact (renderQuantity_typed_decimal htype hflag n _ options).symm
  | float x => cases hv
  | list items => cases hv
  | map entries => cases hv

theorem exists_renderScalar_typed (hv : v.ownType? = some type) (element : Element Nat)
    (options : Options) : ∃ text, renderScalar v (element.typed type) options = .ok text := by
  cases v with
  | bool b | char c | text s =>
    obtain rfl := Option.some.inj hv
    exact ⟨_, rfl⟩
  | int n | big n =>
    obtain rfl := Option.some.inj hv
    have hfigure : (Quantity.integer n).figure (element.typed .decimal) =
        .ok (.finite (Numeral.integer 10 n) .integer) := Figure.whole_integer n
    exact ⟨_, by simp [renderScalar, renderNumber, Value.singleChar?, Value.quantity?,
      renderQuantity, hfigure]; rfl⟩
  | float x => cases hv
  | list items => cases hv
  | map entries => cases hv

end Scalar

/-! ## Fields -/

theorem Value.isContainer_of_ownType? {v : Value} {type : TypeCode} (h : v.ownType? = some type) :
    v.isContainer = false := by
  cases v with
  | list items => cases h
  | map entries => cases h
  | _ => rfl

/-- An element whose counts are written as numbers, with these numbers. -/
def Element.numbers (element : Element Count) : Element Nat :=
  { element with
    width := element.width.bind Count.literal?
    precision := element.precision.bind Count.literal? }

/-- What is so for all counts of a field is so for those of its element and of its layers. -/
theorem forall_mem_counts_iff {field : Field} {p : Count → Prop} :
    (∀ n ∈ field.counts, p n) ↔ (∀ n ∈ field.element.width, p n) ∧
      (∀ n ∈ field.element.precision, p n) ∧ ∀ n ∈ field.layers.filterMap (·.width), p n := by
  simp only [Field.counts, List.forall_mem_append, Option.mem_toList, Option.mem_def, and_assoc]

section Literals

variable (args : List Value)

theorem pickCount_literal {count : Option Count} (h : ∀ n ∈ count, n.literal?.isSome) (c : Cursor) :
    Picking.pickCount args count c = .ok (count.bind Count.literal?, c) := by
  cases count with
  | none => rfl
  | some count =>
    cases count with
    | literal n => rfl
    | ref selector => cases h _ rfl

theorem exists_pickLayers_literal {layers : List (Layer Count)}
    (h : ∀ n ∈ layers.filterMap (·.width), n.literal?.isSome) (c : Cursor) :
    ∃ resolved, layers.mapM (Picking.pickLayer args) c = .ok (resolved, c) := by
  induction layers with
  | nil => exact ⟨[], rfl⟩
  | cons layer rest ih =>
    have hlayer : ∀ n ∈ layer.width, n.literal?.isSome := by
      intro n hn
      refine h n ?_
      rw [List.filterMap_cons, hn]
      exact List.mem_cons_self
    obtain ⟨resolved, hresolved⟩ := ih fun n hn => by
      refine h n ?_
      rw [List.filterMap_cons]
      split
      · exact hn
      · exact List.mem_cons_of_mem _ hn
    have hpick : Picking.pickLayer args layer c =
        .ok ({ layer with width := layer.width.bind Count.literal? }, c) := by
      simp only [Picking.pickLayer, bind, StateT.bind, Except.bind, pickCount_literal args hlayer]
      rfl
    refine ⟨{ layer with width := layer.width.bind Count.literal? } :: resolved, ?_⟩
    rw [List.mapM_cons]
    simp only [bind, StateT.bind, Except.bind, hpick, hresolved]
    rfl

variable {args}

/-- A field whose counts are written as numbers takes one argument, its value. -/
theorem exists_request_literal {field : Field}
    (h : ∀ n ∈ field.counts, n.literal?.isSome) {v : Value} {c d : Cursor}
    (hpick : Picking.pick args field.selector c = .ok (v, d)) :
    ∃ layers, field.request args c =
      .ok ({ value := v, layers, element := field.element.numbers }, d) := by
  obtain ⟨hwidth, hprecision, hlayers⟩ := forall_mem_counts_iff.1 h
  obtain ⟨layers, hlayers⟩ := exists_pickLayers_literal args hlayers d
  have hwidth := pickCount_literal args hwidth d
  have hprecision := pickCount_literal args hprecision d
  refine ⟨layers, ?_⟩
  simp only [Field.request, Picking.pickElement, bind, StateT.bind, Except.bind, hpick, hlayers,
    hwidth, hprecision]
  rfl

/-- Such a field renders a scalar under its element. -/
theorem render_literal {field : Field} (h : ∀ n ∈ field.counts, n.literal?.isSome) {v : Value}
    (hv : v.isContainer = false) {c d : Cursor}
    (hpick : Picking.pick args field.selector c = .ok (v, d)) (options : Options) :
    field.render options args c =
      (renderScalar v field.element.numbers options).map fun text => (text, d) := by
  obtain ⟨layers, hrequest⟩ := exists_request_literal h hpick
  have hrender := renderValue_scalar layers hv field.element.numbers options
  simp only [Field.render, bind, StateT.bind, hrequest, Except.bind, hrender]
  cases renderScalar v field.element.numbers options <;> rfl

end Literals

theorem uses_numbers (element : Element Count) (hwidth : ∀ n ∈ element.width, n.literal?.isSome)
    (hprecision : ∀ n ∈ element.precision, n.literal?.isSome) (s : Specifier) :
    element.numbers.uses s = element.uses s := by
  have hbind : ∀ {count : Option Count}, (∀ n ∈ count, n.literal?.isSome) →
      (count.bind Count.literal?).isSome = count.isSome := by
    intro count h
    cases count with
    | none => rfl
    | some n => exact h n rfl
  cases s with
  | width => exact hbind hwidth
  | precision => exact hbind hprecision
  | _ => rfl

/-- A field without a type code, accepted as it stands and with its counts written as numbers,
renders text exactly if it is accepted with `s`, and a whole number exactly if it is accepted with
`d`. What it renders then is what it renders with the code. Otherwise it is refused for what it is
refused for with the code, but no code is named. -/
theorem render_byKind {field : Field} (htype : field.element.type = .byKind)
    (hcheck : field.check = .ok ()) (hliteral : ∀ n ∈ field.counts, n.literal?.isSome)
    {v : Value} {type : TypeCode} (hv : v.ownType? = some type) {args : List Value} {c d : Cursor}
    (hpick : Picking.pick args field.selector c = .ok (v, d)) (options : Options) :
    ((∃ result, field.render options args c = .ok result) ↔ (field.typed type).check = .ok ()) ∧
      (∀ result, field.render options args c = .ok result →
        (field.typed type).render options args c = .ok result) ∧
      ∀ fault, (field.typed type).check = .error fault →
        ∃ reported, field.render options args c = .error reported ∧
          reported.kind = fault.kind ∧
          ∀ specifier code, fault = .specifierNotAllowed specifier code →
            reported = .specifierNotAllowed specifier .byKind := by
  have hcontainer := Value.isContainer_of_ownType? hv
  have hrender := render_literal hliteral hcontainer hpick options
  have hkept : ∀ n ∈ (field.typed type).counts, n.literal?.isSome := hliteral
  have htyped : (field.typed type).render options args c =
      (renderScalar v (field.element.numbers.typed type) options).map fun text => (text, d) :=
    render_literal hkept hcontainer hpick options
  have hrules : (field.typed type).check = (field.element.numbers.typed type).checkTyped := by
    rw [Field.check_typed hcheck]
    obtain ⟨hwidth, hprecision, -⟩ := forall_mem_counts_iff.1 hliteral
    have huses := uses_numbers (field.element.typed type) hwidth hprecision
    exact (Element.checkTyped_congr (field.element.numbers.typed type) (field.element.typed type)
      huses rfl).symm
  have htype : field.element.numbers.type = .byKind := htype
  rw [renderScalar_byKind htype hv] at hrender
  obtain ⟨text, htext⟩ := exists_renderScalar_typed hv field.element.numbers options
  rw [htext] at htyped
  rw [hrules]
  cases hchecked : (field.element.numbers.typed type).checkTyped with
  | ok checked =>
    rw [hchecked] at hrender
    dsimp only at hrender
    rw [htext] at hrender
    refine ⟨iff_of_true ⟨_, hrender⟩ rfl, fun result h => ?_, nofun⟩
    rw [htyped, ← h, hrender]
  | error fault =>
    rw [hchecked] at hrender
    refine ⟨?_, fun result h => ?_, ?_⟩
    · refine iff_of_false ?_ nofun
      rintro ⟨result, h⟩
      rw [hrender] at h
      cases h
    · rw [hrender] at h
      cases h
    · intro found hfound
      obtain rfl := Except.error.inj hfound
      exact ⟨_, hrender, Fault.kind_reportedWith .byKind fault, by rintro specifier code rfl; rfl⟩

/-- `{:+5}` shows a number as `{:+5d}` does, and refuses text as `{:+5s}` does. -/
theorem render_byKind_signed :
    let field : Field :=
      { raw := ":+5", element := { sign := some .always, width := some (.literal 5) } }
    let cursor : Cursor := { next := 1, numbering := some .automatic }
    (field.typed .decimal).render {} [.int 7] {} = .ok ("   +7".toList, cursor) ∧
      field.render {} [.text "ab"] {} = .error (.specifierNotAllowed .sign .byKind) := by
  intro field cursor
  have htype : field.element.type = .byKind := rfl
  have hcheck : field.check = .ok () := by decide
  have hliteral : ∀ n ∈ field.counts, n.literal?.isSome := by decide
  have hpick (v : Value) : Picking.pick [v] field.selector {} = .ok (v, cursor) := rfl
  have hnumber := render_byKind htype hcheck hliteral rfl (hpick (.int 7)) {}
  have htext := render_byKind htype hcheck hliteral rfl (hpick (.text "ab")) {}
  constructor
  · exact hnumber.2.1 _ (by decide +kernel)
  · obtain ⟨reported, hrender, -, hreported⟩ :=
      htext.2.2 (.specifierNotAllowed .sign .text) (by decide)
    rw [hrender, hreported _ _ rfl]

end Stencil
