import Stencil.Proofs.Field.Reading
import Stencil.Proofs.Template.Scanning

/-!
# Templates of one field

A template that is nothing but a presentation between braces formats its one argument in it.

* `Element.template` — the template of an element whose numbers are written out.
* `compile_template` — it compiles to the field that it writes.
* `formatWith_of_compile` — formatting a scalar with one field renders it under the element.
* `formatWith_template_eq` — so it is for the template of an element.
-/

namespace Stencil

namespace Element

/-- An element as the template holds it, with its width and precision as numbers. -/
def asWritten (e : Element Nat) : Element Count :=
  { e with width := e.width.map .literal, precision := e.precision.map .literal }

/-- The template of one field that says nothing but its element. -/
def template (e : Element Nat) : String :=
  String.ofList ('{' :: ':' :: e.asWritten.spell ++ ['}'])

end Element

/-! ## Scanning -/

theorem isFill_of_isDigit {c : Char} (h : c.isDigit = true) : Reader.isFill c = true := by
  simp only [Reader.isFill, Bool.and_eq_true, bne_iff_ne]
  constructor
  · rintro rfl
    simp at h
  · rintro rfl
    simp at h

theorem isFill_of_mem_decimal {n : Nat} {c : Char} (hc : c ∈ Digits.decimal n) :
    Reader.isFill c = true :=
  isFill_of_isDigit (Reader.isDigit_of_mem_decimal hc)

theorem isFill_of_mem_flag {c d : Char} {on : Bool} (hc : Reader.isFill c = true)
    (hd : d ∈ spellFlag c on) : Reader.isFill d = true := by
  cases on with
  | false => simp [spellFlag] at hd
  | true =>
    obtain rfl := List.mem_singleton.1 hd
    exact hc

theorem isFill_of_mem_padding {fill : Option Char} {align : Option Align}
    (h : WellPadded fill align) {d : Char} (hd : d ∈ spellPadding fill align) :
    Reader.isFill d = true := by
  rcases List.mem_append.1 hd with hd | hd
  · have hbrace := h.not_brace d (Option.mem_toList.1 hd)
    simp only [Reader.isFill, Bool.and_eq_true, bne_iff_ne]
    exact hbrace
  · obtain ⟨a, -, rfl⟩ := Option.map_eq_some_iff.1 (Option.mem_toList.1 hd)
    cases a <;> rfl

/-- An element whose numbers are written out has no braces in its text. -/
theorem isFill_of_mem_spell {e : Element Nat} (h : e.asWritten.WellFormed) {d : Char}
    (hd : d ∈ e.asWritten.spell) : Reader.isFill d = true := by
  rw [Element.spell_eq, Element.spellSpecifiers] at hd
  simp only [List.mem_append] at hd
  rcases hd with hd | hd | hd | hd | hd | hd | hd | hd | hd | hd
  · exact isFill_of_mem_padding h.padded hd
  · obtain ⟨m, -, rfl⟩ := Option.map_eq_some_iff.1 (Option.mem_toList.1 hd)
    cases m <;> rfl
  · exact isFill_of_mem_flag rfl hd
  · exact isFill_of_mem_flag rfl hd
  · exact isFill_of_mem_flag rfl hd
  · cases hw : e.width with
    | none => simp [Element.asWritten, hw, spellOption] at hd
    | some n =>
      simp only [Element.asWritten, hw, Option.map_some, spellOption] at hd
      exact isFill_of_mem_decimal hd
  · rcases h.grouping d (Option.mem_toList.1 hd) with rfl | rfl <;> rfl
  · cases hp : e.precision with
    | none => simp [Element.asWritten, hp, spellOption] at hd
    | some n =>
      simp only [Element.asWritten, hp, Option.map_some, spellOption, List.mem_cons] at hd
      rcases hd with rfl | hd
      · rfl
      · exact isFill_of_mem_decimal hd
  · exact isFill_of_mem_flag rfl hd
  · have htype := TypeCode.ofChar?_eq_some_iff.2 (Option.mem_toList.1 hd)
    simp only [Reader.isFill, Bool.and_eq_true, bne_iff_ne]
    constructor
    · rintro rfl
      simp [TypeCode.ofChar?] at htype
    · rintro rfl
      simp [TypeCode.ofChar?] at htype

theorem balanced_of_isFill {text : List Char} (h : ∀ c ∈ text, Reader.isFill c = true) :
    Token.Balanced 1 0 text := by
  induction text with
  | nil => rfl
  | cons c text ih =>
    have hc := h c List.mem_cons_self
    simp only [Reader.isFill, Bool.and_eq_true, bne_iff_ne] at hc
    rw [Token.Balanced]
    · exact ih fun d hd => h d (List.mem_cons_of_mem _ hd)
    · exact hc.1
    · exact hc.2

theorem tokenize_template {e : Element Nat} (h : e.asWritten.WellFormed) :
    tokenize e.template = .ok [.field (':' :: e.asWritten.spell)] := by
  rw [tokenize_eq_ok_iff_scan, Token.scan_eq_ok_iff]
  refine ⟨⟨?_, by simp, trivial⟩, ?_⟩
  · refine balanced_of_isFill ?_
    intro c hc
    rcases List.mem_cons.1 hc with rfl | hc
    · rfl
    · exact isFill_of_mem_spell h hc
  · rw [Element.template, String.toList_ofList]
    simp [Token.spellAll, Token.spell]

/-! ## Compiling -/

/-- The field of a template that says nothing but its element. -/
def Element.field (e : Element Nat) : Field where
  raw := String.ofList (':' :: e.asWritten.spell)
  element := e.asWritten

theorem compile_template {e : Element Nat} (h : e.asWritten.WellFormed) :
    compile e.template = .ok [.field e.field] := by
  have hfield : e.field.WellFormed := ⟨trivial, by simp [Element.field], h⟩
  have hparse := Field.parse_canonical hfield (List.isChain_singleton _)
  have hcanonical : e.field.canonical = ':' :: e.asWritten.spell := rfl
  rw [hcanonical] at hparse
  have htoken : compileToken (.field (':' :: e.asWritten.spell)) = .ok (.field e.field) := by
    rw [compileToken, parseField, hparse]
    rfl
  rw [compile, tokenize_template h]
  simp only [bind, Except.bind, List.mapM_cons, htoken, List.mapM_nil, pure, Except.pure]

/-! ## Rendering -/

/-- The field takes the first argument, and its numbers as they are written. -/
theorem request_written (raw : String) (e : Element Nat) (v : Value) :
    Field.request [v] { raw, element := e.asWritten } {} =
      .ok ({ value := v, layers := [], element := e }, { next := 1, numbering := some .automatic })
    := by
  obtain ⟨fill, align, sign, positiveZero, alternate, zeroPad, width, grouping, precision,
    localized, type⟩ := e
  cases width <;> cases precision <;> rfl

/-- A scalar has no use for layers. -/
theorem renderValue_scalar (layers : List (Layer Nat)) {v : Value} (hv : v.isContainer = false)
    (e : Element Nat) (options : Options) :
    renderValue options layers e v = renderScalar v e options := by
  rw [renderValue, hv]
  rfl

theorem render_written (raw : String) (e : Element Nat) {v : Value} (hv : v.isContainer = false)
    (options : Options) :
    Field.render options [v] { raw, element := e.asWritten } {} =
      (renderScalar v e options).map fun text =>
        (text, { next := 1, numbering := some .automatic }) := by
  have hrender := renderValue_scalar [] hv e options
  rw [Field.render]
  simp only [bind, StateT.bind, request_written, Except.bind, hrender]
  cases renderScalar v e options <;> rfl

/-- Formatting a scalar with a template that compiles to one field renders the scalar under the
element of the field, and a fault is that of the field. -/
theorem formatWith_of_compile {template raw : String} {e : Element Nat}
    (h : compile template = .ok [.field { raw, element := e.asWritten }]) {v : Value}
    (hv : v.isContainer = false) (options : Options) :
    formatWith template [v] options =
      ((renderScalar v e options).mapError (.inField raw)).map String.ofList := by
  have hfield := render_written raw e hv options
  rw [formatWith, h]
  simp only [bind, Except.bind, Template.render, renderFrom, hfield]
  cases renderScalar v e options with
  | ok text =>
    simp only [Except.map, Except.mapError, pure, Except.pure, List.append_nil]
  | error fault => rfl

/-- Formatting a scalar with the template of an element renders the scalar under the element, and
a fault is that of the field. -/
theorem formatWith_template_eq {e : Element Nat} (h : e.asWritten.WellFormed) {v : Value}
    (hv : v.isContainer = false) (options : Options) :
    formatWith e.template [v] options =
      ((renderScalar v e options).mapError (.inField e.field.raw)).map String.ofList :=
  formatWith_of_compile (compile_template h) hv options

theorem formatWith_template {e : Element Nat} (h : e.asWritten.WellFormed) {v : Value}
    (hv : v.isContainer = false) {options : Options} {text : List Char}
    (ht : renderScalar v e options = .ok text) :
    formatWith e.template [v] options = .ok (String.ofList text) := by
  rw [formatWith_template_eq h hv, ht]
  rfl

end Stencil
