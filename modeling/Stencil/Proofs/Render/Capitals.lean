import Stencil.Proofs.Render.Localized

/-!
# Codes in capitals

Six type codes come in small letters and in capitals. Either letter asks for the same figure, admits
the same specifiers and takes the same values. The capital puts sign, radix mark and body into
capitals before they are padded, so that only a fill that is itself a small letter is left as it is.

* `PairedCode` — the codes that come in both cases.
* `Field.check_paired` — the rules of a field do not depend on the case of its code.
* `Figure.parts_paired`, `Quantity.figure_paired` — nor do the figure of a number and its parts.
* `InCapitals` — the same text in capitals and of the same length, or faults of the same kind.
* `rendering_in_capitals` — so it is for every scalar, in every presentation.
-/

namespace Stencil

/-! ## Pairs of codes -/

/-- A type code that is written by a small letter and by its capital. -/
inductive PairedCode where
  | binary
  | hex
  | exponent
  | fixed
  | general
  | hexFloat
  deriving DecidableEq, Repr

namespace PairedCode

/-- The code in either case. -/
def code : PairedCode → LetterCase → TypeCode
  | binary => .binary
  | hex => .hex
  | exponent => .exponent
  | fixed => .fixed
  | general => .general
  | hexFloat => .hexFloat

/-- The capital code is written by the capital of the letter that writes the small one. -/
theorem char?_code_upper (pair : PairedCode) :
    (pair.code .upper).char? = (pair.code .lower).char?.map Char.toUpper := by
  cases pair <;> rfl

@[simp]
theorem letters_code (pair : PairedCode) (letters : LetterCase) :
    (pair.code letters).letters = letters := by
  cases pair <;> rfl

theorem admits_code (pair : PairedCode) (s : Specifier) :
    (pair.code .upper).admits s = (pair.code .lower).admits s := by
  cases pair <;> rfl

/-- Both codes of a pair are for whole numbers, or neither is; no pair is for characters. -/
theorem takesNoPrecision_code (pair : PairedCode) :
    ((pair.code .upper).isInteger || pair.code .upper == .character) =
      ((pair.code .lower).isInteger || pair.code .lower == .character) := by
  cases pair <;> rfl

end PairedCode

/-! ## Rules -/

/-- The codes of a pair refuse the same specifier, each in its own name. -/
theorem Element.checkSpecifiers_paired {κ : Type} (pair : PairedCode) (element : Element κ) :
    SameKind ((element.typed (pair.code .upper)).checkSpecifiers (pair.code .upper))
      ((element.typed (pair.code .lower)).checkSpecifiers (pair.code .lower)) := by
  have hrefused : ∀ s,
      ((element.typed (pair.code .upper)).uses s && !(pair.code .upper).admits s) =
        ((element.typed (pair.code .lower)).uses s && !(pair.code .lower).admits s) := by
    intro s
    rw [pair.admits_code]
    cases s <;> rfl
  simp only [checkSpecifiers, hrefused]
  split <;> rfl

theorem Element.checkTyped_paired {κ : Type} (pair : PairedCode) (element : Element κ) :
    SameKind (element.typed (pair.code .upper)).checkTyped
      (element.typed (pair.code .lower)).checkTyped := by
  have hspecifiers := element.checkSpecifiers_paired pair
  have hprecision : (element.typed (pair.code .upper)).precision =
      (element.typed (pair.code .lower)).precision := rfl
  rw [checkTyped, checkTyped, type_typed, type_typed, pair.takesNoPrecision_code, hprecision]
  split_ifs
  · exact .refl _
  · exact hspecifiers

/-- The rules of a field come to its type code last. -/
theorem Field.check_typed_eq (field : Field) (type : TypeCode) :
    (field.typed type).check =
      if .literal 0 ∈ field.widths then .error .zeroWidth
      else
        match field.excessiveCount? with
        | some n => .error (.countTooLarge n maxCount)
        | none =>
          if field.element.grouping.isSome && field.element.localized then
            .error .groupingWithLocale
          else (field.element.typed type).checkTyped := rfl

/-- A field is accepted with the capital code where it is with the small one. -/
theorem Field.check_paired (pair : PairedCode) (field : Field) :
    SameKind (field.typed (pair.code .upper)).check (field.typed (pair.code .lower)).check := by
  rw [check_typed_eq, check_typed_eq]
  cases field.excessiveCount? with
  | some n => exact .refl _
  | none =>
    dsimp only
    split_ifs
    · exact .refl _
    · exact .refl _
    · exact field.element.checkTyped_paired pair

/-! ## Texts in capitals -/

theorem SameKind.eq_ok {α : Type} {result : Except Fault α} {a : α}
    (h : SameKind result (.ok a)) : result = .ok a := by
  cases result with
  | error fault => cases h
  | ok b => exact congrArg Except.ok (Except.ok.inj h)

/-- The same text in capitals and of the same length, or faults of the same kind. The fill of the
padding keeps its case, so that the text need not be in capitals where the fill is a small letter. -/
structure InCapitals (fill : Char) (upper lower : Except Fault (List Char)) : Prop where
  length : SameKind (upper.map List.length) (lower.map List.length)
  text : fill.isLower = false → SameKind upper (lower.map (List.map Char.toUpper))

namespace InCapitals

variable {fill : Char}

theorem error {first second : Fault} (h : first.kind = second.kind) :
    InCapitals fill (.error first) (.error second) where
  length := congrArg Except.error h
  text _ := congrArg Except.error h

/-- Padding puts as much of the fill around the capitals as around the small letters. -/
theorem padParts (lead body : List Char) (width : Option Nat) (align : Align) :
    InCapitals fill
      (.ok (Text.padParts (lead.map Char.toUpper) (body.map Char.toUpper) width fill align))
      (.ok (Text.padParts lead body width fill align)) where
  length := by
    refine congrArg Except.ok ?_
    rw [Text.length_padParts, Text.length_padParts, List.length_map, List.length_map]
  text hfill := by
    refine congrArg Except.ok ?_
    have hupper : fill.toUpper = fill := Char.toUpper_eq_of_not_isLower (by simp [hfill])
    rw [Text.map_padParts, hupper]

end InCapitals

/-! ## Numbers -/

section Numbers

variable (pair : PairedCode) (element : Element Nat) (options : Options)

/-- The parts of a figure have small letters under either code. -/
theorem Figure.parts_paired (figure : Figure) :
    figure.parts (element.typed (pair.code .upper)) options =
      figure.parts (element.typed (pair.code .lower)) options := by
  have hretyped : element.typed (pair.code .upper) =
      (element.typed (pair.code .lower)).typed (pair.code .upper) := rfl
  rw [hretyped]
  refine figure.parts_typed (fun isZero mark => ?_) (fun base locale => ?_) ?_ options
  · cases pair <;> rfl
  · cases pair <;> simp [Separators.resolve, PairedCode.code] <;> rfl
  · cases pair <;> rfl

theorem Figure.written_paired (figure : Figure) :
    InCapitals element.numberFill
      (.ok (figure.written (element.typed (pair.code .upper)) options))
      (.ok (figure.written (element.typed (pair.code .lower)) options)) := by
  rw [written, written, figure.parts_paired, Element.type_typed, Element.type_typed,
    pair.letters_code, pair.letters_code]
  exact InCapitals.padParts _ _ _ _

/-- The codes of a pair ask for the same figure. -/
theorem Quantity.figure_paired (q : Quantity) :
    q.figure (element.typed (pair.code .upper)) = q.figure (element.typed (pair.code .lower)) := by
  cases pair <;> rfl

theorem renderQuantity_paired (q : Quantity) (v : Value) :
    InCapitals element.numberFill
      (renderQuantity q v (element.typed (pair.code .upper)) options)
      (renderQuantity q v (element.typed (pair.code .lower)) options) := by
  rw [renderQuantity, renderQuantity, q.figure_paired]
  cases q.figure (element.typed (pair.code .lower)) with
  | ok figure => exact figure.written_paired pair element options
  | error obstacle => exact .error rfl

theorem renderNumber_paired (v : Value) :
    InCapitals element.numberFill
      (renderNumber v (element.typed (pair.code .upper)) options)
      (renderNumber v (element.typed (pair.code .lower)) options) := by
  rw [renderNumber, renderNumber]
  cases v.quantity? with
  | some q => exact renderQuantity_paired pair element options q v
  | none => exact .error rfl

end Numbers

/-! ## Every scalar -/

/-- A code in capitals is accepted where the small one is. With either, every value comes out, or
fails for the same kind of fault; the text is as long, and unless the fill is a small letter it is
the same text in capitals. -/
theorem rendering_in_capitals (pair : PairedCode) (options : Options) :
    (∀ field : Field,
      SameKind (field.typed (pair.code .upper)).check (field.typed (pair.code .lower)).check) ∧
    ∀ (v : Value) (element : Element Nat),
      InCapitals element.numberFill
        (renderScalar v (element.typed (pair.code .upper)) options)
        (renderScalar v (element.typed (pair.code .lower)) options) := by
  refine ⟨Field.check_paired pair, fun v element => ?_⟩
  have hnumber := renderNumber_paired pair element options v
  -- under the codes of whole numbers a single character stands for its code point
  have hpoint (c : Char) := renderQuantity_paired pair element options (.integer c.toNat) v
  cases pair with
  | binary | hex =>
    simp only [renderScalar, Element.type_typed, PairedCode.code]
    cases v.singleChar? with
    | some c => exact hpoint c
    | none => exact hnumber
  | exponent | fixed | general | hexFloat => exact hnumber

/-- Digits, radix mark and the separators of the groups that fill the width. -/
theorem rendering_in_capitals_hex :
    let element : Element Nat :=
      { alternate := true, zeroPad := true, width := some 14, grouping := some '_' }
    element.numberFill.isLower = false ∧
      renderScalar (.int 48879) (element.typed (.hex .lower)) {} =
        .ok "0x00_0000_beef".toList ∧
      renderScalar (.int 48879) (element.typed (.hex .upper)) {} =
        .ok "0X00_0000_BEEF".toList := by
  intro element
  have hlower : renderScalar (.int 48879) (element.typed (.hex .lower)) {} =
      .ok "0x00_0000_beef".toList := by decide +kernel
  have hcapitals := ((rendering_in_capitals .hex {}).2 (.int 48879) element).text rfl
  have hupper : SameKind (renderScalar (.int 48879) (element.typed (.hex .lower)) {} |>.map
      (List.map Char.toUpper)) (.ok "0X00_0000_BEEF".toList) := by
    rw [hlower]
    rfl
  exact ⟨rfl, hlower, SameKind.eq_ok (hcapitals.trans hupper)⟩

end Stencil
