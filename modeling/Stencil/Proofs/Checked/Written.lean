import Stencil.Checked.Written
import Stencil.Proofs.Checked.Notation
import Stencil.Proofs.Number.Grouping

/-!
# Written numbers that follow positions

Cutting digits into groups by positions takes every position from inside, since the sizes of the
groups add up to the digits. What is written is no longer than a few times the digits and the width,
so that no length is too large for a word.

* `groupSizes_eq_ok` — the sizes of the groups.
* `cut_eq_ok`, `applyGroups_eq_ok`, `zeroFill_eq_ok` — digits in groups.
* `padParts_eq_ok` — padding.
* `written_layout` — a layout is written as its figure is.
-/

namespace Stencil

open Checked

/-! ## Groups by positions -/

namespace Checked

variable {ε : Type}

theorem groupSizes_eq_ok (last : Nat) (sizes : List Nat) (count : Nat) :
    (groupSizes last sizes count : Checked ε (List Nat)) =
      .ok (Grouping.groupSizesAfter last sizes count) := by
  induction count using Nat.strong_induction_on generalizing last sizes with
  | _ count ih =>
    rw [groupSizes, Grouping.groupSizesAfter_eq]
    split_ifs with h
    · rfl
    · rw [difference_eq_ok (by omega), ok_bind, dif_pos (by omega), ih _ (by omega), ok_bind]
      rfl

theorem groupedLength_eq_ok (g : Grouping) {count : Nat} (hroom : 2 * count + 1 < wordLimit) :
    (groupedLength g count : Checked ε Nat) = .ok (g.groupedLength count) := by
  have hgroups := Grouping.length_groupSizesAfter_le 0 g.sizes count
  have hlength := Grouping.length_groupSizesAfter 0 g.sizes count
  rw [groupedLength, groupSizes_eq_ok, ok_bind, sum_eq_ok (by omega), ok_bind,
    difference_eq_ok (by omega), hlength]
  rfl

theorem cut_eq_ok (run : List Char) (sizes : List Nat) {stop : Nat} (done : List (List Char))
    (hsum : sizes.sum ≤ stop) (hstop : stop ≤ run.length) :
    (cut run sizes stop done : Checked ε (List (List Char))) =
      .ok (Grouping.cut sizes (run.take stop).reverse done) := by
  induction sizes generalizing stop done with
  | nil => rfl
  | cons size sizes ih =>
    rw [List.sum_cons] at hsum
    have hlength : (run.take stop).length = stop := List.length_take_of_le hstop
    have hspan : (span run (stop - size) stop : Checked ε (List Char)) =
        .ok ((run.take stop).drop (stop - size)) := if_pos ⟨Nat.sub_le stop size, hstop⟩
    have hpiece : ((run.take stop).reverse.take size).reverse =
        (run.take stop).drop (stop - size) := by
      rw [List.take_reverse, List.reverse_reverse, hlength]
    have hrest : (run.take stop).reverse.drop size = (run.take (stop - size)).reverse := by
      rw [List.drop_reverse, hlength, List.take_take, Nat.min_eq_left (Nat.sub_le stop size)]
    rw [cut, difference_eq_ok (by omega), ok_bind, hspan, ok_bind, ih _ (by omega) (by omega),
      Grouping.cut, hpiece, hrest]

theorem applyGroups_eq_ok (g : Grouping) (digits : List Char) :
    (applyGroups g digits : Checked ε (List Char)) = .ok (g.apply digits) := by
  have hsum := Grouping.sum_groupSizesAfter 0 g.sizes digits.length
  rw [applyGroups, groupSizes_eq_ok, ok_bind, cut_eq_ok _ _ _ (Nat.le_of_eq hsum) (Nat.le_refl _),
    ok_bind, List.take_length]
  rfl

theorem fillCount_eq_ok (g : Grouping) {width count : Nat}
    (hroom : 2 * max width count + 1 < wordLimit) :
    (fillCount g width count : Checked ε Nat) = .ok (g.fillCount width count) := by
  fun_induction g.fillCount width count with
  | case1 count h => rw [fillCount, groupedLength_eq_ok g (by omega), ok_bind, if_pos h]; rfl
  | case2 count h ih =>
    have hlt : count < width := by
      rw [Grouping.groupedLength] at h
      omega
    rw [fillCount, groupedLength_eq_ok g (by omega), ok_bind, if_neg h, sum_eq_ok (by omega), ok_bind,
      dif_pos (by omega), ih (by omega)]

theorem zeroFill_eq_ok (g : Grouping) (digits : List Char) {width : Nat}
    (hroom : 2 * max width digits.length + 1 < wordLimit) :
    (zeroFill g digits width : Checked ε (List Char)) = .ok (g.zeroFill digits width) := by
  obtain ⟨hlow, -⟩ := g.fillCount_le width digits.length
  rw [zeroFill, fillCount_eq_ok g hroom, ok_bind, difference_eq_ok hlow, ok_bind, applyGroups_eq_ok]
  rfl

/-! ## Padding -/

theorem padParts_of_sum {lead body : List Char} (width : Option Nat) (fill : Char) (align : Align)
    (h : (sum lead.length body.length : Checked ε Nat) = .ok (lead.length + body.length)) :
    (padParts lead body width fill align : Checked ε (List Char)) =
      .ok (Text.padParts lead body width fill align) := by
  rw [padParts, h, ok_bind]
  cases align with
  | center =>
    dsimp only
    rw [difference_eq_ok (Nat.div_le_self _ 2)]
    rfl
  | _ => rfl

theorem padParts_eq_ok {lead body : List Char} (h : lead.length + body.length < wordLimit)
    (width : Option Nat) (fill : Char) (align : Align) :
    (padParts lead body width fill align : Checked ε (List Char)) =
      .ok (Text.padParts lead body width fill align) :=
  padParts_of_sum width fill align (sum_eq_ok h)

/-- Without a lead there is nothing to add to the length of a text. -/
theorem pad_eq_ok (text : List Char) (width : Option Nat) (fill : Char) (align : Align) :
    (pad text width fill align : Checked ε (List Char)) = .ok (Text.pad text width fill align) :=
  padParts_of_sum width fill align (by rw [List.length_nil, sum_zero, Nat.zero_add])

end Checked

/-! ## Lengths of the parts -/

theorem length_signText_le (negative : Bool) (mode : Option SignMode) :
    (signText negative mode).length ≤ 1 := by
  unfold signText
  split_ifs
  · exact Nat.le_refl 1
  · split <;> simp

theorem length_radixMark_le (element : Element Nat) (isZero : Bool) (mark : OctalMark) :
    (radixMark element isZero mark).length ≤ 2 := by
  unfold radixMark
  repeat' split
  all_goals simp

theorem length_percentText_le (type : TypeCode) : (percentText type).length ≤ 1 := by
  unfold percentText
  split_ifs <;> simp

theorem length_fractionText_le (n : Numeral) (style : Style) (alternate : Bool) (point : Char) :
    (fractionText n style alternate point).length ≤ n.fraction.length + 1 := by
  unfold fractionText
  split_ifs <;> simp [Digits.chars]

/-- The digits of a number are no more than the number, but for those of small numbers. -/
theorem length_exponentDigits_le (exponent : Int) {least : Nat} (h : least ≤ 2) :
    (exponentDigits exponent least).length ≤ exponent.natAbs + 3 := by
  have hdigits := Digits.length_ofNat_le (show 1 < 10 by decide) exponent.natAbs
  have hlog := Nat.log2_le_self exponent.natAbs
  have hlength : (Digits.decimal exponent.natAbs).length = (Digits.ofNat 10 exponent.natAbs).length :=
    List.length_map _
  rw [exponentDigits, List.length_cons, List.length_append, List.length_replicate]
  omega

theorem length_exponentText_le (n : Numeral) (style : Style) :
    (exponentText n style).length ≤ n.exponent.natAbs + 4 := by
  cases style with
  | scientific => exact Nat.succ_le_succ (length_exponentDigits_le n.exponent (Nat.le_refl 2))
  | hexadecimal => exact Nat.succ_le_succ (length_exponentDigits_le n.exponent (Nat.le_succ 1))
  | _ => exact Nat.zero_le _

theorem length_tailText_le (n : Numeral) (style : Style) (element : Element Nat) (point : Char) :
    (tailText n style element point).length ≤ n.fraction.length + n.exponent.natAbs + 6 := by
  have hfraction := length_fractionText_le n style element.alternate point
  have hexponent := length_exponentText_le n style
  have hpercent := length_percentText_le element.type
  rw [tailText, List.length_append, List.length_append]
  omega

/-- Separators at most double the digits or the width, whichever is more. -/
theorem length_wholeText_le (n : Numeral) (element : Element Nat) (grouping : Option Grouping)
    (taken : Nat) :
    (wholeText n element grouping taken).length ≤
      2 * max (element.width.getD 0) n.whole.length + 1 := by
  have hdigits : (Digits.chars n.whole).length = n.whole.length := List.length_map _
  cases grouping with
  | none =>
    show (Digits.chars n.whole).length ≤ _
    omega
  | some g =>
    have hfilled := g.length_zeroFill_le (Digits.chars n.whole) (element.width.getD 0 - taken)
    have happly := g.length_apply_le (Digits.chars n.whole)
    unfold wholeText
    dsimp only
    split_ifs <;> omega

/-! ## Written numbers -/

theorem Numeral.numeral_array {ε : Type} (n : Numeral) :
    (n.array.numeral : Checked ε Numeral) = .ok n := by
  rw [DigitArray.numeral, whole_array, ok_bind, fraction_array]
  rfl

theorem Checked.wholeText_eq_ok {ε : Type} {n : Numeral} {element : Element Nat}
    (grouping : Option Grouping) {lead tail : List Char}
    (hroom : 2 * max (element.width.getD 0) n.whole.length + 1 < wordLimit)
    (htaken : lead.length + tail.length < wordLimit) :
    (Checked.wholeText n element grouping lead tail : Checked ε (List Char)) =
      .ok (Stencil.wholeText n element grouping (lead.length + tail.length)) := by
  have hdigits : (Digits.chars n.whole).length = n.whole.length := List.length_map _
  have hleft : (widthLeft element.width lead tail : Checked ε Nat) =
      .ok (element.width.getD 0 - (lead.length + tail.length)) := by
    cases element.width with
    | none => exact congrArg Except.ok (Nat.zero_sub _).symm
    | some width =>
      rw [widthLeft, sum_eq_ok htaken]
      rfl
  cases grouping with
  | none => rfl
  | some g =>
    unfold Checked.wholeText Stencil.wholeText
    dsimp only
    split_ifs
    · rw [hleft, ok_bind, zeroFill_eq_ok g _ (by omega)]
    · exact applyGroups_eq_ok g _

namespace Figure

variable {ε : Type} {figure : Figure} {element : Element Nat}

/-- The parts of a layout are those of its figure, and there is room for both of them together. -/
theorem parts_layout (h : figure.Within (4 * spaceLimit))
    (hwidth : ∀ width ∈ element.width, width ≤ maxCount) (options : Options) :
    (figure.layout.parts element options : Checked ε (List Char × List Char)) =
        .ok (figure.parts element options) ∧
      (figure.parts element options).1.length + (figure.parts element options).2.length <
        wordLimit := by
  obtain ⟨hword, -, hcount⟩ := limits
  have hpercent := length_percentText_le element.type
  cases figure with
  | notANumber =>
    have hsign := length_signText_le false element.sign
    refine ⟨rfl, ?_⟩
    show (signText false element.sign).length + ("nan".toList ++ percentText element.type).length < _
    rw [List.length_append, show "nan".toList.length = 3 from rfl]
    omega
  | infinite negative =>
    have hsign := length_signText_le negative element.sign
    refine ⟨rfl, ?_⟩
    show (signText negative element.sign).length + ("inf".toList ++ percentText element.type).length <
      _
    rw [List.length_append, show "inf".toList.length = 3 from rfl]
    omega
  | finite n style =>
    have hwidth' : element.width.getD 0 ≤ maxCount := by
      cases hgiven : element.width with
      | none => exact Nat.zero_le maxCount
      | some width => exact hwidth width hgiven
    have hwhole := h.whole_le
    have hfraction := h.fraction_le
    have hexponent := h.exponent_le
    set separators := Separators.resolve element n.base options.locale with hseparators
    set lead := signText n.negative element.sign ++ radixMark element n.isZero options.octalMark
      with hlead
    set tail := tailText n style element separators.point with htail
    have hleadLength : lead.length ≤ 3 := by
      have hsign := length_signText_le n.negative element.sign
      have hmark := length_radixMark_le element n.isZero options.octalMark
      rw [hlead, List.length_append]
      omega
    have htailLength := length_tailText_le n style element separators.point
    have hwholeLength := length_wholeText_le n element separators.grouping
      (lead.length + tail.length)
    rw [← htail] at htailLength
    constructor
    · rw [layout, Layout.parts, Numeral.numeral_array, ok_bind]
      dsimp only
      rw [← hseparators, ← hlead, ← htail,
        Checked.wholeText_eq_ok separators.grouping (by omega) (by omega)]
      rfl
    · have hboth : lead.length +
          (wholeText n element separators.grouping (lead.length + tail.length) ++ tail).length =
          lead.length +
            ((wholeText n element separators.grouping (lead.length + tail.length)).length +
              tail.length) :=
        congrArg (lead.length + ·) List.length_append
      exact hboth.trans_lt (by omega)

/-- A layout is written as its figure is. -/
theorem written_layout (h : figure.Within (4 * spaceLimit))
    (hwidth : ∀ width ∈ element.width, width ≤ maxCount) (options : Options) :
    (figure.layout.written element options : Checked ε (List Char)) =
      .ok (figure.written element options) := by
  obtain ⟨hparts, hroom⟩ := parts_layout h hwidth options
  rw [Layout.written, hparts, ok_bind]
  refine padParts_eq_ok ?_ _ _ _
  rw [LetterCase.length_apply, LetterCase.length_apply]
  exact hroom

end Figure

end Stencil
