import Mathlib.Data.List.Basic
import Stencil.Field.Rules
import Stencil.Field.Spelling

/-!
# Well-formed fields

What a field has to be in order that it can be written down and read back. The predicates speak
about fields as structures; nothing in them refers to reading.

* `TypeCode.specifiers` — the table of specifiers that each type code admits.
* `Selector.WellFormed`, `Count.WellFormed`, `Layer.WellFormed`, `Element.WellFormed`,
  `Field.WellFormed` — the parts and the whole.
* `Field.check_eq_ok` — a well-formed field passes every check.
-/

namespace Stencil

/-! ## The table of specifiers -/

/-- The specifiers that each type code admits. -/
def TypeCode.specifiers : TypeCode → List Specifier
  | .text => [.fillOrAlign, .width, .precision]
  | .character => [.fillOrAlign, .width]
  | .decimal =>
    [.fillOrAlign, .sign, .alternate, .zeroPad, .width, .grouping, .localized, .signAware]
  | .localeInteger => [.fillOrAlign, .sign, .alternate, .zeroPad, .width, .signAware]
  | .binary _ | .octal | .hex _ =>
    [.fillOrAlign, .sign, .alternate, .zeroPad, .width, .grouping, .signAware]
  | .hexFloat _ =>
    [.fillOrAlign, .sign, .positiveZero, .alternate, .zeroPad, .width, .precision, .signAware]
  | .byKind | .exponent _ | .fixed _ | .percent | .general _ => Specifier.all

theorem TypeCode.admits_iff (type : TypeCode) (s : Specifier) :
    type.admits s = true ↔ s ∈ type.specifiers := by
  cases type <;> cases s <;> simp [TypeCode.admits, TypeCode.specifiers, Specifier.all]

/-! ## Parts of a field -/

/-- An ASCII letter or underscore, and letters, digits and underscores after it. -/
def IsIdentifier (key : String) : Prop :=
  ∃ first rest, key.toList = first :: rest ∧ (first.isAlpha ∨ first = '_') ∧
    ∀ c ∈ rest, c.isAlphanum ∨ c = '_'

/-- A position fits a machine word, and a name is an identifier. -/
def Selector.WellFormed : Selector → Prop
  | .auto => True
  | .index position => position < wordLimit
  | .name key => IsIdentifier key

/-- A count that is written lies between the given bound and the limit; one that is taken from an
argument gives it by order or position. -/
def Count.WellFormed (least : Nat) : Count → Prop
  | .literal n => least ≤ n ∧ n ≤ maxCount
  | .ref .auto => True
  | .ref (.index position) => position < wordLimit
  | .ref (.name _) => False

/-- A fill goes with an alignment and is not a brace. -/
structure WellPadded (fill : Option Char) (align : Option Align) : Prop where
  align_of_fill : fill.isSome → align.isSome
  not_brace : ∀ c ∈ fill, c ≠ '{' ∧ c ≠ '}'

/-- A layer as it can be written down. -/
structure Layer.WellFormed (layer : Layer Count) : Prop where
  padded : WellPadded layer.fill layer.align
  not_signAware : layer.align ≠ some .signAware
  width : ∀ w ∈ layer.width, w.WellFormed 1

/-- An element as it can be written down, with specifiers that its type code admits. -/
structure Element.WellFormed (element : Element Count) : Prop where
  padded : WellPadded element.fill element.align
  width_of_zeroPad : element.zeroPad = true → element.width.isSome
  width : ∀ w ∈ element.width, w.WellFormed 1
  precision : ∀ p ∈ element.precision, p.WellFormed 0
  grouping : ∀ c ∈ element.grouping, c = ',' ∨ c = '_'
  one_grouping : ¬ (element.grouping.isSome ∧ element.localized = true)
  admitted : ∀ s, element.uses s = true → s ∈ element.type.specifiers

/-- A field as it can be written down. -/
structure Field.WellFormed (field : Field) : Prop where
  selector : field.selector.WellFormed
  layers : ∀ layer ∈ field.layers, layer.WellFormed
  element : field.element.WellFormed

/-! ## Checks -/

theorem Count.WellFormed.mono {least least' : Nat} (hle : least' ≤ least) {c : Count}
    (h : c.WellFormed least) : c.WellFormed least' := by
  match c, h with
  | .literal n, h => exact ⟨Nat.le_trans hle h.1, h.2⟩
  | .ref .auto, h => exact h
  | .ref (.index position), h => exact h

theorem Element.checkSpecifiers_eq_ok {κ : Type} {element : Element κ} {rules : TypeCode}
    (h : ∀ s, element.uses s = true → s ∈ rules.specifiers) :
    element.checkSpecifiers rules = .ok () := by
  have hnone : Specifier.all.find? (fun s => element.uses s && !rules.admits s) = none := by
    rw [List.find?_eq_none]
    intro s _ hs
    simp only [Bool.and_eq_true, Bool.not_eq_true'] at hs
    have hadmits := (rules.admits_iff s).2 (h s hs.1)
    rw [hs.2] at hadmits
    exact absurd hadmits Bool.false_ne_true
  rw [checkSpecifiers, hnone]

/-- Rules do not tell elements apart by what they admit. -/
theorem Element.checkSpecifiers_congr {κ κ' : Type} {element : Element κ} {other : Element κ'}
    {rules : TypeCode} (htype : element.type = other.type)
    (huses : ∀ s, rules.admits s = false → element.uses s = other.uses s) :
    element.checkSpecifiers rules = other.checkSpecifiers rules := by
  have hrefused : ∀ s,
      (element.uses s && !rules.admits s) = (other.uses s && !rules.admits s) := by
    intro s
    cases hadmits : rules.admits s with
    | false => rw [huses s hadmits]
    | true => simp
  simp only [checkSpecifiers, hrefused, htype]

namespace Field

theorem mem_widths_wellFormed {field : Field} (h : field.WellFormed) {c : Count}
    (hc : c ∈ field.widths) : c.WellFormed 1 := by
  rcases List.mem_append.1 hc with hc | hc
  · exact h.element.width c (Option.mem_toList.1 hc)
  · obtain ⟨layer, hl, hw⟩ := List.mem_filterMap.1 hc
    exact (h.layers layer hl).width c hw

theorem mem_counts_wellFormed {field : Field} (h : field.WellFormed) {c : Count}
    (hc : c ∈ field.counts) : c.WellFormed 0 := by
  rcases List.mem_append.1 hc with hc | hc
  · rcases List.mem_append.1 hc with hc | hc
    · exact (h.element.width c (Option.mem_toList.1 hc)).mono (Nat.zero_le 1)
    · exact h.element.precision c (Option.mem_toList.1 hc)
  · obtain ⟨layer, hl, hw⟩ := List.mem_filterMap.1 hc
    exact ((h.layers layer hl).width c hw).mono (Nat.zero_le 1)

theorem zero_not_mem_widths {field : Field} (h : field.WellFormed) :
    .literal 0 ∉ field.widths := by
  intro hc
  have hw : 1 ≤ 0 ∧ 0 ≤ maxCount := mem_widths_wellFormed h hc
  omega

theorem excessiveCount?_eq_none {field : Field} (h : field.WellFormed) :
    field.excessiveCount? = none := by
  rw [excessiveCount?, List.find?_eq_none]
  intro n hn
  obtain ⟨c, hc, hlit⟩ := List.mem_filterMap.1 hn
  match c, hlit with
  | .literal m, hlit =>
    obtain rfl := Option.some.inj hlit
    have hm : 0 ≤ m ∧ m ≤ maxCount := mem_counts_wellFormed h hc
    simpa using hm.2

/-- A precision on an integer code or on `c` would not be admitted. -/
theorem precision_isNone_of_isInteger {field : Field} (h : field.WellFormed)
    (hi : field.element.type.isInteger = true ∨ field.element.type = .character) :
    field.element.precision.isSome = false := by
  rw [← Bool.not_eq_true]
  intro hp
  have hmem := h.element.admitted .precision hp
  rcases hi with hi | hi
  · cases htype : field.element.type <;> rw [htype] at hi hmem <;>
      simp [TypeCode.isInteger, TypeCode.radix?, TypeCode.specifiers] at hi hmem
  · rw [hi] at hmem
    simp [TypeCode.specifiers] at hmem

/-- A well-formed field passes every check. -/
theorem check_eq_ok {field : Field} (h : field.WellFormed) : field.check = .ok () := by
  have hgroup : (field.element.grouping.isSome && field.element.localized) = false := by
    rw [← Bool.not_eq_true, Bool.and_eq_true]
    exact h.element.one_grouping
  have hprec : (field.element.precision.isSome &&
      (field.element.type.isInteger || field.element.type == .character)) = false := by
    rw [← Bool.not_eq_true, Bool.and_eq_true, Bool.or_eq_true, beq_iff_eq]
    rintro ⟨hp, hi⟩
    rw [precision_isNone_of_isInteger h hi] at hp
    exact Bool.false_ne_true hp
  rw [check, if_neg (zero_not_mem_widths h), excessiveCount?_eq_none h]
  simp only [hgroup, hprec, Bool.false_eq_true, if_false]
  exact Element.checkSpecifiers_eq_ok h.element.admitted

end Field

end Stencil
