import Stencil.Number.Written
import Stencil.Proofs.Number.Notation

/-!
# Decimals as they are written

The text of a number, apart from how it was computed: digits, a point among them, and an exponent.

* `Decimal` — the parts of the text, with the number they denote (`magnitude`) and the count of
  digits that say something (`significant`).
* `Decimal.text` — the text, in the characters of the standard library.
* `Decimal.ofNumeral` — a numeral in fixed or scientific style.
* `Figure.written_plain` — that is how a figure is written if nothing but the alternate form is
  asked for.
-/

namespace Stencil

/-- A decimal as it is written. There may be a point, with digits behind it or without, and there
may be an exponent. -/
structure Decimal where
  negative : Bool
  whole : List Nat
  fraction : Option (List Nat)
  exponent : Option Int

namespace Decimal

/-! ## What a decimal says -/

/-- The digits behind the point. -/
def places (d : Decimal) : List Nat :=
  d.fraction.getD []

/-- The digits on both sides of the point. -/
def digits (d : Decimal) : List Nat :=
  d.whole ++ d.places

/-- The number a decimal denotes, without its sign. -/
def magnitude (d : Decimal) : ℚ :=
  (Nat.ofDigits 10 d.digits.reverse : Nat) / 10 ^ d.places.length * 10 ^ d.exponent.getD 0

/-- How many digits there are from the first one that is not zero. -/
def significant (d : Decimal) : Nat :=
  (d.digits.dropWhile (· == 0)).length

/-- Decimal digits, with no zero in front of others, and only one before the point if there is an
exponent. -/
structure WellFormed (d : Decimal) : Prop where
  digits : ∀ i ∈ d.digits, i < 10
  whole : d.whole = [0] ∨ (d.whole ≠ [] ∧ d.whole.head? ≠ some 0)
  whole_of_exponent : d.exponent.isSome → d.whole.length = 1

/-! ## Text -/

/-- The text of an exponent: its sign, and at least two digits. -/
def exponentText (mark : Char) (e : Int) : List Char :=
  let digits := Nat.toDigits 10 e.natAbs
  mark :: (if e < 0 then '-' else '+') :: (if e.natAbs < 10 then '0' :: digits else digits)

/-- The text of a decimal, with the given mark in front of an exponent. -/
def text (d : Decimal) (mark : Char) : List Char :=
  (if d.negative then ['-'] else []) ++ d.whole.map Nat.digitChar ++
    (match d.fraction with
    | some places => '.' :: places.map Nat.digitChar
    | none => []) ++
    (match d.exponent with
    | some e => exponentText mark e
    | none => [])

/-! ## Numerals as decimals -/

/-- A numeral in a style; the alternate form keeps a point with no digits behind it. -/
def ofNumeral (n : Numeral) (style : Style) (alternate : Bool) : Decimal where
  negative := n.negative
  whole := n.whole
  fraction := if n.fraction = [] ∧ alternate = false then none else some n.fraction
  exponent := if style = .scientific then some n.exponent else none

variable {n : Numeral} {style : Style}

theorem places_ofNumeral (n : Numeral) (style : Style) (alternate : Bool) :
    (ofNumeral n style alternate).places = n.fraction := by
  simp only [places, ofNumeral]
  split_ifs with h
  · exact h.1.symm
  · rfl

theorem digits_ofNumeral (n : Numeral) (style : Style) (alternate : Bool) :
    (ofNumeral n style alternate).digits = n.digits := by
  rw [digits, places_ofNumeral]
  rfl

theorem significant_ofNumeral (n : Numeral) (style : Style) (alternate : Bool) :
    (ofNumeral n style alternate).significant = (Digits.trimLeading n.digits).length := by
  rw [significant, digits_ofNumeral]
  rfl

/-- A numeral that is written in one of its styles denotes its number. -/
theorem magnitude_ofNumeral {negative : Bool} {x : ℚ} (h : n.IsDecimalOf negative x)
    (hexp : style ≠ .scientific → n.exponent = 0) (alternate : Bool) :
    (ofNumeral n style alternate).magnitude = x := by
  have he : (ofNumeral n style alternate).exponent.getD 0 = n.exponent := by
    simp only [ofNumeral]
    split_ifs with hs
    · rfl
    · exact (hexp hs).symm
  rw [magnitude, places_ofNumeral, digits_ofNumeral, he, ← Digits.value_eq_ofDigits, ← h.magnitude,
    Numeral.magnitude, Numeral.mantissa, Numeral.coefficient, h.base, h.radix]
  norm_num

theorem wellFormed_ofNumeral {negative : Bool} {x : ℚ} (h : n.IsDecimalOf negative x)
    (hone : style = .scientific → n.whole.length = 1) (alternate : Bool) :
    (ofNumeral n style alternate).WellFormed := by
  refine ⟨?_, h.trimmed, ?_⟩
  · rw [digits_ofNumeral]
    intro i hi
    have hlt := h.valid.digits i hi
    rwa [h.base] at hlt
  · intro hsome
    refine hone ?_
    by_contra hs
    simp [ofNumeral, hs] at hsome

end Decimal

/-! ## Letters -/

/-- The mark in front of an exponent. -/
def LetterCase.exponentMark : LetterCase → Char
  | lower => 'e'
  | upper => 'E'

theorem toUpper_digitChar {d : Nat} (hd : d < 10) :
    (Nat.digitChar d).toUpper = Nat.digitChar d := by
  have h : ∀ d < 10, (Nat.digitChar d).toUpper = Nat.digitChar d := by decide
  exact h d hd

theorem LetterCase.apply_append (letters : LetterCase) (front back : List Char) :
    letters.apply (front ++ back) = letters.apply front ++ letters.apply back := by
  cases letters with
  | lower => rfl
  | upper => exact List.map_append

@[simp]
theorem LetterCase.length_apply (letters : LetterCase) (text : List Char) :
    (letters.apply text).length = text.length := by
  cases letters with
  | lower => rfl
  | upper => exact List.length_map _

/-- Decimal digits look the same in either case. -/
theorem LetterCase.apply_digits (letters : LetterCase) {digits : List Nat}
    (h : ∀ d ∈ digits, d < 10) :
    letters.apply (digits.map Nat.digitChar) = digits.map Nat.digitChar := by
  cases letters with
  | lower => rfl
  | upper =>
    rw [LetterCase.apply, List.map_map]
    exact List.map_congr_left fun d hd => toUpper_digitChar (h d hd)

/-- The digits of a number look the same in either case. -/
theorem LetterCase.apply_toDigits (letters : LetterCase) (n : Nat) :
    letters.apply (Nat.toDigits 10 n) = Nat.toDigits 10 n := by
  have hin := Digits.inBase_ofNat (show 1 < 10 by decide) n
  rw [← Digits.decimal_eq_toDigits, Digits.decimal,
    Digits.chars_eq_map_digitChar (hin.mono (by decide))]
  exact letters.apply_digits hin

theorem LetterCase.apply_exponentText (letters : LetterCase) (e : Int) :
    letters.apply (Decimal.exponentText 'e' e) = Decimal.exponentText letters.exponentMark e := by
  have hdigits := letters.apply_toDigits e.natAbs
  cases letters with
  | lower => rfl
  | upper =>
    simp only [LetterCase.apply] at hdigits
    simp only [LetterCase.apply, Decimal.exponentText, List.map_cons]
    split_ifs <;> simp [hdigits, LetterCase.exponentMark]

/-- In capitals, only the mark of the exponent changes. -/
theorem LetterCase.apply_text (letters : LetterCase) {d : Decimal} (h : d.WellFormed) :
    letters.apply (d.text 'e') = d.text letters.exponentMark := by
  have hwhole := letters.apply_digits fun i hi => h.digits i (List.mem_append_left _ hi)
  have hplaces := letters.apply_digits fun i hi => h.digits i (List.mem_append_right _ hi)
  simp only [Decimal.text, LetterCase.apply_append, hwhole]
  congr 1
  · congr 1
    · congr 1
      cases letters <;> cases d.negative <;> rfl
    · rw [Decimal.places] at hplaces
      cases hf : d.fraction with
      | none => cases letters <;> rfl
      | some places =>
        rw [hf] at hplaces
        cases letters with
        | lower => rfl
        | upper =>
          rw [Option.getD_some] at hplaces
          simp only [LetterCase.apply] at hplaces ⊢
          rw [List.map_cons, hplaces]
          rfl
  · cases d.exponent with
    | none => cases letters <;> rfl
    | some e => exact letters.apply_exponentText e

/-! ## Figures in plain presentations -/

/-- An element with nothing but an alternate form, a precision and a type code. -/
def Element.plain {κ : Type} (alternate : Bool) (precision : Option κ) (type : TypeCode) :
    Element κ :=
  { alternate, precision, type }

/-- The codes that write a number in decimal notation, with a point or an exponent. -/
def TypeCode.IsDecimal : TypeCode → Prop
  | .byKind | .fixed _ | .percent | .exponent _ | .general _ => True
  | _ => False

theorem exponentDigits_eq (e : Int) :
    'e' :: exponentDigits e 2 = Decimal.exponentText 'e' e := by
  have hshort : (Nat.toDigits 10 e.natAbs).length ≤ 1 ↔ e.natAbs < 10 ^ 1 :=
    Nat.length_toDigits_le_iff (by decide) (by decide)
  have hpos : 0 < (Nat.toDigits 10 e.natAbs).length := Nat.length_toDigits_pos
  rw [pow_one] at hshort
  simp only [exponentDigits, Decimal.exponentText, Digits.decimal_eq_toDigits]
  by_cases h : e.natAbs < 10
  · have hlen : 2 - (Nat.toDigits 10 e.natAbs).length = 1 := by
      have hle := hshort.2 h
      omega
    rw [if_pos h, hlen]
    rfl
  · have hlen : 2 - (Nat.toDigits 10 e.natAbs).length = 0 := by
      have hgt := mt hshort.1 h
      omega
    rw [if_neg h, hlen]
    rfl

theorem tailText_plain (n : Numeral) (hdigits : Digits.InBase 10 n.fraction) {style : Style}
    (hstyle : style = .fixed ∨ style = .scientific) (alternate : Bool) (precision : Option Nat)
    (type : TypeCode) :
    tailText n style (Element.plain alternate precision type) '.' =
      (match (Decimal.ofNumeral n style alternate).fraction with
      | some places => '.' :: places.map Nat.digitChar
      | none => []) ++
      (match (Decimal.ofNumeral n style alternate).exponent with
      | some e => Decimal.exponentText 'e' e
      | none => []) ++ percentText type := by
  have hchars := Digits.chars_eq_map_digitChar (hdigits.mono (show 10 ≤ 16 by decide))
  have hfraction : fractionText n style alternate '.' =
      (match (Decimal.ofNumeral n style alternate).fraction with
      | some places => '.' :: places.map Nat.digitChar
      | none => []) := by
    simp only [fractionText, Decimal.ofNumeral, hstyle, and_true]
    cases hf : n.fraction with
    | nil => cases alternate <;> rfl
    | cons d rest =>
      rw [hf] at hchars
      simp [hchars]
  have hexponent : exponentText n style =
      (match (Decimal.ofNumeral n style alternate).exponent with
      | some e => Decimal.exponentText 'e' e
      | none => []) := by
    rcases hstyle with rfl | rfl
    · rfl
    · exact exponentDigits_eq n.exponent
  rw [tailText, ← hfraction, ← hexponent]
  rfl

theorem radixMark_plain (alternate : Bool) (precision : Option Nat) {type : TypeCode}
    (htype : type.IsDecimal) (isZero : Bool) (mark : OctalMark) :
    radixMark (Element.plain alternate precision type) isZero mark = [] := by
  cases alternate with
  | false => rfl
  | true =>
    cases type with
    | byKind | fixed _ | percent | exponent _ | general _ => rfl
    | _ => exact htype.elim

theorem resolve_plain (alternate : Bool) (precision : Option Nat) {type : TypeCode}
    (htype : type.IsDecimal) (base : Nat) (locale : Locale) :
    Separators.resolve (Element.plain alternate precision type) base locale = ⟨'.', none⟩ := by
  have hlocal : ¬ (type = .localeInteger ∨ false = true) := by
    rintro (rfl | hfalse)
    · exact htype
    · exact Bool.false_ne_true hfalse
  exact if_neg hlocal

theorem apply_percentText (type : TypeCode) :
    type.letters.apply (percentText type) = percentText type := by
  cases type with
  | percent => rfl
  | binary letters | hex letters | exponent letters | fixed letters | general letters
  | hexFloat letters => cases letters <;> rfl
  | _ => rfl

/-- A figure with decimal digits is written as its numeral says, if the presentation asks for
nothing but the alternate form. -/
theorem Figure.written_plain {n : Numeral} {negative : Bool} {x : ℚ} (h : n.IsDecimalOf negative x)
    {style : Style} (hstyle : style = .fixed ∨ style = .scientific)
    (hone : style = .scientific → n.whole.length = 1) (alternate : Bool) (precision : Option Nat)
    {type : TypeCode} (htype : type.IsDecimal) (options : Options) :
    (Figure.finite n style).written (Element.plain alternate precision type) options =
      (Decimal.ofNumeral n style alternate).text type.letters.exponentMark ++ percentText type := by
  have hwell := Decimal.wellFormed_ofNumeral h hone alternate
  have hin := h.valid.digits
  rw [h.base, Numeral.digits, Digits.inBase_append] at hin
  have hwhole := Digits.chars_eq_map_digitChar (hin.1.mono (show 10 ≤ 16 by decide))
  have hparts : (Figure.finite n style).parts (Element.plain alternate precision type) options =
      ((if n.negative then ['-'] else []), n.whole.map Nat.digitChar ++
        tailText n style (Element.plain alternate precision type) '.') := by
    simp only [parts, radixMark_plain _ _ htype, resolve_plain _ _ htype, wholeText,
      hwhole, List.append_nil]
    rfl
  have htext : (if n.negative then ['-'] else []) ++ (n.whole.map Nat.digitChar ++
      tailText n style (Element.plain alternate precision type) '.') =
      (Decimal.ofNumeral n style alternate).text 'e' ++ percentText type := by
    rw [tailText_plain n hin.2 hstyle, Decimal.text]
    simp only [List.append_assoc]
    rfl
  rw [written, hparts]
  show Text.padParts _ _ none _ _ = _
  rw [Text.padParts_none, ← LetterCase.apply_append, htext, LetterCase.apply_append]
  have hletters : (Element.plain alternate precision type).type.letters = type.letters := rfl
  rw [hletters, LetterCase.apply_text _ hwell, apply_percentText]

end Stencil
