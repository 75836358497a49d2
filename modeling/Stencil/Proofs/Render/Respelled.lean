import Stencil.Proofs.Render.Rounded
import Stencil.Proofs.Render.Wholes

/-!
# Numbers with other separators

The flag `L` has no way of its own to lay a number out. Under a locale whose groups have the sizes
that a separator has, the text is the one with commas and a point, with other characters in their
place. The width is the same, since a character takes the place of a character, and so are the
groups of the zeros that fill it.

* `Element.localize`, `Element.grouped` — an element with the flag, and with a separator instead.
* `respell`, `Respells` — other characters in place of the comma and the point.
* `Respells.map_wholeText`, `Respells.map_tailText` — the parts of a number with these characters.
* `written_respelled`, `renderScalar_respelled` — numbers under the flag and with a separator.
-/

namespace Stencil

/-! ## Elements -/

section Elements

variable {κ : Type}

/-- An element with the point and the digit groups of the locale. -/
def Element.localize (element : Element κ) : Element κ :=
  { element with grouping := none, localized := true }

/-- An element with a plain point, and with a separator between groups of digits or without one. -/
def Element.grouped (element : Element κ) (separator : Option Char) : Element κ :=
  { element with grouping := separator, localized := false }

/-- The flag and the separator differ only in themselves. -/
theorem Element.uses_localize {element : Element κ} {separator : Option Char} {s : Specifier}
    (hlocalized : s ≠ .localized) (hgrouping : s ≠ .grouping) :
    element.localize.uses s = (element.grouped separator).uses s := by
  cases s with
  | localized => exact absurd rfl hlocalized
  | grouping => exact absurd rfl hgrouping
  | _ => rfl

theorem Element.checkSpecifiers_localize {rules : TypeCode}
    (hlocalized : rules.admits .localized = true) (hgrouping : rules.admits .grouping = true)
    (element : Element κ) (separator : Option Char) :
    element.localize.checkSpecifiers rules =
      (element.grouped separator).checkSpecifiers rules := by
  refine checkSpecifiers_congr rfl fun s hs => uses_localize ?_ ?_
  · rintro rfl
    rw [hlocalized] at hs
    cases hs
  · rintro rfl
    rw [hgrouping] at hs
    cases hs

end Elements

/-! ## Other characters -/

/-- A character, with a separator in place of the comma and a point in place of the point. -/
def respell (separator point c : Char) : Char :=
  if c = ',' then separator else if c = '.' then point else c

/-- Characters in place of the comma and the point, which are no letters. -/
structure Respells (f : Char → Char) : Prop where
  other : ∀ c, c ≠ ',' → c ≠ '.' → f c = c
  upper : ∀ c, (f c).toUpper = f c.toUpper

theorem respells_respell {separator point : Char} (hseparator : separator.isAlpha = false)
    (hpoint : point.isAlpha = false) : Respells (respell separator point) where
  other c hcomma hdot := by rw [respell, if_neg hcomma, if_neg hdot]
  upper c := by
    have hcomma := toUpper_eq_iff (c := c) (show ','.isAlpha = false by decide)
    have hdot := toUpper_eq_iff (c := c) (show '.'.isAlpha = false by decide)
    simp only [respell, hcomma, hdot]
    split_ifs
    · exact (toUpper_eq_iff hseparator).2 rfl
    · exact (toUpper_eq_iff hpoint).2 rfl
    · rfl

/-- A digit is neither a comma nor a point. -/
theorem Digits.char_ne_of_lt {c : Char} (hpos : 0 < c.toNat) (hlow : c.toNat < 48) (d : Nat) :
    Digits.char d ≠ c := by
  have hchar : ∀ n, 48 ≤ n → Char.ofNat n ≠ c := by
    rintro n hn rfl
    rw [Char.toNat_ofNat] at hpos hlow
    split_ifs at hpos hlow <;> omega
  unfold Digits.char
  split_ifs
  · exact hchar _ (Nat.le_add_right _ _)
  · exact hchar _ (Nat.le_trans (by decide) (Nat.le_add_right _ _))

namespace Respells

variable {f : Char → Char} (h : Respells f)

include h

theorem map_eq_self {text : List Char} (hcomma : ',' ∉ text) (hdot : '.' ∉ text) :
    text.map f = text := by
  refine (List.map_congr_left fun c hc => h.other c ?_ ?_).trans (List.map_id _)
  · rintro rfl
    exact hcomma hc
  · rintro rfl
    exact hdot hc

theorem map_chars (digits : List Nat) : (Digits.chars digits).map f = Digits.chars digits := by
  have hdigit : ∀ c : Char, 0 < c.toNat → c.toNat < 48 → c ∉ Digits.chars digits := by
    intro c hpos hlow hc
    obtain ⟨d, -, hd⟩ := List.mem_map.1 hc
    exact Digits.char_ne_of_lt hpos hlow d hd
  exact h.map_eq_self (hdigit ',' (by decide) (by decide)) (hdigit '.' (by decide) (by decide))

theorem map_letters (letters : LetterCase) (text : List Char) :
    (letters.apply text).map f = letters.apply (text.map f) := by
  cases letters with
  | lower => rfl
  | upper => simp [LetterCase.apply, h.upper]

theorem map_signText (negative : Bool) (mode : Option SignMode) :
    (signText negative mode).map f = signText negative mode := by
  unfold signText
  refine h.map_eq_self ?_ ?_ <;> split_ifs <;> first | simp | (split <;> simp)

theorem map_radixMark (element : Element Nat) (isZero : Bool) (mark : OctalMark) :
    (radixMark element isZero mark).map f = radixMark element isZero mark := by
  unfold radixMark
  refine h.map_eq_self ?_ ?_ <;> repeat' split
  all_goals simp

theorem map_percentText (type : TypeCode) : (percentText type).map f = percentText type := by
  unfold percentText
  refine h.map_eq_self ?_ ?_ <;> split_ifs <;> simp

theorem map_exponentDigits (exponent : Int) (least : Nat) :
    (exponentDigits exponent least).map f = exponentDigits exponent least := by
  have hzeros (count : Nat) : (List.replicate count '0').map f = List.replicate count '0' := by
    rw [List.map_replicate, h.other '0' (by decide) (by decide)]
  have hsign : f (if exponent < 0 then '-' else '+') = if exponent < 0 then '-' else '+' := by
    split_ifs <;> exact h.other _ (by decide) (by decide)
  rw [exponentDigits, List.map_cons, List.map_append, hzeros, Digits.decimal, h.map_chars, hsign]

theorem map_exponentText (n : Numeral) (style : Style) :
    (exponentText n style).map f = exponentText n style := by
  cases style with
  | scientific | hexadecimal =>
    rw [exponentText, List.map_cons, h.map_exponentDigits, h.other _ (by decide) (by decide)]
  | _ => rfl

theorem map_tailText (n : Numeral) (style : Style) (element : Element Nat) :
    (tailText n style element '.').map f = tailText n style element (f '.') := by
  have hfraction : (fractionText n style element.alternate '.').map f =
      fractionText n style element.alternate (f '.') := by
    unfold fractionText
    split_ifs <;> simp [h.map_chars]
  rw [tailText, List.map_append, List.map_append, hfraction, h.map_exponentText,
    h.map_percentText]
  rfl

end Respells

/-! ## Groups and padding -/

namespace Grouping

/-- Groups of the same sizes with another character between them. -/
def respelled (f : Char → Char) (g : Grouping) : Grouping :=
  { g with separator := f g.separator }

variable (f : Char → Char) (g : Grouping)

theorem map_apply (digits : List Char) :
    (g.apply digits).map f = (g.respelled f).apply (digits.map f) := by
  induction digits with
  | nil => simp
  | cons d rest ih =>
    have hseparators (count : Nat) : (g.respelled f).separators count = g.separators count := rfl
    rw [apply_cons, List.map_cons, apply_cons, hseparators, hseparators, List.length_map, ← ih]
    split_ifs <;> simp [respelled]

theorem fillCount_respelled (width count : Nat) :
    (g.respelled f).fillCount width count = g.fillCount width count := by
  have hlength (count : Nat) : (g.respelled f).groupedLength count = g.groupedLength count := rfl
  fun_induction g.fillCount width count with
  | case1 count h => rw [fillCount, hlength, if_pos h]
  | case2 count h ih => rw [fillCount, hlength, if_neg h, ih]

theorem map_zeroFill (hzero : f '0' = '0') (digits : List Char) (width : Nat) :
    (g.zeroFill digits width).map f = (g.respelled f).zeroFill (digits.map f) width := by
  rw [zeroFill, zeroFill, map_apply, List.map_append, List.map_replicate, hzero, List.length_map,
    fillCount_respelled]

end Grouping

/-- Padding does not look at the characters it pads. -/
theorem Text.map_padParts (f : Char → Char) (lead body : List Char) (width : Option Nat)
    (fill : Char) (align : Align) :
    (padParts lead body width fill align).map f =
      padParts (lead.map f) (body.map f) width (f fill) align := by
  cases align <;> simp [padParts]

theorem Respells.map_wholeText {f : Char → Char} (h : Respells f) (n : Numeral)
    (element : Element Nat) (grouping : Option Grouping) (taken : Nat) :
    (wholeText n element grouping taken).map f =
      wholeText n element (grouping.map (Grouping.respelled f)) taken := by
  cases grouping with
  | none => exact h.map_chars n.whole
  | some g =>
    simp only [wholeText, Option.map_some]
    split_ifs
    · rw [g.map_zeroFill f (h.other '0' (by decide) (by decide)), h.map_chars]
    · rw [g.map_apply, h.map_chars]

/-- A point and groups with other characters. -/
def Separators.respelled (f : Char → Char) (separators : Separators) : Separators where
  point := f separators.point
  grouping := separators.grouping.map (Grouping.respelled f)

/-! ## Numbers -/

section Numbers

variable {f : Char → Char} {element : Element Nat} {options : Options} {separator : Option Char}

theorem Respells.numberFill (h : Respells f) (hcomma : element.fill ≠ some ',')
    (hdot : element.fill ≠ some '.') : f element.numberFill = element.numberFill := by
  unfold Element.numberFill
  cases hfill : element.fill with
  | none =>
    rw [Option.getD_none]
    split_ifs <;> exact h.other _ (by decide) (by decide)
  | some c =>
    rw [hfill] at hcomma hdot
    exact h.other c (fun hc => hcomma (congrArg some hc)) fun hc => hdot (congrArg some hc)

/-- Under a locale that groups like the separator does, with other characters, a figure has parts
with these characters. -/
theorem Figure.parts_respelled (h : Respells f) (htype : element.type ≠ .localeInteger)
    (hlocale : Separators.ofLocale options.locale = (Separators.plain separator 10).respelled f)
    {figure : Figure} (hbase : ∀ n style, figure = .finite n style → n.base = 10) :
    figure.parts element.localize options =
      (figure.parts (element.grouped separator) options).map (List.map f) (List.map f) := by
  have hword {word : List Char} (negative : Bool)
      (hword : word = "nan".toList ∨ word = "inf".toList) :
      (signText negative element.sign, word ++ percentText element.type) =
        ((signText negative element.sign).map f, (word ++ percentText element.type).map f) := by
    have hletters : word.map f = word := by
      rcases hword with rfl | rfl <;> exact h.map_eq_self (by decide) (by decide)
    rw [h.map_signText, List.map_append, hletters, h.map_percentText]
  cases figure with
  | finite n style =>
    have hlocalized : Separators.resolve element.localize n.base options.locale =
        (Separators.plain separator 10).respelled f := by
      rw [Separators.resolve, if_pos (.inr rfl), hlocale]
    have hgrouped : Separators.resolve (element.grouped separator) n.base options.locale =
        Separators.plain separator 10 := by
      have hplain : ¬((element.grouped separator).type = .localeInteger ∨
          (element.grouped separator).localized = true) := by
        rintro (hcode | hflag)
        · exact htype hcode
        · cases hflag
      rw [Separators.resolve, if_neg hplain, hbase n style rfl]
      rfl
    have hlead : (signText n.negative element.sign ++
        radixMark element n.isZero options.octalMark).map f =
          signText n.negative element.sign ++ radixMark element n.isZero options.octalMark := by
      rw [List.map_append, h.map_signText, h.map_radixMark]
    have htail : (tailText n style element '.').map f = tailText n style element (f '.') :=
      h.map_tailText n style element
    -- the tail takes up as much of the width whichever point it has
    have hlength : (tailText n style element '.').length =
        (tailText n style element (f '.')).length := by
      rw [← htail, List.length_map]
    have hbody (grouping : Option Grouping) (taken : Nat) :
        (wholeText n element grouping (taken + (tailText n style element '.').length) ++
          tailText n style element '.').map f =
            wholeText n element (grouping.map (Grouping.respelled f))
              (taken + (tailText n style element (f '.')).length) ++
                tailText n style element (f '.') := by
      rw [List.map_append, h.map_wholeText, htail, hlength]
    simp only [parts, hlocalized, hgrouped]
    exact Prod.ext hlead.symm (hbody _ _).symm
  | infinite negative => exact hword negative (.inr rfl)
  | notANumber => exact hword false (.inl rfl)

/-- So it is written with them, padded to the same width. -/
theorem Figure.written_respelled (h : Respells f)
    (hfill : f element.numberFill = element.numberFill)
    (htype : element.type ≠ .localeInteger)
    (hlocale : Separators.ofLocale options.locale = (Separators.plain separator 10).respelled f)
    {figure : Figure} (hbase : ∀ n style, figure = .finite n style → n.base = 10) :
    figure.written element.localize options =
      (figure.written (element.grouped separator) options).map f := by
  rw [written, written, parts_respelled h htype hlocale hbase, Text.map_padParts, h.map_letters,
    h.map_letters]
  show _ = Text.padParts _ _ _ (f element.numberFill) _
  rw [hfill]
  rfl

theorem renderQuantity_respelled (h : Respells f)
    (hfill : f element.numberFill = element.numberFill)
    (hcode : element.type.admits .localized = true)
    (hlocale : Separators.ofLocale options.locale = (Separators.plain separator 10).respelled f)
    (q : Quantity) (v : Value) :
    renderQuantity q v element.localize options =
      (renderQuantity q v (element.grouped separator) options).map (List.map f) := by
  have htype : element.type ≠ .localeInteger := by
    intro htype
    rw [htype] at hcode
    cases hcode
  have hlocalized : q.figure element.localize = q.figure element := rfl
  have hgrouped : q.figure (element.grouped separator) = q.figure element := rfl
  rw [renderQuantity, renderQuantity, hlocalized, hgrouped]
  cases hfigure : q.figure element with
  | error obstacle => rfl
  | ok figure =>
    have hbase : ∀ n style, figure = .finite n style → n.base = 10 := by
      rintro n style rfl
      exact q.base_of_figure hcode hfigure
    exact congrArg Except.ok (Figure.written_respelled h hfill htype hlocale hbase)

/-- A value that a code presents as a number. Truth values are numbers too, but without a code they
are text. -/
def Value.IsNumber (v : Value) (type : TypeCode) : Prop :=
  v.quantity?.isSome = true ∧ (type = .byKind → v.text? = none)

/-- A number comes out under the flag as it does with a separator, with other characters. -/
theorem renderScalar_respelled (h : Respells f)
    (hfill : f element.numberFill = element.numberFill)
    (hlocalized : element.type.admits .localized = true)
    (hlocale : Separators.ofLocale options.locale = (Separators.plain separator 10).respelled f)
    {v : Value} (hv : v.IsNumber element.type) :
    renderScalar v element.localize options =
      (renderScalar v (element.grouped separator) options).map (List.map f) := by
  obtain ⟨hv, htext⟩ := hv
  obtain ⟨q, hq⟩ := Option.isSome_iff_exists.1 hv
  have hquantity := renderQuantity_respelled h hfill hlocalized hlocale q v
  have hchar := Value.singleChar?_of_quantity? hq
  have htype : element.localize.type = element.type := rfl
  have htype' : (element.grouped separator).type = element.type := rfl
  rw [renderScalar, renderScalar, htype, htype']
  cases hcode : element.type with
  | text | character | localeInteger | binary _ | octal | hex _ | hexFloat _ =>
    rw [hcode] at hlocalized
    cases hlocalized
  | byKind =>
    have hcheck : element.localize.checkFor q.valueClass =
        (element.grouped separator).checkFor q.valueClass := by
      cases q with
      | integer n =>
        rw [Quantity.valueClass, Element.checkFor, Element.checkFor,
          element.checkSpecifiers_localize rfl rfl separator]
        rfl
      | float x => rfl
    simp only [renderByKind, htext hcode, hq, hcheck, hquantity]
    cases (element.grouped separator).checkFor q.valueClass <;> rfl
  | decimal =>
    simp only [hchar, renderNumber, hq, hquantity]
  | exponent _ | fixed _ | percent | general _ =>
    simp only [renderNumber, hq, hquantity]

end Numbers

end Stencil
