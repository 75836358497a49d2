import Stencil.Proofs.Number.Grouping
import Stencil.Proofs.Render.Figures

/-!
# Grouped digits filled with zeros

Where a number is padded with zeros between its sign and its digits and the digits are grouped, the
zeros are digits of the groups. As few are added as bring the whole to its width, and it is longer
than its width only where a separator would come first otherwise.

* `Value.numberUnder?` — the number that an element presents a value as.
* `Grouping.Fills` — the fewest zeros whose groups fill a width between a lead and a tail.
* `written_zeroFilled` — a figure is written with them, and padded with nothing else.
* `formatWith_zeroFilled` — so is every number with digits.
-/

namespace Stencil

/-! ## Values as numbers -/

/-- The number that an element presents a value as. The codes of whole numbers take a character for
its code point, and without a code the kind of the value has to admit the element. -/
def Value.numberUnder? (v : Value) (element : Element Nat) : Option Quantity :=
  match element.type with
  | .byKind =>
    match v.text? with
    | some _ => none
    | none => v.quantity?.filter fun q => (element.checkFor q.valueClass).isOk
  | .text | .character => none
  | .decimal | .localeInteger | .binary _ | .octal | .hex _ =>
    match v.singleChar? with
    | some c => some (.integer c.toNat)
    | none => v.quantity?
  | .exponent _ | .fixed _ | .percent | .general _ | .hexFloat _ => v.quantity?

section

variable {v : Value} {element : Element Nat} {q : Quantity}

/-- A number is not taken for the code point of a character. -/
theorem Value.singleChar?_of_quantity? (hv : v.quantity? = some q) : v.singleChar? = none := by
  cases v with
  | char c => cases hv
  | text s => cases hv
  | _ => rfl

theorem Value.presentsNumbers (h : v.numberUnder? element = some q) :
    element.type.PresentsNumbers := by
  unfold numberUnder? at h
  cases htype : element.type with
  | text => simp [htype] at h
  | character => simp [htype] at h
  | _ => trivial

/-- A container is no number. -/
theorem Value.isContainer_of_numberUnder? (h : v.numberUnder? element = some q) :
    v.isContainer = false := by
  unfold numberUnder? at h
  cases v with
  | list items => cases htype : element.type <;> simp [htype, text?, singleChar?, quantity?] at h
  | map entries => cases htype : element.type <;> simp [htype, text?, singleChar?, quantity?] at h
  | _ => rfl

/-- A value that is presented as a number is rendered as that number. -/
theorem renderScalar_of_numberUnder? (h : v.numberUnder? element = some q) (options : Options) :
    renderScalar v element options = renderQuantity q v element options := by
  unfold Value.numberUnder? at h
  unfold renderScalar
  cases htype : element.type with
  | byKind =>
    simp only [htype] at h ⊢
    cases htext : v.text? with
    | some text => simp [htext] at h
    | none =>
      simp only [htext, Option.filter_eq_some_iff] at h
      obtain ⟨hquantity, hcheck⟩ := h
      simp only [renderByKind, htext, hquantity]
      cases hfault : element.checkFor q.valueClass with
      | error fault => simp [hfault, Except.isOk, Except.toBool] at hcheck
      | ok checked => rfl
  | text => simp [htype] at h
  | character => simp [htype] at h
  | decimal | localeInteger | binary letters | octal | hex letters =>
    simp only [htype] at h ⊢
    cases hchar : v.singleChar? with
    | some c =>
      simp only [hchar, Option.some.injEq] at h
      simp only [h]
    | none =>
      simp only [hchar] at h
      simp only [renderNumber, h]
  | exponent letters | fixed letters | percent | general letters | hexFloat letters =>
    simp only [htype] at h
    simp only [renderNumber, h]

end

/-! ## Filling a width -/

/-- The fewest zeros in front of the digits whose groups bring the whole to the width, if the groups
stand between a lead and a tail. -/
structure Grouping.Fills (g : Grouping) (lead digits tail : List Char) (width zeros : Nat) :
    Prop where
  least : IsLeast {n | width ≤ (lead ++ g.filled digits n ++ tail).length} zeros
  /-- The groups make up the zeros and the digits, and have the sizes asked for. -/
  groups : ∃ pieces : List (List Char),
    g.filled digits zeros = List.intercalate [g.separator] pieces ∧
      pieces.flatten = List.replicate zeros '0' ++ digits ∧
      (pieces.map List.length).reverse = g.groupSizes (zeros + digits.length)
  /-- What comes first is a digit. -/
  head : (g.filled digits zeros).head? = (List.replicate zeros '0' ++ digits).head?
  length : 0 < zeros → (lead ++ g.filled digits zeros ++ tail).length = width ∨
    (lead ++ g.filled digits zeros ++ tail).length = width + 1
  /-- The width is exceeded exactly where a separator would come first. -/
  exceeds : 0 < zeros → ((lead ++ g.filled digits zeros ++ tail).length = width + 1 ↔
    ∃ n, g.filled digits (n + 1) = '0' :: g.separator :: g.filled digits n ∧
      (lead ++ g.separator :: g.filled digits n ++ tail).length = width)

/-- The zeros that fill what a lead and a tail leave of a width fill the width. -/
theorem Grouping.exists_fills (g : Grouping) (lead digits tail : List Char) (width : Nat) :
    ∃ zeros, g.zeroFill digits (width - (lead.length + tail.length)) = g.filled digits zeros ∧
      g.Fills lead digits tail width zeros := by
  obtain ⟨zeros, hfilled, hleast⟩ :=
    g.exists_zeroFill digits (width - (lead.length + tail.length))
  have hsame : {n | width ≤ (lead ++ g.filled digits n ++ tail).length} =
      {n | width - (lead.length + tail.length) ≤ (g.filled digits n).length} := by
    ext n
    simp only [List.length_append, Set.mem_ofPred_eq]
    omega
  have hpieces := g.map_length_pieces (List.replicate zeros '0' ++ digits)
  rw [List.length_append, List.length_replicate] at hpieces
  refine ⟨zeros, hfilled, ?_⟩
  have hroom (hpos : 0 < zeros) : lead.length + tail.length < width := by
    by_contra hno
    exact hpos.ne' (Nat.le_zero.1 (hleast.2 (by rw [Set.mem_ofPred_eq]; omega)))
  constructor
  case least => rwa [hsame]
  case groups => exact ⟨_, rfl, g.flatten_pieces _, by rw [hpieces, List.reverse_reverse]⟩
  case head => exact g.head?_apply _
  case length =>
    intro hpos
    have := hroom hpos
    have := (Grouping.length_of_isLeast hpos hleast).1
    simp only [List.length_append]
    omega
  case exceeds =>
    intro hpos
    have hwidth := hroom hpos
    have hiff := (Grouping.length_of_isLeast hpos hleast).2
    simp only [List.length_append, List.length_cons] at hiff ⊢
    constructor
    · intro hlong
      obtain ⟨n, hsucc, hlength⟩ := hiff.1 (by omega)
      exact ⟨n, hsucc, by omega⟩
    · rintro ⟨n, hsucc, hlength⟩
      have := hiff.2 ⟨n, hsucc, by omega⟩
      omega

/-! ## Written numbers -/

/-- The sign and the radix mark in front of a numeral. -/
def Numeral.lead (n : Numeral) (element : Element Nat) (options : Options) : List Char :=
  signText n.negative element.sign ++ radixMark element n.isZero options.octalMark

/-- What is written behind the whole part of a numeral. -/
def Numeral.tail (n : Numeral) (style : Style) (element : Element Nat) (options : Options) :
    List Char :=
  tailText n style element (Separators.resolve element n.base options.locale).point

/-- A figure whose digits are grouped and filled with zeros needs no other padding. -/
theorem Figure.written_zeroFilled {n : Numeral} (style : Style) {element : Element Nat}
    {options : Options} {g : Grouping}
    (hgroups : (Separators.resolve element n.base options.locale).grouping = some g)
    (hfill : element.numberFill = '0') (halign : element.numberAlign = .signAware) :
    ∃ zeros, g.Fills (n.lead element options) (Digits.chars n.whole)
        (n.tail style element options) (element.width.getD 0) zeros ∧
      (Figure.finite n style).written element options =
        element.type.letters.apply (n.lead element options ++
          g.filled (Digits.chars n.whole) zeros ++ n.tail style element options) := by
  obtain ⟨zeros, hfilled, hfills⟩ := g.exists_fills (n.lead element options)
    (Digits.chars n.whole) (n.tail style element options) (element.width.getD 0)
  refine ⟨zeros, hfills, ?_⟩
  have hreach := hfills.least.1
  rw [Set.mem_ofPred_eq, List.append_assoc, List.length_append] at hreach
  have hwhole : wholeText n element (some g) ((n.lead element options).length +
      (n.tail style element options).length) = g.filled (Digits.chars n.whole) zeros := by
    rw [← hfilled, wholeText]
    simp only [hfill, halign, and_self, if_true]
  rw [Numeral.lead, Numeral.tail] at hwhole hreach
  rw [Figure.written, Figure.parts, hgroups, hwhole]
  simp only [Text.padParts, Text.missing, hfill, halign]
  -- the width is reached, so that the padding is empty
  rw [LetterCase.length_apply, LetterCase.length_apply, Nat.sub_eq_zero_of_le hreach,
    List.replicate_zero, List.append_nil, ← LetterCase.apply_append, ← List.append_assoc]
  rfl

/-- Every number with digits whose groups are filled with zeros is its lead, the digits behind the
fewest zeros whose groups reach the width, and its tail. -/
theorem formatWith_zeroFilled {v : Value} {element : Element Nat} {q : Quantity}
    (hv : v.numberUnder? element = some q) (hq : q.Finite)
    (hwhole : element.type.radix? ≠ none → ∃ i, q.Equals i)
    (hfill : element.numberFill = '0') (halign : element.numberAlign = .signAware)
    (options : Options) :
    ∃ n style, q.figure element = .ok (.finite n style) ∧
      ∀ g, (Separators.resolve element n.base options.locale).grouping = some g →
        ∃ zeros, g.Fills (n.lead element options) (Digits.chars n.whole)
            (n.tail style element options) (element.width.getD 0) zeros ∧
          let text := element.type.letters.apply (n.lead element options ++
            g.filled (Digits.chars n.whole) zeros ++ n.tail style element options)
          renderScalar v element options = .ok text ∧
            (element.asWritten.WellFormed →
              formatWith element.template [v] options = .ok (String.ofList text)) := by
  obtain ⟨n, style, hfigure⟩ := q.figure_hasDigits hq (Value.presentsNumbers hv) hwhole
  refine ⟨n, style, hfigure, fun g hgroups => ?_⟩
  obtain ⟨zeros, hfills, hwritten⟩ :=
    Figure.written_zeroFilled style hgroups hfill halign
  have hrender := renderScalar_of_numberUnder? hv options
  rw [renderQuantity, hfigure] at hrender
  dsimp only at hrender
  rw [hwritten] at hrender
  exact ⟨zeros, hfills, hrender,
    fun h => formatWith_template h (Value.isContainer_of_numberUnder? hv) hrender⟩

/-- Four digits under a width of eight, where the zero that fills it needs a separator behind it. -/
theorem formatWith_zeroFilled_wider :
    let element : Element Nat :=
      { zeroPad := true, width := some 8, grouping := some ',', type := .decimal }
    let q := Quantity.integer 1234
    (Value.int 1234).numberUnder? element = some q ∧ q.Finite ∧
      (element.type.radix? ≠ none → ∃ i, q.Equals i) ∧ element.numberFill = '0' ∧
      element.numberAlign = .signAware ∧
      ∃ n style, q.figure element = .ok (.finite n style) ∧
        ∀ g, (Separators.resolve element n.base ({} : Options).locale).grouping = some g →
          ∃ zeros, g.Fills (n.lead element {}) (Digits.chars n.whole) (n.tail style element {})
              (element.width.getD 0) zeros ∧
            let text := element.type.letters.apply (n.lead element {} ++
              g.filled (Digits.chars n.whole) zeros ++ n.tail style element {})
            renderScalar (.int 1234) element {} = .ok text ∧
              (element.asWritten.WellFormed →
                formatWith element.template [.int 1234] {} = .ok (String.ofList text)) := by
  intro element q
  have hwhole : element.type.radix? ≠ none → ∃ i, q.Equals i := fun _ => ⟨1234, rfl⟩
  exact ⟨rfl, trivial, hwhole, rfl, rfl,
    formatWith_zeroFilled (q := q) rfl trivial hwhole rfl rfl {}⟩

end Stencil
