import Stencil.Proofs.Number.Decimal
import Stencil.Proofs.Render.SingleField

/-!
# Numbers in decimal notation

What the codes `f`, `%` and `g`, and no code on a double, write for every number, from the template
to the text.

* `plainTemplate` — a template that asks for nothing but the alternate form, a precision and a code.
* `Decimal.IsFixed`, `Decimal.IsGeneral` — the decimal that fixed and general notation promise.
* `formatWith_fixed`, `formatWith_general` — that decimal is what is written.
-/

namespace Stencil

/-! ## Plain templates -/

/-- The template that asks for nothing but the alternate form, a precision and a type code. -/
def plainTemplate (alternate : Bool) (precision : Option Nat) (type : TypeCode) : String :=
  "\x7b:" ++ (if alternate then "#" else "") ++
    (match precision with
    | some p => "." ++ toString p
    | none => "") ++ String.ofList type.char?.toList ++ "\x7d"

theorem template_plain (alternate : Bool) (precision : Option Nat) (type : TypeCode) :
    (Element.plain alternate precision type).template =
      plainTemplate alternate precision type := by
  rw [← String.toList_inj, Element.template]
  cases alternate <;> cases precision <;>
    simp [plainTemplate, Element.asWritten, Element.plain, Element.spell, spellPadding, spellFlag,
      spellOption, Count.spell, Digits.decimal_eq_toDigits]

example : plainTemplate true (some 3) (.general .upper) = "\x7b:#.3G\x7d" := by decide

theorem TypeCode.IsDecimal.byKind_or_isFloat {type : TypeCode} (h : type.IsDecimal) :
    type = .byKind ∨ type.isFloat = true := by
  cases type with
  | byKind => exact .inl rfl
  | fixed _ | percent | exponent _ | general _ => exact .inr rfl
  | _ => exact h.elim

theorem wellFormed_plain (alternate : Bool) {precision : Option Nat}
    (hp : ∀ p ∈ precision, p ≤ maxCount) {type : TypeCode}
    (htype : type = .byKind ∨ type.isFloat = true) :
    (Element.plain alternate precision type).asWritten.WellFormed where
  padded := ⟨by simp [Element.asWritten, Element.plain], by simp [Element.asWritten, Element.plain]⟩
  width_of_zeroPad := by simp [Element.asWritten, Element.plain]
  width := by simp [Element.asWritten, Element.plain]
  precision := by
    intro c hc
    obtain ⟨p, hmem, rfl⟩ := Option.map_eq_some_iff.1 hc
    exact ⟨Nat.zero_le p, hp p hmem⟩
  grouping := by simp [Element.asWritten, Element.plain]
  one_grouping := by simp [Element.asWritten, Element.plain]
  admitted := by
    intro s hs
    have hall : s ∈ Specifier.all := by cases s <;> decide
    rcases htype with rfl | htype
    · exact hall
    · cases type with
      | fixed _ | percent | exponent _ | general _ => exact hall
      -- the code `a` refuses digit groups, which a plain element does not have
      | hexFloat _ =>
        cases s <;> simp [Element.asWritten, Element.plain, Element.uses] at hs <;>
          simp [Element.asWritten, Element.plain, TypeCode.specifiers]
      | _ => simp [TypeCode.isFloat] at htype

theorem isContainer_of_quantity? {v : Value} {q : Quantity} (hv : v.quantity? = some q) :
    v.isContainer = false := by
  cases v with
  | list items => simp [Value.quantity?] at hv
  | map entries => simp [Value.quantity?] at hv
  | _ => rfl

theorem figure_plain {q : Quantity} (hq : q.Finite) (alternate : Bool) (precision : Option Nat)
    {type : TypeCode} (htype : type = .byKind ∨ type.isFloat = true) :
    q.figure (Element.plain alternate precision type) =
      q.finiteFigure (Element.plain alternate precision type) := by
  have hradix : (Element.plain alternate precision type).type.radix? = none :=
    TypeCode.radix?_eq_none htype
  rw [Quantity.figure]
  simp only [hradix, hq.nonFinite?]
  cases q.finiteFigure (Element.plain alternate precision type) <;> rfl

/-- A code for fractional numbers renders any number, and no code renders a double. -/
theorem renderScalar_plain {v : Value} {q : Quantity} (hv : v.quantity? = some q)
    (alternate : Bool) (precision : Option Nat) {type : TypeCode}
    (htype : type = .byKind ∨ type.isFloat = true)
    (hkind : type = .byKind → ∃ x, v = .float x) (options : Options) :
    renderScalar v (Element.plain alternate precision type) options =
      renderQuantity q v (Element.plain alternate precision type) options := by
  rcases htype with rfl | htype
  · obtain ⟨x, rfl⟩ := hkind rfl
    obtain rfl := Option.some.inj hv
    rfl
  · cases type with
    | fixed _ | percent | exponent _ | general _ | hexFloat _ =>
      simp only [renderScalar, Element.plain, renderNumber, hv]
    | _ => cases htype

/-- A number whose figure is known is formatted as that figure is written. -/
theorem formatWith_plain {v : Value} {q : Quantity} (hv : v.quantity? = some q) (hq : q.Finite)
    {alternate : Bool} {precision : Option Nat} (hp : ∀ p ∈ precision, p ≤ maxCount)
    {type : TypeCode} (htype : type = .byKind ∨ type.isFloat = true)
    (hkind : type = .byKind → ∃ x, v = .float x) {figure : Figure}
    (hfigure : q.finiteFigure (Element.plain alternate precision type) = .ok figure)
    (options : Options) :
    formatWith (plainTemplate alternate precision type) [v] options =
      .ok (String.ofList (figure.written (Element.plain alternate precision type) options)) := by
  rw [← template_plain]
  refine formatWith_template (wellFormed_plain alternate hp htype) (isContainer_of_quantity? hv) ?_
  rw [renderScalar_plain hv alternate precision htype hkind, renderQuantity,
    figure_plain hq alternate precision htype, hfigure]

/-! ## Fixed places -/

/-- The decimal that fixed places promise for a number: rounded half up at the last of them, and no
point if there are none. -/
structure Decimal.IsFixed (d : Decimal) (negative : Bool) (places : Nat) (x : ℚ) : Prop where
  wellFormed : d.WellFormed
  negative : d.negative = negative
  magnitude : d.magnitude = (⌊x * 10 ^ places + 1 / 2⌋₊ : ℚ) / 10 ^ places
  length_places : d.places.length = places
  point : d.fraction = none ↔ places = 0
  exponent : d.exponent = none

/-- A numeral with its digits in fixed places is the decimal that they promise. -/
theorem Decimal.isFixed_ofNumeral {m : Numeral} {negative : Bool} {places : Nat} {x : ℚ}
    (h : m.IsDecimalOf negative (halfUp (x * 10 ^ places) / 10 ^ places)) (hexp : m.exponent = 0)
    (hlen : m.fraction.length = places) :
    (Decimal.ofNumeral m .fixed false).IsFixed negative places x := by
  refine ⟨wellFormed_ofNumeral h (by simp) false, h.negative,
    magnitude_ofNumeral h (fun _ => hexp) false, ?_, ?_, rfl⟩
  · rw [places_ofNumeral, hlen]
  · rw [← hlen, List.length_eq_zero_iff]
    simp [ofNumeral]

/-- A code whose figure has fixed places is written as the decimal that they promise. -/
theorem formatWith_of_fixedPlaces {v : Value} {q : Quantity} (hv : v.quantity? = some q)
    (hq : q.Finite) {places : Nat} (hp : places ≤ maxCount) {type : TypeCode}
    (htype : type.IsDecimal) (hkind : type ≠ .byKind) {n : Numeral} (hvalid : n.Valid)
    (hbase : n.base = 10) (hradix : n.radix = 10)
    (hfigure : q.finiteFigure (Element.plain false (some places) type) =
      Figure.fixedPlaces n places) (options : Options) :
    ∃ d : Decimal, d.IsFixed n.negative places n.magnitude ∧
      formatWith (plainTemplate false (some places) type) [v] options =
        .ok (String.ofList (d.text type.letters.exponentMark ++ percentText type)) := by
  obtain ⟨m, hfixed, hdecimal, hexp, hlen⟩ := Figure.fixedPlaces_eq_ok hvalid hbase hradix places
  have hprecision : ∀ p ∈ some places, p ≤ maxCount := by simpa using hp
  refine ⟨_, Decimal.isFixed_ofNumeral hdecimal hexp hlen, ?_⟩
  rw [formatWith_plain hv hq hprecision htype.byKind_or_isFloat (fun h => absurd h hkind)
    (hfigure.trans hfixed), Figure.written_plain hdecimal (.inl rfl) (by simp) false _ htype]

/-- The codes `f` and `%` write every finite number rounded half up to the given places, the latter
a hundred times the number. -/
theorem formatWith_fixed {v : Value} {q : Quantity} (hv : v.quantity? = some q) (hq : q.Finite)
    {places : Nat} (hp : places ≤ maxCount) (options : Options) :
    (∃ d : Decimal, d.IsFixed q.negative places q.magnitude ∧
      formatWith (plainTemplate false (some places) (.fixed .lower)) [v] options =
        .ok (String.ofList (d.text 'e'))) ∧
    ∃ d : Decimal, d.IsFixed q.negative places (100 * q.magnitude) ∧
      formatWith (plainTemplate false (some places) .percent) [v] options =
        .ok (String.ofList (d.text 'e' ++ ['%'])) := by
  obtain ⟨n, hn, hsci, hmag, hbase, hneg⟩ := Quantity.decimal_eq_ok hq
  have hradix : n.radix = 10 := by rw [hsci.radix_eq, hbase]
  constructor
  · have htype : (TypeCode.fixed .lower).IsDecimal := trivial
    have hfigure : q.finiteFigure (Element.plain false (some places) (.fixed .lower)) =
        Figure.fixedPlaces n places := by
      simp only [Quantity.finiteFigure, Element.plain, hn]
      rfl
    obtain ⟨d, hd, htext⟩ := formatWith_of_fixedPlaces hv hq hp htype (by simp) hsci.valid hbase
      hradix hfigure options
    rw [hneg, hmag] at hd
    have hmark : percentText (.fixed .lower) = [] := rfl
    rw [hmark, List.append_nil] at htext
    exact ⟨d, hd, htext⟩
  · have htype : TypeCode.percent.IsDecimal := trivial
    have hfigure : q.finiteFigure (Element.plain false (some places) .percent) =
        Figure.fixedPlaces { n with exponent := n.exponent + 2 } places := by
      simp only [Quantity.finiteFigure, Element.plain, hn]
      rfl
    have hvalid : Numeral.Valid { n with exponent := n.exponent + 2 } :=
      ⟨hsci.valid.one_lt_base, hsci.valid.whole_ne_nil, hsci.valid.whole, hsci.valid.fraction⟩
    obtain ⟨d, hd, htext⟩ := formatWith_of_fixedPlaces hv hq hp htype (by simp) hvalid hbase
      hradix hfigure options
    rw [Figure.magnitude_percent hradix, hneg, hmag] at hd
    exact ⟨d, hd, htext⟩

/-- A quarter below zero, which lies in the middle between two numbers of one place. -/
theorem formatWith_fixed_quarter :
    let x : Binary64 := ⟨0xBFD0000000000000⟩
    (Value.float x).quantity? = some (.float x) ∧ (Quantity.float x).Finite ∧ 1 ≤ maxCount ∧
      (∃ d : Decimal, d.IsFixed (Quantity.float x).negative 1 (Quantity.float x).magnitude ∧
        formatWith (plainTemplate false (some 1) (.fixed .lower)) [.float x] {} =
          .ok (String.ofList (d.text 'e'))) ∧
      ∃ d : Decimal, d.IsFixed (Quantity.float x).negative 1 (100 * (Quantity.float x).magnitude) ∧
        formatWith (plainTemplate false (some 1) .percent) [.float x] {} =
          .ok (String.ofList (d.text 'e' ++ ['%'])) := by
  intro x
  have hq : (Quantity.float x).Finite := show x.isFinite = true by decide
  have hp : 1 ≤ maxCount := by decide
  have h := formatWith_fixed (show (Value.float x).quantity? = some (.float x) from rfl) hq hp {}
  exact ⟨rfl, hq, hp, h⟩

/-! ## General notation -/

/-- The codes that choose between fixed places and an exponent: `g`, and no code with a precision on
a double. -/
def UsesGeneral (type : TypeCode) (precision : Option Nat) (v : Value) : Prop :=
  (∃ letters, type = .general letters) ∨
    (type = .byKind ∧ precision.isSome ∧ ∃ x, v = .float x)

/-- The significant digits of a precision: six if there is none, and at least one. -/
def significantDigits (precision : Option Nat) : Nat :=
  max (precision.getD 6) 1

/-- Exponents from -4 up to this one, exclusive, are written with fixed places. -/
def exponentLimit (type : TypeCode) (precision : Option Nat) : Int :=
  if type = .byKind then significantDigits precision - 1 else significantDigits precision

/-- The decimal that general notation promises for a number `r`, which has been rounded to as many
digits as the precision says. -/
structure Decimal.IsGeneral (d : Decimal) (type : TypeCode) (alternate : Bool)
    (precision : Option Nat) (negative : Bool) (r : ℚ) : Prop where
  wellFormed : d.WellFormed
  negative : d.negative = negative
  magnitude : d.magnitude = r
  exponent : d.exponent =
    if -4 ≤ Int.log 10 r ∧ Int.log 10 r < exponentLimit type precision then none
    else some (Int.log 10 r)
  significant : alternate = true → r ≠ 0 → d.significant = significantDigits precision
  point : alternate = false → d.fraction ≠ some []
  stripped : alternate = false → d.places.getLast? = some 0 →
    type = .byKind ∧ d.exponent = none ∧ d.places = [0]
  kept : type = .byKind → d.exponent = none → d.places ≠ []

/-- The settings of a general code. -/
def generalSettings (type : TypeCode) (precision : Option Nat) (alternate : Bool) : General :=
  if type = .byKind then General.uncoded precision alternate
  else General.coded precision alternate

section

variable {type : TypeCode} {precision : Option Nat} {v : Value} {alternate : Bool}

theorem UsesGeneral.isDecimal (h : UsesGeneral type precision v) : type.IsDecimal := by
  rcases h with ⟨letters, rfl⟩ | ⟨rfl, -, -⟩ <;> trivial

theorem UsesGeneral.isFloat (h : UsesGeneral type precision v) (hkind : type = .byKind) :
    ∃ x, v = .float x := by
  rcases h with ⟨letters, rfl⟩ | ⟨-, -, hx⟩
  · simp at hkind
  · exact hx

/-- The settings of a general code, said for all codes at once. -/
theorem UsesGeneral.settings (h : UsesGeneral type precision v) (alternate : Bool) :
    (generalSettings type precision alternate).Rounds ∧
      (generalSettings type precision alternate).precision = significantDigits precision ∧
      (generalSettings type precision alternate).switch = exponentLimit type precision ∧
      (generalSettings type precision alternate).strip = !alternate ∧
      (generalSettings type precision alternate).leastFraction =
        if type = .byKind then 1 else 0 := by
  rcases h with ⟨letters, rfl⟩ | ⟨rfl, hp, -⟩
  · exact ⟨General.rounds_coded precision alternate, rfl, rfl, rfl, rfl⟩
  · obtain ⟨p, rfl⟩ := Option.isSome_iff_exists.1 hp
    exact ⟨General.rounds_uncoded p alternate, rfl, rfl, rfl, rfl⟩

theorem UsesGeneral.finiteFigure (h : UsesGeneral type precision v) {q : Quantity}
    (hv : v.quantity? = some q) {n : Numeral} (hn : q.decimal = .ok n) (alternate : Bool) :
    q.finiteFigure (Element.plain alternate precision type) =
      Figure.general n (generalSettings type precision alternate) := by
  rcases h with ⟨letters, rfl⟩ | ⟨rfl, -, x, rfl⟩
  · simp only [Quantity.finiteFigure, Element.plain, hn]
    rfl
  · obtain rfl := Option.some.inj hv
    simp only [Quantity.finiteFigure, Element.plain, hn]
    rfl

/-- A numeral that general notation leaves is the decimal that it promises. -/
theorem Decimal.isGeneral_ofNumeral (h : UsesGeneral type precision v) {m : Numeral} {style : Style}
    {least : Nat} {negative : Bool} {r : ℚ} (hm : m.IsDecimalOf negative r)
    (hexp : style ≠ .scientific → m.exponent = 0)
    (hone : style = .scientific → m.whole.length = 1)
    (hends : (generalSettings type precision alternate).Ends least m)
    (hleast : least = if type = .byKind ∧ style ≠ .scientific then 1 else 0)
    (hchoice : (ofNumeral m style alternate).exponent =
      if -4 ≤ Int.log 10 r ∧ Int.log 10 r < exponentLimit type precision then none
      else some (Int.log 10 r)) :
    (ofNumeral m style alternate).IsGeneral type alternate precision negative r := by
  obtain ⟨-, hprecision, -, hstrip, -⟩ := h.settings alternate
  have hplaces := places_ofNumeral m style alternate
  have hstyle : (ofNumeral m style alternate).exponent = none ↔ style ≠ .scientific := by
    simp [ofNumeral]
  refine ⟨wellFormed_ofNumeral hm hone alternate, hm.negative,
    magnitude_ofNumeral hm hexp alternate, hchoice, ?_, ?_, ?_, ?_⟩
  · intro halt hr
    have hne : m.coefficient ≠ 0 := by
      intro hz
      rw [← hm.magnitude, Numeral.magnitude, Numeral.mantissa, hz] at hr
      simp at hr
    rw [significant_ofNumeral, hends.significant (by rw [hstrip, halt]; rfl) hne, hprecision]
  · intro halt hpoint
    by_cases hf : m.fraction = []
    · simp [ofNumeral, hf, halt] at hpoint
    · simp [ofNumeral, hf] at hpoint
  · intro halt hlast
    rw [hplaces] at hlast
    have hlen := hends.stripped (by rw [hstrip, halt]; rfl) hlast
    have hne : m.fraction ≠ [] := by
      intro hnil
      rw [hnil] at hlast
      simp at hlast
    have hpos := List.length_pos_iff.2 hne
    by_cases hboth : type = .byKind ∧ style ≠ .scientific
    · rw [hleast, if_pos hboth] at hlen
      obtain ⟨d, hd⟩ := List.length_eq_one_iff.1 hlen
      rw [hd, List.getLast?_singleton] at hlast
      exact ⟨hboth.1, hstyle.2 hboth.2, by rw [hplaces, hd, Option.some.inj hlast]⟩
    · rw [hleast, if_neg hboth] at hlen
      omega
  · intro hkind hnone hnil
    rw [hplaces] at hnil
    have hge := hends.least_le
    rw [hleast, if_pos ⟨hkind, hstyle.1 hnone⟩, hnil] at hge
    simp at hge

/-- General notation writes every finite number rounded half up to its significant digits, with
fixed places or an exponent by the size of the rounded number. -/
theorem formatWith_general {q : Quantity} (h : UsesGeneral type precision v)
    (hv : v.quantity? = some q) (hq : q.Finite) (hp : ∀ p ∈ precision, p ≤ maxCount)
    (alternate : Bool) (options : Options) :
    ∃ d : Decimal, d.IsGeneral type alternate precision q.negative
        (significantly 10 (significantDigits precision) q.magnitude) ∧
      formatWith (plainTemplate alternate precision type) [v] options =
        .ok (String.ofList (d.text type.letters.exponentMark)) := by
  obtain ⟨n, hn, hsci, hmag, hbase, hneg⟩ := Quantity.decimal_eq_ok hq
  obtain ⟨hrounds, hprecision, hswitch, -, hleast⟩ := h.settings alternate
  have hfigure := h.finiteFigure hv hn alternate
  have hrounded : Figure.rounded n (generalSettings type precision alternate) =
      significantly 10 (significantDigits precision) q.magnitude := by
    rw [Figure.rounded, hprecision, hmag]
  have hmark : percentText type = [] := by
    rcases h with ⟨letters, rfl⟩ | ⟨rfl, -, -⟩ <;> rfl
  by_cases hsize : -4 ≤ Int.log 10 (Figure.rounded n (generalSettings type precision alternate)) ∧
      Int.log 10 (Figure.rounded n (generalSettings type precision alternate)) <
        (generalSettings type precision alternate).switch
  · obtain ⟨m, hgeneral, hdecimal, hexp, hends⟩ :=
      Figure.general_fixed hsci hbase hrounds hsize.1 hsize.2
    rw [hneg] at hdecimal
    have htext := formatWith_plain hv hq hp h.isDecimal.byKind_or_isFloat h.isFloat
      (hfigure.trans hgeneral) options
    rw [Figure.written_plain hdecimal (.inl rfl) (by simp) alternate _ h.isDecimal, hmark,
      List.append_nil] at htext
    rw [hrounded] at hdecimal hsize
    rw [hswitch] at hsize
    refine ⟨_, Decimal.isGeneral_ofNumeral h hdecimal (fun _ => hexp) (by simp) hends ?_ ?_, htext⟩
    · rw [hleast]
      simp
    · rw [if_pos hsize]
      rfl
  · obtain ⟨m, hgeneral, hdecimal, hexp, hone, hends⟩ :=
      Figure.general_scientific hsci hbase hrounds hsize
    rw [hneg] at hdecimal
    have htext := formatWith_plain hv hq hp h.isDecimal.byKind_or_isFloat h.isFloat
      (hfigure.trans hgeneral) options
    rw [Figure.written_plain hdecimal (.inr rfl) (fun _ => hone) alternate _ h.isDecimal, hmark,
      List.append_nil] at htext
    rw [hrounded] at hdecimal hsize hexp
    rw [hswitch] at hsize
    refine ⟨_, Decimal.isGeneral_ofNumeral h hdecimal (by simp) (fun _ => hone) hends ?_ ?_, htext⟩
    · simp
    · rw [if_neg hsize, ← hexp]
      rfl

/-- A double just below ten, whose four digits carry into the next power of ten. -/
theorem formatWith_general_carry :
    let x : Binary64 := ⟨0x4023FFCB923A29C7⟩
    UsesGeneral .byKind (some 4) (.float x) ∧ (Value.float x).quantity? = some (.float x) ∧
      (Quantity.float x).Finite ∧ (∀ p ∈ some 4, p ≤ maxCount) ∧
      ∃ d : Decimal, d.IsGeneral .byKind false (some 4) (Quantity.float x).negative
          (significantly 10 (significantDigits (some 4)) (Quantity.float x).magnitude) ∧
        formatWith (plainTemplate false (some 4) .byKind) [.float x] {} =
          .ok (String.ofList (d.text TypeCode.byKind.letters.exponentMark)) := by
  intro x
  have hcode : UsesGeneral .byKind (some 4) (.float x) := Or.inr ⟨rfl, rfl, x, rfl⟩
  have hq : (Quantity.float x).Finite := show x.isFinite = true by decide
  have hp : ∀ p ∈ some 4, p ≤ maxCount := by
    intro p hmem
    obtain rfl := Option.some.inj hmem
    decide
  have h := formatWith_general hcode (show (Value.float x).quantity? = some (.float x) from rfl)
    hq hp false {}
  exact ⟨hcode, rfl, hq, hp, h⟩

end

end Stencil
