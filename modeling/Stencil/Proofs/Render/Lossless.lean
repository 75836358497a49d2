import Stencil.Proofs.Number.DecimalText
import Stencil.Proofs.Number.Shortest
import Stencil.Proofs.Render.Decimals
import Stencil.Proofs.Render.Figures

/-!
# Doubles without a code

A double that is formatted with no code at all is written with the digits of its shortest decimal,
no more and no fewer, whether the point stands among them, beside them, or behind the first of them
in front of an exponent. So the double is read back from its text.

* `Figure.general_exact` — general notation that does not round keeps the number.
* `Decimal.IsDefault` — the decimal that is promised.
* `formatWith_float` — that decimal is what is written, and what the double is read back from.
-/

namespace Stencil

/-! ## General notation that does not round -/

namespace Numeral

variable {n : Numeral}

theorem Valid.padFraction (h : n.Valid) (least : Nat) : (n.padFraction least).Valid := by
  refine ⟨h.one_lt_base, h.whole_ne_nil, h.whole, Digits.inBase_append.2 ⟨h.fraction, ?_⟩⟩
  exact Digits.inBase_replicate_zero (Nat.pos_of_ne_zero h.base_ne_zero) _

/-- Filling up with zeros keeps the number that is written. -/
theorem IsDecimalOf.padFraction {negative : Bool} {r : ℚ} (h : n.IsDecimalOf negative r)
    (least : Nat) : (n.padFraction least).IsDecimalOf negative r := by
  refine ⟨h.valid.padFraction least, h.trimmed, h.base, h.radix, h.negative, ?_⟩
  rw [Numeral.magnitude, mantissa_padFraction h.valid.base_ne_zero]
  exact h.magnitude

/-- Zeros at the end go or are filled up, until there are no more of them than the least number of
digits. -/
theorem padFraction_stripFraction_ends (n : Numeral) (least : Nat) :
    least ≤ ((n.stripFraction least).padFraction least).fraction.length ∧
      (((n.stripFraction least).padFraction least).fraction.getLast? = some 0 →
        ((n.stripFraction least).padFraction least).fraction.length = least) := by
  by_cases h : least ≤ n.fraction.length
  · have hends := stripFraction_ends h
    rw [padFraction_of_le hends.1]
    exact hends
  · have hstrip : n.stripFraction least = n := by
      have hnil : Digits.trimTrailing [] = [] := rfl
      rw [stripFraction, List.take_of_length_le (by omega), List.drop_of_length_le (by omega), hnil,
        List.append_nil]
    have hlength : (n.padFraction least).fraction.length = least := by
      rw [padFraction, Digits.padTrailing, List.length_append, List.length_replicate]
      omega
    rw [hstrip, hlength]
    exact ⟨le_rfl, fun _ => rfl⟩

end Numeral

namespace Figure

variable {n : Numeral} {g : General}

/-- General notation that does not round chooses its style by the size of the number. -/
theorem general_of_not_round (h : n.Scientific) (hb : n.base = 10) (hround : g.round = false)
    (hstrip : g.strip = true) :
    general n g =
      if -4 ≤ Int.log 10 n.magnitude ∧ Int.log 10 n.magnitude < g.switch then do
        let fixed ← n.toFixed
        return .finite ((fixed.stripFraction g.leastFraction).padFraction g.leastFraction) .fixed
      else return .finite (n.stripFraction 0) .scientific := by
  have hlog := Numeral.log_magnitude h
  rw [hb] at hlog
  rw [general_eq (if_neg (by simp [hround])), hlog]
  simp only [hround, hstrip, if_true, Bool.false_eq_true, if_false]

/-- A number of moderate size is written with fixed places, and all of them. -/
theorem general_exact_fixed (h : n.Scientific) (hb : n.base = 10) (hround : g.round = false)
    (hstrip : g.strip = true) (hlow : -4 ≤ Int.log 10 n.magnitude)
    (hhigh : Int.log 10 n.magnitude < g.switch) :
    ∃ m, general n g = .ok (.finite m .fixed) ∧ m.IsDecimalOf n.negative n.magnitude ∧
      m.exponent = 0 ∧ g.leastFraction ≤ m.fraction.length ∧
      (m.fraction.getLast? = some 0 → m.fraction.length = g.leastFraction) := by
  obtain ⟨fixed, hfixed, hvalid, hmant, hexp, hbase, hradix, hneg⟩ :=
    Numeral.toFixed_eq_ok h.valid h.radix_eq
  have hdecimal : fixed.IsDecimalOf n.negative n.magnitude := by
    refine ⟨hvalid, Numeral.trimmed_toFixed h hfixed, hbase.trans hb,
      hradix.trans (h.radix_eq.trans hb), hneg, ?_⟩
    rw [Numeral.magnitude_of_exponent_zero hexp, hmant]
  rw [general_of_not_round h hb hround hstrip, if_pos ⟨hlow, hhigh⟩, hfixed]
  exact ⟨_, rfl, (isDecimalOf_strip hdecimal _).padFraction _, hexp,
    fixed.padFraction_stripFraction_ends g.leastFraction⟩

/-- Any other number is written with an exponent. -/
theorem general_exact_scientific (h : n.Scientific) (hb : n.base = 10) (hround : g.round = false)
    (hstrip : g.strip = true)
    (hno : ¬(-4 ≤ Int.log 10 n.magnitude ∧ Int.log 10 n.magnitude < g.switch)) :
    ∃ m, general n g = .ok (.finite m .scientific) ∧ m.IsDecimalOf n.negative n.magnitude ∧
      m.exponent = Int.log 10 n.magnitude ∧ m.whole.length = 1 ∧
      m.fraction.getLast? ≠ some 0 := by
  have hlog := Numeral.log_magnitude h
  rw [hb] at hlog
  have hdecimal : n.IsDecimalOf n.negative n.magnitude :=
    ⟨h.valid, Numeral.trimmed_of_length_one h.length_whole, hb, h.radix_eq.trans hb, rfl, rfl⟩
  rw [general_of_not_round h hb hround hstrip, if_neg hno]
  refine ⟨_, rfl, isDecimalOf_strip hdecimal 0, hlog.symm, h.length_whole, ?_⟩
  intro hzero
  have hnil := (Numeral.stripFraction_ends (Nat.zero_le n.fraction.length)).2 hzero
  rw [List.length_eq_zero_iff.1 hnil] at hzero
  cases hzero

end Figure

/-! ## The default form -/

/-- The decimal that is promised for a double without a code: a number with all its digits, in fixed
places or with an exponent by its size. Fixed places have at least one digit behind the point, and
beyond that there are no zeros at the end. -/
structure Decimal.IsDefault (d : Decimal) (negative : Bool) (r : ℚ) : Prop where
  wellFormed : d.WellFormed
  negative : d.negative = negative
  magnitude : d.magnitude = r
  exponent : d.exponent =
    if -4 ≤ Int.log 10 r ∧ Int.log 10 r < 16 then none else some (Int.log 10 r)
  point : d.fraction ≠ some []
  fixed : d.exponent = none → d.places ≠ []
  stripped : d.places.getLast? = some 0 → d.exponent = none ∧ d.places = [0]

theorem Decimal.fraction_ofNumeral_ne (m : Numeral) (style : Style) :
    (ofNumeral m style false).fraction ≠ some [] := by
  by_cases hf : m.fraction = [] <;> simp [ofNumeral, hf]

/-- A numeral in fixed places is the decimal that is promised, if its size is moderate. -/
theorem Decimal.isDefault_fixed {m : Numeral} {negative : Bool} {r : ℚ}
    (h : m.IsDecimalOf negative r) (hsize : -4 ≤ Int.log 10 r ∧ Int.log 10 r < 16)
    (hexp : m.exponent = 0) (hleast : 1 ≤ m.fraction.length)
    (hlast : m.fraction.getLast? = some 0 → m.fraction.length = 1) :
    (ofNumeral m .fixed false).IsDefault negative r := by
  have hplaces := places_ofNumeral m .fixed false
  refine ⟨wellFormed_ofNumeral h (by simp) false, h.negative,
    magnitude_ofNumeral h (fun _ => hexp) false, (if_pos hsize).symm,
    fraction_ofNumeral_ne m .fixed, ?_, ?_⟩
  · intro _
    rw [hplaces]
    exact List.length_pos_iff.1 hleast
  · rw [hplaces]
    intro hzero
    obtain ⟨i, hi⟩ := List.length_eq_one_iff.1 (hlast hzero)
    rw [hi, List.getLast?_singleton] at hzero
    exact ⟨rfl, by rw [hi, Option.some.inj hzero]⟩

/-- A numeral with an exponent is the decimal that is promised for any other size. -/
theorem Decimal.isDefault_scientific {m : Numeral} {negative : Bool} {r : ℚ}
    (h : m.IsDecimalOf negative r) (hsize : ¬(-4 ≤ Int.log 10 r ∧ Int.log 10 r < 16))
    (hexp : m.exponent = Int.log 10 r) (hone : m.whole.length = 1)
    (hlast : m.fraction.getLast? ≠ some 0) :
    (ofNumeral m .scientific false).IsDefault negative r := by
  refine ⟨wellFormed_ofNumeral h (fun _ => hone) false, h.negative,
    magnitude_ofNumeral h (by simp) false, ?_, fraction_ofNumeral_ne m .scientific, ?_, ?_⟩
  · rw [if_neg hsize, ← hexp]
    rfl
  · intro hnone
    cases hnone
  · rw [places_ofNumeral]
    exact fun hzero => absurd hzero hlast

/-! ## Doubles -/

theorem TypeCode.isDecimal_byKind : TypeCode.byKind.IsDecimal :=
  trivial

/-- Nothing between the braces is a presentation that asks for nothing. -/
theorem compile_default :
    compile "\x7b\x7d" =
      .ok [.field { raw := "", element := (Element.plain false none .byKind).asWritten }] := by
  cbv

/-- A double whose figure is known is formatted as that figure is written. -/
theorem formatWith_default {x : Binary64} (hx : x.isFinite = true) {figure : Figure}
    (h : (Quantity.float x).finiteFigure (Element.plain false none .byKind) = .ok figure)
    (options : Options) :
    formatWith "\x7b\x7d" [.float x] options =
      .ok (String.ofList (figure.written (Element.plain false none .byKind) options)) := by
  rw [formatWith_of_compile compile_default rfl,
    renderScalar_plain (q := .float x) rfl false none (.inl rfl) fun _ => ⟨x, rfl⟩,
    renderQuantity, figure_plain (q := .float x) hx false none (.inl rfl), h]
  rfl

/-- Without a code, a double is written as its shortest decimal. -/
theorem exists_default {x : Binary64} (hx : x.isFinite = true) (options : Options) :
    ∃ d : Decimal, d.IsDefault x.negative (x.shortest.1 * 10 ^ x.shortest.2) ∧
      formatWith "\x7b\x7d" [.float x] options = .ok (String.ofList (d.text 'e')) := by
  obtain ⟨n, hn, hsci, hmag, hbase, hneg⟩ := Quantity.decimal_eq_ok (q := .float x) hx
  have hfigure : (Quantity.float x).finiteFigure (Element.plain false none .byKind) =
      Figure.general n (General.uncoded none false) := by
    simp only [Quantity.finiteFigure, Element.plain, hn]
    rfl
  have hmark : percentText .byKind = [] := rfl
  rw [Quantity.magnitude] at hmag
  by_cases hsize : -4 ≤ Int.log 10 n.magnitude ∧ Int.log 10 n.magnitude < 16
  · obtain ⟨m, hgeneral, hdecimal, hexp, hleast, hlast⟩ :=
      Figure.general_exact_fixed (g := General.uncoded none false) hsci hbase rfl rfl hsize.1
        hsize.2
    have htext := formatWith_default hx (hfigure.trans hgeneral) options
    rw [Figure.written_plain hdecimal (.inl rfl) (by simp) false none TypeCode.isDecimal_byKind,
      hmark, List.append_nil] at htext
    rw [hneg, hmag] at hdecimal
    rw [hmag] at hsize
    exact ⟨_, Decimal.isDefault_fixed hdecimal hsize hexp hleast hlast, htext⟩
  · obtain ⟨m, hgeneral, hdecimal, hexp, hone, hlast⟩ :=
      Figure.general_exact_scientific (g := General.uncoded none false) hsci hbase rfl rfl hsize
    have htext := formatWith_default hx (hfigure.trans hgeneral) options
    rw [Figure.written_plain hdecimal (.inr rfl) (fun _ => hone) false none
      TypeCode.isDecimal_byKind, hmark, List.append_nil] at htext
    rw [hneg, hmag] at hdecimal
    rw [hmag] at hsize hexp
    exact ⟨_, Decimal.isDefault_scientific hdecimal hsize hexp hone hlast, htext⟩

/-- The default form of the shortest decimal is read as the double. -/
theorem Decimal.IsDefault.readFrom {x : Binary64} (hx : x.isFinite = true) {d : Decimal}
    (h : d.IsDefault x.negative (x.shortest.1 * 10 ^ x.shortest.2)) : x.ReadFrom (d.text 'e') := by
  refine ⟨d, h.wellFormed, rfl, h.negative.symm, ?_⟩
  rw [h.magnitude]
  exact (Binary64.isShortest_shortest hx).reads

/-- Without a code, every double is written as its shortest decimal. It is what its text is read as,
and no other double has that text. -/
theorem formatWith_float {x : Binary64} (hx : x.isFinite = true) (options : Options) :
    x.IsShortest x.shortest.1 x.shortest.2 ∧
    ∃ d : Decimal, d.IsDefault x.negative (x.shortest.1 * 10 ^ x.shortest.2) ∧
      formatWith "\x7b\x7d" [.float x] options = .ok (String.ofList (d.text 'e')) ∧
      ((d.text 'e').head? = some '-' ↔ x.negative = true) ∧
      (∀ y : Binary64, y.ReadFrom (d.text 'e') ↔ y = x) ∧
      ∀ y : Binary64, y.isFinite = true → y ≠ x →
        formatWith "\x7b\x7d" [.float y] options ≠
          formatWith "\x7b\x7d" [.float x] options := by
  obtain ⟨d, hd, htext⟩ := exists_default hx options
  have hread := hd.readFrom hx
  refine ⟨Binary64.isShortest_shortest hx, d, hd, htext, ?_, fun y => ⟨fun hy => ?_, ?_⟩, ?_⟩
  · rw [← hd.negative, Decimal.head?_text hd.wellFormed]
  · exact hy.unique hread
  · rintro rfl
    exact hread
  · intro y hy hne hsame
    obtain ⟨d', hd', htext'⟩ := exists_default hy options
    rw [htext, htext'] at hsame
    have hchars : d'.text 'e' = d.text 'e' := String.ofList_injective (Except.ok.inj hsame)
    rw [← hchars] at hread
    exact hne ((hd'.readFrom hy).unique hread)

/-- The least double above zero, of whose digits only one is needed. -/
theorem formatWith_float_least :
    let x : Binary64 := ⟨1⟩
    x.isFinite = true ∧ x.IsShortest x.shortest.1 x.shortest.2 ∧
    ∃ d : Decimal, d.IsDefault x.negative (x.shortest.1 * 10 ^ x.shortest.2) ∧
      formatWith "\x7b\x7d" [.float x] {} = .ok (String.ofList (d.text 'e')) ∧
      ((d.text 'e').head? = some '-' ↔ x.negative = true) ∧
      (∀ y : Binary64, y.ReadFrom (d.text 'e') ↔ y = x) ∧
      ∀ y : Binary64, y.isFinite = true → y ≠ x →
        formatWith "\x7b\x7d" [.float y] {} ≠ formatWith "\x7b\x7d" [.float x] {} := by
  intro x
  have hx : x.isFinite = true := by decide
  exact ⟨hx, formatWith_float hx {}⟩

example : formatWith "\x7b\x7d" [.float ⟨1⟩] {} = .ok "5e-324" := by decide +kernel

end Stencil
