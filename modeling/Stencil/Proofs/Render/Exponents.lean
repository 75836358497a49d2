import Stencil.Proofs.Render.Hexadecimals

/-!
# Numbers with an exponent

What the codes `e` and `a` write for every number if the field gives the places behind the point,
from the template to the text. The first rounds the number to significant digits, and a carry may
raise its exponent. The second rounds the hexadecimal digits of a number whose exponent is binary:
there a carry makes the leading one a two, and the exponent stays.

* `Decimal.IsScientific`, `formatWith_scientific` — the decimal that `e` promises and writes.
* `Numeral.IsHexOf.roundPlaces` — rounding hexadecimal digits.
* `Hexadecimal.IsRounded`, `formatWith_hexPlaces` — the hexadecimal that `a` promises and writes.
-/

namespace Stencil

/-! ## Scientific notation -/

/-- The decimal that scientific notation promises for a number: rounded half up to one digit before
the point and the given places behind it. -/
structure Decimal.IsScientific (d : Decimal) (negative : Bool) (places : Nat) (x : ℚ) : Prop where
  wellFormed : d.WellFormed
  negative : d.negative = negative
  magnitude : d.magnitude = significantly 10 (places + 1) x
  exponent : d.exponent = some (Int.log 10 (significantly 10 (places + 1) x))
  length_whole : d.whole.length = 1
  length_places : d.places.length = places
  point : d.fraction = none ↔ places = 0
  lead : x ≠ 0 → d.whole ≠ [0]
  zero : x = 0 → (∀ i ∈ d.digits, i = 0) ∧ d.exponent = some 0

/-- A rounded number is zero only if the number is. -/
theorem significantly_ne_zero {base count : Nat} (hb : 1 < base) (hc : 1 ≤ count) {x : ℚ}
    (hx : 0 < x) : significantly base count x ≠ 0 := by
  have hbq : (0 : ℚ) < base := Nat.cast_pos.2 (by omega)
  have hlow := (pow_le_halfUp_scaled hb hc hx).1
  have hpow : 0 < base ^ (count - 1) := Nat.pow_pos (by omega)
  rw [significantly, roundTo]
  exact mul_ne_zero (Nat.cast_ne_zero.2 (by omega)) (zpow_pos hbq _).ne'

/-- A numeral in scientific form that has the digits of a rounded number is the decimal that
scientific notation promises. -/
theorem Decimal.isScientific_ofNumeral {m : Numeral} {negative : Bool} {places : Nat} {x : ℚ}
    (hx : 0 ≤ x) (hsci : m.Scientific)
    (h : m.IsDecimalOf negative (significantly 10 (places + 1) x))
    (hexp : m.exponent = Int.log 10 (significantly 10 (places + 1) x))
    (hlen : m.fraction.length = places) :
    (Decimal.ofNumeral m .scientific false).IsScientific negative places x := by
  have hpos : 0 < m.base := Nat.pos_of_ne_zero h.valid.base_ne_zero
  refine ⟨wellFormed_ofNumeral h (fun _ => hsci.length_whole) false, h.negative,
    magnitude_ofNumeral h (by simp) false, ?_, hsci.length_whole, ?_, ?_, ?_, ?_⟩
  · rw [← hexp]
    rfl
  · rw [places_ofNumeral, hlen]
  · rw [← hlen, List.length_eq_zero_iff]
    simp [ofNumeral]
  · intro hne
    have hrounded := significantly_ne_zero (show 1 < 10 by decide) (Nat.le_add_left 1 places)
      (lt_of_le_of_ne hx hne.symm)
    rw [← h.magnitude, ne_eq, hsci.magnitude_eq_zero_iff] at hrounded
    exact hsci.whole_of_ne_zero hrounded
  · rintro rfl
    have hzero : m.coefficient = 0 := by
      rw [← hsci.magnitude_eq_zero_iff, h.magnitude, significantly_zero]
    constructor
    · intro i hi
      rw [digits_ofNumeral] at hi
      have hall := (Numeral.isZero_iff hpos).2 hzero
      simpa using List.all_eq_true.1 hall i hi
    · rw [← hsci.exponent_of_zero hzero]
      rfl

/-- The code `e` writes every finite number rounded half up to one digit more than the places it is
given, with the exponent of the rounded number. -/
theorem formatWith_scientific {v : Value} {q : Quantity} (hv : v.quantity? = some q)
    (hq : q.Finite) {places : Nat} (hp : places ≤ maxCount) (options : Options) :
    ∃ d : Decimal, d.IsScientific q.negative places q.magnitude ∧
      formatWith (plainTemplate false (some places) (.exponent .lower)) [v] options =
        .ok (String.ofList (d.text 'e')) := by
  obtain ⟨n, hn, hsci, hmag, hbase, hneg⟩ := Quantity.decimal_eq_ok hq
  obtain ⟨m, hm, hrounded, hdecimal, hexp, hlen⟩ := Figure.scientific_eq_ok hsci hbase places
  have hfigure : q.finiteFigure (Element.plain false (some places) (.exponent .lower)) =
      .ok (.finite m .scientific) := by
    simp only [Quantity.finiteFigure, Element.plain, hn]
    exact hm
  have hprecision : ∀ p ∈ some places, p ≤ maxCount := by simpa using hp
  have htype : (TypeCode.exponent .lower).IsDecimal := trivial
  have hmark : percentText (.exponent .lower) = [] := rfl
  have htext := formatWith_plain hv hq hprecision htype.byKind_or_isFloat (by simp) hfigure options
  rw [Figure.written_plain hdecimal (.inr rfl) (fun _ => hrounded.length_whole) false _ htype,
    hmark, List.append_nil] at htext
  rw [hneg, hmag] at hdecimal
  rw [hmag] at hexp
  exact ⟨_, Decimal.isScientific_ofNumeral q.magnitude_nonneg hrounded hdecimal hexp hlen, htext⟩

/-- A double just below one, whose digits carry into the next power of ten. -/
theorem formatWith_scientific_carry :
    let x : Binary64 := ⟨0xBFEFFBE76C8B4396⟩
    (Value.float x).quantity? = some (.float x) ∧ (Quantity.float x).Finite ∧ 2 ≤ maxCount ∧
      ∃ d : Decimal, d.IsScientific (Quantity.float x).negative 2 (Quantity.float x).magnitude ∧
        formatWith (plainTemplate false (some 2) (.exponent .lower)) [.float x] {} =
          .ok (String.ofList (d.text 'e')) := by
  intro x
  have hq : (Quantity.float x).Finite := show x.isFinite = true by decide
  have hp : 2 ≤ maxCount := by decide
  exact ⟨rfl, hq, hp,
    formatWith_scientific (show (Value.float x).quantity? = some (.float x) from rfl) hq hp {}⟩

/-! ## Rounding hexadecimal digits -/

/-- Digits behind the point are less than one. -/
theorem Digits.fractional_lt_one {base : Nat} (hb : 1 < base) {digits : List Nat}
    (h : InBase base digits) : fractional base digits < 1 := by
  have hpow : (0 : ℚ) < (base : ℚ) ^ digits.length := by positivity
  rw [fractional, div_lt_one hpow]
  exact_mod_cast value_lt_pow hb h

/-- Whole units stay out of the rounding. -/
theorem halfUp_natCast_add (m : Nat) {y : ℚ} (hy : 0 ≤ y) : halfUp (m + y) = m + halfUp y := by
  rw [halfUp, halfUp, add_assoc, add_comm (m : ℚ), Nat.floor_add_natCast (by positivity), add_comm]

namespace Numeral.IsHexOf

variable {m : Numeral} {negative : Bool} {x : ℚ}

theorem valid (h : m.IsHexOf negative x) : m.Valid := by
  have hlead : (if x = 0 then 0 else 1) < 16 := by split_ifs <;> decide
  refine ⟨by rw [h.base]; decide, by simp [h.whole], ?_, ?_⟩
  · rw [h.base, h.whole]
    exact Digits.inBase_cons.2 ⟨hlead, Digits.inBase_nil⟩
  · rw [h.base]
    exact h.fraction

/-- The mantissa of a number that is not zero is a one and the digits behind the point. -/
theorem mantissa_eq_one_add (h : m.IsHexOf negative x) (hx : x ≠ 0) :
    m.mantissa = 1 + Digits.fractional 16 m.fraction := by
  rw [mantissa_eq h.valid.base_ne_zero, h.base, h.whole, if_neg hx, Digits.value_singleton,
    Nat.cast_one]

theorem mantissa_of_zero (h : m.IsHexOf negative x) (hx : x = 0) : m.mantissa = 0 := by
  rw [mantissa_eq h.valid.base_ne_zero, h.whole, if_pos hx, (h.zero hx).1]
  simp [Digits.fractional, Digits.value]

theorem mantissa_lt_two (h : m.IsHexOf negative x) : m.mantissa < 2 := by
  by_cases hx : x = 0
  · rw [h.mantissa_of_zero hx]
    norm_num
  · have hlt := Digits.fractional_lt_one (by decide) h.fraction
    rw [h.mantissa_eq_one_add hx]
    linarith

theorem one_le_mantissa (h : m.IsHexOf negative x) (hx : x ≠ 0) : 1 ≤ m.mantissa := by
  have hnonneg : 0 ≤ Digits.fractional 16 m.fraction := by
    rw [Digits.fractional]
    positivity
  rw [h.mantissa_eq_one_add hx]
  linarith

/-- The leading one stays out of the rounding. -/
theorem halfUp_mantissa (h : m.IsHexOf negative x) (hx : x ≠ 0) (places : Nat) :
    halfUp (m.mantissa * 16 ^ places) =
      16 ^ places + halfUp ((m.mantissa - 1) * 16 ^ places) := by
  have hone := h.one_le_mantissa hx
  have hrest : 0 ≤ (m.mantissa - 1) * 16 ^ places :=
    mul_nonneg (by linarith) (by positivity)
  rw [← halfUp_natCast_add (16 ^ places) hrest]
  push_cast
  congr 1
  ring

/-- The digits behind the point carry into one unit at most. -/
theorem halfUp_fraction_le (h : m.IsHexOf negative x) (places : Nat) :
    halfUp ((m.mantissa - 1) * 16 ^ places) ≤ 16 ^ places := by
  have hlt := h.mantissa_lt_two
  have hle : (m.mantissa - 1) * 16 ^ places ≤ ((16 ^ places : Nat) : ℚ) := by
    rw [Nat.cast_pow]
    exact mul_le_of_le_one_left (by positivity) (by linarith)
  have hmono := halfUp_mono hle
  rwa [halfUp_natCast] at hmono

/-- Rounding leaves one digit before the point: a carry makes it a two at most. -/
theorem exists_roundPlaces (h : m.IsHexOf negative x) (places : Nat) :
    ∃ lead, (m.roundPlaces places).whole = [lead] ∧ lead ≤ 2 ∧
      Digits.InBase 16 (m.roundPlaces places).fraction ∧
      (m.roundPlaces places).fraction.length = places ∧
      lead * 16 ^ places + Digits.value 16 (m.roundPlaces places).fraction =
        halfUp (m.mantissa * 16 ^ places) := by
  have heven : 2 ∣ m.base := by rw [h.base]; decide
  have hbase : (m.roundPlaces places).base = 16 := by rw [roundPlaces_eq]; exact h.base
  obtain ⟨hvalid, hcoef, hlen, hwhole⟩ := roundPlaces_spec h.valid heven places
  have hin := hvalid.fraction
  rw [coefficient_eq, hbase, hlen, h.base] at hcoef
  rw [hbase] at hin
  have htop : halfUp (m.mantissa * 16 ^ places) ≤ 2 * 16 ^ places := by
    have hmono := halfUp_mono (mul_le_mul_of_nonneg_right h.mantissa_lt_two.le
      (show (0 : ℚ) ≤ 16 ^ places by positivity))
    have hcast : (2 : ℚ) * 16 ^ places = (2 * 16 ^ places : Nat) := by push_cast; rfl
    rwa [hcast, halfUp_natCast] at hmono
  have hpow : 0 < 16 ^ places := Nat.pow_pos (by decide)
  have hone : (m.roundPlaces places).whole.length = 1 := by
    rcases hwhole with hsame | ⟨hcarry, -⟩
    · rw [hsame, h.whole, List.length_singleton]
    · -- a second digit would stand for sixteen, and there is no more than two
      exfalso
      rw [hcarry, h.whole] at hcoef
      have hsixteen :
          Digits.value 16 (1 :: List.replicate [if x = 0 then 0 else 1].length 0) = 16 := rfl
      rw [hsixteen] at hcoef
      push_cast at hcoef
      omega
  obtain ⟨lead, hlead⟩ := List.length_eq_one_iff.1 hone
  rw [hlead, Digits.value_singleton] at hcoef
  push_cast at hcoef
  refine ⟨lead, hlead, ?_, hin, hlen, hcoef⟩
  by_contra hgt
  have hmul := Nat.mul_le_mul_right (16 ^ places) (show 3 ≤ lead by omega)
  omega

end Numeral.IsHexOf

/-! ## Hexadecimal notation -/

/-- The hexadecimal that the code `a` promises for a number: the mantissa is rounded half up to the
given places, and the exponent is the one it has before that. A carry makes the leading one a
two. -/
structure Hexadecimal.IsRounded (d : Hexadecimal) (negative : Bool) (places : Nat) (x : ℚ) :
    Prop where
  negative : d.negative = negative
  fraction : ∀ i ∈ d.fraction, i < 16
  length_fraction : d.fraction.length = places
  rounded : x ≠ 0 → ∃ (mantissa : ℚ) (e : ℤ), 1 ≤ mantissa ∧ mantissa < 2 ∧ x = mantissa * 2 ^ e ∧
    d.exponent = e ∧ d.mantissa = (⌊mantissa * 16 ^ places + 1 / 2⌋₊ : ℚ) / 16 ^ places ∧
    d.lead = if ⌊(mantissa - 1) * 16 ^ places + 1 / 2⌋₊ = 16 ^ places then 2 else 1
  zero : x = 0 → d.lead = 0 ∧ d.fraction = List.replicate places 0 ∧ d.exponent = 0

/-- Hexadecimal digits that are rounded to places are the hexadecimal that is promised. -/
theorem Hexadecimal.isRounded_ofNumeral {m : Numeral} {negative : Bool} {x : ℚ}
    (h : m.IsHexOf negative x) (places : Nat) :
    (ofNumeral (m.roundPlaces places)).IsRounded negative places x := by
  have hframe := Numeral.roundPlaces_eq m places
  have hbase : (m.roundPlaces places).base = 16 := by rw [hframe]; exact h.base
  have hexp : (m.roundPlaces places).exponent = m.exponent := by rw [hframe]
  have hneg : (m.roundPlaces places).negative = negative := by rw [hframe]; exact h.negative
  obtain ⟨lead, hlead, hle, hin, hlen, hvalue⟩ := h.exists_roundPlaces places
  have hlt := Digits.value_lt_pow (by decide) hin
  rw [hlen] at hlt
  have hfirst : (ofNumeral (m.roundPlaces places)).lead = lead := by
    rw [ofNumeral, hlead, Digits.value_singleton]
  refine ⟨hneg, hin, hlen, ?_, ?_⟩
  · intro hx
    have hsplit := h.halfUp_mantissa hx places
    have hcarry := h.halfUp_fraction_le places
    refine ⟨m.mantissa, m.exponent, h.one_le_mantissa hx, h.mantissa_lt_two, ?_, hexp, ?_, ?_⟩
    · rw [← h.magnitude, Numeral.magnitude, h.radix, Nat.cast_ofNat]
    · rw [mantissa_ofNumeral hbase hlead, Numeral.mantissa, Numeral.coefficient_eq, hbase, hlead,
        Digits.value_singleton, hlen, hvalue]
      rfl
    · rw [hsplit] at hvalue
      rw [hfirst]
      change lead = if halfUp ((m.mantissa - 1) * 16 ^ places) = 16 ^ places then 2 else 1
      interval_cases lead <;> split_ifs <;> omega
  · intro hx
    rw [h.mantissa_of_zero hx, zero_mul, halfUp_zero, Nat.add_eq_zero_iff] at hvalue
    have hzeros := (Digits.value_eq_zero_iff (by decide)).1 hvalue.2
    refine ⟨?_, List.eq_replicate_iff.2 ⟨hlen, ?_⟩, ?_⟩
    · rw [hfirst]
      exact (Nat.mul_eq_zero.1 hvalue.1).resolve_right (Nat.pow_pos (by decide)).ne'
    · intro i hi
      simpa using List.all_eq_true.1 hzeros i hi
    · exact hexp.trans (h.zero hx).2

/-- The code `a` writes every finite double and every whole number with its mantissa rounded half up
to the places it is given, and with the exponent it has before that. -/
theorem formatWith_hexPlaces {v : Value} {q : Quantity} (hv : v.quantity? = some q)
    (hq : q.Finite) {places : Nat} (hp : places ≤ maxCount) (options : Options) :
    ∃ d : Hexadecimal, d.IsRounded q.negative places q.exact ∧
      formatWith (plainTemplate false (some places) (.hexFloat .lower)) [v] options =
        .ok (String.ofList d.text) := by
  obtain ⟨n, hn, hsci, hmag, hbase, hneg⟩ := Quantity.binary_eq_ok hq
  obtain ⟨m, hm, hhex, -⟩ := Numeral.toHex_eq_ok hsci hbase
  rw [hneg, hmag] at hhex
  have hfigure : q.finiteFigure (Element.plain false (some places) (.hexFloat .lower)) =
      .ok (.finite (m.roundPlaces places) .hexadecimal) := by
    simp only [Quantity.finiteFigure, Element.plain, hn, Figure.hexadecimal, bind, Except.bind, hm]
    rfl
  have hprecision : ∀ p ∈ some places, p ≤ maxCount := by simpa using hp
  obtain ⟨lead, hlead, hle, hin, -, -⟩ := hhex.exists_roundPlaces places
  refine ⟨_, Hexadecimal.isRounded_ofNumeral hhex places, ?_⟩
  rw [formatWith_plain hv hq hprecision (.inr rfl) (by simp) hfigure,
    Figure.written_hexadecimal hlead (by omega) hin]

/-- A double just below two, whose only hexadecimal digit carries. -/
theorem formatWith_hexPlaces_carry :
    let x : Binary64 := ⟨0xBFFF851EB851EB85⟩
    (Value.float x).quantity? = some (.float x) ∧ (Quantity.float x).Finite ∧ 1 ≤ maxCount ∧
      ∃ d : Hexadecimal, d.IsRounded (Quantity.float x).negative 1 (Quantity.float x).exact ∧
        formatWith (plainTemplate false (some 1) (.hexFloat .lower)) [.float x] {} =
          .ok (String.ofList d.text) := by
  intro x
  have hq : (Quantity.float x).Finite := show x.isFinite = true by decide
  have hp : 1 ≤ maxCount := by decide
  exact ⟨rfl, hq, hp,
    formatWith_hexPlaces (show (Value.float x).quantity? = some (.float x) from rfl) hq hp {}⟩

end Stencil
