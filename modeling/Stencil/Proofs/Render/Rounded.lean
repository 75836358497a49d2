import Stencil.Proofs.Render.Exponents
import Stencil.Proofs.Render.Lossless

/-!
# Figures are rounded numbers

Whatever the notation, a number with digits keeps its sign, and its digits denote the number that it
is rounded to. Rounding can take all digits of a double, but not those of a whole number.

* `general_isDecimalOf`, `finiteFigure_isDecimalOf` — the decimal codes, and no code.
* `finiteFigure_signed` — the same for all codes of fractional numbers: sign and zero.
* `base_of_figure` — the codes that a locale can group have decimal digits.
-/

namespace Stencil

variable {q : Quantity} {element : Element Nat}

/-- A numeral that denotes a number other than zero has a digit other than zero. -/
theorem Numeral.IsDecimalOf.isZero_eq_false {m : Numeral} {negative : Bool} {x : ℚ}
    (h : m.IsDecimalOf negative x) (hx : x ≠ 0) : m.isZero = false := by
  rw [Bool.eq_false_iff, Ne, isZero_iff (Nat.pos_of_ne_zero h.valid.base_ne_zero)]
  intro hzero
  exact hx (h.magnitude ▸ Scientific.magnitude_of_coefficient_zero hzero)

/-- The digits of a whole number denote it. -/
theorem Numeral.isDecimalOf_integer (v : Int) :
    (integer 10 v).IsDecimalOf (decide (v < 0)) v.natAbs := by
  have hten : 1 < 10 := by decide
  refine ⟨⟨hten, Digits.ofNat_ne_nil hten _, Digits.inBase_ofNat hten _, Digits.inBase_nil⟩, ?_,
    rfl, rfl, rfl, ?_⟩
  · by_cases hv : v.natAbs = 0
    · exact .inl (by simp [integer, hv, Digits.ofNat_eq_digits hten])
    · exact .inr ⟨Digits.ofNat_ne_nil hten _, Digits.head_ofNat_ne_zero hten hv⟩
  · rw [magnitude_of_exponent_zero rfl, mantissa, coefficient, digits, integer, List.append_nil,
      Digits.value_ofNat]
    simp

namespace Numeral.IsHexOf

variable {m : Numeral} {negative : Bool} {x : ℚ}

theorem isZero_eq_false (h : m.IsHexOf negative x) (hx : x ≠ 0) : m.isZero = false := by
  simp [isZero, Digits.allZero, digits, h.whole, hx]

/-- Rounding keeps the leading one, or makes it a two. -/
theorem isZero_roundPlaces (h : m.IsHexOf negative x) (hx : x ≠ 0) (places : Nat) :
    (m.roundPlaces places).isZero = false := by
  have heven : 2 ∣ m.base := by rw [h.base]; decide
  obtain ⟨hvalid, hcoef, -⟩ := roundPlaces_spec h.valid heven places
  rw [h.base, Nat.cast_ofNat, h.halfUp_mantissa hx places] at hcoef
  have hpow : 0 < 16 ^ places := Nat.pow_pos (by decide)
  rw [Bool.eq_false_iff, Ne, isZero_iff (Nat.pos_of_ne_zero hvalid.base_ne_zero), hcoef]
  omega

end Numeral.IsHexOf

/-! ## Decimal digits -/

/-- General notation writes a decimal of the sign, and it writes zero only for zero. -/
theorem Figure.general_isDecimalOf {n : Numeral} (h : n.Scientific) (hb : n.base = 10)
    {g : General} (hg : g.Rounds ∨ g.round = false ∧ g.strip = true) :
    ∃ m style x, general n g = .ok (.finite m style) ∧ m.IsDecimalOf n.negative x ∧
      (n.magnitude ≠ 0 → x ≠ 0) := by
  rcases hg with hg | ⟨hround, hstrip⟩
  · have hne (hn : n.magnitude ≠ 0) : rounded n g ≠ 0 :=
      significantly_ne_zero (by decide) hg.one_le_precision (n.magnitude_nonneg.lt_of_ne' hn)
    by_cases hsize : -4 ≤ Int.log 10 (rounded n g) ∧ Int.log 10 (rounded n g) < g.switch
    · obtain ⟨m, hm, hdecimal, -⟩ := general_fixed h hb hg hsize.1 hsize.2
      exact ⟨m, _, _, hm, hdecimal, hne⟩
    · obtain ⟨m, hm, hdecimal, -⟩ := general_scientific h hb hg hsize
      exact ⟨m, _, _, hm, hdecimal, hne⟩
  · by_cases hsize : -4 ≤ Int.log 10 n.magnitude ∧ Int.log 10 n.magnitude < g.switch
    · obtain ⟨m, hm, hdecimal, -⟩ := general_exact_fixed h hb hround hstrip hsize.1 hsize.2
      exact ⟨m, _, _, hm, hdecimal, id⟩
    · obtain ⟨m, hm, hdecimal, -⟩ := general_exact_scientific h hb hround hstrip hsize
      exact ⟨m, _, _, hm, hdecimal, id⟩

/-- Fixed places round a whole number to itself. -/
theorem halfUp_places_ne_zero {k : Nat} (hk : k ≠ 0) (places : Nat) :
    (halfUp ((k : ℚ) * 10 ^ places) / 10 ^ places : ℚ) ≠ 0 := by
  have hcast : (k : ℚ) * 10 ^ places = ((k * 10 ^ places : Nat) : ℚ) := by push_cast; rfl
  have hpow : 0 < 10 ^ places := Nat.pow_pos (by decide)
  rw [hcast, halfUp_natCast]
  exact div_ne_zero (Nat.cast_ne_zero.2 (Nat.mul_ne_zero hk hpow.ne')) (by positivity)

namespace Quantity

/-- Under a decimal code, and under none, a number is written as a decimal of its sign. A whole
number that is not zero is not written as zero. -/
theorem finiteFigure_isDecimalOf (hq : q.Finite) (htype : element.type.IsDecimal) :
    ∃ m style x, q.finiteFigure element = .ok (.finite m style) ∧ m.IsDecimalOf q.negative x ∧
      ∀ v, q = .integer v → v ≠ 0 → x ≠ 0 := by
  obtain ⟨n, hn, hsci, hmag, hbase, hneg⟩ := decimal_eq_ok hq
  have hradix : n.radix = 10 := by rw [hsci.radix_eq, hbase]
  have hnatural : ∀ v, q = .integer v → n.magnitude = (v.natAbs : ℚ) := by
    rintro v rfl
    exact hmag
  have hwhole : ∀ v, q = .integer v → v ≠ 0 → n.magnitude ≠ 0 := by
    intro v hv hne
    rw [hnatural v hv]
    exact Nat.cast_ne_zero.2 (Int.natAbs_ne_zero.2 hne)
  unfold finiteFigure
  dsimp only
  cases hcode : element.type with
  | byKind =>
    cases q with
    | integer v =>
      refine ⟨_, _, v.natAbs, Figure.whole_of_equals rfl (by decide), ?_, ?_⟩
      · exact Numeral.isDecimalOf_integer v
      · intro w hw hne
        obtain rfl := Quantity.integer.inj hw
        exact Nat.cast_ne_zero.2 (Int.natAbs_ne_zero.2 hne)
    | float x =>
      obtain ⟨m, style, r, hm, hdecimal, -⟩ :=
        Figure.general_isDecimalOf (g := General.uncoded element.precision element.alternate) hsci
          hbase (by
            cases element.precision with
            | none => exact .inr ⟨rfl, rfl⟩
            | some p => exact .inl (General.rounds_uncoded p _))
      dsimp only
      rw [hn, ← hneg]
      exact ⟨m, style, r, hm, hdecimal, by rintro v ⟨⟩⟩
  | fixed letters =>
    obtain ⟨m, hm, hdecimal, -⟩ :=
      Figure.fixedPlaces_eq_ok hsci.valid hbase hradix (element.precision.getD defaultPlaces)
    dsimp only
    rw [hn, ← hneg]
    refine ⟨m, _, _, hm, hdecimal, fun v hv hne => ?_⟩
    rw [hnatural v hv]
    exact halfUp_places_ne_zero (Int.natAbs_ne_zero.2 hne) _
  | percent =>
    have hvalid : Numeral.Valid { n with exponent := n.exponent + 2 } :=
      ⟨hsci.valid.one_lt_base, hsci.valid.whole_ne_nil, hsci.valid.whole, hsci.valid.fraction⟩
    obtain ⟨m, hm, hdecimal, -⟩ :=
      Figure.fixedPlaces_eq_ok hvalid hbase hradix (element.precision.getD defaultPlaces)
    dsimp only
    rw [hn, ← hneg]
    refine ⟨m, _, _, hm, hdecimal, fun v hv hne => ?_⟩
    have hcast : (100 : ℚ) * v.natAbs = ((100 * v.natAbs : Nat) : ℚ) := by push_cast; rfl
    rw [Figure.magnitude_percent hradix, hnatural v hv, hcast]
    exact halfUp_places_ne_zero (Nat.mul_ne_zero (by decide) (Int.natAbs_ne_zero.2 hne)) _
  | exponent letters =>
    obtain ⟨m, hm, -, hdecimal, -⟩ :=
      Figure.scientific_eq_ok hsci hbase (element.precision.getD defaultPlaces)
    dsimp only
    rw [hn, ← hneg]
    refine ⟨m, _, _, hm, hdecimal, fun v hv hne => ?_⟩
    exact significantly_ne_zero (by decide) (Nat.le_add_left 1 _)
      (n.magnitude_nonneg.lt_of_ne' (hwhole v hv hne))
  | general letters =>
    obtain ⟨m, style, r, hm, hdecimal, hr⟩ :=
      Figure.general_isDecimalOf hsci hbase
        (.inl (General.rounds_coded element.precision element.alternate))
    dsimp only
    rw [hn, ← hneg]
    exact ⟨m, style, r, hm, hdecimal, fun v hv hne => hr (hwhole v hv hne)⟩
  | _ =>
    rw [hcode] at htype
    exact htype.elim

/-! ## Sign and zero -/

/-- Under a code of fractional numbers, and under none, a number is written with its sign. A whole
number that is not zero has a digit that is not. -/
theorem finiteFigure_signed (hq : q.Finite)
    (htype : element.type = .byKind ∨ element.type.isFloat = true) :
    ∃ m style, q.finiteFigure element = .ok (.finite m style) ∧ Digits.InBase 16 m.digits ∧
      m.negative = q.negative ∧ ∀ v, q = .integer v → v ≠ 0 → m.isZero = false := by
  by_cases hdecimal : element.type.IsDecimal
  · obtain ⟨m, style, x, hm, hmx, hx⟩ := finiteFigure_isDecimalOf hq hdecimal
    have hdigits : Digits.InBase 16 m.digits := hmx.valid.digits.mono (by rw [hmx.base]; decide)
    exact ⟨m, style, hm, hdigits, hmx.negative, fun v hv hne => hmx.isZero_eq_false (hx v hv hne)⟩
  · obtain ⟨letters, hcode⟩ : ∃ letters, element.type = .hexFloat letters := by
      cases hcode : element.type with
      | hexFloat letters => exact ⟨letters, rfl⟩
      | byKind | fixed _ | percent | exponent _ | general _ =>
        rw [hcode] at hdecimal
        exact absurd trivial hdecimal
      | _ =>
        rw [hcode] at htype
        rcases htype with htype | htype <;> cases htype
    obtain ⟨n, hn, hsci, hmag, hbase, hneg⟩ := binary_eq_ok hq
    obtain ⟨m, hm, hhex, -⟩ := Numeral.toHex_eq_ok hsci hbase
    rw [hneg, hmag] at hhex
    have hne : ∀ v, q = .integer v → v ≠ 0 → q.exact ≠ 0 := by
      rintro v rfl hv
      exact Nat.cast_ne_zero.2 (Int.natAbs_ne_zero.2 hv)
    have hfigure : q.finiteFigure element = Figure.hexadecimal n element.precision := by
      simp only [finiteFigure, hcode, hn]
      rfl
    rw [hfigure, Figure.hexadecimal, hm]
    cases element.precision with
    | none =>
      have hdigits := hhex.valid.digits
      rw [hhex.base] at hdigits
      exact ⟨m, _, rfl, hdigits, hhex.negative, fun v hv h => hhex.isZero_eq_false (hne v hv h)⟩
    | some places =>
      have heven : 2 ∣ m.base := by rw [hhex.base]; decide
      obtain ⟨hvalid, -⟩ := Numeral.roundPlaces_spec hhex.valid heven places
      have hrounded := m.roundPlaces_eq places
      have hdigits := hvalid.digits
      rw [congrArg Numeral.base hrounded, hhex.base] at hdigits
      exact ⟨_, _, rfl, hdigits, (congrArg Numeral.negative hrounded).trans hhex.negative,
        fun v hv h => hhex.isZero_roundPlaces (hne v hv h) places⟩

theorem nonFinite?_ne_finite (q : Quantity) (n : Numeral) (style : Style) :
    q.nonFinite? ≠ some (.finite n style) := by
  cases q with
  | integer v => simp [nonFinite?]
  | float x =>
    rw [nonFinite?]
    split_ifs <;> simp

/-- Digits under a code that admits the point and the groups of a locale are decimal. -/
theorem base_of_figure (hcode : element.type.admits .localized = true) {n : Numeral} {style : Style}
    (h : q.figure element = .ok (.finite n style)) : n.base = 10 := by
  cases htype : element.type with
  | text | character | localeInteger | binary _ | octal | hex _ | hexFloat _ =>
    rw [htype] at hcode
    cases hcode
  | decimal =>
    simp only [figure, htype, TypeCode.radix?] at h
    by_cases hq : ∃ v, q.Equals v
    · obtain ⟨v, hv⟩ := hq
      rw [Figure.whole_of_equals hv (by decide)] at h
      cases h
      rfl
    · rw [Figure.whole_of_not_equals (not_exists.1 hq)] at h
      cases h
  | byKind | fixed _ | percent | exponent _ | general _ =>
    have hdecimal : element.type.IsDecimal := by
      rw [htype]
      trivial
    simp only [figure, htype, TypeCode.radix?] at h
    cases hfinite : q.nonFinite? with
    | some figure =>
      rw [hfinite] at h
      obtain rfl := Except.ok.inj h
      exact absurd hfinite (q.nonFinite?_ne_finite n style)
    | none =>
      obtain ⟨m, style', x, hm, hmx, -⟩ :=
        finiteFigure_isDecimalOf (finite_of_nonFinite? hfinite) hdecimal
      simp only [hfinite, hm] at h
      cases hflag : element.positiveZero <;> rw [hflag] at h <;> cases h <;> exact hmx.base

end Quantity

end Stencil
