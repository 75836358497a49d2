import Stencil.Checked.Notation
import Stencil.Proofs.Checked.DigitArray
import Stencil.Proofs.Render.Figures

/-!
# Styles that follow figures

The layout of a number is the figure of the number with its digits in an array, and no step towards
it breaks a law. The only refusal is that of a fraction where a whole number is wanted: the shapes
that changes of form start from are always there.

* `Quantity.Fits` — a whole number whose binary digits can be held.
* `LaysOut` — a run that gives the layout of a figure, or refuses a fraction.
* `whole_laysOut`, `fixedPlaces_laysOut`, `scientific_laysOut`, `hexadecimal_laysOut`,
  `general_laysOut` — the styles.
* `ofQuantity_laysOut` — the layout of every presentation of a number.
-/

namespace Stencil

open Checked

/-! ## Numbers that fit -/

/-- The binary digits of a whole number can be held; those of a double always can. -/
def Quantity.Fits : Quantity → Prop
  | .integer v => v.natAbs.log2 < spaceLimit
  | .float _ => True

/-- A figure with room for its digits. -/
def Figure.Within (figure : Figure) (k : Nat) : Prop :=
  match figure with
  | .finite n _ => n.Within k
  | .infinite _ | .notANumber => True

/-- A run gives the layout of a figure with room for its digits, or both refuse a fraction. -/
def LaysOut (run : Checked Obstacle Layout) (result : Except Obstacle Figure) : Prop :=
  (∃ figure, result = .ok figure ∧ run = .ok figure.layout ∧ figure.Within (4 * spaceLimit)) ∨
    (result = .error .fractional ∧ run = .error (.refusal .fractional))

/-- The whole number that a double is has no more binary digits than there is room for. -/
theorem Binary64.log2_lt {x : Binary64} {m : Nat} (h : x.magnitude = m) : m.log2 < spaceLimit := by
  obtain ⟨-, -, hcount⟩ := limits
  have hscale := x.scale_le.1
  have hle : m ≤ 2 ^ (53 + x.scale.toNat) := by
    have hsignificand : (x.significand : ℚ) ≤ 2 ^ 53 := by
      exact_mod_cast Nat.le_of_lt x.canonical.lt
    have hpower : (2 : ℚ) ^ x.scale ≤ 2 ^ x.scale.toNat := by
      rw [← zpow_natCast]
      exact zpow_le_zpow_right₀ one_le_two (Int.self_le_toNat x.scale)
    have hmagnitude : (m : ℚ) ≤ 2 ^ 53 * 2 ^ x.scale.toNat := by
      rw [← h, x.magnitude_eq]
      gcongr
    rw [Nat.pow_add]
    exact_mod_cast hmagnitude
  have hlog := log2_le_of_le_two_pow (hle.trans (Nat.le_succ _))
  omega

namespace Quantity

variable {q : Quantity}

theorem toInt_cases (h : q.Fits) :
    (∃ v, q.toInt = .ok v ∧ v.natAbs.log2 < spaceLimit) ∨ q.toInt = .error .fractional := by
  cases q with
  | integer v => exact Or.inl ⟨v, rfl, h⟩
  | float x =>
    rcases toInt_float_cases x with ⟨m, hfinite, hm⟩ | hrefused
    · refine Or.inl ⟨_, toInt_float hfinite hm, ?_⟩
      have hlog := Binary64.log2_lt hm
      split_ifs
      · rwa [Int.natAbs_neg]
      · exact hlog
    · exact Or.inr hrefused

theorem decimal_array (h : q.Fits) (hfinite : q.nonFinite? = none) :
    ∃ n, q.decimal = .ok n ∧ DigitArray.decimal q = .ok n.array ∧ n.Led spaceLimit := by
  cases q with
  | integer v =>
    obtain ⟨harray, hled⟩ := Numeral.ofInt_array (ε := Obstacle) (show 1 < 10 by decide) h
    exact ⟨_, rfl, harray, hled⟩
  | float x => exact Numeral.ofFloat_array (finite_of_nonFinite? hfinite)

theorem binary_array (h : q.Fits) (hfinite : q.nonFinite? = none) :
    ∃ n, q.binary = .ok n ∧ DigitArray.binary q = .ok n.array ∧ n.Led spaceLimit ∧
      n.base = 2 := by
  cases q with
  | integer v =>
    obtain ⟨harray, hled⟩ := Numeral.ofInt_array (ε := Obstacle) (show 1 < 2 by decide) h
    exact ⟨_, rfl, harray, hled, Numeral.base_normalize _⟩
  | float x => exact Numeral.ofFloatBinary_array (finite_of_nonFinite? hfinite)

end Quantity

/-! ## Styles -/

variable {n : Numeral} {k : Nat}

theorem whole_laysOut {q : Quantity} (h : q.Fits) {radix : Nat} (hradix : 1 < radix) :
    LaysOut (Layout.whole q radix) (Figure.whole q radix) := by
  obtain ⟨-, -, hcount⟩ := limits
  rw [Layout.whole, Figure.whole]
  rcases q.toInt_cases h with ⟨v, hv, hlog⟩ | hfractional
  · obtain ⟨harray, hled⟩ := Numeral.ofInt_array (ε := Obstacle) hradix hlog
    rw [hv, ofResult_ok, ok_bind, harray, ok_bind]
    rcases Numeral.toInteger_array hled.within (by omega) hled.radix_eq with
      ⟨m, hm, hmArray, hwithin⟩ | ⟨hm, hmArray⟩
    · refine Or.inl ⟨.finite m .integer, ?_, ?_, hwithin.mono (by omega)⟩
      · simp only [bind, Except.bind, hm]
        rfl
      · rw [hmArray]
        rfl
    · refine Or.inr ⟨?_, ?_⟩
      · simp only [bind, Except.bind, hm]
      · rw [hmArray]
        rfl
  · rw [hfractional]
    exact Or.inr ⟨rfl, rfl⟩

theorem fixedPlaces_laysOut (h : n.Within k) (hk : k ≤ spaceLimit + 2) (hradix : n.radix = n.base)
    {places : Nat} (hplaces : places ≤ maxCount) :
    LaysOut (Layout.fixedPlaces n.array places) (Figure.fixedPlaces n places) := by
  obtain ⟨hword, hsigned, hcount⟩ := limits
  obtain ⟨m, hm, hmArray, hwithin⟩ := Numeral.toFixed_array h (by omega) hradix
  have hwhole := hwithin.whole_le
  have hone := hwithin.one_le
  obtain ⟨hfraction, hlow, hhigh⟩ := m.length_roundPlaces places
  obtain ⟨hpos, hle⟩ := (m.roundPlaces places).length_trimWhole (by omega)
  refine Or.inl ⟨.finite (m.roundPlaces places).trimWhole .fixed, ?_, ?_, hpos, by omega, ?_, ?_⟩
  · rw [Figure.fixedPlaces, hm]
    rfl
  · rw [Layout.fixedPlaces, hmArray, ok_bind, m.roundPlaces_array (by omega), ok_bind,
      Numeral.trimWhole_array (by omega)]
    rfl
  · rw [Numeral.trimWhole_eq]
    show (m.roundPlaces places).fraction.length ≤ 4 * spaceLimit
    omega
  · rw [Numeral.trimWhole_eq, Numeral.roundPlaces_eq]
    exact hwithin.exponent_le.trans (by omega)

theorem scientific_laysOut (h : n.Led spaceLimit) {places : Nat} (hplaces : places ≤ maxCount) :
    LaysOut (Layout.scientific n.array places) (Figure.scientific n places) := by
  obtain ⟨hword, hsigned, hcount⟩ := limits
  have hexponent := h.within.exponent_le
  obtain ⟨m, hm, hmArray, hone, hfraction, hmoved⟩ :=
    Numeral.roundSignificant_array h.within (by omega) h.length_whole (show 1 ≤ places + 1 by omega)
      (by omega)
  refine Or.inl ⟨.finite m .scientific, ?_, ?_, by omega, by omega, by omega, by omega⟩
  · rw [Figure.scientific, hm]
    rfl
  · rw [Layout.scientific, sum_eq_ok (by omega), ok_bind, hmArray]
    rfl

theorem hexadecimal_laysOut (h : n.Led spaceLimit) (hbase : n.base = 2) {places : Option Nat}
    (hplaces : ∀ p ∈ places, p ≤ maxCount) :
    LaysOut (Layout.hexadecimal n.array places) (Figure.hexadecimal n places) := by
  obtain ⟨hword, hsigned, hcount⟩ := limits
  obtain ⟨m, hm, hmArray, hone, hwithin⟩ :=
    Numeral.toHex_array h.within hbase h.length_whole
  rw [Layout.hexadecimal, Figure.hexadecimal, hm, hmArray]
  cases places with
  | none => exact Or.inl ⟨.finite m .hexadecimal, rfl, rfl, hwithin.mono (by omega)⟩
  | some p =>
    have hp := hplaces p rfl
    obtain ⟨hfraction, hlow, hhigh⟩ := m.length_roundPlaces p
    refine Or.inl ⟨.finite (m.roundPlaces p) .hexadecimal, rfl, ?_, by omega, by omega, by omega, ?_⟩
    · rw [ok_bind]
      dsimp only
      rw [m.roundPlaces_array (by omega)]
      rfl
    · rw [Numeral.roundPlaces_eq]
      exact hwithin.exponent_le.trans (by omega)

/-! ## General notation -/

/-- Settings within the limits of a field. -/
structure General.Limited (g : General) : Prop where
  one_le : 1 ≤ g.precision
  le : g.precision ≤ maxCount
  least_le : g.leastFraction ≤ 1

theorem attempt_array (h : n.Led spaceLimit) {g : General} (hg : g.Limited) :
    ∃ m, (if g.round then n.roundSignificant g.precision else .ok n) = .ok m ∧
      Layout.attempt n.array g = .ok m.array ∧ m.Within (spaceLimit + 1) := by
  obtain ⟨hword, hsigned, hcount⟩ := limits
  have hexponent := h.within.exponent_le
  have hle := hg.le
  rw [Layout.attempt]
  split_ifs
  · obtain ⟨m, hm, hmArray, hone, hfraction, hmoved⟩ :=
      Numeral.roundSignificant_array h.within (by omega) h.length_whole hg.one_le (by omega)
    exact ⟨m, hm, hmArray, by omega, by omega, by omega, by omega⟩
  · exact ⟨n, rfl, rfl, h.within.mono (by omega)⟩

theorem placesFor_eq_ok {ε : Type} {g : General} (hg : g.Limited) {exponent : Int}
    (hexponent : exponent.natAbs ≤ 2 * spaceLimit) :
    (placesFor g exponent : Checked ε Nat) = .ok ((g.precision : Int) - 1 - exponent).toNat := by
  obtain ⟨hword, hsigned, hcount⟩ := limits
  have hle := hg.le
  have hpos := hg.one_le
  rw [placesFor, signed_eq_ok (by omega), ok_bind, signed_eq_ok (by omega), ok_bind,
    signed_eq_ok (by omega), ok_bind]
  rfl

theorem round_array (h : n.Within (3 * spaceLimit + 1)) {g : General} (hg : g.Limited)
    {exponent : Int} (hlow : -4 ≤ exponent) (hhigh : exponent.natAbs ≤ spaceLimit + 1) :
    let rounded :=
      if g.round then n.roundPlaces ((g.precision : Int) - 1 - exponent).toNat else n
    Layout.roundFor n.array g exponent = .ok rounded.array ∧
      rounded.Within (3 * spaceLimit + 2) := by
  obtain ⟨hword, hsigned, hcount⟩ := limits
  have hle := hg.le
  have hwhole := h.whole_le
  have hone := h.one_le
  dsimp only
  rw [Layout.roundFor]
  split_ifs
  · rw [placesFor_eq_ok hg (by omega), ok_bind]
    obtain ⟨hfraction, hmore, hless⟩ :=
      n.length_roundPlaces ((g.precision : Int) - 1 - exponent).toNat
    refine ⟨n.roundPlaces_array (by omega), by omega, by omega, by omega, ?_⟩
    rw [Numeral.roundPlaces_eq]
    exact h.exponent_le.trans (Nat.le_succ _)
  · exact ⟨rfl, h.mono (Nat.le_succ _)⟩

theorem strip_array (h : n.Within k) (hk : k ≤ 4 * spaceLimit) (g : General) {least : Nat}
    (hleast : least ≤ 1) :
    let stripped := if g.strip then n.stripFraction least else n
    Layout.stripFor n.array g least = .ok stripped.array ∧ stripped.Within (k + 1) := by
  obtain ⟨hword, hsigned, hcount⟩ := limits
  have hwhole := h.whole_le
  have hfraction := h.fraction_le
  dsimp only
  rw [Layout.stripFor]
  split_ifs
  · have htrim := (Digits.trimTrailing_sublist (n.fraction.drop least)).length_le
    rw [List.length_drop] at htrim
    refine ⟨n.stripFraction_array least (by omega), h.one_le, hwhole.trans (Nat.le_succ k), ?_,
      h.exponent_le.trans (Nat.le_succ k)⟩
    rw [Numeral.stripFraction, List.length_append, List.length_take]
    omega
  · exact ⟨rfl, h.mono (Nat.le_succ k)⟩

theorem general_laysOut (h : n.Led spaceLimit) {g : General} (hg : g.Limited) :
    LaysOut (Layout.general n.array g) (Figure.general n g) := by
  obtain ⟨hword, hsigned, hcount⟩ := limits
  obtain ⟨attempt, hattempt, hattemptArray, hattemptWithin⟩ := attempt_array h hg
  have hexponent := hattemptWithin.exponent_le
  rw [Layout.general, Figure.general_eq hattempt, hattemptArray, ok_bind, Numeral.array_exponent]
  by_cases hmoderate : -4 ≤ attempt.exponent ∧ attempt.exponent < g.switch
  · rw [if_pos hmoderate, if_pos hmoderate]
    obtain ⟨fixed, hfixed, hfixedArray, hfixedWithin⟩ :=
      Numeral.toFixed_array h.within (by omega) h.radix_eq
    obtain ⟨hround, hroundWithin⟩ := round_array hfixedWithin hg hmoderate.1 hexponent
    generalize hrounded : (if g.round then fixed.roundPlaces
      ((g.precision : Int) - 1 - attempt.exponent).toNat else fixed) = rounded at hround hroundWithin
    obtain ⟨hstrip, hstripWithin⟩ := strip_array hroundWithin (by omega) g hg.least_le
    generalize hstripped : (if g.strip then rounded.stripFraction g.leastFraction else rounded) =
      stripped at hstrip hstripWithin
    have hwhole := hstripWithin.whole_le
    have hfraction := hstripWithin.fraction_le
    have hleast := hg.least_le
    refine Or.inl ⟨.finite (stripped.padFraction g.leastFraction) .fixed, ?_, ?_,
      hstripWithin.one_le, hwhole.trans (by omega), ?_, hstripWithin.exponent_le.trans (by omega)⟩
    · rw [hfixed, ← hstripped, ← hrounded]
      rfl
    · rw [Layout.generalFixed, hfixedArray, ok_bind, hround, ok_bind, hstrip, ok_bind,
        stripped.padFraction_array _ (by omega)]
      rfl
    · rw [Numeral.padFraction, Digits.length_padTrailing]
      omega
  · rw [if_neg hmoderate, if_neg hmoderate]
    obtain ⟨hstrip, hstripWithin⟩ := strip_array hattemptWithin (by omega) g (Nat.zero_le 1)
    refine Or.inl ⟨.finite (if g.strip then attempt.stripFraction 0 else attempt) .scientific, rfl,
      ?_, hstripWithin.mono (by omega)⟩
    rw [Layout.generalScientific, hstrip]
    rfl

/-! ## Every presentation -/

theorem coded_eq_ok {ε : Type} {precision : Option Nat} (h : ∀ p ∈ precision, p ≤ maxCount)
    (alternate : Bool) :
    (coded precision alternate : Checked ε General) = .ok (General.coded precision alternate) ∧
      (General.coded precision alternate).Limited := by
  obtain ⟨hword, hsigned, hcount⟩ := limits
  have hle : max (precision.getD 6) 1 ≤ maxCount := by
    cases precision with
    | none => rw [Option.getD_none]; omega
    | some p => have hp := h p rfl; rw [Option.getD_some]; omega
  have hsettings : (General.coded precision alternate).precision = max (precision.getD 6) 1 := rfl
  refine ⟨?_, by omega, by omega, Nat.zero_le 1⟩
  rw [coded, signed_eq_ok (by omega), ok_bind]
  rfl

theorem uncoded_eq_ok {ε : Type} {precision : Option Nat} (h : ∀ p ∈ precision, p ≤ maxCount)
    (alternate : Bool) :
    (uncoded precision alternate : Checked ε General) = .ok (General.uncoded precision alternate) ∧
      (General.uncoded precision alternate).Limited := by
  obtain ⟨hword, hsigned, hcount⟩ := limits
  cases precision with
  | none =>
    have hthreshold : General.shortestThreshold = 17 := rfl
    have hsettings : (General.uncoded none alternate).precision = General.shortestThreshold := rfl
    refine ⟨?_, by omega, by omega, Nat.le_refl 1⟩
    rw [uncoded]
    dsimp only [General.uncoded]
    rw [signed_eq_ok (by omega), ok_bind, signed_eq_ok (by omega), ok_bind]
    rfl
  | some p =>
    have hp := h p rfl
    have hmax : max p 1 ≤ maxCount := by omega
    refine ⟨?_, Nat.le_max_right _ _, hmax, Nat.le_refl 1⟩
    rw [uncoded]
    dsimp only [General.uncoded]
    rw [signed_eq_ok (by omega), ok_bind, signed_eq_ok (by omega), ok_bind]
    rfl

theorem percent_within (h : n.Within spaceLimit) :
    Numeral.Within { n with exponent := n.exponent + 2 } (spaceLimit + 2) := by
  have hexponent := h.exponent_le
  refine ⟨h.one_le, h.whole_le.trans (Nat.le_add_right _ 2),
    h.fraction_le.trans (Nat.le_add_right _ 2), ?_⟩
  show (n.exponent + 2).natAbs ≤ spaceLimit + 2
  omega

theorem ofFinite_laysOut {q : Quantity} (h : q.Fits) (hfinite : q.nonFinite? = none)
    {element : Element Nat} (hprecision : ∀ p ∈ element.precision, p ≤ maxCount)
    (htype : element.type.PresentsNumbers) (hradix : element.type.radix? = none) :
    LaysOut (Layout.ofFinite q element) (q.finiteFigure element) := by
  obtain ⟨hword, hsigned, hcount⟩ := limits
  have hplaces : element.precision.getD defaultPlaces ≤ maxCount := by
    cases hgiven : element.precision with
    | none => decide
    | some p => exact hprecision p hgiven
  obtain ⟨n, hn, hnArray, hled⟩ := q.decimal_array h hfinite
  have hexponent := hled.within.exponent_le
  unfold Layout.ofFinite Quantity.finiteFigure
  dsimp only
  cases hcode : element.type with
  | byKind =>
    cases q with
    | integer v => exact whole_laysOut h (by decide)
    | float x =>
      obtain ⟨hg, hlimited⟩ := uncoded_eq_ok (ε := Obstacle) hprecision element.alternate
      dsimp only
      rw [hn, hnArray, ok_bind, hg, ok_bind]
      exact general_laysOut hled hlimited
  | fixed letters =>
    dsimp only
    rw [hn, hnArray, ok_bind]
    exact fixedPlaces_laysOut hled.within (by omega) hled.radix_eq hplaces
  | percent =>
    dsimp only
    rw [hn, hnArray, ok_bind, Numeral.array_exponent, signed_eq_ok (by omega), ok_bind]
    exact fixedPlaces_laysOut (percent_within hled.within) (Nat.le_refl _) hled.radix_eq hplaces
  | exponent letters =>
    dsimp only
    rw [hn, hnArray, ok_bind]
    exact scientific_laysOut hled hplaces
  | general letters =>
    obtain ⟨hg, hlimited⟩ := coded_eq_ok (ε := Obstacle) hprecision element.alternate
    dsimp only
    rw [hn, hnArray, ok_bind, hg, ok_bind]
    exact general_laysOut hled hlimited
  | hexFloat letters =>
    obtain ⟨m, hm, hmArray, hmLed, hbase⟩ := q.binary_array h hfinite
    dsimp only
    rw [hm, hmArray, ok_bind]
    exact hexadecimal_laysOut hmLed hbase hprecision
  | text => rw [hcode] at htype; exact htype.elim
  | character => rw [hcode] at htype; exact htype.elim
  | _ => rw [hcode] at hradix; exact absurd hradix (by simp [TypeCode.radix?])

/-- The layout of a number is that of its figure, whatever the presentation asks for; only a
fraction can stand in its way. -/
theorem ofQuantity_laysOut {q : Quantity} (h : q.Fits) {element : Element Nat}
    (hprecision : ∀ p ∈ element.precision, p ≤ maxCount) (htype : element.type.PresentsNumbers) :
    LaysOut (Layout.ofQuantity q element) (q.figure element) := by
  rw [Layout.ofQuantity, Quantity.figure]
  cases hradix : element.type.radix? with
  | some radix => exact whole_laysOut h (TypeCode.one_lt_of_radix? hradix)
  | none =>
    dsimp only
    cases hfinite : q.nonFinite? with
    | some figure =>
      refine Or.inl ⟨figure, rfl, rfl, ?_⟩
      cases q with
      | integer v => exact absurd hfinite (by simp [Quantity.nonFinite?])
      | float x =>
        rw [Quantity.nonFinite?] at hfinite
        split_ifs at hfinite <;> cases hfinite <;> trivial
    | none =>
      dsimp only
      rcases ofFinite_laysOut h hfinite hprecision htype hradix with
        ⟨figure, hfigure, hlayout, hwithin⟩ | ⟨hfigure, hlayout⟩
      · rw [hfigure, hlayout, ok_bind]
        refine Or.inl ⟨if element.positiveZero then figure.dropZeroSign else figure, rfl, ?_, ?_⟩
        · split_ifs
          · cases figure <;> rfl
          · rfl
        · split_ifs
          · cases figure with
            | finite n style => exact ⟨hwithin.one_le, hwithin.whole_le, hwithin.fraction_le,
                hwithin.exponent_le⟩
            | _ => trivial
          · exact hwithin
      · rw [hfigure, hlayout]
        exact Or.inr ⟨rfl, rfl⟩

end Stencil
