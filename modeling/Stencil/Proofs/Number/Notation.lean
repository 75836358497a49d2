import Stencil.Number.Style
import Stencil.Proofs.Number.Exponential
import Stencil.Proofs.Number.Rounding

/-!
# Fixed and scientific notation

What the digits of a figure are, for each way of laying out a number.

* `Quantity.magnitude`, `Quantity.negative` — the number that is to be written.
* `Quantity.exists_digits` — it has digits in every base.
* `Quantity.decimal_eq_ok` — its decimal digits are that number in scientific form.
* `Figure.fixedPlaces_eq_ok` — fixed places round the number half up.
* `Figure.scientific_eq_ok` — so do the digits in front of an exponent.
* `Figure.general_fixed`, `Figure.general_scientific` — general notation writes the number that is
  rounded to the precision, whichever style it is in.
-/

namespace Stencil

/-! ## The number of a quantity -/

namespace Quantity

/-- A quantity that has digits. -/
def Finite : Quantity → Prop
  | integer _ => True
  | float x => x.isFinite = true

theorem Finite.nonFinite? {q : Quantity} (h : q.Finite) : q.nonFinite? = none := by
  cases q with
  | integer v => rfl
  | float x => exact if_pos h

/-- Whether a quantity has a minus sign, as a zero among the doubles may have. -/
def negative : Quantity → Bool
  | integer v => decide (v < 0)
  | float x => x.negative

/-- A quantity without its sign; a double stands for its shortest decimal. -/
def magnitude : Quantity → ℚ
  | integer v => v.natAbs
  | float x => x.shortest.1 * (10 : ℚ) ^ x.shortest.2

theorem magnitude_nonneg (q : Quantity) : 0 ≤ q.magnitude := by
  cases q with
  | integer v => exact Nat.cast_nonneg _
  | float x => exact mul_nonneg (Nat.cast_nonneg _) (zpow_nonneg (by norm_num) _)

end Quantity

/-- The codes of fractional numbers have no radix, and neither has the form without a code. -/
theorem TypeCode.radix?_eq_none {type : TypeCode} (h : type = .byKind ∨ type.isFloat = true) :
    type.radix? = none := by
  rcases h with rfl | h
  · rfl
  · cases type <;> first | rfl | cases h

theorem Numeral.ofScaled_spec {base : Nat} (hb : 1 < base) (negative : Bool) (m : Nat)
    (exponent : Int) :
    (Numeral.ofScaled negative base m exponent).Scientific ∧
      (Numeral.ofScaled negative base m exponent).magnitude = m * (base : ℚ) ^ exponent ∧
      (Numeral.ofScaled negative base m exponent).base = base ∧
      (Numeral.ofScaled negative base m exponent).negative = negative := by
  have hvalid : Numeral.Valid
      { negative, whole := Digits.ofNat base m, fraction := [], exponent, base, radix := base } :=
    ⟨hb, Digits.ofNat_ne_nil hb m, Digits.inBase_ofNat hb m, Digits.inBase_nil⟩
  obtain ⟨hsci, hmag, -, hbase, hneg⟩ := Numeral.normalize_spec hvalid rfl
  refine ⟨hsci, hmag.trans ?_, hbase, hneg⟩
  rw [Numeral.magnitude_eq hvalid.base_ne_zero rfl, Numeral.coefficient_eq]
  simp [Digits.value_ofNat]

theorem Quantity.decimal_float (x : Binary64) : (float x).decimal = Numeral.ofFloat x := rfl

theorem Quantity.binary_float (x : Binary64) : (float x).binary = Numeral.ofFloatBinary x := rfl

/-- A quantity that has digits has them in every base: no double is out of range for them. -/
theorem Quantity.exists_digits {q : Quantity} (hq : q.Finite) (base : Nat) :
    ∃ n, q.digits base = .ok n := by
  cases q with
  | integer v => exact ⟨_, rfl⟩
  | float x =>
    obtain ⟨v, hv⟩ : ∃ v, x.truncated? = some v := ⟨_, if_pos hq⟩
    have hbinary : ∃ n, Numeral.ofFloatBinary x = .ok n := ⟨_, if_pos hq⟩
    rw [digits, Numeral.ofFloat_eq_ok hq, hv]
    split_ifs
    · exact ⟨_, rfl⟩
    · exact hbinary
    · exact ⟨_, rfl⟩

/-- The decimal digits of a quantity are its number in scientific form. -/
theorem Quantity.decimal_eq_ok {q : Quantity} (hq : q.Finite) :
    ∃ n, q.decimal = .ok n ∧ n.Scientific ∧ n.magnitude = q.magnitude ∧ n.base = 10 ∧
      n.negative = q.negative := by
  cases q with
  | integer v =>
    obtain ⟨hsci, hmag, hbase, hneg⟩ :=
      Numeral.ofScaled_spec (show 1 < 10 by omega) (decide (v < 0)) v.natAbs 0
    refine ⟨_, rfl, hsci, hmag.trans ?_, hbase, hneg⟩
    rw [zpow_zero, mul_one, Quantity.magnitude]
  | float x =>
    obtain ⟨hsci, hmag, hbase, hneg⟩ :=
      Numeral.ofScaled_spec (show 1 < 10 by omega) x.negative x.shortest.1 x.shortest.2
    exact ⟨_, Numeral.ofFloat_eq_ok hq, hsci, hmag, hbase, hneg⟩

/-! ## Whole parts without zeros in front -/

namespace Numeral

variable {n : Numeral}

/-- A whole part has no zeros in front if it is one digit, or counts a power for each digit but the
last. -/
theorem trimmed_of_pow_le {base : Nat} (hb : 1 < base) {whole : List Nat} (hne : whole ≠ [])
    (hin : Digits.InBase base whole) (h : base ^ (whole.length - 1) ≤ Digits.value base whole) :
    Trimmed whole := by
  cases whole with
  | nil => exact absurd rfl hne
  | cons d rest =>
    refine Or.inr ⟨hne, ?_⟩
    intro hd
    obtain rfl : d = 0 := Option.some.inj hd
    have hlt := Digits.value_lt_pow hb (Digits.inBase_cons.1 hin).2
    rw [Digits.value_cons, Nat.zero_mul, Nat.zero_add, List.length_cons, Nat.add_sub_cancel] at h
    omega

theorem trimmed_of_length_one {whole : List Nat} (h : whole.length = 1) : Trimmed whole := by
  obtain ⟨d, rfl⟩ := List.length_eq_one_iff.1 h
  by_cases hd : d = 0
  · exact Or.inl (by rw [hd])
  · exact Or.inr ⟨by simp, by simpa using hd⟩

/-- Rounding never takes from the whole part. -/
theorem value_whole_le_roundPlaces (h : n.Valid) (heven : 2 ∣ n.base) (places : Nat) :
    Digits.value n.base n.whole ≤ Digits.value n.base (n.roundPlaces places).whole := by
  have hb := h.one_lt_base
  have hbase : (n.roundPlaces places).base = n.base := by rw [roundPlaces_eq]
  obtain ⟨hvalid, hcoef, hflen, -⟩ := roundPlaces_spec h heven places
  have hlow : ((Digits.value n.base n.whole * n.base ^ places : Nat) : ℚ) ≤
      n.mantissa * (n.base : ℚ) ^ places := by
    rw [mantissa_eq h.base_ne_zero, Nat.cast_mul, Nat.cast_pow, add_mul]
    refine le_add_of_nonneg_right ?_
    rw [Digits.fractional]
    positivity
  have hround := halfUp_mono hlow
  rw [halfUp_natCast, ← hcoef, coefficient_eq, hbase, hflen] at hround
  have hfraction := Digits.value_lt_pow hvalid.one_lt_base hvalid.fraction
  rw [hbase, hflen] at hfraction
  by_contra hlt
  have hmul := Nat.mul_le_mul_right (n.base ^ places) (Nat.succ_le_of_lt (not_le.1 hlt))
  rw [Nat.succ_mul] at hmul
  omega

/-- Rounding puts no zeros in front of the whole part. -/
theorem trimmed_roundPlaces (h : n.Valid) (heven : 2 ∣ n.base) (ht : Trimmed n.whole)
    (places : Nat) : Trimmed (n.roundPlaces places).whole := by
  have hb := h.one_lt_base
  have hbase : (n.roundPlaces places).base = n.base := by rw [roundPlaces_eq]
  obtain ⟨hvalid, -, -, hwhole⟩ := roundPlaces_spec h heven places
  rcases hwhole with hlen | ⟨hcarry, -⟩
  · rcases ht with hzero | ⟨hne, hhead⟩
    · refine trimmed_of_length_one ?_
      rw [hlen, hzero, List.length_singleton]
    · have hin := hvalid.whole
      rw [hbase] at hin
      refine trimmed_of_pow_le hb hvalid.whole_ne_nil hin ?_
      rw [hlen]
      exact (Digits.pow_le_value _ hne hhead).trans (value_whole_le_roundPlaces h heven places)
  · rw [hcarry]
    exact Or.inr ⟨by simp, by simp⟩

/-- Moving the point of a numeral in scientific form puts no zeros in front of the whole part. -/
theorem trimmed_toFixed (h : n.Scientific) {m : Numeral} (hm : n.toFixed = .ok m) :
    Trimmed m.whole := by
  rw [toFixed, if_neg (by simpa using h.radix_eq)] at hm
  dsimp only at hm
  split_ifs at hm with hpoint
  · obtain rfl := Except.ok.inj hm
    exact Or.inl rfl
  · obtain rfl := Except.ok.inj hm
    obtain ⟨d, hd⟩ := List.length_eq_one_iff.1 h.length_whole
    obtain ⟨k, hk⟩ : ∃ k, (n.whole.length + n.exponent).toNat = k + 1 :=
      ⟨(n.whole.length + n.exponent).toNat - 1, by omega⟩
    obtain ⟨tail, htail⟩ : ∃ tail, Digits.padTrailing (k + 1) n.digits = d :: tail :=
      ⟨_, by rw [Digits.padTrailing, digits, hd, List.cons_append, List.cons_append]⟩
    simp only [hk, htail, List.take_succ_cons]
    by_cases hz : n.coefficient = 0
    · rw [h.length_whole, h.exponent_of_zero hz] at hk
      obtain rfl : k = 0 := by omega
      exact trimmed_of_length_one rfl
    · refine Or.inr ⟨by simp, ?_⟩
      intro hzero
      exact h.whole_of_ne_zero hz (by rw [hd, Option.some.inj hzero])

/-- How many digits a number has from its first one that is not zero, by its size and by where the
last digit stands. -/
theorem length_significant (h : n.Valid) (hr : n.radix = n.base) (hne : n.coefficient ≠ 0) :
    ((Digits.trimLeading n.digits).length : Int) =
      Int.log n.base n.magnitude - n.exponent + n.fraction.length + 1 := by
  have hb := h.one_lt_base
  have hlow := Nat.pow_log_le_self n.base hne
  have hhigh := Nat.lt_pow_succ_log_self hb n.coefficient
  rw [magnitude_eq h.base_ne_zero hr, log_mul_zpow hb hlow hhigh,
    Digits.length_trimLeading hb h.digits hlow hhigh]
  push_cast
  ring

/-- A decimal numeral as it is written, for a number and a sign. -/
structure IsDecimalOf (m : Numeral) (negative : Bool) (x : ℚ) : Prop where
  valid : m.Valid
  trimmed : Trimmed m.whole
  base : m.base = 10
  radix : m.radix = 10
  negative : m.negative = negative
  magnitude : m.magnitude = x

/-- Rounding a decimal to significant digits leaves one digit before the point, and the logarithm of
the rounded number as its exponent. -/
theorem exists_roundSignificant (h : n.Scientific) (hb : n.base = 10) {count : Nat}
    (hc : 1 ≤ count) :
    ∃ m, n.roundSignificant count = .ok m ∧ m.Scientific ∧
      m.IsDecimalOf n.negative (significantly 10 count n.magnitude) ∧
      m.exponent = Int.log 10 (significantly 10 count n.magnitude) ∧
      m.fraction.length = count - 1 := by
  have heven : 2 ∣ n.base := by rw [hb]; decide
  obtain ⟨m, hm, hsci, hmag, hlen, hbase, hneg⟩ := roundSignificant_spec h heven hc
  rw [hb] at hmag hbase
  have hexp := log_magnitude hsci
  rw [hmag, hbase] at hexp
  have hradix : m.radix = 10 := by rw [hsci.radix_eq, hbase]
  have htrim := trimmed_of_length_one hsci.length_whole
  exact ⟨m, hm, hsci, ⟨hsci.valid, htrim, hbase, hradix, hneg, hmag⟩, hexp.symm, hlen⟩

end Numeral

/-! ## Fixed places -/

namespace Figure

variable {n : Numeral}

/-- Moving the point and rounding gives the number rounded half up at the last place. -/
theorem roundPlaces_toFixed (h : n.Valid) (hb : n.base = 10) (hr : n.radix = 10) (places : Nat) :
    ∃ fixed, n.toFixed = .ok fixed ∧ (fixed.roundPlaces places).Valid ∧
      (fixed.roundPlaces places).base = 10 ∧ (fixed.roundPlaces places).radix = 10 ∧
      (fixed.roundPlaces places).negative = n.negative ∧
      (fixed.roundPlaces places).exponent = 0 ∧
      (fixed.roundPlaces places).fraction.length = places ∧
      (fixed.roundPlaces places).mantissa = halfUp (n.magnitude * 10 ^ places) / 10 ^ places ∧
      (Numeral.Trimmed fixed.whole → Numeral.Trimmed (fixed.roundPlaces places).whole) := by
  obtain ⟨fixed, hfixed, hvalid, hmant, hexp, hbase, hradix, hneg⟩ :=
    Numeral.toFixed_eq_ok h (by rw [hr, hb])
  rw [hb] at hbase
  rw [hr] at hradix
  have heven : 2 ∣ fixed.base := by rw [hbase]; decide
  obtain ⟨hround, hcoef, hlen, -⟩ := Numeral.roundPlaces_spec hvalid heven places
  rw [hmant, hbase] at hcoef
  have hframe := Numeral.roundPlaces_eq fixed places
  have hroundBase : (fixed.roundPlaces places).base = 10 := by rw [hframe]; exact hbase
  refine ⟨fixed, hfixed, hround, hroundBase, ?_, ?_, ?_, hlen, ?_,
    fun ht => Numeral.trimmed_roundPlaces hvalid heven ht places⟩
  · rw [hframe]
    exact hradix
  · rw [hframe]
    exact hneg
  · rw [hframe]
    exact hexp
  · rw [Numeral.mantissa, hcoef, hlen, hroundBase]
    norm_num

/-- Fixed places write the number rounded half up at the last of them. -/
theorem fixedPlaces_eq_ok (h : n.Valid) (hb : n.base = 10) (hr : n.radix = 10) (places : Nat) :
    ∃ m, fixedPlaces n places = .ok (.finite m .fixed) ∧
      m.IsDecimalOf n.negative (halfUp (n.magnitude * 10 ^ places) / 10 ^ places) ∧
      m.exponent = 0 ∧ m.fraction.length = places := by
  obtain ⟨fixed, hfixed, hvalid, hbase, hradix, hneg, hexp, hlen, hmant, -⟩ :=
    roundPlaces_toFixed h hb hr places
  rw [fixedPlaces, hfixed]
  simp only [bind, Except.bind, pure, Except.pure]
  have htrim := Numeral.trimWhole_eq (fixed.roundPlaces places)
  have hzero : (fixed.roundPlaces places).trimWhole.exponent = 0 := by
    rw [htrim]
    exact hexp
  refine ⟨_, rfl, ⟨hvalid.trimWhole, Numeral.trimmed_trimWhole _, ?_, ?_, ?_, ?_⟩, hzero, ?_⟩
  · rw [htrim]
    exact hbase
  · rw [htrim]
    exact hradix
  · rw [htrim]
    exact hneg
  · rw [Numeral.magnitude_of_exponent_zero hzero,
      Numeral.mantissa_trimWhole hvalid.base_ne_zero, hmant]
  · rw [htrim]
    exact hlen

/-- Two more in the exponent make a percentage. -/
theorem magnitude_percent (hr : n.radix = 10) :
    Numeral.magnitude { n with exponent := n.exponent + 2 } = 100 * n.magnitude := by
  show n.mantissa * (n.radix : ℚ) ^ (n.exponent + 2) =
    100 * (n.mantissa * (n.radix : ℚ) ^ n.exponent)
  rw [hr, Nat.cast_ofNat, zpow_add₀ (by norm_num)]
  norm_num
  ring

end Figure

/-! ## Scientific notation -/

/-- Scientific notation writes the number rounded half up to one digit more than there are
places. -/
theorem Figure.scientific_eq_ok {n : Numeral} (h : n.Scientific) (hb : n.base = 10) (places : Nat) :
    ∃ m, scientific n places = .ok (.finite m .scientific) ∧ m.Scientific ∧
      m.IsDecimalOf n.negative (significantly 10 (places + 1) n.magnitude) ∧
      m.exponent = Int.log 10 (significantly 10 (places + 1) n.magnitude) ∧
      m.fraction.length = places := by
  obtain ⟨m, hm, hsci, hdecimal, hexp, hlen⟩ :=
    Numeral.exists_roundSignificant h hb (Nat.le_add_left 1 places)
  refine ⟨m, ?_, hsci, hdecimal, hexp, hlen⟩
  rw [scientific, hm]
  rfl

/-! ## General notation -/

namespace General

/-- Settings that round, and turn to scientific notation before fixed places run out. -/
structure Rounds (g : General) : Prop where
  round : g.round = true
  one_le_precision : 1 ≤ g.precision
  switch_le : g.switch + g.leastFraction ≤ g.precision

theorem rounds_coded (precision : Option Nat) (alternate : Bool) :
    (coded precision alternate).Rounds where
  round := rfl
  one_le_precision := Nat.le_max_right _ _
  switch_le := by simp [coded]

theorem rounds_uncoded (precision : Nat) (alternate : Bool) :
    (uncoded (some precision) alternate).Rounds where
  round := rfl
  one_le_precision := Nat.le_max_right _ _
  switch_le := by simp [uncoded]

/-- The digits behind the point that settings leave: at least so many, and then as many as fill up
the precision, or no zeros at the end. -/
structure Ends (g : General) (least : Nat) (m : Numeral) : Prop where
  least_le : least ≤ m.fraction.length
  significant : g.strip = false → m.coefficient ≠ 0 →
    (Digits.trimLeading m.digits).length = g.precision
  stripped : g.strip = true → m.fraction.getLast? = some 0 → m.fraction.length = least

variable {g : General} {m : Numeral} {least : Nat}

theorem ends_stripFraction (hs : g.strip = true) (hle : least ≤ m.fraction.length) :
    g.Ends least (m.stripFraction least) := by
  obtain ⟨hleast, hlast⟩ := Numeral.stripFraction_ends hle
  refine ⟨hleast, ?_, fun _ => hlast⟩
  intro hno
  rw [hs] at hno
  simp at hno

/-- Digits up to the last place of the precision fill it up. -/
theorem ends_of_length (hs : g.strip ≠ true) {negative : Bool} {x : ℚ}
    (h : m.IsDecimalOf negative x) (hle : least ≤ m.fraction.length)
    (hlen : (m.fraction.length : Int) = g.precision - 1 - Int.log 10 x + m.exponent) :
    g.Ends least m := by
  refine ⟨hle, ?_, fun hyes => absurd hyes hs⟩
  intro _ hne
  have hcount := Numeral.length_significant h.valid (by rw [h.radix, h.base]) hne
  rw [h.base, h.magnitude] at hcount
  omega

end General

namespace Figure

variable {n : Numeral} {g : General}

/-- The number that general notation writes. -/
def rounded (n : Numeral) (g : General) : ℚ :=
  significantly 10 g.precision n.magnitude

/-- Stripping keeps the number that is written. -/
theorem isDecimalOf_strip {m : Numeral} {negative : Bool} {x : ℚ} (h : m.IsDecimalOf negative x)
    (least : Nat) : (m.stripFraction least).IsDecimalOf negative x := by
  refine ⟨h.valid.stripFraction least, h.trimmed, h.base, h.radix, h.negative, ?_⟩
  rw [Numeral.magnitude, Numeral.mantissa_stripFraction h.valid.base_ne_zero]
  exact h.magnitude

/-- The attempt at scientific form, by which the style is chosen. -/
theorem exists_attempt (h : n.Scientific) (hb : n.base = 10) (hg : g.Rounds) :
    ∃ attempt, n.roundSignificant g.precision = .ok attempt ∧
      attempt.IsDecimalOf n.negative (rounded n g) ∧
      attempt.exponent = Int.log 10 (rounded n g) ∧ attempt.whole.length = 1 ∧
      attempt.fraction.length = g.precision - 1 := by
  obtain ⟨attempt, hattempt, hsci, hdecimal, hexp, hlen⟩ :=
    Numeral.exists_roundSignificant h hb hg.one_le_precision
  exact ⟨attempt, hattempt, hdecimal, hexp, hsci.length_whole, hlen⟩

/-- The original digits, rounded at the last place that the attempt has kept, are the number of the
attempt. -/
theorem halfUp_eq_rounded (hg : g.Rounds) {places : Nat}
    (hplaces : (places : Int) = g.precision - 1 - Int.log 10 (rounded n g)) :
    halfUp (n.magnitude * 10 ^ places) / 10 ^ places = rounded n g := by
  have hagain := roundTo_significantly (show 1 < 10 by decide) hg.one_le_precision
    (Numeral.magnitude_nonneg n)
  have hunit : Int.log 10 (significantly 10 g.precision n.magnitude) + 1 - g.precision =
      -(places : Int) := by
    rw [← rounded]
    omega
  rw [hunit, roundTo_places] at hagain
  exact_mod_cast hagain

/-- A rounded number of moderate size is written with fixed places: the same number, though the
digits are rounded afresh. -/
theorem general_fixed (h : n.Scientific) (hb : n.base = 10) (hg : g.Rounds)
    (hlow : -4 ≤ Int.log 10 (rounded n g)) (hhigh : Int.log 10 (rounded n g) < g.switch) :
    ∃ m, general n g = .ok (.finite m .fixed) ∧ m.IsDecimalOf n.negative (rounded n g) ∧
      m.exponent = 0 ∧ g.Ends g.leastFraction m := by
  have hr : n.radix = 10 := by rw [h.radix_eq, hb]
  obtain ⟨attempt, hattempt, -, hattemptExp, -, -⟩ := exists_attempt h hb hg
  have hswitch := hg.switch_le
  obtain ⟨places, hplaces⟩ :
      ∃ places : Nat, (places : Int) = g.precision - 1 - Int.log 10 (rounded n g) :=
    ⟨(g.precision - 1 - Int.log 10 (rounded n g)).toNat, by omega⟩
  obtain ⟨fixed, hfixed, hvalid, hfixedBase, hradix, hneg, hexp, hlen, hmant, htrim⟩ :=
    roundPlaces_toFixed h.valid hb hr places
  have hdecimal : (fixed.roundPlaces places).IsDecimalOf n.negative (rounded n g) := by
    refine ⟨hvalid, htrim (Numeral.trimmed_toFixed h hfixed), hfixedBase, hradix, hneg, ?_⟩
    rw [Numeral.magnitude_of_exponent_zero hexp, hmant, halfUp_eq_rounded hg hplaces]
  have hleast : g.leastFraction ≤ (fixed.roundPlaces places).fraction.length := by omega
  have htoNat : ((g.precision : Int) - 1 - attempt.exponent).toNat = places := by omega
  rw [general, if_pos hg.round, hattempt]
  simp only [bind, Except.bind, pure, Except.pure]
  rw [if_pos (by omega), hfixed]
  simp only [hg.round, if_true, htoNat]
  by_cases hs : g.strip = true
  · have hends := General.ends_stripFraction hs hleast
    rw [if_pos hs, Numeral.padFraction_of_le hends.least_le]
    exact ⟨_, rfl, isDecimalOf_strip hdecimal _, hexp, hends⟩
  · rw [if_neg hs, Numeral.padFraction_of_le hleast]
    exact ⟨_, rfl, hdecimal, hexp, General.ends_of_length hs hdecimal hleast (by omega)⟩

/-- Any other rounded number is written with an exponent. -/
theorem general_scientific (h : n.Scientific) (hb : n.base = 10) (hg : g.Rounds)
    (hno : ¬ (-4 ≤ Int.log 10 (rounded n g) ∧ Int.log 10 (rounded n g) < g.switch)) :
    ∃ m, general n g = .ok (.finite m .scientific) ∧ m.IsDecimalOf n.negative (rounded n g) ∧
      m.exponent = Int.log 10 (rounded n g) ∧ m.whole.length = 1 ∧ g.Ends 0 m := by
  obtain ⟨attempt, hattempt, hdecimal, hexp, hone, hlen⟩ := exists_attempt h hb hg
  have hpos := hg.one_le_precision
  rw [general, if_pos hg.round, hattempt]
  simp only [bind, Except.bind, pure, Except.pure]
  rw [hexp, if_neg hno]
  by_cases hs : g.strip = true
  · rw [if_pos hs]
    exact ⟨_, rfl, isDecimalOf_strip hdecimal _, hexp, hone,
      General.ends_stripFraction hs (Nat.zero_le _)⟩
  · rw [if_neg hs]
    exact ⟨_, rfl, hdecimal, hexp, hone,
      General.ends_of_length hs hdecimal (Nat.zero_le _) (by omega)⟩

end Figure

end Stencil
