import Mathlib
import Stencil.Number.Numeral
import Stencil.Proofs.Number.DigitRuns

/-!
# The number of a numeral

A numeral denotes its *mantissa*, the digits on both sides of the point, times a power. Moving the
point and trimming or adding zeros keep the number.

* `Valid` — digits below the base, and at least one before the point.
* `mantissa`, `magnitude` — the digits as a fraction, and the number without its sign.
* `mantissa_stripFraction`, `mantissa_padFraction`, `mantissa_trimWhole` — changes that keep the
  digits but for zeros.
* `toFixed_eq_ok` — the point can be moved to where the exponent says, and the number stays.
* `Scientific`, `normalize_spec` — the form with one digit before the point, and how it is reached.
-/

namespace Stencil

/-! ## Runs behind the point -/

/-- The number of a run of digits behind the point. -/
def Digits.fractional (base : Nat) (digits : List Nat) : ℚ :=
  Digits.value base digits / (base : ℚ) ^ digits.length

theorem Digits.fractional_append_zeros {base : Nat} (hb : base ≠ 0) (digits : List Nat)
    (count : Nat) : Digits.fractional base (digits ++ List.replicate count 0) =
      Digits.fractional base digits := by
  have hbq : (base : ℚ) ≠ 0 := Nat.cast_ne_zero.2 hb
  rw [fractional, fractional, value_append, value_replicate_zero, List.length_replicate,
    List.length_append, List.length_replicate, Nat.add_zero, pow_add]
  push_cast
  field_simp

namespace Numeral

variable {n : Numeral}

/-- Digits below the base on both sides of the point, and at least one before it. -/
structure Valid (n : Numeral) : Prop where
  one_lt_base : 1 < n.base
  whole_ne_nil : n.whole ≠ []
  whole : Digits.InBase n.base n.whole
  fraction : Digits.InBase n.base n.fraction

/-- All digits as one number, regardless of the point. -/
def coefficient (n : Numeral) : Nat :=
  Digits.value n.base n.digits

/-- The digits as a number, with the point where it is. -/
def mantissa (n : Numeral) : ℚ :=
  n.coefficient / (n.base : ℚ) ^ n.fraction.length

/-- The number without its sign. -/
def magnitude (n : Numeral) : ℚ :=
  n.mantissa * (n.radix : ℚ) ^ n.exponent

theorem Valid.base_ne_zero (h : n.Valid) : n.base ≠ 0 := by
  have := h.one_lt_base
  omega

theorem Valid.base_pos (h : n.Valid) : (0 : ℚ) < n.base :=
  Nat.cast_pos.2 (Nat.pos_of_ne_zero h.base_ne_zero)

theorem Valid.digits (h : n.Valid) : Digits.InBase n.base n.digits :=
  Digits.inBase_append.2 ⟨h.whole, h.fraction⟩

theorem coefficient_eq (n : Numeral) : n.coefficient =
    Digits.value n.base n.whole * n.base ^ n.fraction.length + Digits.value n.base n.fraction :=
  Digits.value_append _ _ _

theorem mantissa_eq (hb : n.base ≠ 0) : n.mantissa =
    Digits.value n.base n.whole + Digits.fractional n.base n.fraction := by
  have hbq : (n.base : ℚ) ≠ 0 := Nat.cast_ne_zero.2 hb
  rw [mantissa, coefficient_eq, Digits.fractional]
  push_cast
  field_simp

theorem mantissa_nonneg (n : Numeral) : 0 ≤ n.mantissa := by
  rw [mantissa]
  positivity

theorem magnitude_nonneg (n : Numeral) : 0 ≤ n.magnitude := by
  rw [magnitude]
  exact mul_nonneg (mantissa_nonneg n) (zpow_nonneg (Nat.cast_nonneg _) _)

theorem isZero_iff (hb : 0 < n.base) : n.isZero = true ↔ n.coefficient = 0 :=
  (Digits.value_eq_zero_iff hb).symm

/-! ## Changes that keep the digits -/

theorem mantissa_stripFraction (hb : n.base ≠ 0) (least : Nat) :
    (n.stripFraction least).mantissa = n.mantissa := by
  obtain ⟨count, hcount⟩ := Digits.trimTrailing_eq (n.fraction.drop least)
  have hsplit : n.fraction = (n.stripFraction least).fraction ++ List.replicate count 0 := by
    rw [stripFraction, List.append_assoc, ← hcount, List.take_append_drop]
  rw [mantissa_eq hb, hsplit, Digits.fractional_append_zeros hb]
  exact mantissa_eq hb

theorem Valid.stripFraction (h : n.Valid) (least : Nat) : (n.stripFraction least).Valid := by
  refine ⟨h.one_lt_base, h.whole_ne_nil, h.whole, ?_⟩
  obtain ⟨count, hcount⟩ := Digits.trimTrailing_eq (n.fraction.drop least)
  have hin := h.fraction
  rw [← List.take_append_drop least n.fraction, hcount, ← List.append_assoc,
    Digits.inBase_append] at hin
  exact hin.1

/-- Stripping keeps the least number of digits, and leaves a zero at the end only if it is one of
them. -/
theorem stripFraction_ends {least : Nat} (h : least ≤ n.fraction.length) :
    least ≤ (n.stripFraction least).fraction.length ∧
      ((n.stripFraction least).fraction.getLast? = some 0 →
        (n.stripFraction least).fraction.length = least) := by
  have htake : (n.fraction.take least).length = least := by
    rw [List.length_take]
    omega
  simp only [stripFraction, List.length_append, htake]
  refine ⟨Nat.le_add_right _ _, ?_⟩
  intro hlast
  cases hrest : Digits.trimTrailing (n.fraction.drop least) with
  | nil => simp
  | cons d rest =>
    rw [hrest, List.getLast?_append_of_ne_nil _ (by simp), ← hrest] at hlast
    exact absurd hlast (Digits.getLast_trimTrailing_ne_zero _)

theorem padFraction_of_le {least : Nat} (h : least ≤ n.fraction.length) :
    n.padFraction least = n := by
  have hz : least - n.fraction.length = 0 := by omega
  rw [padFraction, Digits.padTrailing, hz, List.replicate_zero, List.append_nil]

theorem mantissa_padFraction (hb : n.base ≠ 0) (least : Nat) :
    (n.padFraction least).mantissa = n.mantissa := by
  have hpad : (n.padFraction least).mantissa = Digits.value n.base n.whole +
      Digits.fractional n.base (n.fraction ++ List.replicate (least - n.fraction.length) 0) :=
    mantissa_eq hb
  rw [hpad, Digits.fractional_append_zeros hb, mantissa_eq hb]

theorem value_whole_trimWhole (n : Numeral) :
    Digits.value n.base n.trimWhole.whole = Digits.value n.base n.whole := by
  rw [← Digits.value_trimLeading n.base n.whole, trimWhole]
  split
  · rename_i h
    rw [h]
    rfl
  · rfl

theorem trimWhole_eq (n : Numeral) : n.trimWhole = { n with whole := n.trimWhole.whole } := by
  rw [trimWhole]
  split <;> rfl

theorem mantissa_trimWhole (hb : n.base ≠ 0) : n.trimWhole.mantissa = n.mantissa := by
  have h : n.trimWhole.mantissa =
      Digits.value n.base n.trimWhole.whole + Digits.fractional n.base n.fraction := by
    rw [trimWhole_eq]
    exact mantissa_eq hb
  rw [h, value_whole_trimWhole, mantissa_eq hb]

/-- The whole part of a written number: a single zero, or no zero at the front. -/
def Trimmed (whole : List Nat) : Prop :=
  whole = [0] ∨ (whole ≠ [] ∧ whole.head? ≠ some 0)

theorem trimmed_trimWhole (n : Numeral) : Trimmed n.trimWhole.whole := by
  rw [trimWhole]
  split
  · exact Or.inl rfl
  · rename_i hne
    exact Or.inr ⟨hne, Digits.head_trimLeading_ne_zero n.whole⟩

theorem Valid.trimWhole (h : n.Valid) : n.trimWhole.Valid := by
  have hin : Digits.InBase n.base n.trimWhole.whole := by
    rw [Numeral.trimWhole]
    split
    · simp
      exact Nat.pos_of_ne_zero h.base_ne_zero
    · exact h.whole.sublist (List.dropWhile_sublist _)
  have hne : n.trimWhole.whole ≠ [] := by
    rcases trimmed_trimWhole n with h0 | h0
    · simp [h0]
    · exact h0.1
  rw [trimWhole_eq]
  exact ⟨h.one_lt_base, hne, hin, h.fraction⟩

/-! ## Moving the point -/

/-- With one radix, a number is its digits times the power that the last digit counts. -/
theorem magnitude_eq (hb : n.base ≠ 0) (hr : n.radix = n.base) :
    n.magnitude = n.coefficient * (n.base : ℚ) ^ (n.exponent - n.fraction.length) := by
  have hbq : (n.base : ℚ) ≠ 0 := Nat.cast_ne_zero.2 hb
  rw [magnitude, mantissa, hr, zpow_sub₀ hbq, zpow_natCast]
  ring

theorem magnitude_of_exponent_zero (h : n.exponent = 0) : n.magnitude = n.mantissa := by
  rw [magnitude, h, zpow_zero, mul_one]

/-- Two numerals whose digits are the same number up to zeros at the end denote the same, if the
exponent makes up for the zeros. -/
theorem magnitude_congr {m : Numeral} (hb : n.base ≠ 0) (hr : n.radix = n.base)
    (hmb : m.base = n.base) (hmr : m.radix = n.base) (count : Nat)
    (hc : m.coefficient = n.coefficient * n.base ^ count)
    (he : m.exponent - m.fraction.length + count = n.exponent - n.fraction.length) :
    m.magnitude = n.magnitude := by
  have hbq : (n.base : ℚ) ≠ 0 := Nat.cast_ne_zero.2 hb
  rw [magnitude_eq (by rw [hmb]; exact hb) (by rw [hmr, hmb]), magnitude_eq hb hr, hc, hmb, ← he,
    zpow_add₀ hbq, zpow_natCast]
  push_cast
  ring

/-- The digits with the point moved to where the exponent says; zeros are added where digits
end. -/
theorem toFixed_eq_ok (h : n.Valid) (hr : n.radix = n.base) :
    ∃ m, n.toFixed = .ok m ∧ m.Valid ∧ m.mantissa = n.magnitude ∧ m.exponent = 0 ∧
      m.base = n.base ∧ m.radix = n.radix ∧ m.negative = n.negative := by
  have hb := h.base_ne_zero
  rw [toFixed, if_neg (by simpa using hr)]
  simp only
  split_ifs with hpoint
  · refine ⟨_, rfl, ?_, ?_, rfl, rfl, rfl, rfl⟩
    · refine ⟨h.one_lt_base, by simp, by simp; omega, ?_⟩
      exact Digits.inBase_append.2
        ⟨Digits.inBase_replicate_zero (Nat.pos_of_ne_zero hb) _, h.digits⟩
    · rw [← magnitude_of_exponent_zero rfl]
      refine magnitude_congr hb hr rfl hr 0 ?_ ?_
      · simp only [coefficient, digits, Digits.value_append, Digits.value_replicate_zero,
          Digits.value_singleton]
        ring
      · simp only [List.length_append, List.length_replicate, digits]
        omega
  · refine ⟨_, rfl, ?_, ?_, rfl, rfl, rfl, rfl⟩
    · have hin := Digits.inBase_padTrailing (Nat.pos_of_ne_zero hb)
        (n.whole.length + n.exponent).toNat h.digits
      refine ⟨h.one_lt_base, ?_, hin.sublist (List.take_sublist _ _),
        hin.sublist (List.drop_sublist _ _)⟩
      rw [ne_eq, List.take_eq_nil_iff, not_or, ← List.length_eq_zero_iff,
        Digits.length_padTrailing]
      omega
    · rw [← magnitude_of_exponent_zero rfl]
      refine magnitude_congr hb hr rfl hr
        ((n.whole.length + n.exponent).toNat - n.digits.length) ?_ ?_
      · simp only [coefficient, digits, List.take_append_drop, Digits.value_padTrailing]
      · simp only [List.length_drop, Digits.length_padTrailing, digits, List.length_append]
        omega

/-! ## Scientific form -/

/-- One digit before the point, not zero unless the number is, and in one radix. -/
structure Scientific (n : Numeral) : Prop where
  valid : n.Valid
  radix_eq : n.radix = n.base
  length_whole : n.whole.length = 1
  exponent_of_zero : n.coefficient = 0 → n.exponent = 0
  whole_of_ne_zero : n.coefficient ≠ 0 → n.whole ≠ [0]

theorem scientific_zero {base : Nat} (hb : 1 < base) (negative : Bool) :
    (zero negative base).Scientific where
  valid := ⟨hb, by simp [zero], by simp [zero]; omega, by simp [zero]⟩
  radix_eq := rfl
  length_whole := rfl
  exponent_of_zero := fun _ => rfl
  whole_of_ne_zero := fun h => absurd (by simp [coefficient, digits, zero, Digits.value]) h

/-- The normal form of a number has one digit before the point and no zeros at the end. -/
theorem normalize_spec (h : n.Valid) (hr : n.radix = n.base) :
    n.normalize.Scientific ∧ n.normalize.magnitude = n.magnitude ∧
      n.normalize.fraction.getLast? ≠ some 0 ∧ n.normalize.base = n.base ∧
      n.normalize.negative = n.negative := by
  have hb := h.base_ne_zero
  obtain ⟨zeros, hzeros⟩ := Digits.trimLeading_eq n.digits
  have hvalue := Digits.value_trimLeading n.base n.digits
  have hhead := Digits.head_trimLeading_ne_zero n.digits
  rw [normalize]
  split
  · rename_i hnil
    rw [hnil, Digits.value_nil] at hvalue
    have hz : n.magnitude = 0 := by
      rw [magnitude, mantissa, coefficient, ← hvalue]
      simp
    refine ⟨scientific_zero h.one_lt_base _, ?_, by simp [zero], rfl, rfl⟩
    rw [hz, magnitude, mantissa, coefficient]
    simp [digits, zero, Digits.value]
  · rename_i lead rest hcons
    rw [hcons] at hvalue hhead hzeros
    obtain ⟨count, hcount⟩ := Digits.trimTrailing_eq rest
    have hlead : lead ≠ 0 := by simpa using hhead
    have hin : Digits.InBase n.base (lead :: rest) := by
      have hd := h.digits
      rw [hzeros, Digits.inBase_append] at hd
      exact hd.2
    have hsub : (Digits.trimTrailing rest).Sublist rest := by
      conv_rhs => rw [hcount]
      exact List.sublist_append_left _ _
    obtain ⟨hl, hrest⟩ := Digits.inBase_cons.1 hin
    have hlen : n.digits.length = zeros + (rest.length + 1) := by
      rw [hzeros]
      simp
    have hrlen : rest.length = (Digits.trimTrailing rest).length + count := by
      conv_lhs => rw [hcount]
      simp
    have hwf : n.digits.length = n.whole.length + n.fraction.length := by simp [digits]
    refine ⟨⟨⟨h.one_lt_base, by simp, by simpa using hl, hrest.sublist hsub⟩, hr, rfl, ?_, ?_⟩, ?_,
      Digits.getLast_trimTrailing_ne_zero rest, rfl, rfl⟩
    · intro hzero
      simp only [coefficient, digits, List.cons_append, List.nil_append,
        Digits.value_eq_zero_iff (Nat.pos_of_ne_zero hb), Digits.allZero, List.all_cons,
        Bool.and_eq_true, beq_iff_eq] at hzero
      exact absurd hzero.1 hlead
    · intro _ hwhole
      exact hlead (List.cons.inj hwhole).1
    · symm
      refine magnitude_congr hb hr rfl hr count ?_ ?_
      · have hpad : Digits.value n.base (lead :: rest) =
            Digits.value n.base (lead :: Digits.trimTrailing rest) * n.base ^ count := by
          conv_lhs => rw [hcount, ← List.cons_append, Digits.value_append,
            Digits.value_replicate_zero, List.length_replicate, Nat.add_zero]
        rw [coefficient, ← hvalue, hpad]
        rfl
      · simp only
        omega

end Numeral

end Stencil
