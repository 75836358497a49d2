import Stencil.Proofs.Number.Binary64
import Stencil.Proofs.Number.Notation

/-!
# Whole numbers in a radix

The integer codes put a number into scientific form, where the zeros at its end become part of the
exponent, and take it back. What comes out is the digits of the number and nothing else.

* `Digits.eq_ofNat` — a run without needless zeros is the digits of its number.
* `Numeral.integer`, `toInteger_ofInt` — the numeral of a whole number, and the way to it.
* `Binary64.isWhole_iff`, `truncated?_eq_some` — which doubles are whole, and that nothing of them is
  cut off.
* `Quantity.Equals` — the whole number that an integer or a double is.
* `toInt_float_cases` — a whole double is never out of range.
* `toInt_eq_ok_iff`, `toInt_eq_error` — it is what the integer codes take, and they take nothing
  else.
* `Figure.whole_of_equals`, `Figure.whole_of_not_equals` — the figure of the integer codes.
-/

namespace Stencil

/-! ## Digits of a whole number -/

/-- A run without needless zeros is the digits of its number. -/
theorem Digits.eq_ofNat {base : Nat} (hb : 1 < base) {digits : List Nat}
    (hin : Digits.InBase base digits) (ht : Numeral.Trimmed digits) :
    digits = Digits.ofNat base (Digits.value base digits) := by
  rcases ht with rfl | ⟨hne, hhead⟩
  · rw [Digits.value_singleton, Digits.ofNat_eq_digits hb, if_pos rfl]
  · have hpos : Digits.value base digits ≠ 0 := by
      have hpow := Digits.pow_le_value base hne hhead
      have hbase : 0 < base ^ (digits.length - 1) := Nat.pow_pos (by omega)
      omega
    have hlast : ∀ h : digits.reverse ≠ [], digits.reverse.getLast h ≠ 0 := by
      intro h hzero
      rw [List.getLast_reverse] at hzero
      exact hhead (by rw [← List.head_eq_iff_head?_eq_some hne, hzero])
    rw [Digits.ofNat_eq_digits hb, if_neg hpos, Digits.value_eq_ofDigits,
      Nat.digits_ofDigits base hb _ (fun d hd => hin d (List.mem_reverse.1 hd)) hlast,
      List.reverse_reverse]

namespace Numeral

/-- A whole number with all its digits before the point. -/
def integer (base : Nat) (v : Int) : Numeral where
  negative := v < 0
  whole := Digits.ofNat base v.natAbs
  fraction := []
  exponent := 0
  base := base
  radix := base

theorem isZero_integer {base : Nat} (hb : 1 < base) (v : Int) :
    (integer base v).isZero = decide (v = 0) := by
  rw [Bool.eq_iff_iff, isZero_iff (by exact Nat.lt_of_succ_lt hb), decide_eq_true_iff, coefficient,
    digits, integer, List.append_nil, Digits.value_ofNat, Int.natAbs_eq_zero]

/-- If the digits make up a whole number, then it is the whole part, and nothing is left for the
fraction. -/
theorem value_of_mantissa_eq_natCast {n : Numeral} (h : n.Valid) {k : Nat} (hk : n.mantissa = k) :
    Digits.value n.base n.whole = k ∧ Digits.value n.base n.fraction = 0 := by
  have hpow : 0 < n.base ^ n.fraction.length := Nat.pow_pos (Nat.pos_of_ne_zero h.base_ne_zero)
  have hpowq : (n.base : ℚ) ^ n.fraction.length ≠ 0 := by exact_mod_cast hpow.ne'
  have hcoef : Digits.value n.base n.whole * n.base ^ n.fraction.length +
      Digits.value n.base n.fraction = k * n.base ^ n.fraction.length := by
    rw [mantissa, coefficient_eq, div_eq_iff hpowq] at hk
    exact_mod_cast hk
  have hlt := Digits.value_lt_pow h.one_lt_base h.fraction
  have hfraction : Digits.value n.base n.fraction = 0 := by
    have hmod := congrArg (· % n.base ^ n.fraction.length) hcoef
    simpa [Nat.add_comm, Nat.mod_eq_of_lt hlt] using hmod
  exact ⟨Nat.eq_of_mul_eq_mul_right hpow (by omega), hfraction⟩

/-- Putting a whole number into scientific form and back loses nothing. -/
theorem toInteger_ofInt {base : Nat} (hb : 1 < base) (v : Int) :
    (ofInt base v).toInteger = .ok (integer base v) := by
  obtain ⟨hsci, hmag, hbase, hneg⟩ := ofScaled_spec hb (decide (v < 0)) v.natAbs 0
  obtain ⟨m, hfixed, hvalid, hmant, hexp, hmbase, hmradix, hmneg⟩ :=
    toFixed_eq_ok hsci.valid hsci.radix_eq
  rw [hmag, zpow_zero, mul_one] at hmant
  rw [hbase] at hmbase
  rw [hsci.radix_eq, hbase] at hmradix
  rw [hneg] at hmneg
  obtain ⟨hwhole, hfraction⟩ := value_of_mantissa_eq_natCast hvalid hmant
  rw [hmbase] at hwhole hfraction
  have hdigits : m.trimWhole.whole = Digits.ofNat base v.natAbs := by
    have hin := hvalid.trimWhole.whole
    have hvalue := m.value_whole_trimWhole
    have htrim : m.trimWhole.base = m.base := by rw [trimWhole_eq]
    rw [htrim, hmbase] at hin
    rw [hmbase, hwhole] at hvalue
    rw [Digits.eq_ofNat hb hin m.trimmed_trimWhole, hvalue]
  have hresult : { m with fraction := [] }.trimWhole = integer base v := by
    have hsame : { m with fraction := [] }.trimWhole.whole = m.trimWhole.whole := by
      simp only [trimWhole]
      split <;> rfl
    rw [trimWhole_eq, hsame, hdigits, hexp, hmbase, hmradix, hmneg]
    rfl
  have hzero : Digits.allZero m.fraction = true :=
    (Digits.value_eq_zero_iff (by omega)).1 hfraction
  have hsign : (integer base v).dropZeroSign = integer base v := by
    have hkept : (decide (v < 0) && !decide (v = 0)) = decide (v < 0) := by
      rw [Bool.eq_iff_iff]
      simp
      omega
    rw [dropZeroSign, isZero_integer hb, integer, hkept]
  rw [toInteger, ofInt, hfixed]
  simp only [bind, Except.bind, hzero, if_true, hresult, hsign]

end Numeral

/-! ## The whole number that a quantity is -/

namespace Binary64

/-- A quotient of naturals by its positive denominator. -/
theorem quotient_eq (m : Nat) (e : Int) :
    0 < (quotient m e).2 ∧ (m : ℚ) * 2 ^ e = (quotient m e).1 / (quotient m e).2 := by
  rw [quotient]
  split_ifs with he
  · obtain ⟨k, rfl⟩ := Int.eq_ofNat_of_zero_le he
    exact ⟨Nat.one_pos, by simp⟩
  · obtain ⟨k, hk⟩ : ∃ k : Nat, e = -(k : Int) := ⟨(-e).toNat, by omega⟩
    subst hk
    refine ⟨Nat.pow_pos (by decide), ?_⟩
    simp [zpow_neg, div_eq_mul_inv]

/-- A double has no fraction if its magnitude is a natural number. -/
theorem isWhole_iff (x : Binary64) : x.isWhole = true ↔ ∃ m : Nat, x.magnitude = m := by
  obtain ⟨hpos, hquotient⟩ := quotient_eq x.significand x.scale
  have hden : ((quotient x.significand x.scale).2 : ℚ) ≠ 0 := Nat.cast_ne_zero.2 hpos.ne'
  rw [isWhole, magnitude_eq, hquotient]
  dsimp only
  rw [beq_iff_eq]
  constructor
  · intro hmod
    refine ⟨(quotient x.significand x.scale).1 / (quotient x.significand x.scale).2, ?_⟩
    rw [div_eq_iff hden]
    exact_mod_cast (Nat.div_mul_cancel (Nat.dvd_of_mod_eq_zero hmod)).symm
  · rintro ⟨m, hm⟩
    rw [div_eq_iff hden] at hm
    have hnum : (quotient x.significand x.scale).1 = m * (quotient x.significand x.scale).2 := by
      exact_mod_cast hm
    rw [hnum, Nat.mul_mod_left]

/-- Nothing is cut off a whole number. -/
theorem truncated?_eq_some {x : Binary64} (hfinite : x.isFinite = true) {m : Nat}
    (hm : x.magnitude = m) :
    x.truncated? = some (if x.negative then -(m : Int) else m) := by
  obtain ⟨hpos, hquotient⟩ := quotient_eq x.significand x.scale
  have hden : ((quotient x.significand x.scale).2 : ℚ) ≠ 0 := Nat.cast_ne_zero.2 hpos.ne'
  rw [magnitude_eq, hquotient, div_eq_iff hden] at hm
  have hnum : (quotient x.significand x.scale).1 = m * (quotient x.significand x.scale).2 := by
    exact_mod_cast hm
  rw [truncated?]
  dsimp only
  rw [if_pos hfinite, hnum, Nat.mul_div_cancel _ hpos]

end Binary64

namespace Quantity

/-- The whole number that an integer or a finite double is. -/
def Equals : Quantity → Int → Prop
  | integer n, v => n = v
  | float x, v => x.isFinite = true ∧ (if x.negative then -x.magnitude else x.magnitude) = v

theorem toInt_float {x : Binary64} (hfinite : x.isFinite = true) {m : Nat} (hm : x.magnitude = m) :
    (float x).toInt = .ok (if x.negative then -(m : Int) else m) := by
  rw [toInt, hfinite, x.isWhole_iff.2 ⟨m, hm⟩, Binary64.truncated?_eq_some hfinite hm]
  rfl

/-- A double that is whole is always in the range of whole numbers, so that a fraction is all that
can stand in the way. -/
theorem toInt_float_cases (x : Binary64) :
    (∃ m : Nat, x.isFinite = true ∧ x.magnitude = m) ∨ (float x).toInt = .error .fractional := by
  cases hwhole : x.isFinite && x.isWhole with
  | true =>
    obtain ⟨hfinite, hwhole⟩ := Bool.and_eq_true_iff.1 hwhole
    obtain ⟨m, hm⟩ := x.isWhole_iff.1 hwhole
    exact .inl ⟨m, hfinite, hm⟩
  | false =>
    refine .inr ?_
    rw [toInt, hwhole]
    rfl

theorem toInt_eq_ok_iff (q : Quantity) (v : Int) : q.toInt = .ok v ↔ q.Equals v := by
  cases q with
  | integer n => exact Except.ok.injEq n v ▸ Iff.rfl
  | float x =>
    rw [Equals]
    constructor
    · intro h
      rcases toInt_float_cases x with ⟨m, hfinite, hm⟩ | hrefused
      · rw [toInt_float hfinite hm] at h
        obtain rfl := Except.ok.inj h
        refine ⟨hfinite, ?_⟩
        rw [hm]
        split_ifs <;> push_cast <;> rfl
      · rw [hrefused] at h
        cases h
    · rintro ⟨hfinite, hvalue⟩
      have hmag : x.magnitude = v.natAbs := by
        rw [Nat.cast_natAbs, Int.cast_abs, ← hvalue]
        split_ifs
        · rw [abs_neg, abs_of_nonneg x.magnitude_nonneg]
        · rw [abs_of_nonneg x.magnitude_nonneg]
      rw [toInt_float hfinite hmag]
      congr 1
      have hcast : (if x.negative then -(v.natAbs : ℚ) else v.natAbs) = v := hmag ▸ hvalue
      rw [Nat.cast_natAbs] at hcast
      rw [Int.natCast_natAbs]
      split_ifs at hcast ⊢ <;> exact_mod_cast hcast

/-- What is not whole is refused as a fraction. -/
theorem toInt_eq_error {q : Quantity} (h : ∀ v, ¬q.Equals v) : q.toInt = .error .fractional := by
  cases q with
  | integer n => exact absurd rfl (h n)
  | float x =>
    rcases toInt_float_cases x with ⟨m, hfinite, hm⟩ | hrefused
    · exact absurd ((toInt_eq_ok_iff _ _).1 (toInt_float hfinite hm)) (h _)
    · exact hrefused

end Quantity

namespace Figure

variable {q : Quantity} {radix : Nat}

/-- A whole number has the figure of all its digits. -/
theorem whole_of_equals {v : Int} (h : q.Equals v) (hradix : 1 < radix) :
    whole q radix = .ok (.finite (Numeral.integer radix v) .integer) := by
  rw [whole, (q.toInt_eq_ok_iff v).2 h]
  simp only [bind, Except.bind, Numeral.toInteger_ofInt hradix]
  rfl

/-- A number that is not whole has none. -/
theorem whole_of_not_equals (h : ∀ v, ¬q.Equals v) : whole q radix = .error .fractional := by
  rw [whole, Quantity.toInt_eq_error h]
  rfl

end Figure

end Stencil
