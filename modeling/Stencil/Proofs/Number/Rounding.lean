import Stencil.Proofs.Number.Magnitude

/-!
# Rounding half up

Rounding replaces a number by the nearest multiple of a unit, upwards from the middle.

* `halfUp`, `roundTo`, `significantly` — rounding as arithmetic on rational numbers.
* `roundPlaces_spec`, `roundSignificant_spec` — rounding digits is rounding the number.
* `log_magnitude` — the exponent of a numeral in scientific form is the logarithm of its number.
* `roundTo_significantly` — rounding once more, at the last place that rounding to significant
  digits has kept, gives the same number even if the first rounding has carried into a new digit.
-/

namespace Stencil

/-! ## Rounding of numbers -/

/-- The nearest natural number, upwards from the middle. -/
def halfUp (x : ℚ) : Nat :=
  ⌊x + 1 / 2⌋₊

theorem halfUp_natCast (m : Nat) : halfUp m = m := by
  rw [halfUp, Nat.floor_eq_iff (by positivity)]
  constructor <;> linarith

theorem halfUp_zero : halfUp 0 = 0 := by
  have h := halfUp_natCast 0
  rwa [Nat.cast_zero] at h

theorem halfUp_mono {x y : ℚ} (h : x ≤ y) : halfUp x ≤ halfUp y :=
  Nat.floor_mono (by linarith)

/-- A natural number and a proper fraction round up if the fraction is at least one half. -/
theorem halfUp_add_div (q r d : Nat) (hr : r < d) :
    halfUp (q + r / d) = if d ≤ 2 * r then q + 1 else q := by
  have hd : (0 : ℚ) < d := Nat.cast_pos.2 (by omega)
  have hlt : (r : ℚ) / d < 1 := by
    rw [div_lt_one hd]
    exact_mod_cast hr
  rw [halfUp, Nat.floor_eq_iff (by positivity)]
  split_ifs with h
  · have hle : (d : ℚ) ≤ 2 * r := by exact_mod_cast h
    have hhalf : 1 / 2 ≤ (r : ℚ) / d := by
      rw [div_le_div_iff₀ (by norm_num) hd]
      linarith
    push_cast
    constructor <;> linarith
  · have hgt : (2 * r : ℚ) < d := by exact_mod_cast not_le.1 h
    have hhalf : (r : ℚ) / d < 1 / 2 := by
      rw [div_lt_div_iff₀ hd (by norm_num)]
      linarith
    have hnn : 0 ≤ (r : ℚ) / d := by positivity
    constructor <;> linarith

/-- What rounds up to a multiple of the base from below also does so one place further left. -/
theorem halfUp_div_of_halfUp_eq {base m : Nat} (hb : 1 < base) {y : ℚ} (hy : 0 ≤ y)
    (hlt : y < (base * m : Nat)) (h : halfUp y = base * m) : halfUp (y / base) = m := by
  have hbq : (1 : ℚ) < base := Nat.one_lt_cast.2 hb
  rw [halfUp, Nat.floor_eq_iff (by positivity)] at h ⊢
  push_cast at h hlt
  have hquot : y / base < m := by
    rw [div_lt_iff₀ (by linarith)]
    linarith
  refine ⟨?_, by linarith⟩
  have hlow : (m : ℚ) - 1 / 2 ≤ y / base := by
    rw [le_div_iff₀ (by linarith)]
    nlinarith [h.1]
  linarith

/-- The nearest multiple of a unit, upwards from the middle. -/
def roundTo (unit x : ℚ) : ℚ :=
  halfUp (x / unit) * unit

theorem roundTo_places (base places : Nat) (x : ℚ) :
    roundTo ((base : ℚ) ^ (-(places : Int))) x =
      halfUp (x * (base : ℚ) ^ places) / (base : ℚ) ^ places := by
  rw [roundTo, zpow_neg, zpow_natCast, div_inv_eq_mul, ← div_eq_mul_inv]

/-- A number rounded to its first `count` digits. -/
def significantly (base count : Nat) (x : ℚ) : ℚ :=
  roundTo ((base : ℚ) ^ (Int.log base x + 1 - count)) x

theorem significantly_zero (base count : Nat) : significantly base count 0 = 0 := by
  rw [significantly, roundTo, zero_div, halfUp_zero, Nat.cast_zero, zero_mul]

/-- A count of `k + 1` digits, in units of a power. -/
theorem log_mul_zpow {base count k : Nat} (hb : 1 < base) (hlow : base ^ k ≤ count)
    (hhigh : count < base ^ (k + 1)) (e : Int) :
    Int.log base ((count : ℚ) * (base : ℚ) ^ e) = k + e := by
  have hbq : (0 : ℚ) < base := Nat.cast_pos.2 (by omega)
  have hunit : (0 : ℚ) < (base : ℚ) ^ e := zpow_pos hbq e
  have hcount : (0 : ℚ) < count :=
    Nat.cast_pos.2 (Nat.lt_of_lt_of_le (Nat.pow_pos (by omega)) hlow)
  have hpos : 0 < (count : ℚ) * (base : ℚ) ^ e := mul_pos hcount hunit
  have hle : (base : ℚ) ^ (k + e) ≤ count * (base : ℚ) ^ e := by
    rw [zpow_add₀ hbq.ne', zpow_natCast]
    exact mul_le_mul_of_nonneg_right (by exact_mod_cast hlow) hunit.le
  have hlt : count * (base : ℚ) ^ e < (base : ℚ) ^ (k + e + 1) := by
    rw [show (k : Int) + e + 1 = ((k + 1 : Nat) : Int) + e by push_cast; ring,
      zpow_add₀ hbq.ne', zpow_natCast]
    exact mul_lt_mul_of_pos_right (by exact_mod_cast hhigh) hunit
  have hge := (Int.zpow_le_iff_le_log hb hpos).1 hle
  have hgt := (Int.lt_zpow_iff_log_lt hb hpos).1 hlt
  omega

/-- Scaled by the place of its last kept digit, a number has as many whole digits as are kept. -/
theorem pow_le_scaled {base count : Nat} (hb : 1 < base) (hc : 1 ≤ count) {x : ℚ} (hx : 0 < x) :
    ((base ^ (count - 1) : Nat) : ℚ) ≤ x / (base : ℚ) ^ (Int.log base x + 1 - count) ∧
      x / (base : ℚ) ^ (Int.log base x + 1 - count) < ((base ^ count : Nat) : ℚ) := by
  have hbq : (0 : ℚ) < base := Nat.cast_pos.2 (by omega)
  have hunit : (0 : ℚ) < (base : ℚ) ^ (Int.log base x + 1 - count) := zpow_pos hbq _
  have hlow : (base : ℚ) ^ Int.log base x ≤ x := Int.zpow_log_le_self hb hx
  have hhigh : x < (base : ℚ) ^ (Int.log base x + 1) := Int.lt_zpow_succ_log_self hb x
  have hfirst : ((count - 1 : Nat) : Int) + (Int.log base x + 1 - count) = Int.log base x := by
    omega
  have hnext : (count : Int) + (Int.log base x + 1 - count) = Int.log base x + 1 := by omega
  constructor
  · rw [le_div_iff₀ hunit, Nat.cast_pow, ← zpow_natCast, ← zpow_add₀ hbq.ne', hfirst]
    exact hlow
  · rw [div_lt_iff₀ hunit, Nat.cast_pow, ← zpow_natCast, ← zpow_add₀ hbq.ne', hnext]
    exact hhigh

/-- Rounding to significant digits keeps a count of them; the count overflows only to a power. -/
theorem pow_le_halfUp_scaled {base count : Nat} (hb : 1 < base) (hc : 1 ≤ count) {x : ℚ}
    (hx : 0 < x) :
    base ^ (count - 1) ≤ halfUp (x / (base : ℚ) ^ (Int.log base x + 1 - count)) ∧
      halfUp (x / (base : ℚ) ^ (Int.log base x + 1 - count)) ≤ base ^ count := by
  obtain ⟨hlow, hhigh⟩ := pow_le_scaled hb hc hx
  have hl := halfUp_mono hlow
  have hh := halfUp_mono hhigh.le
  rw [halfUp_natCast] at hl hh
  exact ⟨hl, hh⟩

/-- Rounding once more, at the last place that rounding to significant digits has kept, changes
nothing, even if a carry has moved that place. -/
theorem roundTo_significantly {base count : Nat} (hb : 1 < base) (hc : 1 ≤ count) {x : ℚ}
    (hx : 0 ≤ x) :
    roundTo ((base : ℚ) ^ (Int.log base (significantly base count x) + 1 - count)) x =
      significantly base count x := by
  rcases hx.eq_or_lt with rfl | hpos
  · rw [significantly_zero, roundTo, zero_div, halfUp_zero, Nat.cast_zero, zero_mul]
  have hbq : (0 : ℚ) < base := Nat.cast_pos.2 (by omega)
  obtain ⟨hlow, hhigh⟩ := pow_le_halfUp_scaled hb hc hpos
  by_cases hlt : halfUp (x / (base : ℚ) ^ (Int.log base x + 1 - count)) < base ^ count
  · have hlog : Int.log base (significantly base count x) = Int.log base x := by
      rw [significantly, roundTo, log_mul_zpow hb hlow (by rwa [Nat.sub_add_cancel hc])]
      omega
    rw [hlog, significantly]
  · -- The digits were nines from the last place on, so one place further left they still are.
    have htop := Nat.le_antisymm hhigh (not_lt.1 hlt)
    have hsig : significantly base count x = (base : ℚ) ^ (Int.log base x + 1) := by
      rw [significantly, roundTo, htop, Nat.cast_pow, ← zpow_natCast, ← zpow_add₀ hbq.ne']
      congr 1
      ring
    have hlog : Int.log base (significantly base count x) = Int.log base x + 1 := by
      rw [hsig, Int.log_zpow hb]
    have hstep : x / (base : ℚ) ^ (Int.log base x + 1 + 1 - count) =
        x / (base : ℚ) ^ (Int.log base x + 1 - count) / base := by
      rw [div_div, ← zpow_add_one₀ hbq.ne']
      congr 2
      ring
    have hpow : base ^ count = base * base ^ (count - 1) := by
      rw [← pow_succ', Nat.sub_add_cancel hc]
    have hnear := (pow_le_scaled hb hc hpos).2
    rw [hpow] at htop hnear
    have hdown := halfUp_div_of_halfUp_eq hb (by positivity) hnear htop
    rw [hlog, roundTo, hstep, hdown, hsig, Nat.cast_pow, ← zpow_natCast, ← zpow_add₀ hbq.ne']
    congr 1
    omega

namespace Numeral

variable {n : Numeral}

/-! ## Rounding to places -/

/-- One unit in the last place. A carry out of the first digit leaves zeros behind a new digit. -/
theorem increment_spec (h : n.Valid) :
    n.increment.Valid ∧ n.increment.coefficient = n.coefficient + 1 ∧
      n.increment.fraction.length = n.fraction.length ∧
      (n.increment.whole.length = n.whole.length ∨
        n.increment.whole = 1 :: List.replicate n.whole.length 0 ∧
          n.increment.fraction = List.replicate n.fraction.length 0) := by
  have hb := h.one_lt_base
  obtain ⟨hfi, hfl, hfv⟩ := Digits.value_increment hb h.fraction
  obtain ⟨hwi, hwl, hwv⟩ := Digits.value_increment hb h.whole
  have hpos : 0 < n.whole.length := List.length_pos_iff.2 h.whole_ne_nil
  rw [increment]
  split
  · rename_i fraction heq
    rw [heq] at hfi hfl hfv
    simp only [Bool.toNat_false, Nat.zero_mul, Nat.add_zero] at hfv
    refine ⟨⟨hb, h.whole_ne_nil, h.whole, hfi⟩, ?_, hfl, Or.inl rfl⟩
    rw [coefficient_eq, coefficient_eq]
    simp only [hfv, hfl]
    omega
  · rename_i fraction heq
    have hzeros := (Digits.increment_carry hb h.fraction (by rw [heq])).2
    rw [heq] at hfi hfl hfv hzeros
    simp only [Bool.toNat_true, Nat.one_mul] at hfv
    split
    · rename_i whole heqw
      rw [heqw] at hwi hwl hwv
      simp only [Bool.toNat_false, Nat.zero_mul, Nat.add_zero] at hwv
      have hne : whole ≠ [] := List.length_pos_iff.1 (by rw [hwl]; exact hpos)
      refine ⟨⟨hb, hne, hwi, hfi⟩, ?_, hfl, Or.inl hwl⟩
      rw [coefficient_eq, coefficient_eq]
      simp only [hwv, hfl, Nat.add_mul]
      omega
    · rename_i whole heqw
      have hwzeros := (Digits.increment_carry hb h.whole (by rw [heqw])).2
      rw [heqw] at hwi hwl hwv hwzeros
      simp only [Bool.toNat_true, Nat.one_mul] at hwv
      have hone : Digits.value n.base (1 :: whole) = Digits.value n.base n.whole + 1 := by
        rw [Digits.value_cons, hwl, ← hwv]
        ring
      refine ⟨⟨hb, by simp, Digits.inBase_cons.2 ⟨hb, hwi⟩, hfi⟩, ?_, hfl, Or.inr ⟨?_, hzeros⟩⟩
      · rw [coefficient_eq, coefficient_eq]
        simp only [hone, hfl, Nat.add_mul]
        omega
      · exact congrArg (1 :: ·) hwzeros

/-- The first digit that is dropped tells which half the rest is in. -/
theorem half_le_iff {base : Nat} (hb : 1 < base) (heven : 2 ∣ base) {d : Nat} {rest : List Nat}
    (h : Digits.InBase base (d :: rest)) :
    Digits.half base ≤ d ↔ base ^ (rest.length + 1) ≤ 2 * Digits.value base (d :: rest) := by
  obtain ⟨m, hm⟩ := heven
  have hhalf : Digits.half base = m := by
    rw [Digits.half, hm]
    omega
  have hlt := Digits.value_lt_pow hb (Digits.inBase_cons.1 h).2
  have hpow : base ^ (rest.length + 1) = 2 * (m * base ^ rest.length) := by
    rw [pow_succ, hm]
    ring
  rw [hhalf, Digits.value_cons, hpow]
  constructor
  · intro hle
    have := Nat.mul_le_mul_right (base ^ rest.length) hle
    omega
  · intro hle
    by_contra hgt
    have := Nat.mul_le_mul_right (base ^ rest.length) (show d + 1 ≤ m by omega)
    rw [Nat.add_mul] at this
    omega

/-- Where there are no more digits than places, zeros make up for what is missing. -/
theorem coefficient_padTrailing (h : n.Valid) {places : Nat} (hle : n.fraction.length ≤ places) :
    Valid { n with fraction := Digits.padTrailing places n.fraction } ∧
      (coefficient { n with fraction := Digits.padTrailing places n.fraction } : ℚ) =
        n.mantissa * (n.base : ℚ) ^ places ∧
      (Digits.padTrailing places n.fraction).length = places := by
  have hbq : (n.base : ℚ) ≠ 0 := h.base_pos.ne'
  have hlen : (Digits.padTrailing places n.fraction).length = places := by
    rw [Digits.length_padTrailing]
    omega
  have hzeros : n.fraction.length + (places - n.fraction.length) = places := by omega
  have hcoef : coefficient { n with fraction := Digits.padTrailing places n.fraction } =
      n.coefficient * n.base ^ (places - n.fraction.length) := by
    rw [coefficient_eq, coefficient_eq]
    simp only [hlen, Digits.value_padTrailing]
    rw [Nat.add_mul, Nat.mul_assoc, ← pow_add, hzeros]
  refine ⟨⟨h.one_lt_base, h.whole_ne_nil, h.whole,
    Digits.inBase_padTrailing (Nat.pos_of_ne_zero h.base_ne_zero) _ h.fraction⟩, ?_, hlen⟩
  rw [hcoef, mantissa, div_mul_eq_mul_div, eq_div_iff (pow_ne_zero _ hbq), Nat.cast_mul,
    Nat.cast_pow, mul_assoc, ← pow_add, Nat.add_comm, hzeros]

/-- Where there are more digits than places, the digits that are dropped are a proper fraction of
the last place. -/
theorem mantissa_cut (h : n.Valid) {places next : Nat} {rest : List Nat}
    (hcons : n.fraction.drop places = next :: rest) :
    Valid { n with fraction := n.fraction.take places } ∧
      (n.fraction.take places).length = places ∧ Digits.InBase n.base (next :: rest) ∧
      n.mantissa * (n.base : ℚ) ^ places =
        coefficient { n with fraction := n.fraction.take places } +
          (Digits.value n.base (next :: rest) : ℚ) / (n.base ^ (rest.length + 1) : Nat) := by
  have hbq : (n.base : ℚ) ≠ 0 := h.base_pos.ne'
  have hlt : places < n.fraction.length := by
    by_contra hge
    rw [List.drop_eq_nil_iff.2 (not_lt.1 hge)] at hcons
    simp at hcons
  have hlen : (n.fraction.take places).length = places := by
    rw [List.length_take]
    omega
  have hsplit : n.fraction = n.fraction.take places ++ (next :: rest) := by
    rw [← hcons, List.take_append_drop]
  have hin := h.fraction
  rw [hsplit, Digits.inBase_append] at hin
  have hflen : n.fraction.length = places + (rest.length + 1) := by
    rw [hsplit, List.length_append, hlen]
    simp
  have hcoef : n.coefficient =
      coefficient { n with fraction := n.fraction.take places } * n.base ^ (rest.length + 1) +
        Digits.value n.base (next :: rest) := by
    rw [coefficient, digits]
    conv_lhs => rw [hsplit, ← List.append_assoc, Digits.value_append]
    rfl
  refine ⟨⟨h.one_lt_base, h.whole_ne_nil, h.whole, hin.1⟩, hlen, hin.2, ?_⟩
  rw [mantissa, hcoef, hflen]
  push_cast
  field_simp
  ring

/-- Rounding to places gives the mantissa that is nearest, upwards from the middle. The whole part
keeps its length, or a carry leaves zeros behind a new digit. -/
theorem roundPlaces_spec (h : n.Valid) (heven : 2 ∣ n.base) (places : Nat) :
    (n.roundPlaces places).Valid ∧
      (n.roundPlaces places).coefficient = halfUp (n.mantissa * (n.base : ℚ) ^ places) ∧
      (n.roundPlaces places).fraction.length = places ∧
      ((n.roundPlaces places).whole.length = n.whole.length ∨
        (n.roundPlaces places).whole = 1 :: List.replicate n.whole.length 0 ∧
          (n.roundPlaces places).fraction = List.replicate places 0) := by
  have hb := h.one_lt_base
  rw [roundPlaces]
  split
  · rename_i hnil
    obtain ⟨hvalid, hcoef, hlen⟩ := coefficient_padTrailing h (List.drop_eq_nil_iff.1 hnil)
    exact ⟨hvalid, by rw [← hcoef, halfUp_natCast], hlen, Or.inl rfl⟩
  · rename_i next rest hcons
    obtain ⟨hkept, hlen, hin, hmant⟩ := mantissa_cut h hcons
    have hiff := half_le_iff hb heven hin
    have hrest : Digits.value n.base (next :: rest) < n.base ^ (rest.length + 1) :=
      Digits.value_lt_pow hb hin
    rw [hmant, halfUp_add_div _ _ _ hrest]
    split_ifs with hdigit hup hup
    · exact absurd (hiff.2 hup) (by omega)
    · exact ⟨hkept, rfl, hlen, Or.inl rfl⟩
    · obtain ⟨hv, hc, hf, hw⟩ := increment_spec hkept
      refine ⟨hv, hc, by rw [hf, hlen], ?_⟩
      simpa only [hlen] using hw
    · exact absurd (hiff.1 (not_lt.1 hdigit)) hup

theorem increment_eq (n : Numeral) :
    n.increment = { n with whole := n.increment.whole, fraction := n.increment.fraction } := by
  rw [increment]
  split
  · rfl
  · split <;> rfl

theorem roundPlaces_eq (n : Numeral) (places : Nat) :
    n.roundPlaces places =
      { n with
        whole := (n.roundPlaces places).whole
        fraction := (n.roundPlaces places).fraction } := by
  rw [roundPlaces]
  split
  · rfl
  · split_ifs
    · rfl
    · rw [increment_eq]

/-! ## Rounding to significant digits -/

theorem Scientific.pow_le_coefficient (h : n.Scientific) (hne : n.coefficient ≠ 0) :
    n.base ^ n.fraction.length ≤ n.coefficient := by
  obtain ⟨d, hd⟩ := List.length_eq_one_iff.1 h.length_whole
  have hpos : 1 ≤ d := by
    have hwhole := h.whole_of_ne_zero hne
    rw [hd] at hwhole
    by_contra hlt
    exact hwhole (by rw [show d = 0 by omega])
  rw [coefficient_eq, hd, Digits.value_singleton]
  calc n.base ^ n.fraction.length = 1 * n.base ^ n.fraction.length := (one_mul _).symm
    _ ≤ d * n.base ^ n.fraction.length := Nat.mul_le_mul_right _ hpos
    _ ≤ _ := Nat.le_add_right _ _

theorem Scientific.coefficient_lt (h : n.Scientific) :
    n.coefficient < n.base ^ (n.fraction.length + 1) := by
  have hlt := Digits.value_lt_pow h.valid.one_lt_base h.valid.digits
  rw [Numeral.digits, List.length_append, h.length_whole, Nat.add_comm] at hlt
  exact hlt

theorem Scientific.magnitude_of_coefficient_zero (hz : n.coefficient = 0) : n.magnitude = 0 := by
  rw [magnitude, mantissa, hz]
  simp

/-- The exponent of a numeral in scientific form is the logarithm of its number, rounded down. -/
theorem log_magnitude (h : n.Scientific) : Int.log n.base n.magnitude = n.exponent := by
  by_cases hz : n.coefficient = 0
  · rw [Scientific.magnitude_of_coefficient_zero hz, Int.log_zero_right, h.exponent_of_zero hz]
  · rw [magnitude_eq h.valid.base_ne_zero h.radix_eq,
      log_mul_zpow h.valid.one_lt_base (h.pow_le_coefficient hz) h.coefficient_lt]
    ring

/-- The place where a numeral in scientific form is rounded, counted from its point. -/
theorem scaled_magnitude (h : n.Scientific) {count : Nat} (hc : 1 ≤ count) :
    n.magnitude / (n.base : ℚ) ^ (Int.log n.base n.magnitude + 1 - count) =
      n.mantissa * (n.base : ℚ) ^ (count - 1) := by
  have hbq := h.valid.base_pos
  rw [log_magnitude h, div_eq_iff (zpow_pos hbq _).ne', magnitude, h.radix_eq, mul_assoc,
    ← zpow_natCast (n.base : ℚ) (count - 1), ← zpow_add₀ hbq.ne']
  congr 2
  omega

/-- The number with a carry that left the digit before the point: a one, one exponent higher. -/
theorem scientific_carry {r : Numeral} (hvalid : r.Valid) (hradix : r.radix = r.base)
    (hw : r.whole = [1, 0]) (hf : Digits.value r.base r.fraction = 0) :
    Scientific { r with whole := [1], exponent := r.exponent + 1 } ∧
      magnitude { r with whole := [1], exponent := r.exponent + 1 } = r.magnitude := by
  have hcoef : coefficient { r with whole := [1], exponent := r.exponent + 1 } =
      r.base ^ r.fraction.length := by
    rw [coefficient_eq, hf, Digits.value_singleton, Nat.one_mul, Nat.add_zero]
  have hpos : 0 < r.base ^ r.fraction.length :=
    Nat.pow_pos (Nat.pos_of_ne_zero hvalid.base_ne_zero)
  constructor
  · refine ⟨⟨hvalid.one_lt_base, by simp, ?_, hvalid.fraction⟩, hradix, rfl, ?_, by simp⟩
    · simpa using hvalid.one_lt_base
    · intro hz
      rw [hcoef] at hz
      omega
  · symm
    refine magnitude_congr hvalid.base_ne_zero hradix rfl hradix 1 ?_ ?_
    · rw [hcoef, coefficient_eq, hw, hf]
      simp [Digits.value, Nat.mul_comm]
    · push_cast
      ring

/-- Rounding digits in scientific form rounds the number, and the form stays scientific. -/
theorem roundSignificant_spec (h : n.Scientific) (heven : 2 ∣ n.base) {count : Nat}
    (hc : 1 ≤ count) :
    ∃ m, n.roundSignificant count = .ok m ∧ m.Scientific ∧
      m.magnitude = significantly n.base count n.magnitude ∧ m.fraction.length = count - 1 ∧
      m.base = n.base ∧ m.negative = n.negative := by
  have hb := h.valid.one_lt_base
  have hbq := h.valid.base_pos
  obtain ⟨hvalid, hcoef, hflen, hwhole⟩ := roundPlaces_spec h.valid heven (count - 1)
  have hframe := roundPlaces_eq n (count - 1)
  rw [roundSignificant, if_neg (by omega), if_neg (by simpa using h.length_whole)]
  generalize n.roundPlaces (count - 1) = r at hvalid hcoef hflen hwhole hframe
  have hbase : r.base = n.base := by rw [hframe]
  have hradix : r.radix = n.base := by rw [hframe]; exact h.radix_eq
  have hexp : r.exponent = n.exponent := by rw [hframe]
  have hneg : r.negative = n.negative := by rw [hframe]
  have hmag : r.magnitude = significantly n.base count n.magnitude := by
    rw [significantly, roundTo, scaled_magnitude h hc, ← hcoef, log_magnitude h,
      magnitude_eq hvalid.base_ne_zero (by rw [hradix, hbase]), hbase, hexp, hflen]
    congr 2
    omega
  have hkept : n.coefficient ≠ 0 → n.base ^ (count - 1) ≤ r.coefficient := by
    intro hne
    have hpos : 0 < n.magnitude := by
      rw [magnitude_eq h.valid.base_ne_zero h.radix_eq]
      exact mul_pos (Nat.cast_pos.2 (Nat.pos_of_ne_zero hne)) (zpow_pos hbq _)
    have hlow := (pow_le_halfUp_scaled hb hc hpos).1
    rwa [scaled_magnitude h hc, ← hcoef] at hlow
  dsimp only
  split_ifs with hone
  · refine ⟨r, rfl, ⟨hvalid, by rw [hradix, hbase], hone, ?_, ?_⟩, hmag, hflen, hbase, hneg⟩
    · intro hz
      rw [hexp]
      refine h.exponent_of_zero ?_
      by_contra hne
      have hlow := hkept hne
      have hpow : 0 < n.base ^ (count - 1) := Nat.pow_pos (by omega)
      omega
    · intro hne hw
      have hnz : n.coefficient ≠ 0 := by
        intro hz
        rw [hcoef, mantissa, hz, Nat.cast_zero, zero_div, zero_mul] at hne
        exact hne halfUp_zero
      have hlow := hkept hnz
      have hlt := Digits.value_lt_pow hvalid.one_lt_base hvalid.fraction
      rw [coefficient_eq, hw, Digits.value_singleton, Nat.zero_mul, Nat.zero_add] at hlow
      rw [hbase, hflen] at hlt
      rw [hbase] at hlow
      omega
  · obtain ⟨hw, hf⟩ := hwhole.resolve_left (by rw [h.length_whole]; exact hone)
    rw [h.length_whole] at hw
    have hfv : Digits.value r.base r.fraction = 0 := by rw [hf, Digits.value_replicate_zero]
    obtain ⟨hsci, hsame⟩ := scientific_carry hvalid (by rw [hradix, hbase]) hw hfv
    exact ⟨_, rfl, hsci, hsame.trans hmag, hflen, hbase, hneg⟩

end Numeral

end Stencil
