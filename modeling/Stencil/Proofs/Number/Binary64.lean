import Mathlib
import Stencil.Number.Binary64

/-!
# The number of a double

A finite double denotes a fraction of its stored exponent's power of two. The significand and scale
that are read off the bits are this number, and no two doubles of one sign have the same.

* `magnitude` — the number without its sign, by stored exponent and fraction.
* `magnitude_eq` — it is the significand, counted in powers of two.
* `Canonical`, `Canonical.unique` — the shape of significand and scale, by which a number has only
  one of each.
* `eq_of_magnitude_eq` — sign and number determine the bits.
-/

namespace Stencil.Binary64

/-- The number of a finite double without its sign. A stored exponent of zero is for the subnormal
numbers; all others have a leading one that is not stored. -/
def magnitude (x : Binary64) : ℚ :=
  if x.storedExponent = 0 then x.storedFraction / 2 ^ 52 * 2 ^ (-1022 : ℤ)
  else (1 + x.storedFraction / 2 ^ 52) * 2 ^ ((x.storedExponent : ℤ) - 1023)

theorem magnitude_eq (x : Binary64) : x.magnitude = x.significand * (2 : ℚ) ^ x.scale := by
  have h2 : (2 : ℚ) ≠ 0 := two_ne_zero
  unfold magnitude significand scale
  split_ifs with h
  · have hscale : (-1074 : ℤ) = -1022 - (52 : ℕ) := by norm_num
    rw [hscale, zpow_sub₀ h2, zpow_natCast]
    ring
  · have hscale : (x.storedExponent : ℤ) - 1075 = (x.storedExponent : ℤ) - 1023 - (52 : ℕ) := by
      push_cast
      ring
    rw [hscale, zpow_sub₀ h2 ((x.storedExponent : ℤ) - 1023), zpow_natCast, Nat.pow_eq]
    generalize (2 : ℚ) ^ ((x.storedExponent : ℤ) - 1023) = power
    push_cast
    field_simp
    ring

theorem magnitude_nonneg (x : Binary64) : 0 ≤ x.magnitude := by
  rw [magnitude_eq]
  positivity

/-! ## One significand and one scale -/

/-- At most 53 bits over the least scale, and all of them in use over any other. -/
structure Canonical (m : Nat) (e : Int) : Prop where
  lt : m < 2 ^ 53
  least_le : -1074 ≤ e
  le_of_lt : -1074 < e → 2 ^ 52 ≤ m

theorem canonical (x : Binary64) : Canonical x.significand x.scale := by
  have hf : x.storedFraction < 2 ^ 52 := Nat.mod_lt _ (by decide)
  unfold significand scale
  split_ifs with h
  · exact ⟨by omega, le_refl _, by omega⟩
  · rw [Nat.pow_eq]
    exact ⟨by omega, by omega, by omega⟩

/-- Over a larger scale the same number would have more than 53 bits on the smaller one. -/
theorem Canonical.scale_le {m m' : Nat} {e e' : Int} (h : Canonical m e) (h' : Canonical m' e')
    (heq : (m : ℚ) * 2 ^ e = m' * 2 ^ e') : e' ≤ e := by
  by_contra hlt
  have hlead := h'.le_of_lt (by have := h.least_le; omega)
  obtain ⟨k, hk⟩ : ∃ k : Nat, e' = e + (k + 1 : Nat) := ⟨(e' - e - 1).toNat, by omega⟩
  have hunit : (2 : ℚ) ^ e ≠ 0 := zpow_ne_zero _ two_ne_zero
  rw [hk, zpow_add₀ two_ne_zero, zpow_natCast, mul_comm ((2 : ℚ) ^ e), ← mul_assoc] at heq
  have hm : m = m' * 2 ^ (k + 1) := by exact_mod_cast mul_right_cancel₀ hunit heq
  have hpow : 1 ≤ 2 ^ k := Nat.one_le_two_pow
  have hlarge : 2 ^ 52 * 2 ≤ m := by
    calc 2 ^ 52 * 2 ≤ m' * (2 ^ k * 2) := Nat.mul_le_mul hlead (by omega)
      _ = m := by rw [hm, pow_succ]
  have := h.lt
  omega

theorem Canonical.unique {m m' : Nat} {e e' : Int} (h : Canonical m e) (h' : Canonical m' e')
    (heq : (m : ℚ) * 2 ^ e = m' * 2 ^ e') : m = m' ∧ e = e' := by
  obtain rfl : e = e' := le_antisymm (h'.scale_le h heq.symm) (h.scale_le h' heq)
  have hunit : (2 : ℚ) ^ e ≠ 0 := zpow_ne_zero _ two_ne_zero
  exact ⟨by exact_mod_cast mul_right_cancel₀ hunit heq, rfl⟩

/-! ## Bits -/

/-- The stored fields are read back from significand and scale. -/
theorem stored_eq_of_significand {x y : Binary64} (hm : x.significand = y.significand)
    (he : x.scale = y.scale) :
    x.storedExponent = y.storedExponent ∧ x.storedFraction = y.storedFraction := by
  have hx : x.storedFraction < 2 ^ 52 := Nat.mod_lt _ (by decide)
  have hy : y.storedFraction < 2 ^ 52 := Nat.mod_lt _ (by decide)
  simp only [significand, scale, Nat.pow_eq] at hm he
  split_ifs at hm he <;> omega

theorem bits_eq (x : Binary64) : x.bits.toNat =
    x.negative.toNat * 2 ^ 63 + x.storedExponent * 2 ^ 52 + x.storedFraction := by
  have hlt := x.bits.toNat_lt
  have hsign : x.negative.toNat = x.bits.toNat / 2 ^ 63 := by
    have hbit : x.bits.toNat / 2 ^ 63 = 0 ∨ x.bits.toNat / 2 ^ 63 = 1 := by omega
    unfold negative
    rw [Nat.pow_eq]
    rcases hbit with h | h
    · rw [h]
      rfl
    · rw [h]
      rfl
  rw [hsign, storedExponent, storedFraction, Nat.pow_eq, Nat.pow_eq]
  omega

/-- Sign and number determine the bits. -/
theorem eq_of_magnitude_eq {x y : Binary64} (hs : x.negative = y.negative)
    (hm : x.magnitude = y.magnitude) : x = y := by
  rw [magnitude_eq, magnitude_eq] at hm
  obtain ⟨hsig, hscale⟩ := x.canonical.unique y.canonical hm
  obtain ⟨hexp, hfrac⟩ := stored_eq_of_significand hsig hscale
  have hbits : x.bits.toNat = y.bits.toNat := by
    rw [bits_eq, bits_eq, hs, hexp, hfrac]
  cases x
  cases y
  exact congrArg _ (UInt64.toNat_inj.1 hbits)

end Stencil.Binary64
