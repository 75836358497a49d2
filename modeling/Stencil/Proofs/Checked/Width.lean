import Mathlib
import Stencil.Checked.Width
import Stencil.Render.Scalar

/-!
# Either width is the number that it keeps

The ways of the two widths end at the same digits, counts, characters and texts, those of the number
that is kept.

* `Kept.digits_eq` — digits, those of the least number of 128 bits included.
* `Kept.below?_eq` — words below a limit.
* `Kept.Faithful`, `Kept.faithful` — all ways together.
-/

namespace Stencil.Kept

/-! ## Digits -/

theorem wordDigits_eq {base : BitVec 128} (hb : 1 < base.toNat) (word : BitVec 128)
    (known : List Nat) :
    wordDigits base word known = Digits.ofNatAux base.toNat word.toNat known := by
  have hdiv (word : BitVec 128) : word / base = 0 ↔ word.toNat < base.toNat := by
    rw [← BitVec.toNat_inj, BitVec.toNat_udiv]
    exact Nat.div_eq_zero_iff_lt (by omega)
  fun_induction wordDigits base word known with
  | case1 word known known' h =>
    have hlt : word.toNat < base.toNat := (hdiv word).1 (h.resolve_right (by omega))
    rw [Digits.ofNatAux, if_pos (.inl hlt)]
    simp only [known', BitVec.toNat_umod, Nat.mod_eq_of_lt hlt]
  | case2 word known known' h ih =>
    rw [hdiv] at h
    rw [ih, Digits.ofNatAux.eq_def base.toNat word.toNat, if_neg (by omega), BitVec.toNat_udiv,
      ← BitVec.toNat_umod]

/-- The magnitude of a signed word is an unsigned word, even that of the least. -/
theorem toNat_abs (bits : BitVec 128) : bits.abs.toNat = bits.toInt.natAbs := by
  rw [BitVec.toNat_abs, BitVec.toInt_eq_msb_cond]
  have hlt := bits.isLt
  split_ifs <;> omega

theorem digits_eq {base : Nat} (hb : 1 < base) (hlt : base < Nat.pow 2 128) (i : Kept) :
    i.digits base = Digits.ofNat base i.value.natAbs := by
  cases i with
  | narrow bits =>
    have hbase : (BitVec.ofNat 128 base).toNat = base := by
      rw [BitVec.toNat_ofNat]
      exact Nat.mod_eq_of_lt hlt
    rw [digits, wordDigits_eq (by rwa [hbase]), hbase, toNat_abs]
    rfl
  | wide v => rfl

theorem negative_eq (i : Kept) : i.negative = decide (i.value < 0) := by
  cases i with
  | narrow bits =>
    rw [Bool.eq_iff_iff, negative, BitVec.slt, BitVec.ofNat_eq_ofNat, BitVec.toInt_zero,
      decide_eq_true_iff, decide_eq_true_iff, value]
  | wide v => rfl

/-! ## Words -/

theorem below?_eq (limit : Nat) (i : Kept) :
    i.below? limit =
      if 0 ≤ i.value ∧ i.value.toNat < limit then some i.value.toNat else none := by
  cases i with
  | narrow bits =>
    have hsign : bits.slt 0 = true ↔ bits.toInt < 0 := by
      rw [BitVec.slt, BitVec.ofNat_eq_ofNat, BitVec.toInt_zero, decide_eq_true_iff]
    rw [below?, value]
    by_cases hneg : bits.toInt < 0
    · rw [if_pos (.inl (hsign.2 hneg)), if_neg (by omega)]
    · have hnat : bits.toInt.toNat = bits.toNat := by
        have hvalue := BitVec.toInt_eq_toNat_cond bits
        have hlt := bits.isLt
        split_ifs at hvalue <;> omega
      rw [hnat]
      by_cases hlimit : limit ≤ bits.toNat
      · rw [if_pos (.inr hlimit), if_neg (by omega)]
      · rw [if_neg (by rw [hsign]; omega), if_pos (by omega)]
  | wide v =>
    cases v with
    | ofNat n => simp [below?, value]
    | negSucc n => simp [below?, value]

/-- All ways of a whole number are those of the number that is kept. -/
structure Faithful (i : Kept) : Prop where
  digits : ∀ base, 1 < base → base ≤ 16 → i.digits base = Digits.ofNat base i.value.natAbs
  negative : i.negative = decide (i.value < 0)
  count : i.count? = i.toValue.word?
  point : i.point? = charOfPoint? i.value
  display : i.display = i.toValue.display

theorem faithful (i : Kept) : i.Faithful where
  digits base hb hle := i.digits_eq hb (Nat.lt_of_le_of_lt hle (by decide))
  negative := i.negative_eq
  count := by
    rw [count?, below?_eq]
    cases i <;> rfl
  point := by
    rw [point?, below?_eq, charOfPoint?]
    by_cases hvalid : 0 ≤ i.value ∧ i.value.toNat.isValidChar
    · have hword : i.value.toNat < 2 ^ 32 := by
        rcases hvalid.2 with h | h <;> omega
      rw [if_pos ⟨hvalid.1, hword⟩, if_pos hvalid, Option.bind_some, if_pos hvalid.2]
    · rw [if_neg hvalid]
      split_ifs with hword
      · exact if_neg fun h => hvalid ⟨hword.1, h⟩
      · rfl
  display := by
    have hdisplay : i.toValue.display = Digits.signedDecimal i.value := by cases i <;> rfl
    rw [hdisplay, display, i.digits_eq (by decide) (by decide), i.negative_eq, Digits.signedDecimal,
      Digits.decimal]
    by_cases hneg : i.value < 0 <;> simp [hneg]

end Stencil.Kept
