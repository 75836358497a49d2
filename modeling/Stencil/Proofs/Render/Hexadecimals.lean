import Stencil.Proofs.Number.Hexadecimal
import Stencil.Proofs.Render.Decimals

/-!
# Numbers in hexadecimal notation

What the code `a` writes for every number, from the template to the text: the number itself, without
any rounding.

* `Quantity.exact` — the number that is to be written; a double stands for the number of its bits.
* `Quantity.binary_eq_ok` — the binary digits are that number in scientific form.
* `formatWith_hexFloat` — the hexadecimal of the number is what is written, and doubles that differ
  are written differently.
-/

namespace Stencil

/-! ## Binary digits -/

/-- The normal form has no more digits behind the point than there were digits but one. -/
theorem Numeral.length_fraction_normalize (n : Numeral) :
    n.normalize.fraction.length ≤ n.digits.length - 1 := by
  unfold normalize
  split
  · exact Nat.zero_le _
  · rename_i lead rest hcons
    have htrim := (Digits.trimTrailing_sublist rest).length_le
    have hlen : (Digits.trimLeading n.digits).length ≤ n.digits.length :=
      (List.dropWhile_sublist _).length_le
    rw [hcons, List.length_cons] at hlen
    show (Digits.trimTrailing rest).length ≤ n.digits.length - 1
    omega

theorem Numeral.length_fraction_ofScaled (negative : Bool) (base m : Nat) (exponent : Int) :
    (ofScaled negative base m exponent).fraction.length ≤ (Digits.ofNat base m).length - 1 := by
  refine (length_fraction_normalize _).trans ?_
  simp [digits]

/-- A double has at most 52 binary digits behind the point. -/
theorem Numeral.length_fraction_ofFloatBinary {x : Binary64} {n : Numeral}
    (h : ofFloatBinary x = .ok n) : n.fraction.length ≤ 52 := by
  unfold ofFloatBinary at h
  split_ifs at h
  obtain rfl := Except.ok.inj h
  have hdigits : (Digits.ofNat 2 x.significand).length ≤ 53 := by
    rw [Digits.ofNat_eq_digits (by decide)]
    split_ifs
    · decide
    · rw [List.length_reverse, Nat.digits_length_le_iff (by decide)]
      exact x.canonical.lt
  have hlen := length_fraction_ofScaled x.negative 2 x.significand x.scale
  omega

namespace Quantity

/-- A quantity without its sign; a double stands for the number of its bits. -/
def exact : Quantity → ℚ
  | integer v => v.natAbs
  | float x => x.magnitude

/-- The binary digits of a quantity are its number in scientific form. -/
theorem binary_eq_ok {q : Quantity} (hq : q.Finite) :
    ∃ n, q.binary = .ok n ∧ n.Scientific ∧ n.magnitude = q.exact ∧ n.base = 2 ∧
      n.negative = q.negative := by
  cases q with
  | integer v =>
    obtain ⟨hsci, hmag, hbase, hneg⟩ :=
      Numeral.ofScaled_spec (show 1 < 2 by omega) (decide (v < 0)) v.natAbs 0
    refine ⟨_, rfl, hsci, hmag.trans ?_, hbase, hneg⟩
    rw [zpow_zero, mul_one, exact]
  | float x =>
    obtain ⟨hsci, hmag, hbase, hneg⟩ :=
      Numeral.ofScaled_spec (show 1 < 2 by omega) x.negative x.significand x.scale
    refine ⟨_, ?_, hsci, hmag.trans ?_, hbase, hneg⟩
    · rw [binary_float, Numeral.ofFloatBinary, if_pos (show x.isFinite = true from hq)]
    · rw [exact, Binary64.magnitude_eq]
      norm_num

end Quantity

/-! ## From the template to the text -/

theorem plainTemplate_hexFloat : plainTemplate false none (.hexFloat .lower) = "\x7b:a\x7d" := by
  decide

/-- The code `a` writes the hexadecimal of any number with digits. -/
theorem formatWith_of_exact {v : Value} {q : Quantity} (hv : v.quantity? = some q) (hq : q.Finite)
    (options : Options) :
    ∃ d : Hexadecimal, d.IsExact q.negative q.exact ∧
      (∀ x, q = .float x → d.fraction.length ≤ 13) ∧
      formatWith "\x7b:a\x7d" [v] options = .ok (String.ofList d.text) := by
  obtain ⟨n, hn, hsci, hmag, hbase, hneg⟩ := Quantity.binary_eq_ok hq
  obtain ⟨m, hm, hhex, hlen⟩ := Numeral.toHex_eq_ok hsci hbase
  rw [hneg, hmag] at hhex
  have hfigure : q.finiteFigure (Element.plain false none (.hexFloat .lower)) =
      .ok (.finite m .hexadecimal) := by
    simp only [Quantity.finiteFigure, Element.plain, hn, Figure.hexadecimal, bind, Except.bind, hm]
    rfl
  have hlead : (if q.exact = 0 then 0 else 1) < 16 := by split_ifs <;> decide
  refine ⟨Hexadecimal.ofNumeral m, Hexadecimal.isExact_ofNumeral hhex, ?_, ?_⟩
  · rintro x rfl
    have hshort := Numeral.length_fraction_ofFloatBinary hn
    have hle : m.fraction.length ≤ 13 := hlen.trans (by omega)
    exact hle
  · rw [← plainTemplate_hexFloat, formatWith_plain hv hq (by simp) (.inr rfl) (by simp) hfigure,
      Figure.written_hexadecimal hhex.whole hlead hhex.fraction]

/-- The code `a` writes every finite double and every whole number exactly, with a leading one
unless it is zero and with no zeros at the end, a double with at most 13 digits behind the point.
Doubles that are not the same bits are not written the same. -/
theorem formatWith_hexFloat (options : Options) :
    (∀ x : Binary64, x.isFinite = true →
      ∃ d : Hexadecimal, d.IsExact x.negative x.magnitude ∧ d.fraction.length ≤ 13 ∧
        formatWith "\x7b:a\x7d" [.float x] options = .ok (String.ofList d.text)) ∧
    (∀ x y : Binary64, x.isFinite = true → y.isFinite = true →
      formatWith "\x7b:a\x7d" [.float x] options = formatWith "\x7b:a\x7d" [.float y] options →
        x = y) ∧
    ∀ (v : Value) (n : Int), v = .int n ∨ v = .big n →
      ∃ d : Hexadecimal, d.IsExact (decide (n < 0)) n.natAbs ∧
        formatWith "\x7b:a\x7d" [v] options = .ok (String.ofList d.text) := by
  have hfloat : ∀ x : Binary64, x.isFinite = true →
      ∃ d : Hexadecimal, d.IsExact x.negative x.magnitude ∧ d.fraction.length ≤ 13 ∧
        formatWith "\x7b:a\x7d" [.float x] options = .ok (String.ofList d.text) := by
    intro x hx
    obtain ⟨d, hd, hlen, htext⟩ :=
      formatWith_of_exact (show (Value.float x).quantity? = some (.float x) from rfl) hx options
    exact ⟨d, hd, hlen x rfl, htext⟩
  refine ⟨hfloat, ?_, ?_⟩
  · intro x y hx hy h
    obtain ⟨d, hd, -, htext⟩ := hfloat x hx
    obtain ⟨e, he, -, htext'⟩ := hfloat y hy
    rw [htext, htext'] at h
    have hlists := String.ofList_inj.1 (Except.ok.inj h)
    obtain rfl := Hexadecimal.text_inj hd.wellFormed he.wellFormed hlists
    exact Binary64.eq_of_magnitude_eq (hd.negative.symm.trans he.negative)
      (hd.magnitude.symm.trans he.magnitude)
  · intro v n hv
    have hquantity : v.quantity? = some (.integer n) := by
      rcases hv with rfl | rfl <;> rfl
    obtain ⟨d, hd, -, htext⟩ := formatWith_of_exact hquantity trivial options
    exact ⟨d, hd, htext⟩

/-- The least subnormal, the negative zero, and a whole number that is negative. -/
theorem formatWith_hexFloat_least :
    let x : Binary64 := ⟨1⟩
    let y : Binary64 := ⟨0x8000000000000000⟩
    x.isFinite = true ∧ y.isFinite = true ∧
      (∃ d : Hexadecimal, d.IsExact x.negative x.magnitude ∧ d.fraction.length ≤ 13 ∧
        formatWith "\x7b:a\x7d" [.float x] {} = .ok (String.ofList d.text)) ∧
      formatWith "\x7b:a\x7d" [.float x] {} ≠ formatWith "\x7b:a\x7d" [.float y] {} ∧
      ∃ d : Hexadecimal, d.IsExact (decide ((-255 : Int) < 0)) (-255 : Int).natAbs ∧
        formatWith "\x7b:a\x7d" [.big (-255)] {} = .ok (String.ofList d.text) := by
  intro x y
  have hx : x.isFinite = true := by decide
  have hy : y.isFinite = true := by decide
  obtain ⟨hexact, hinj, hwhole⟩ := formatWith_hexFloat {}
  refine ⟨hx, hy, hexact x hx, ?_, hwhole (.big (-255)) (-255) (.inr rfl)⟩
  intro h
  exact absurd (hinj x y hx hy h) (by decide)

end Stencil
