import Stencil.Number.Numeral
import Stencil.Proofs.Number.Binary64
import Stencil.Proofs.Number.Magnitude

/-!
# Reading back a decimal with a power of ten

The digits and the power that are written for a decimal are what is read from its text. A double has
its shortest decimal far inside the range of a signed word, so that the text of a double is never
refused.

* `signedWord?_signedDecimal` — a signed word is read back.
* `readExponential_exponential` — so are digits with a power of ten.
* `Binary64.shortest_le`, `exists_shortestDigits` — how large the shortest decimal of a double can be,
  and what its digits are.
* `readExponential_shortest`, `Numeral.ofFloat_eq_ok` — the digits of a double are those of its
  shortest decimal.
-/

namespace Stencil

/-! ## Digits and signed words -/

/-- A text is split at the first mark in it. -/
theorem Text.splitOnce?_append {mark : Char} {front : List Char} (h : mark ∉ front)
    (back : List Char) : splitOnce? mark (front ++ mark :: back) = some (front, back) := by
  have hfront : ∀ c ∈ front, (c != mark) = true :=
    fun c hc => bne_iff_ne.2 fun hmark => h (hmark ▸ hc)
  have htake : (front ++ mark :: back).takeWhile (· != mark) = front := by
    rw [List.takeWhile_append_of_pos hfront]
    simp
  have hdrop : (front ++ mark :: back).dropWhile (· != mark) = mark :: back := by
    rw [List.dropWhile_append_of_pos hfront]
    simp
  rw [splitOnce?, hdrop, htake]

namespace Digits

theorem decimalDigit?_char {d : Nat} (hd : d < 10) :
    decimalDigit? (char d) = some d ∧ (char d).isDigit = true := by
  have hall : ∀ d < 10, decimalDigit? (char d) = some d ∧ (char d).isDigit = true := by decide
  exact hall d hd

theorem mapM_decimalDigit? {digits : List Nat} (h : InBase 10 digits) :
    (chars digits).mapM decimalDigit? = some digits := by
  induction digits with
  | nil => rfl
  | cons d digits ih =>
    rw [inBase_cons] at h
    have hrest := ih h.2
    rw [chars] at hrest
    rw [chars, List.map_cons, List.mapM_cons, (decimalDigit?_char h.1).1, hrest]
    rfl

theorem isDigit_of_mem_chars {digits : List Nat} (h : InBase 10 digits) {c : Char}
    (hc : c ∈ chars digits) : c.isDigit = true := by
  obtain ⟨d, hd, rfl⟩ := List.mem_map.1 hc
  exact (decimalDigit?_char (h d hd)).2

theorem natural?_decimal (n : Nat) : natural? (decimal n) = some n := by
  have hten : 1 < 10 := by decide
  have hne : (decimal n).isEmpty = false := by
    simpa [decimal, chars] using ofNat_ne_nil hten n
  rw [natural?, hne, decimal, mapM_decimalDigit? (inBase_ofNat hten n), Option.map_some,
    value_ofNat]
  rfl

/-- A signed word is read back from its decimal digits. -/
theorem signedWord?_signedDecimal {v : Int} (h : -(Nat.pow 2 63 : Int) ≤ v ∧ v < Nat.pow 2 63) :
    signedWord? (signedDecimal v) = some v := by
  have hkept (number : Option Int) (hnumber : number = some v) :
      (number.filter fun v => -(Nat.pow 2 63 : Int) ≤ v ∧ v < Nat.pow 2 63) = some v := by
    rw [hnumber, Option.filter_some, decide_eq_true h, if_pos rfl]
  rw [signedDecimal]
  split_ifs with hneg
  · refine hkept _ ?_
    show (natural? (decimal v.natAbs)).map (fun n => -Int.ofNat n) = some v
    rw [natural?_decimal]
    exact congrArg some (by simp only [Int.ofNat_eq_natCast]; omega)
  · have hin := inBase_ofNat (show 1 < 10 by decide) v.natAbs
    have hdigit : ∀ c ∈ decimal v.natAbs, c.isDigit = true := fun c => isDigit_of_mem_chars hin
    refine hkept _ ?_
    split
    · rename_i digits hminus
      exact absurd (hdigit '-' (by rw [hminus]; exact List.mem_cons_self)) (by decide)
    · rename_i digits hplus
      exact absurd (hdigit '+' (by rw [hplus]; exact List.mem_cons_self)) (by decide)
    · rw [natural?_decimal]
      exact congrArg some (Int.natAbs_of_nonneg (not_lt.1 hneg))

/-! ## Digits with a point -/

theorem mem_pointed {digits : List Char} {c : Char} (h : c ∈ pointed digits) :
    c = '.' ∨ c ∈ digits := by
  match digits, h with
  | [lead], h => exact .inr h
  | lead :: next :: rest, h =>
    rcases List.mem_cons.1 h with rfl | h
    · exact .inr List.mem_cons_self
    · exact (List.mem_cons.1 h).imp_right (List.mem_cons_of_mem lead)

/-- The point can be taken out again. -/
theorem filter_pointed {digits : List Char} (h : '.' ∉ digits) :
    (pointed digits).filter (· != '.') = digits := by
  have hkept : digits.filter (· != '.') = digits :=
    List.filter_eq_self.2 fun c hc => bne_iff_ne.2 fun hpoint => h (hpoint ▸ hc)
  match digits, hkept with
  | [], _ => rfl
  | [lead], hkept => exact hkept
  | lead :: next :: rest, hkept =>
    have hpoint : ('.' :: next :: rest).filter (· != '.') = (next :: rest).filter (· != '.') :=
      List.filter_cons_of_neg (by decide)
    rw [List.filter_cons] at hkept
    show (lead :: '.' :: next :: rest).filter (· != '.') = lead :: next :: rest
    rw [List.filter_cons, hpoint, hkept]

end Digits

/-! ## Decimals with a power of ten -/

/-- Digits and their power are read back from what is written for them. -/
theorem Numeral.readExponential_exponential {digits : List Nat} (h : Digits.InBase 10 digits)
    {exponent : Int}
    (hword : -(Nat.pow 2 63 : Int) ≤ exponent ∧ exponent < Nat.pow 2 63) :
    readExponential (Digits.exponential (Digits.chars digits) exponent) =
      .ok (digits, exponent) := by
  have hdigit : ∀ c ∈ Digits.chars digits, c.isDigit = true :=
    fun c => Digits.isDigit_of_mem_chars h
  have hpoint : '.' ∉ Digits.chars digits := fun hc => absurd (hdigit '.' hc) (by decide)
  have hmark : 'e' ∉ Digits.pointed (Digits.chars digits) := by
    intro hc
    rcases Digits.mem_pointed hc with hc | hc
    · exact absurd hc (by decide)
    · exact absurd (hdigit 'e' hc) (by decide)
  rw [readExponential, Digits.exponential, Text.splitOnce?_append hmark]
  dsimp only
  rw [Digits.signedWord?_signedDecimal hword]
  dsimp only
  rw [Digits.filter_pointed hpoint, Digits.mapM_decimalDigit? h]

/-! ## The shortest decimal of a double -/

namespace Binary64

theorem scale_le (x : Binary64) : x.scale ≤ 972 ∧ -1074 ≤ x.scale := by
  have hstored : x.storedExponent < 2048 := Nat.mod_lt _ (by decide)
  rw [scale]
  split_ifs <;> omega

/-- Four binary digits are more than one decimal digit. -/
theorem pow_ten_le (j : Nat) : Nat.pow 10 j ≤ 2 ^ (4 * j) := by
  rw [Nat.pow_mul]
  exact Nat.pow_le_pow_left (by decide) j

theorem weights_le (x : Binary64) (k : Int) :
    (x.weights k).2 ≤ 2 ^ (x.scale.toNat + 4 * (-k).toNat) := by
  have hnum : (quotient 1 (x.scale - 2)).1 ≤ 2 ^ x.scale.toNat := by
    rw [quotient]
    split_ifs
    · rw [Nat.one_mul]
      exact Nat.pow_le_pow_right Nat.two_pos (by omega)
    · exact Nat.one_le_two_pow
  rw [weights]
  dsimp only
  split_ifs
  · exact hnum.trans (Nat.pow_le_pow_right Nat.two_pos (Nat.le_add_right _ _))
  · rw [Nat.pow_add]
    exact Nat.mul_le_mul hnum (pow_ten_le _)

/-- A grid point near a double is not out of proportion. -/
theorem gridPoint?_le {x : Binary64} {k : Int} {d : Nat} (h : x.gridPoint? k = some d) :
    d ≤ 2 ^ (55 + (x.scale.toNat + 4 * (-k).toNat)) + 1 := by
  have hquarters : x.quarters ≤ 2 ^ 55 := by
    have hsignificand := x.canonical.lt
    rw [quarters]
    omega
  have hbelow : x.quarters * (x.weights k).2 / (x.weights k).1 ≤
      2 ^ (55 + (x.scale.toNat + 4 * (-k).toNat)) := by
    rw [Nat.pow_add 2 55]
    exact (Nat.div_le_self _ _).trans (Nat.mul_le_mul hquarters (weights_le x k))
  have hpoint : d ≤ x.quarters * (x.weights k).2 / (x.weights k).1 + 1 := by
    rw [gridPoint?] at h
    dsimp only at h
    split_ifs at h <;> cases h <;> omega
  exact hpoint.trans (Nat.succ_le_succ hbelow)

theorem log2_le_of_le_two_pow {d e : Nat} (h : d ≤ 2 ^ e + 1) : d.log2 ≤ e + 1 := by
  rcases Nat.eq_zero_or_pos d with rfl | hpos
  · exact Nat.zero_le _
  · have hone := Nat.one_le_two_pow (n := e)
    have hnext : 2 ^ (e + 2) = 4 * 2 ^ e := by ring
    exact Nat.le_of_lt_succ ((Nat.log2_lt hpos.ne').2 (by omega))

theorem shortest_le (x : Binary64) : x.shortest.1.log2 ≤ 2400 ∧ x.shortest.2.natAbs ≤ 400 := by
  rw [shortest]
  split_ifs
  · exact ⟨Nat.zero_le _, Nat.zero_le _⟩
  · cases hfound : (List.range gridCount).findSome? fun (i : Nat) =>
        (x.gridPoint? (coarsest - (i : Int))).map (·, coarsest - (i : Int)) with
    | none => exact ⟨Nat.zero_le _, Nat.zero_le _⟩
    | some found =>
      obtain ⟨i, hi, hpoint⟩ := List.exists_of_findSome?_eq_some hfound
      obtain ⟨d, hd, rfl⟩ := Option.map_eq_some_iff.1 hpoint
      have hrange : i < 634 := List.mem_range.1 hi
      have hcoarsest : coarsest = 309 := rfl
      have hlog := log2_le_of_le_two_pow (gridPoint?_le hd)
      have hscale := x.scale_le.1
      dsimp only [Option.getD_some]
      omega

/-- Behind the first digit of the shortest decimal there are no zeros at the end, and its power
makes up for all digits behind it. -/
theorem exists_shortestDigits (x : Binary64) :
    ∃ lead rest, Digits.ofNat 10 x.shortest.1 = lead :: rest ∧
      x.shortestDigits = (lead :: Digits.trimTrailing rest, x.shortest.2 + rest.length) := by
  obtain ⟨lead, rest, hdigits⟩ :=
    List.exists_cons_of_ne_nil (Digits.ofNat_ne_nil (show 1 < 10 by decide) x.shortest.1)
  refine ⟨lead, rest, hdigits, ?_⟩
  rw [shortestDigits]
  dsimp only
  rw [hdigits, List.length_cons, Nat.cast_succ, ← Int.add_assoc, Int.add_sub_cancel]
  rfl

/-- What is written for the shortest decimal of a double is read back. -/
theorem readExponential_shortest (x : Binary64) :
    Numeral.readExponential x.exponential = .ok x.shortestDigits := by
  have hten : 1 < 10 := by decide
  have hlimit : (3000 : Int) < Nat.pow 2 63 := by decide
  obtain ⟨hcoefficient, hscale⟩ := x.shortest_le
  obtain ⟨lead, rest, hdigits, hshort⟩ := x.exists_shortestDigits
  have hlength := Digits.length_ofNat_le hten x.shortest.1
  have hin := Digits.inBase_ofNat hten x.shortest.1
  rw [hdigits, List.length_cons] at hlength
  rw [hdigits] at hin
  rw [exponential, hshort]
  exact Numeral.readExponential_exponential
    (hin.sublist ((Digits.trimTrailing_sublist rest).cons_cons lead)) (by omega)

end Binary64

/-- The zeros at the end of the digits make no difference in scientific form. -/
theorem Numeral.normalize_shortestDigits (x : Binary64) (negative : Bool) :
    normalize
        { negative, whole := x.shortestDigits.1.take 1, fraction := x.shortestDigits.1.drop 1,
          exponent := x.shortestDigits.2, base := 10, radix := 10 } =
      ofScaled negative 10 x.shortest.1 x.shortest.2 := by
  have hten : 1 < 10 := by decide
  obtain ⟨lead, rest, hdigits, hshort⟩ := x.exists_shortestDigits
  rw [hshort, ofScaled, hdigits, normalize, normalize]
  simp only [digits, List.take_succ_cons, List.take_zero, List.drop_succ_cons, List.drop_zero,
    List.append_nil, List.singleton_append]
  by_cases hlead : lead = 0
  · -- only zero starts with a zero, and it is a single digit
    have hzero : x.shortest.1 = 0 := by
      by_contra hne
      exact Digits.head_ofNat_ne_zero hten hne (by rw [hdigits, hlead]; rfl)
    rw [hzero, Digits.ofNat_eq_digits hten, if_pos rfl] at hdigits
    obtain ⟨rfl, rfl⟩ := List.cons.inj hdigits
    rfl
  · rw [Digits.trimLeading_cons_of_ne hlead, Digits.trimLeading_cons_of_ne hlead]
    dsimp only
    rw [Digits.trimTrailing_trimTrailing]
    congr 1
    simp only [List.length_cons, List.length_nil]
    omega

/-- The digits of a double are those of its shortest decimal: its text is read without refusal. -/
theorem Numeral.ofFloat_eq_ok {x : Binary64} (hx : x.isFinite = true) :
    ofFloat x = .ok (ofScaled x.negative 10 x.shortest.1 x.shortest.2) := by
  rw [ofFloat, if_pos hx, x.readExponential_shortest, ← normalize_shortestDigits]
  rfl

end Stencil
