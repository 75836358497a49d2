import Stencil.Number.Written
import Stencil.Proofs.Number.Binary64
import Stencil.Proofs.Number.Decimal

/-!
# Hexadecimals as they are written

A number in hexadecimal digits and a power of two. Its binary digits are cut into groups of four
behind the point, so the number stays what it is, however many digits there are.

* `fractional_nibbles` — groups of four binary digits are the same fraction in hexadecimal.
* `Numeral.toHex_eq_ok` — regrouping keeps the number, with a leading one unless it is zero.
* `Hexadecimal` — the parts of the text, with the number they denote (`magnitude`).
* `Hexadecimal.text`, `Hexadecimal.text_inj` — the text, from which the parts can be told.
* `Figure.written_hexadecimal` — that is how a figure is written if nothing but the code and a
  precision are given.
-/

namespace Stencil

/-! ## Groups of four binary digits -/

namespace Digits

theorem fractional_append {base : Nat} (hb : base ≠ 0) (front back : List Nat) :
    fractional base (front ++ back) =
      fractional base front + fractional base back / (base : ℚ) ^ front.length := by
  have hbq : (base : ℚ) ≠ 0 := Nat.cast_ne_zero.2 hb
  rw [fractional, fractional, fractional, value_append, List.length_append, pow_add]
  push_cast
  field_simp

theorem fractional_trimTrailing {base : Nat} (hb : base ≠ 0) (digits : List Nat) :
    fractional base (trimTrailing digits) = fractional base digits := by
  obtain ⟨count, hcount⟩ := trimTrailing_eq digits
  conv_rhs => rw [hcount]
  rw [fractional_append_zeros hb]

/-- One hexadecimal digit for four binary ones. -/
theorem fractional_nibble {bits : List Nat} (h : bits.length = 4) :
    fractional 16 [value 2 bits] = fractional 2 bits := by
  rw [fractional, fractional, value_singleton, h]
  norm_num

theorem length_le_three {short : List Nat}
    (h : ∀ (a b c d : Nat) (rest : List Nat), short = a :: b :: c :: d :: rest → False) :
    short.length ≤ 3 := by
  match short, h with
  | [], _ => simp
  | [_], _ => simp
  | [_, _], _ => simp
  | [_, _, _], _ => simp
  | a :: b :: c :: d :: rest, h => exact (h a b c d rest rfl).elim

/-- Binary digits behind the point and their groups of four are the same fraction. -/
theorem fractional_nibbles (bits : List Nat) :
    fractional 16 (Numeral.nibbles bits) = fractional 2 bits := by
  fun_induction Numeral.nibbles bits with
  | case1 a b c d rest ih =>
    have hsplit : a :: b :: c :: d :: rest = [a, b, c, d] ++ rest := rfl
    have hcons : value 2 [a, b, c, d] :: Numeral.nibbles rest =
        [value 2 [a, b, c, d]] ++ Numeral.nibbles rest := rfl
    rw [hsplit, hcons, fractional_append (by decide), fractional_append (by decide), ih,
      fractional_nibble rfl]
    norm_num
  | case2 => simp [fractional]
  | case3 short hlong hne =>
    have hlen := length_le_three hlong
    rw [fractional_nibble (by rw [length_padTrailing]; omega), padTrailing,
      fractional_append_zeros (by decide)]

theorem inBase_nibbles {bits : List Nat} (h : InBase 2 bits) :
    InBase 16 (Numeral.nibbles bits) := by
  fun_induction Numeral.nibbles bits with
  | case1 a b c d rest ih =>
    have hsplit : InBase 2 ([a, b, c, d] ++ rest) := h
    obtain ⟨hfour, hrest⟩ := inBase_append.1 hsplit
    exact inBase_cons.2 ⟨value_lt_pow (by decide) hfour, ih hrest⟩
  | case2 => exact inBase_nil
  | case3 short hlong hne =>
    have hlen := length_le_three hlong
    have hlt := value_lt_pow (by decide) (inBase_padTrailing (by decide) 4 h)
    rw [length_padTrailing, max_eq_left (by omega)] at hlt
    exact inBase_cons.2 ⟨hlt, inBase_nil⟩

/-- One hexadecimal digit for every four binary ones, and one for those that are left. -/
theorem length_nibbles (bits : List Nat) :
    (Numeral.nibbles bits).length = (bits.length + 3) / 4 := by
  fun_induction Numeral.nibbles bits with
  | case1 a b c d rest ih =>
    simp only [List.length_cons, ih]
    omega
  | case2 => rfl
  | case3 short hlong hne =>
    have hlen := length_le_three hlong
    have hpos := List.length_pos_iff.2 hne
    rw [List.length_singleton]
    omega

end Digits

/-! ## Regrouping -/

namespace Numeral

/-- A numeral in hexadecimal digits and a power of two as it is written, for a number and a sign. -/
structure IsHexOf (m : Numeral) (negative : Bool) (x : ℚ) : Prop where
  base : m.base = 16
  radix : m.radix = 2
  negative : m.negative = negative
  magnitude : m.magnitude = x
  whole : m.whole = [if x = 0 then 0 else 1]
  fraction : Digits.InBase 16 m.fraction
  last : m.fraction.getLast? ≠ some 0
  zero : x = 0 → m.fraction = [] ∧ m.exponent = 0

variable {n : Numeral}

theorem Scientific.magnitude_eq_zero_iff (h : n.Scientific) :
    n.magnitude = 0 ↔ n.coefficient = 0 := by
  have hb : (n.base : ℚ) ≠ 0 := Nat.cast_ne_zero.2 h.valid.base_ne_zero
  rw [magnitude_eq h.valid.base_ne_zero h.radix_eq, mul_eq_zero,
    or_iff_left (zpow_ne_zero _ hb), Nat.cast_eq_zero]

/-- The digit before the point of a binary number is a one. -/
theorem Scientific.whole_of_base_two (h : n.Scientific) (hb : n.base = 2)
    (hne : n.coefficient ≠ 0) : n.whole = [1] := by
  obtain ⟨d, hd⟩ := List.length_eq_one_iff.1 h.length_whole
  have hlt := h.valid.whole d (by rw [hd]; exact List.mem_singleton_self d)
  have hzero : d ≠ 0 := by
    rintro rfl
    exact h.whole_of_ne_zero hne hd
  obtain rfl : d = 1 := by omega
  exact hd

/-- Regrouping the binary digits of a number keeps it. -/
theorem toHex_eq_ok (h : n.Scientific) (hb : n.base = 2) :
    ∃ m, n.toHex = .ok m ∧ m.IsHexOf n.negative n.magnitude ∧
      m.fraction.length ≤ (n.fraction.length + 3) / 4 := by
  have hguard : ¬ (n.base ≠ 2 ∨ n.whole.length ≠ 1) := by
    rw [not_or, not_not, not_not]
    exact ⟨hb, h.length_whole⟩
  have hpos : 0 < n.base := Nat.pos_of_ne_zero h.valid.base_ne_zero
  rw [toHex, if_neg hguard]
  by_cases hz : n.coefficient = 0
  · have hmag := h.magnitude_eq_zero_iff.2 hz
    rw [if_pos ((isZero_iff hpos).2 hz)]
    refine ⟨_, rfl, ⟨rfl, rfl, rfl, ?_, ?_, Digits.inBase_nil, by simp [zero], fun _ => ⟨rfl, rfl⟩⟩,
      Nat.zero_le _⟩
    · rw [hmag, magnitude, mantissa, coefficient]
      simp [digits, zero, Digits.value]
    · rw [hmag]
      rfl
  · have hmag : n.magnitude ≠ 0 := mt h.magnitude_eq_zero_iff.1 hz
    have hwhole := h.whole_of_base_two hb hz
    have hbits := h.valid.fraction
    rw [hb] at hbits
    rw [if_neg (mt (isZero_iff hpos).1 hz)]
    refine ⟨_, rfl, ⟨rfl, rfl, rfl, ?_, by rw [if_neg hmag, hwhole],
      (Digits.inBase_nibbles hbits).sublist (Digits.trimTrailing_sublist _),
      Digits.getLast_trimTrailing_ne_zero _, fun hzero => absurd hzero hmag⟩, ?_⟩
    · have h16 : (16 : Nat) ≠ 0 := by decide
      rw [magnitude, magnitude, mantissa_eq h16, mantissa_eq h.valid.base_ne_zero, hwhole,
        Digits.fractional_trimTrailing h16, Digits.fractional_nibbles, h.radix_eq, hb,
        Digits.value_singleton, Digits.value_singleton]
    · rw [← Digits.length_nibbles]
      exact (Digits.trimTrailing_sublist _).length_le

end Numeral

/-! ## The text -/

/-- A number as it is written in hexadecimal: a digit, digits behind a point, and a power of two. -/
@[ext]
structure Hexadecimal where
  negative : Bool
  lead : Nat
  fraction : List Nat
  exponent : Int

namespace Hexadecimal

/-- The number a hexadecimal denotes, without its sign. -/
def magnitude (d : Hexadecimal) : ℚ :=
  (Nat.ofDigits 16 (d.lead :: d.fraction).reverse : Nat) / 16 ^ d.fraction.length *
    2 ^ d.exponent

/-- The digits of a hexadecimal as a number, with the point where it is. -/
def mantissa (d : Hexadecimal) : ℚ :=
  (Nat.ofDigits 16 (d.lead :: d.fraction).reverse : Nat) / 16 ^ d.fraction.length

theorem magnitude_eq (d : Hexadecimal) : d.magnitude = d.mantissa * 2 ^ d.exponent := rfl

/-- The text in front of the mark of the exponent; there is a point only if there are digits behind
it. -/
def mantissaText (d : Hexadecimal) : List Char :=
  (if d.negative then ['-'] else []) ++ Nat.digitChar d.lead ::
    (if d.fraction = [] then [] else '.' :: d.fraction.map Nat.digitChar)

/-- The text behind the mark of the exponent. -/
def exponentText (d : Hexadecimal) : List Char :=
  (if d.exponent < 0 then '-' else '+') :: Nat.toDigits 10 d.exponent.natAbs

/-- The text of a hexadecimal. -/
def text (d : Hexadecimal) : List Char :=
  d.mantissaText ++ 'p' :: d.exponentText

/-- Hexadecimal digits. -/
structure WellFormed (d : Hexadecimal) : Prop where
  lead : d.lead < 16
  fraction : ∀ i ∈ d.fraction, i < 16

/-- The digit that a character stands for. -/
def digitOf (c : Char) : Nat :=
  "0123456789abcdef".toList.idxOf c

theorem digitOf_digitChar {i : Nat} (hi : i < 16) : digitOf (Nat.digitChar i) = i := by
  have hall : ∀ i < 16, digitOf (Nat.digitChar i) = i := by decide
  exact hall i hi

theorem digitChar_inj {i j : Nat} (hi : i < 16) (hj : j < 16)
    (h : Nat.digitChar i = Nat.digitChar j) : i = j := by
  rw [← digitOf_digitChar hi, h, digitOf_digitChar hj]

theorem map_digitOf_digitChar {digits : List Nat} (h : ∀ i ∈ digits, i < 16) :
    (digits.map Nat.digitChar).map digitOf = digits := by
  rw [List.map_map]
  exact (List.map_congr_left fun i hi => digitOf_digitChar (h i hi)).trans (List.map_id _)

theorem digitChar_ne {i : Nat} (hi : i < 16) :
    Nat.digitChar i ≠ '-' ∧ Nat.digitChar i ≠ 'p' := by
  have hall : ∀ i < 16, Nat.digitChar i ≠ '-' ∧ Nat.digitChar i ≠ 'p' := by decide
  exact hall i hi

theorem not_mem_mantissaText {d : Hexadecimal} (h : d.WellFormed) : 'p' ∉ d.mantissaText := by
  intro hmem
  rcases List.mem_append.1 hmem with hmem | hmem
  · cases hn : d.negative <;> simp [hn] at hmem
  · rcases List.mem_cons.1 hmem with hmem | hmem
    · exact (digitChar_ne h.lead).2 hmem.symm
    · split_ifs at hmem
      · simp at hmem
      · rcases List.mem_cons.1 hmem with hmem | hmem
        · exact absurd hmem (by decide)
        · obtain ⟨i, hi, hchar⟩ := List.mem_map.1 hmem
          exact (digitChar_ne (h.fraction i hi)).2 hchar

theorem not_mem_exponentText (d : Hexadecimal) : 'p' ∉ d.exponentText := by
  intro hmem
  rcases List.mem_cons.1 hmem with hmem | hmem
  · split_ifs at hmem <;> exact absurd hmem (by decide)
  · exact absurd (Nat.isDigit_of_mem_toDigits (by decide) (by decide) hmem) (by decide)

theorem exponent_of_text {d e : Hexadecimal} (h : d.exponentText = e.exponentText) :
    d.exponent = e.exponent := by
  obtain ⟨hsign, hdigits⟩ := List.cons.inj h
  have hsize : d.exponent.natAbs = e.exponent.natAbs := by
    rw [← Nat.ofDigitChars_ten_toDigits (n := d.exponent.natAbs), hdigits,
      Nat.ofDigitChars_ten_toDigits]
  split_ifs at hsign <;> first | omega | exact absurd hsign (by decide)

theorem mantissa_of_text {d e : Hexadecimal} (hd : d.WellFormed) (he : e.WellFormed)
    (h : d.mantissaText = e.mantissaText) :
    d.negative = e.negative ∧ d.lead = e.lead ∧ d.fraction = e.fraction := by
  have hfraction : ∀ {first second : List Nat}, (∀ i ∈ first, i < 16) → (∀ i ∈ second, i < 16) →
      (if first = [] then [] else '.' :: first.map Nat.digitChar) =
        (if second = [] then [] else '.' :: second.map Nat.digitChar) → first = second := by
    intro first second hf hs heq
    split_ifs at heq with h1 h2 h2
    · rw [h1, h2]
    · rw [← map_digitOf_digitChar hf, (List.cons.inj heq).2, map_digitOf_digitChar hs]
  rw [mantissaText, mantissaText] at h
  cases hn : d.negative <;> cases hm : e.negative <;>
    simp only [hn, hm, if_true, if_false, List.nil_append, List.cons_append, Bool.false_eq_true]
      at h
  · obtain ⟨hlead, htail⟩ := List.cons.inj h
    exact ⟨rfl, digitChar_inj hd.lead he.lead hlead, hfraction hd.fraction he.fraction htail⟩
  · exact absurd (List.cons.inj h).1 (digitChar_ne hd.lead).1
  · exact absurd (List.cons.inj h).1.symm (digitChar_ne he.lead).1
  · obtain ⟨hlead, htail⟩ := List.cons.inj (List.cons.inj h).2
    exact ⟨rfl, digitChar_inj hd.lead he.lead hlead, hfraction hd.fraction he.fraction htail⟩

/-- The parts of a hexadecimal can be told from its text. -/
theorem text_inj {d e : Hexadecimal} (hd : d.WellFormed) (he : e.WellFormed)
    (h : d.text = e.text) : d = e := by
  obtain ⟨hmantissa, -, hexponent⟩ := (List.append_cons_inj_of_notMem
    (not_mem_mantissaText hd) (not_mem_exponentText d)).1 h
  obtain ⟨hnegative, hlead, hfraction⟩ := mantissa_of_text hd he hmantissa
  exact Hexadecimal.ext hnegative hlead hfraction (exponent_of_text hexponent)

/-! ## Numerals as hexadecimals -/

/-- A numeral in hexadecimal digits, with one of them before the point. -/
def ofNumeral (n : Numeral) : Hexadecimal where
  negative := n.negative
  lead := Digits.value 16 n.whole
  fraction := n.fraction
  exponent := n.exponent

/-- The hexadecimal of a number and a sign: all digits of the number, and none to spare. -/
structure IsExact (d : Hexadecimal) (negative : Bool) (x : ℚ) : Prop where
  negative : d.negative = negative
  lead : d.lead = if x = 0 then 0 else 1
  fraction : ∀ i ∈ d.fraction, i < 16
  last : d.fraction.getLast? ≠ some 0
  zero : x = 0 → d.fraction = [] ∧ d.exponent = 0
  magnitude : d.magnitude = x

theorem IsExact.wellFormed {d : Hexadecimal} {negative : Bool} {x : ℚ} (h : d.IsExact negative x) :
    d.WellFormed := by
  refine ⟨?_, h.fraction⟩
  rw [h.lead]
  split_ifs <;> decide

theorem mantissa_ofNumeral {n : Numeral} {lead : Nat} (hbase : n.base = 16)
    (hlead : n.whole = [lead]) : (ofNumeral n).mantissa = n.mantissa := by
  have hdigits : Nat.ofDigits 16 (Digits.value 16 n.whole :: n.fraction).reverse =
      n.coefficient := by
    rw [← Digits.value_eq_ofDigits, Numeral.coefficient, Numeral.digits, hbase, hlead,
      Digits.value_singleton]
    rfl
  rw [mantissa, Numeral.mantissa, hbase]
  simp only [ofNumeral, hdigits]
  norm_num

theorem isExact_ofNumeral {n : Numeral} {negative : Bool} {x : ℚ} (h : n.IsHexOf negative x) :
    (ofNumeral n).IsExact negative x := by
  refine ⟨h.negative, ?_, h.fraction, h.last, h.zero, ?_⟩
  · rw [ofNumeral, h.whole, Digits.value_singleton]
  · rw [magnitude_eq, mantissa_ofNumeral h.base h.whole, ← h.magnitude, Numeral.magnitude, h.radix]
    norm_num [ofNumeral]

end Hexadecimal

/-! ## Figures -/

theorem exponentDigits_one (e : Int) :
    exponentDigits e 1 = (if e < 0 then '-' else '+') :: Nat.toDigits 10 e.natAbs := by
  have hpos : 0 < (Nat.toDigits 10 e.natAbs).length := Nat.length_toDigits_pos
  have hnone : 1 - (Nat.toDigits 10 e.natAbs).length = 0 := by omega
  rw [exponentDigits, Digits.decimal_eq_toDigits]
  simp only [hnone, List.replicate_zero, List.nil_append]

/-- Hexadecimal digits are written as their numeral says, if the presentation asks for nothing but a
precision. -/
theorem Figure.written_hexadecimal {n : Numeral} {lead : Nat} (hlead : n.whole = [lead])
    (hlt : lead < 16) (hin : Digits.InBase 16 n.fraction) (precision : Option Nat)
    (options : Options) :
    (Figure.finite n .hexadecimal).written (Element.plain false precision (.hexFloat .lower))
        options = (Hexadecimal.ofNumeral n).text := by
  have hwhole : Digits.chars n.whole = [Nat.digitChar (Digits.value 16 n.whole)] := by
    rw [hlead, Digits.value_singleton, Digits.chars, List.map_singleton, Digits.char_eq_digitChar hlt]
  have hfraction := Digits.chars_eq_map_digitChar hin
  have htail : tailText n .hexadecimal (Element.plain false precision (.hexFloat .lower)) '.' =
      (if n.fraction = [] then [] else '.' :: n.fraction.map Nat.digitChar) ++
        'p' :: (Hexadecimal.ofNumeral n).exponentText := by
    have hpercent : percentText (TypeCode.hexFloat .lower) = [] := rfl
    rw [tailText, fractionText, exponentText, exponentDigits_one, Element.plain, hpercent,
      List.append_nil]
    by_cases hf : n.fraction = []
    · rw [if_neg (not_not.2 hf), if_neg (by simp), if_pos hf]
      rfl
    · rw [if_pos hf, if_neg hf, hfraction]
      rfl
  have hseparators : Separators.resolve (Element.plain false precision (.hexFloat .lower)) n.base
      options.locale = ⟨'.', none⟩ :=
    if_neg (by simp [Element.plain])
  have hparts : (Figure.finite n .hexadecimal).parts
      (Element.plain false precision (.hexFloat .lower)) options =
      (if n.negative then ['-'] else [], Nat.digitChar (Digits.value 16 n.whole) ::
        tailText n .hexadecimal (Element.plain false precision (.hexFloat .lower)) '.') := by
    simp only [parts, hseparators, wholeText, hwhole]
    cases n.negative <;> rfl
  rw [written, hparts, htail]
  show Text.padParts _ _ none _ _ = _
  rw [Text.padParts_none, Hexadecimal.text, Hexadecimal.mantissaText]
  simp only [List.append_assoc, List.cons_append]
  rfl

end Stencil
