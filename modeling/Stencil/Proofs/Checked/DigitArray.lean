import Stencil.Checked.DigitArray
import Stencil.Proofs.Checked.Steps
import Stencil.Proofs.Number.Hexadecimal

/-!
# Arrays that follow numerals

Every change of form on the array of a numeral gives the array of the changed numeral, as long as
there is room for the digits: no position is outside, and no difference is below zero.

* `Within` — how many digits a numeral has on either side of its point, and how far it is scaled.
* `normalize_array`, `toFixed_array`, `roundPlaces_array`, `roundSignificant_array`,
  `toInteger_array`, `toHex_array` — the changes of form.
* `ofInt_array`, `ofFloat_array`, `ofFloatBinary_array` — numbers in scientific form.
-/

namespace Stencil

/-! ## Runs of digits -/

namespace Digits

theorem foldr_addCarry_false (base : Nat) (front run : List Nat) :
    front.foldr (addCarry base) (false, run) = (false, front ++ run) := by
  induction front with
  | nil => rfl
  | cons d front ih => rw [List.foldr_cons, ih, addCarry, List.cons_append]

theorem foldr_addCarry_true (base : Nat) (front run : List Nat) :
    front.foldr (addCarry base) (true, run) =
      ((increment base front).1, (increment base front).2 ++ run) := by
  induction front with
  | nil => rfl
  | cons d front ih =>
    have hstep : increment base (d :: front) = addCarry base d (increment base front) := rfl
    rw [List.foldr_cons, ih, hstep]
    rcases increment base front with ⟨_ | _, rest⟩
    · rfl
    · simp only [addCarry]
      split_ifs <;> rfl

/-- A unit in the last place goes into the front of a run if it is carried out of the back. -/
theorem increment_append (base : Nat) (front back : List Nat) :
    increment base (front ++ back) =
      if (increment base back).1 then
        ((increment base front).1, (increment base front).2 ++ (increment base back).2)
      else (false, front ++ (increment base back).2) := by
  have hsplit : increment base (front ++ back) =
      front.foldr (addCarry base) (increment base back) := by
    rw [increment, increment, List.foldr_append]
  rw [hsplit]
  rcases increment base back with ⟨_ | _, rest⟩
  · exact foldr_addCarry_false base front rest
  · exact foldr_addCarry_true base front rest

theorem length_addCarry (base d : Nat) (run : Bool × List Nat) :
    (addCarry base d run).2.length = run.2.length + 1 := by
  rcases run with ⟨_ | _, run⟩
  · rfl
  · rw [addCarry]
    split_ifs <;> rfl

theorem length_increment (base : Nat) (digits : List Nat) :
    (increment base digits).2.length = digits.length := by
  induction digits with
  | nil => rfl
  | cons d digits ih =>
    have hstep : increment base (d :: digits) = addCarry base d (increment base digits) := rfl
    rw [hstep, length_addCarry, ih, List.length_cons]

/-- A carry leaves nothing but zeros. -/
theorem increment_of_carry (base : Nat) (digits : List Nat) (h : (increment base digits).1 = true) :
    (increment base digits).2 = List.replicate digits.length 0 := by
  induction digits with
  | nil => rfl
  | cons d digits ih =>
    have hstep : increment base (d :: digits) = addCarry base d (increment base digits) := rfl
    rw [hstep] at h ⊢
    generalize increment base digits = run at h ih ⊢
    obtain ⟨_ | _, rest⟩ := run
    · exact absurd h (by simp [addCarry])
    · rw [addCarry] at h ⊢
      split_ifs at h ⊢ with hd
      rw [List.length_cons, List.replicate_succ, ← ih rfl]

end Digits

open Checked

namespace Numeral

variable {n : Numeral} {k : Nat} {ε : Type}

/-! ## The array of a numeral -/

@[simp]
theorem array_digits (n : Numeral) : n.array.digits = n.digits := rfl

@[simp]
theorem array_dot (n : Numeral) : n.array.dot = n.whole.length := rfl

@[simp]
theorem array_exponent (n : Numeral) : n.array.exponent = n.exponent := rfl

@[simp]
theorem array_base (n : Numeral) : n.array.base = n.base := rfl

@[simp]
theorem array_radix (n : Numeral) : n.array.radix = n.radix := rfl

@[simp]
theorem array_isZero (n : Numeral) : n.array.isZero = n.isZero := rfl

/-! ## Room for digits -/

/-- There is a digit before the point, there are at most `k` digits on either side of it, and it is
at most `k` powers away from where it belongs. -/
structure Within (n : Numeral) (k : Nat) : Prop where
  one_le : 1 ≤ n.whole.length
  whole_le : n.whole.length ≤ k
  fraction_le : n.fraction.length ≤ k
  exponent_le : n.exponent.natAbs ≤ k

namespace Within

theorem mono (h : n.Within k) {k' : Nat} (hk : k ≤ k') : n.Within k' :=
  ⟨h.one_le, h.whole_le.trans hk, h.fraction_le.trans hk, h.exponent_le.trans hk⟩

theorem length_digits (h : n.Within k) : n.digits.length ≤ 2 * k := by
  have hwhole := h.whole_le
  have hfraction := h.fraction_le
  rw [digits, List.length_append]
  omega

end Within

/-! ## Scientific form -/

/-- A numeral as it stands in scientific form, or after a rounding that keeps it there. -/
structure Led (n : Numeral) (k : Nat) : Prop where
  radix_eq : n.radix = n.base
  length_whole : n.whole.length = 1
  within : n.Within k

/-- The digits behind the zeros at the front, and how many zeros there are. -/
theorem digits_eq_append (digits : List Nat) :
    digits = digits.takeWhile (· == 0) ++ Digits.trimLeading digits :=
  List.takeWhile_append_dropWhile.symm

theorem normalize_array (h : n.Within k) (hk : k ≤ 4 * spaceLimit) :
    (n.array.normalize : Checked ε DigitArray) = .ok n.normalize.array := by
  obtain ⟨hword, hsigned, hcount⟩ := limits
  have hlength := h.length_digits
  have hwhole := h.whole_le
  have hexponent := h.exponent_le
  have hsplit := digits_eq_append n.digits
  rw [DigitArray.normalize, normalize, array_digits, array_dot, array_exponent]
  generalize n.digits.takeWhile (· == 0) = zeros at hsplit ⊢
  cases hkept : Digits.trimLeading n.digits with
  | nil =>
    rw [hkept, List.append_nil] at hsplit
    rw [if_pos (congrArg List.length hsplit).symm]
    rfl
  | cons lead rest =>
    rw [hkept] at hsplit
    have hzeros := congrArg List.length hsplit
    rw [List.length_append, List.length_cons] at hzeros
    have hspan := span_back (ε := ε) zeros (lead :: rest)
    rw [← hsplit] at hspan
    rw [if_neg (by omega)]
    dsimp only
    rw [hspan, ok_bind, signed_eq_ok (by omega), ok_bind, signed_eq_ok (by omega), ok_bind,
      signed_eq_ok (by omega), ok_bind, signed_eq_ok (by omega), ok_bind, signed_eq_ok (by omega),
      ok_bind]
    have hmoved : n.exponent + ((n.whole.length : Int) - zeros.length - 1) =
        n.exponent + n.whole.length - (n.digits.length - rest.length : Nat) := by omega
    rw [hmoved]
    rfl

theorem led_normalize (hradix : n.radix = n.base) (hk : n.exponent.natAbs + n.digits.length ≤ k)
    (hpos : 1 ≤ k) : n.normalize.Led k := by
  have hsplit := congrArg List.length (digits_eq_append n.digits)
  have hwhole : n.digits.length = n.whole.length + n.fraction.length := List.length_append
  rw [normalize]
  split
  · exact ⟨rfl, rfl, Nat.le_refl 1, hpos, Nat.zero_le k, Nat.zero_le k⟩
  · rename_i lead rest hkept
    have htrim := (Digits.trimTrailing_sublist rest).length_le
    rw [hkept, List.length_append, List.length_cons] at hsplit
    refine ⟨hradix, rfl, Nat.le_refl 1, hpos, ?_, ?_⟩
    · dsimp only
      omega
    · dsimp only
      omega

theorem base_normalize (n : Numeral) : n.normalize.base = n.base := by
  rw [normalize]
  split <;> rfl

/-- A number counted in another power has another exponent, unless it is zero. -/
theorem normalize_scaled (n : Numeral) (e : Int) :
    { n with exponent := n.exponent + e }.normalize =
      if n.normalize.isZero then n.normalize
      else { n.normalize with exponent := n.normalize.exponent + e } := by
  have hsame : { n with exponent := n.exponent + e }.digits = n.digits := rfl
  have hhead := Digits.head_trimLeading_ne_zero n.digits
  rw [normalize, normalize, hsame]
  cases hkept : Digits.trimLeading n.digits with
  | nil => rfl
  | cons lead rest =>
    rw [hkept] at hhead
    have hlead : lead ≠ 0 := by simpa using hhead
    have hzero : isZero
        { n with
          whole := [lead]
          fraction := Digits.trimTrailing rest
          exponent := n.exponent + n.whole.length - (n.digits.length - rest.length : Nat) } =
        false := by
      simp [isZero, digits, Digits.allZero, hlead]
    dsimp only
    rw [hzero, if_neg Bool.false_ne_true]
    congr 1
    omega

/-! ## Numbers -/

theorem ofDigits_array (negative : Bool) {base m : Nat} (hb : 1 < base)
    (hm : m.log2 < spaceLimit) :
    (DigitArray.ofDigits negative (Digits.ofNat base m) base : Checked ε DigitArray) =
        .ok (ofScaled negative base m 0).array ∧
      (ofScaled negative base m 0).Led spaceLimit := by
  have hlength := Digits.length_ofNat_le hb m
  have hpos := List.length_pos_iff.2 (Digits.ofNat_ne_nil hb m)
  set n : Numeral :=
    { negative, whole := Digits.ofNat base m, fraction := [], exponent := 0, base, radix := base }
    with hn
  have hwithin : n.Within spaceLimit := ⟨hpos, hlength.trans hm, Nat.zero_le _, Nat.zero_le _⟩
  have harray : n.array =
      { negative, digits := Digits.ofNat base m, dot := max (Digits.ofNat base m).length 1,
        exponent := 0, base, radix := base } := by
    rw [Nat.max_eq_left hpos, array, digits, List.append_nil]
  refine ⟨?_, led_normalize rfl ?_ (by omega)⟩
  · rw [DigitArray.ofDigits, ← harray]
    exact normalize_array hwithin (by omega)
  · rw [digits, List.append_nil]
    show 0 + (Digits.ofNat base m).length ≤ spaceLimit
    omega

theorem ofInt_array {base : Nat} (hb : 1 < base) {v : Int} (hv : v.natAbs.log2 < spaceLimit) :
    (DigitArray.ofInt base v : Checked ε DigitArray) = .ok (ofInt base v).array ∧
      (ofInt base v).Led spaceLimit :=
  ofDigits_array _ hb hv

theorem ofFloat_array {x : Binary64} (hx : x.isFinite = true) :
    ∃ n, ofFloat x = .ok n ∧ DigitArray.ofFloat x = .ok n.array ∧ n.Led spaceLimit := by
  obtain ⟨hword, hsigned, hcount⟩ := limits
  obtain ⟨hm, he⟩ := x.shortest_le
  have hlength := Digits.length_ofNat_le (show 1 < 10 by decide) x.shortest.1
  have hread := x.readExponential_shortest
  obtain ⟨lead, rest, hdigits, hshort⟩ := x.exists_shortestDigits
  have htrim := (Digits.trimTrailing_sublist rest).length_le
  rw [hdigits, List.length_cons] at hlength
  rw [hshort] at hread
  set n : Numeral :=
    { negative := x.negative, whole := [lead], fraction := Digits.trimTrailing rest,
      exponent := x.shortest.2 + rest.length, base := 10, radix := 10 } with hn
  have hexponent : n.exponent = x.shortest.2 + rest.length := rfl
  have hwithin : n.Within spaceLimit :=
    ⟨Nat.le_refl 1, by show 1 ≤ spaceLimit; omega,
      by show (Digits.trimTrailing rest).length ≤ spaceLimit; omega, by omega⟩
  refine ⟨n.normalize, ?_, ?_, led_normalize rfl ?_ (by omega)⟩
  · rw [ofFloat, if_pos hx, hread]
    rfl
  · rw [DigitArray.ofFloat, if_pos hx, hread, ofResult_ok, ok_bind]
    exact normalize_array hwithin (by omega)
  · show n.exponent.natAbs + ((Digits.trimTrailing rest).length + 1) ≤ spaceLimit
    omega

theorem ofFloatBinary_array {x : Binary64} (hx : x.isFinite = true) :
    ∃ n, ofFloatBinary x = .ok n ∧ DigitArray.ofFloatBinary x = .ok n.array ∧
      n.Led spaceLimit ∧ n.base = 2 := by
  obtain ⟨hword, hsigned, hcount⟩ := limits
  have hsignificand := x.canonical.lt
  obtain ⟨hhigh, hlow⟩ := x.scale_le
  have hlog : x.significand.log2 ≤ 53 := by
    rcases Nat.eq_zero_or_pos x.significand with hzero | hpos
    · rw [hzero]
      exact Nat.zero_le _
    · exact Nat.le_of_lt ((Nat.log2_lt hpos.ne').2 hsignificand)
  obtain ⟨harray, hled⟩ := ofDigits_array (ε := Obstacle) x.negative (show 1 < 2 by decide)
    (show x.significand.log2 < spaceLimit by omega)
  set m : Numeral :=
    { negative := x.negative, whole := Digits.ofNat 2 x.significand, fraction := [], exponent := 0,
      base := 2, radix := 2 } with hm
  have hsame : ofScaled x.negative 2 x.significand 0 = m.normalize := rfl
  have hscaled : ofScaled x.negative 2 x.significand x.scale =
      if m.normalize.isZero then m.normalize
      else { m.normalize with exponent := m.normalize.exponent + x.scale } := by
    rw [← normalize_scaled, ofScaled]
    congr 2
    exact (Int.zero_add x.scale).symm
  rw [hsame] at harray hled
  refine ⟨ofScaled x.negative 2 x.significand x.scale, if_pos hx, ?_, led_normalize rfl ?_ ?_,
    base_normalize _⟩
  · have hexponent := hled.within.exponent_le
    rw [DigitArray.ofFloatBinary, if_pos hx, harray, ok_bind, array_isZero, hscaled]
    split_ifs
    · rfl
    · rw [array_exponent, signed_eq_ok (by omega), ok_bind]
      rfl
  · have hlength := Digits.length_ofNat_le (show 1 < 2 by decide) x.significand
    rw [digits, List.append_nil]
    dsimp only
    omega
  · omega

/-! ## Moving the point -/

theorem toFixed_array (h : n.Within k) (hk : k ≤ 4 * spaceLimit) (hradix : n.radix = n.base) :
    ∃ m, n.toFixed = .ok m ∧ n.array.toFixed = .ok m.array ∧ m.Within (3 * k + 1) := by
  obtain ⟨hword, hsigned, hcount⟩ := limits
  have hlength := h.length_digits
  have hpos := h.one_le
  have hwhole := h.whole_le
  have hexponent := h.exponent_le
  have hsame : ¬ n.radix ≠ n.base := not_not.2 hradix
  rw [toFixed, DigitArray.toFixed, array_radix, array_base, if_neg hsame, if_neg hsame, array_dot,
    array_exponent, signed_eq_ok (by omega), ok_bind, signed_eq_ok (by omega), ok_bind]
  by_cases hpoint : (n.whole.length : Int) + n.exponent ≤ 0
  · refine ⟨_, if_pos hpoint, ?_, ?_⟩
    · have hpadding : (1 - ((n.whole.length : Int) + n.exponent)).toNat =
          (-((n.whole.length : Int) + n.exponent)).toNat + 1 := by omega
      rw [if_pos hpoint, signed_eq_ok (by omega), ok_bind, unsigned_eq_ok (by omega), ok_bind,
        hpadding, List.replicate_succ]
      rfl
    · refine ⟨Nat.le_refl 1, ?_, ?_, Nat.zero_le _⟩
      · show 1 ≤ 3 * k + 1
        omega
      · rw [List.length_append, List.length_replicate]
        omega
  · refine ⟨_, if_neg hpoint, ?_, ?_⟩
    · have hlong : ((n.whole.length : Int) + n.exponent).toNat ≤
          (Digits.padTrailing ((n.whole.length : Int) + n.exponent).toNat n.digits).length := by
        rw [Digits.length_padTrailing]
        exact Nat.le_max_left _ _
      rw [if_neg hpoint, unsigned_eq_ok (by omega), ok_bind, array_digits]
      generalize Digits.padTrailing (n.whole.length + n.exponent).toNat n.digits = run at hlong ⊢
      simp only [array, digits, List.take_append_drop, List.length_take_of_le hlong]
      rfl
    · refine ⟨?_, ?_, ?_, Nat.zero_le _⟩ <;>
        simp only [List.length_take, List.length_drop, Digits.length_padTrailing] <;> omega

/-! ## Rounding -/

theorem padTrailing_append (front back : List Nat) (length : Nat) :
    Digits.padTrailing (front.length + length) (front ++ back) =
      front ++ Digits.padTrailing length back := by
  rw [Digits.padTrailing, Digits.padTrailing, List.length_append, Nat.add_sub_add_left,
    List.append_assoc]

/-- A unit in the last place, on the array. -/
theorem increment_array (n : Numeral) :
    n.increment.array =
      match Digits.increment n.base n.digits with
      | (false, digits) => { n.array with digits }
      | (true, digits) => { n.array with digits := 1 :: digits, dot := n.whole.length + 1 } := by
  have hwhole := Digits.length_increment n.base n.whole
  rw [digits, Digits.increment_append, increment]
  rcases Digits.increment n.base n.fraction with ⟨_ | _, fraction⟩
  · rfl
  · rw [if_pos rfl]
    rcases hcarry : Digits.increment n.base n.whole with ⟨_ | _, whole⟩
    · rw [hcarry] at hwhole
      dsimp only [array, digits] at hwhole ⊢
      rw [hwhole]
    · rw [hcarry] at hwhole
      dsimp only [array, digits] at hwhole ⊢
      rw [List.length_cons, hwhole, List.cons_append]

theorem length_increment (n : Numeral) :
    n.increment.fraction.length = n.fraction.length ∧ n.whole.length ≤ n.increment.whole.length ∧
      n.increment.whole.length ≤ n.whole.length + 1 := by
  have hfraction := Digits.length_increment n.base n.fraction
  have hwhole := Digits.length_increment n.base n.whole
  rw [increment]
  generalize Digits.increment n.base n.fraction = ofFraction at hfraction ⊢
  generalize Digits.increment n.base n.whole = ofWhole at hwhole ⊢
  rcases ofFraction with ⟨_ | _, fraction⟩
  · exact ⟨hfraction, Nat.le_refl _, Nat.le_succ _⟩
  · rcases ofWhole with ⟨_ | _, whole⟩
    · exact ⟨hfraction, hwhole.ge, by dsimp only at hwhole ⊢; omega⟩
    · refine ⟨hfraction, ?_, ?_⟩ <;> simp only [List.length_cons] at hwhole ⊢ <;> omega

/-- A carry out of the first digit leaves a one and zeros. -/
theorem increment_of_carry (h : n.whole.length < n.increment.whole.length) :
    n.increment.whole = 1 :: List.replicate n.whole.length 0 ∧
      n.increment.fraction = List.replicate n.fraction.length 0 := by
  have hlength := Digits.length_increment n.base n.whole
  have hfraction := Digits.increment_of_carry n.base n.fraction
  have hwhole := Digits.increment_of_carry n.base n.whole
  rw [increment] at h ⊢
  generalize Digits.increment n.base n.fraction = ofFraction at h hfraction ⊢
  generalize Digits.increment n.base n.whole = ofWhole at h hlength hwhole ⊢
  rcases ofFraction with ⟨_ | _, fraction⟩
  · exact absurd h (Nat.lt_irrefl _)
  · rcases ofWhole with ⟨_ | _, whole⟩
    · exact absurd (hlength ▸ h) (Nat.lt_irrefl _)
    · exact ⟨congrArg (1 :: ·) (hwhole rfl), hfraction rfl⟩

/-- A digit is left behind those that are kept. -/
theorem length_take_of_drop {fraction rest : List Nat} {places next : Nat}
    (h : fraction.drop places = next :: rest) :
    (fraction.take places).length = places ∧ places < fraction.length := by
  have hlong := congrArg List.length h
  rw [List.length_drop, List.length_cons] at hlong
  rw [List.length_take]
  omega

theorem length_roundPlaces (n : Numeral) (places : Nat) :
    (n.roundPlaces places).fraction.length = places ∧
      n.whole.length ≤ (n.roundPlaces places).whole.length ∧
      (n.roundPlaces places).whole.length ≤ n.whole.length + 1 := by
  rw [roundPlaces]
  split
  · rename_i hdrop
    have hshort := List.drop_eq_nil_iff.1 hdrop
    refine ⟨?_, Nat.le_refl _, Nat.le_succ _⟩
    rw [Digits.length_padTrailing, Nat.max_eq_left hshort]
  · rename_i next rest hdrop
    have htake := (length_take_of_drop hdrop).1
    split_ifs
    · exact ⟨htake, Nat.le_refl _, Nat.le_succ _⟩
    · obtain ⟨hfraction, hwhole⟩ := length_increment { n with fraction := n.fraction.take places }
      exact ⟨hfraction.trans htake, hwhole⟩

theorem roundPlaces_array (n : Numeral) {places : Nat}
    (hroom : n.whole.length + places + 1 < wordLimit) :
    (n.array.roundPlaces places : Checked ε DigitArray) = .ok (n.roundPlaces places).array := by
  rw [DigitArray.roundPlaces, roundPlaces, array_digits, array_dot, array_base,
    sum_eq_ok (by omega), ok_bind, digits, List.length_append]
  cases hdrop : n.fraction.drop places with
  | nil =>
    have hshort := List.drop_eq_nil_iff.1 hdrop
    rw [if_pos (by omega), padTrailing_append]
    rfl
  | cons next rest =>
    obtain ⟨htake, hlong⟩ := length_take_of_drop hdrop
    have hsplit : n.fraction = n.fraction.take places ++ next :: rest := by
      rw [← hdrop, List.take_append_drop]
    have hitem := item_append (ε := ε) (n.whole ++ n.fraction.take places) next rest
    rw [List.append_assoc, ← hsplit, List.length_append, htake] at hitem
    have hkept : (n.whole ++ n.fraction).take (n.whole.length + places) =
        n.whole ++ n.fraction.take places := List.take_length_add_append places
    rw [if_neg (by omega), hitem, ok_bind, hkept]
    dsimp only
    split_ifs
    · rfl
    · have hcarry := increment_array { n with fraction := n.fraction.take places }
      rw [hcarry]
      dsimp only [digits]
      rcases Digits.increment n.base (n.whole ++ n.fraction.take places) with ⟨_ | _, run⟩
      · rfl
      · dsimp only
        rw [sum_eq_ok (by omega), ok_bind]
        rfl

theorem roundPlaces_of_carry {places : Nat}
    (h : n.whole.length < (n.roundPlaces places).whole.length) :
    (n.roundPlaces places).whole = 1 :: List.replicate n.whole.length 0 ∧
      (n.roundPlaces places).fraction = List.replicate places 0 := by
  rw [roundPlaces] at h ⊢
  split at h
  · exact absurd h (Nat.lt_irrefl _)
  · rename_i next rest hdrop
    have htake := (length_take_of_drop hdrop).1
    split_ifs at h ⊢
    · exact absurd h (Nat.lt_irrefl _)
    · obtain ⟨hwhole, hzeros⟩ :=
        increment_of_carry (n := { n with fraction := n.fraction.take places }) h
      exact ⟨hwhole, hzeros.trans (by rw [htake])⟩

end Numeral

/-- Rounding to significant digits is rounding to places, but a carry goes into the exponent. -/
theorem DigitArray.roundSignificant_eq {a : DigitArray} (hdot : a.dot = 1) {count : Nat}
    (hpos : 1 ≤ count) (hroom : count + 1 < wordLimit) :
    a.roundSignificant count = (do
      let r ← a.roundPlaces (count - 1)
      if r.dot = 1 then return r
      else
        let exponent ← signed (r.exponent + 1)
        return { r with digits := r.digits.dropLast, dot := 1, exponent }) := by
  have hkeep : 1 + (count - 1) = count := by omega
  rw [roundSignificant, roundPlaces, if_neg (by omega), if_neg (by simpa using hdot), hdot,
    sum_eq_ok (by omega), ok_bind, hkeep]
  split_ifs
  · rfl
  · cases item a.digits count with
    | error e => rfl
    | ok next =>
      rw [ok_bind, ok_bind]
      dsimp only
      split_ifs
      · rfl
      · rcases Digits.increment a.base (a.digits.take count) with ⟨_ | _, run⟩
        · rfl
        · rw [sum_eq_ok (by omega)]
          rfl

namespace Numeral

variable {n : Numeral} {k : Nat} {ε : Type}

theorem roundSignificant_array (h : n.Within k) (hk : k ≤ 8 * spaceLimit)
    (hwhole : n.whole.length = 1) {count : Nat} (hpos : 1 ≤ count)
    (hroom : count ≤ 8 * spaceLimit) :
    ∃ m, n.roundSignificant count = .ok m ∧ n.array.roundSignificant count = .ok m.array ∧
      m.whole.length = 1 ∧ m.fraction.length = count - 1 ∧
      (m.exponent = n.exponent ∨ m.exponent = n.exponent + 1) := by
  obtain ⟨hword, hsigned, -⟩ := limits
  have hexponent := h.exponent_le
  obtain ⟨hfraction, hgrow, -⟩ := n.length_roundPlaces (count - 1)
  have hsame : (n.roundPlaces (count - 1)).exponent = n.exponent := by rw [roundPlaces_eq]
  rw [roundSignificant, if_neg (by omega), if_neg (not_not.2 hwhole),
    DigitArray.roundSignificant_eq hwhole hpos (by omega), n.roundPlaces_array (by omega), ok_bind,
    array_dot, array_exponent]
  dsimp only
  split_ifs with hone
  · exact ⟨_, rfl, rfl, hone, hfraction, Or.inl hsame⟩
  · obtain ⟨hdigits, hzeros⟩ :=
      roundPlaces_of_carry (show n.whole.length < (n.roundPlaces (count - 1)).whole.length by omega)
    refine ⟨_, rfl, ?_, rfl, hfraction, Or.inr (congrArg (· + 1) hsame)⟩
    rw [signed_eq_ok (by omega), ok_bind]
    simp only [array, digits, hdigits, hzeros, hwhole]
    rw [List.cons_append, ← List.replicate_add, List.dropLast_cons_of_ne_nil (by simp),
      List.dropLast_replicate]
    simp only [Nat.add_sub_cancel_left]
    rfl

/-! ## Changes that keep the number -/

theorem stripFrom_append (front back : List Nat) (least : Nat) :
    DigitArray.stripFrom (front.length + least) (front ++ back) =
      front ++ DigitArray.stripFrom least back := by
  rw [DigitArray.stripFrom, DigitArray.stripFrom, List.take_length_add_append,
    List.drop_length_add_append, List.append_assoc]

theorem stripFraction_array (n : Numeral) (least : Nat)
    (hroom : n.whole.length + least < wordLimit) :
    (n.array.stripFraction least : Checked ε DigitArray) = .ok (n.stripFraction least).array := by
  rw [DigitArray.stripFraction, array_dot, sum_eq_ok hroom, ok_bind, array_digits, digits,
    stripFrom_append]
  rfl

theorem padFraction_array (n : Numeral) (least : Nat) (hroom : n.whole.length + least < wordLimit) :
    (n.array.padFraction least : Checked ε DigitArray) = .ok (n.padFraction least).array := by
  rw [DigitArray.padFraction, array_dot, sum_eq_ok hroom, ok_bind, array_digits, digits,
    padTrailing_append]
  rfl

theorem dropZeroSign_array (n : Numeral) : n.array.dropZeroSign = n.dropZeroSign.array := rfl

/-- The zeros that can go are those in front of the last digit. -/
theorem trimWhole_append {front : List Nat} {last : Nat} (hwhole : n.whole = front ++ [last]) :
    n.trimWhole = { n with whole := Digits.trimLeading front ++ [last] } := by
  have htrim : Digits.trimLeading (front ++ [last]) =
      if (Digits.trimLeading front).isEmpty then Digits.trimLeading [last]
      else Digits.trimLeading front ++ [last] := List.dropWhile_append
  rw [trimWhole, hwhole, htrim]
  cases Digits.trimLeading front with
  | nil =>
    by_cases hlast : last = 0
    · subst hlast
      rfl
    · rw [List.isEmpty_nil, if_pos rfl, Digits.trimLeading_cons_of_ne hlast]
      rfl
  | cons d kept => rfl

theorem trimWhole_array (h : 1 ≤ n.whole.length) :
    (n.array.trimWhole : Checked ε DigitArray) = .ok n.trimWhole.array := by
  obtain ⟨front, last, hwhole⟩ : ∃ front last, n.whole = front ++ [last] :=
    ⟨_, _, (List.dropLast_append_getLast (List.length_pos_iff.1 h)).symm⟩
  have hsplit := digits_eq_append front
  have hlength := congrArg List.length hsplit
  rw [List.length_append] at hlength
  have hdot : n.whole.length = front.length + 1 := by rw [hwhole, List.length_append]; rfl
  have hfront := span_front (ε := ε) front ([last] ++ n.fraction)
  have hback := span_back (ε := ε) (front.takeWhile (· == 0))
    (Digits.trimLeading front ++ ([last] ++ n.fraction))
  rw [← List.append_assoc, ← hsplit] at hback
  rw [DigitArray.trimWhole, trimWhole_append hwhole, array_dot, array_digits, digits, hwhole,
    List.append_assoc, ← hwhole, hdot, difference_eq_ok (by omega), ok_bind, Nat.add_sub_cancel,
    hfront, ok_bind]
  dsimp only
  rw [hback, ok_bind, difference_eq_ok (by omega), ok_bind]
  simp only [array, digits, List.length_append, List.length_singleton, List.append_assoc]
  congr 2
  omega

theorem length_trimWhole (h : 1 ≤ n.whole.length) :
    1 ≤ n.trimWhole.whole.length ∧ n.trimWhole.whole.length ≤ n.whole.length := by
  have htrim : (Digits.trimLeading n.whole).length ≤ n.whole.length :=
    (List.dropWhile_sublist _).length_le
  rw [trimWhole]
  split
  · exact ⟨Nat.le_refl 1, h⟩
  · rename_i hne
    exact ⟨List.length_pos_iff.2 hne, htrim⟩

/-! ## Parts of the array -/

theorem whole_array (n : Numeral) : (n.array.whole : Checked ε (List Nat)) = .ok n.whole :=
  span_front n.whole n.fraction

theorem fraction_array (n : Numeral) : (n.array.fraction : Checked ε (List Nat)) = .ok n.fraction :=
  span_back n.whole n.fraction

/-! ## Whole numbers and hexadecimal digits -/

theorem toInteger_array (h : n.Within k) (hk : k ≤ 4 * spaceLimit) (hradix : n.radix = n.base) :
    (∃ m, n.toInteger = .ok m ∧ n.array.toInteger = .ok m.array ∧ m.Within (3 * k + 1)) ∨
      (n.toInteger = .error .fractional ∧
        n.array.toInteger = .error (.refusal .fractional)) := by
  obtain ⟨m, hfixed, harray, hwithin⟩ := toFixed_array h hk hradix
  have hcut : { m.array with digits := m.array.digits.take m.array.dot } =
      { m with fraction := [] }.array := by
    simp only [array, digits, List.take_left, List.append_nil]
  have htrim := trimWhole_array (ε := Obstacle) (n := { m with fraction := [] }) hwithin.one_le
  rw [toInteger, DigitArray.toInteger, hfixed, harray, ok_bind, fraction_array, ok_bind, hcut, htrim,
    ok_bind, dropZeroSign_array]
  by_cases hzero : Digits.allZero m.fraction = true
  · obtain ⟨hpos, hle⟩ := length_trimWhole (n := { m with fraction := [] }) hwithin.one_le
    rw [if_pos hzero]
    refine Or.inl ⟨_, if_pos hzero, rfl, hpos, hle.trans hwithin.whole_le, ?_, ?_⟩
    · rw [dropZeroSign, trimWhole_eq]
      exact Nat.zero_le _
    · rw [dropZeroSign, trimWhole_eq]
      exact hwithin.exponent_le
  · rw [if_neg hzero]
    exact Or.inr ⟨if_neg hzero, rfl⟩

theorem toHex_array (h : n.Within k) (hbase : n.base = 2) (hwhole : n.whole.length = 1) :
    ∃ m, n.toHex = .ok m ∧ n.array.toHex = .ok m.array ∧ m.whole.length = 1 ∧ m.Within k := by
  obtain ⟨lead, hlead⟩ := List.length_eq_one_iff.1 hwhole
  have hshape : ¬ (n.base ≠ 2 ∨ n.whole.length ≠ 1) := by simp [hbase, hwhole]
  have hone := h.whole_le
  rw [toHex, DigitArray.toHex, if_neg hshape, array_base, array_dot, if_neg hshape, array_isZero]
  split_ifs
  · exact ⟨_, rfl, rfl, rfl, Nat.le_refl 1, by show 1 ≤ k; omega, Nat.zero_le _, Nat.zero_le _⟩
  · have hdigits : n.array.digits = [lead] ++ n.fraction := by rw [array_digits, digits, hlead]
    have hitem : (item ([lead] ++ n.fraction) 0 : Checked Obstacle Nat) = .ok lead := rfl
    have hspan : (span ([lead] ++ n.fraction) 1 ([lead] ++ n.fraction).length :
        Checked Obstacle (List Nat)) = .ok n.fraction := span_back [lead] n.fraction
    have hstrip := stripFraction_array (ε := Obstacle)
      { n with fraction := nibbles n.fraction, base := 16, radix := 2 } 0
      (by rw [hwhole]; decide)
    have hnibbles := Digits.length_nibbles n.fraction
    have htrim := (Digits.trimTrailing_sublist (nibbles n.fraction)).length_le
    have hfraction := h.fraction_le
    refine ⟨_, rfl, ?_, hwhole, h.one_le, h.whole_le, ?_, h.exponent_le⟩
    · rw [hdigits, hitem, ok_bind, hspan, ok_bind]
      simp only [array, digits, hlead, stripFraction, List.take_zero, List.drop_zero,
        List.nil_append] at hstrip ⊢
      exact hstrip
    · show (Digits.trimTrailing (nibbles n.fraction)).length ≤ k
      omega

end Numeral

end Stencil
