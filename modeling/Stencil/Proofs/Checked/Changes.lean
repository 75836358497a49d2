import Stencil.Proofs.Checked.DigitArray
import Stencil.Proofs.Template.Scanning

/-!
# Changes of form on an array

An array of digits denotes a number with a sign. Three moves keep it: zeros behind the digits, zeros
in front of them, and a point that moves while the exponent makes up for it. Every change of form but
the two that round is made of such moves and of regrouping binary digits, so it keeps the number; and
no change leaves a digit that the base does not have, or a point that is not behind a digit.

* `Valid` — digits below the base, and a point behind one of them.
* `mantissa`, `magnitude`, `value` — the digits with the point where it is, and the number without
  its sign and with it.
* `SameNumber` — a valid array of the same number.
* `zerosBehind`, `zerosInFront`, `movePoint` — the moves; `cutZerosBehind`, `cutZerosInFront` take
  them back.
* `Valid.toFixed`, `Valid.trimWhole`, `Valid.toHex` and the like — the changes that keep the number.
* `Valid.roundPlaces`, `Valid.roundSignificant` — the two that round it.
* `Change` — all of them, with what any one keeps (`Valid.apply`, `Valid.sameNumber_apply`).
-/

namespace Stencil

open Checked

namespace DigitArray

variable {a b : DigitArray}

/-! ## The number of an array -/

/-- Digits below the base, with the point behind at least one and at most all of them. The exponent
counts powers of the base, or powers of two behind hexadecimal digits. -/
structure Valid (a : DigitArray) : Prop where
  one_lt_base : 1 < a.base
  one_le_dot : 1 ≤ a.dot
  dot_le : a.dot ≤ a.digits.length
  digits : Digits.InBase a.base a.digits
  radix : a.radix = a.base ∨ a.base = 16 ∧ a.radix = 2

/-- The digits as a number, with the point where it is. -/
def mantissa (a : DigitArray) : ℚ :=
  Digits.value a.base (a.digits.take a.dot) + Digits.fractional a.base (a.digits.drop a.dot)

/-- The number without its sign. -/
def magnitude (a : DigitArray) : ℚ :=
  a.mantissa * (a.radix : ℚ) ^ a.exponent

/-- The number with its sign; both zeros are the same number. -/
def value (a : DigitArray) : ℚ :=
  if a.negative then -a.magnitude else a.magnitude

/-- An array is valid whatever its sign and its exponent. -/
theorem Valid.restate (h : a.Valid) (negative : Bool) (exponent : Int) :
    Valid { a with negative, exponent } :=
  ⟨h.one_lt_base, h.one_le_dot, h.dot_le, h.digits, h.radix⟩

theorem Valid.base_ne_zero (h : a.Valid) : a.base ≠ 0 := by
  have hb := h.one_lt_base
  omega

/-- The digits are one number, of which as many places as there are digits behind the point are a
fraction. -/
theorem Valid.mantissa_eq (h : a.Valid) :
    a.mantissa = Digits.value a.base a.digits / (a.base : ℚ) ^ (a.digits.length - a.dot) := by
  have hb : (a.base : ℚ) ≠ 0 := Nat.cast_ne_zero.2 h.base_ne_zero
  have hsplit : Digits.value a.base a.digits =
      Digits.value a.base (a.digits.take a.dot) * a.base ^ (a.digits.length - a.dot) +
        Digits.value a.base (a.digits.drop a.dot) := by
    conv_lhs => rw [← List.take_append_drop a.dot a.digits]
    rw [Digits.value_append, List.length_drop]
  rw [mantissa, Digits.fractional, List.length_drop, hsplit]
  push_cast
  field_simp

theorem Valid.value_of_isZero (h : a.Valid) (hzero : a.isZero = true) : a.value = 0 := by
  have hdigits : Digits.value a.base a.digits = 0 :=
    (Digits.value_eq_zero_iff (Nat.pos_of_ne_zero h.base_ne_zero)).2 hzero
  rw [value, magnitude, h.mantissa_eq, hdigits]
  simp

/-- A valid array of the same number. -/
structure SameNumber (a b : DigitArray) : Prop where
  valid : b.Valid
  value : b.value = a.value

theorem SameNumber.trans {c : DigitArray} (h : a.SameNumber b) (h' : b.SameNumber c) :
    a.SameNumber c :=
  ⟨h'.valid, h'.value.trans h.value⟩

/-! ## The moves -/

theorem mantissa_zerosBehind {digits : List Nat} (hb : a.base ≠ 0) (hdot : a.dot ≤ digits.length)
    (count : Nat) :
    mantissa { a with digits := digits ++ List.replicate count 0 } =
      mantissa { a with digits } := by
  simp only [mantissa, List.take_append_of_le_length hdot, List.drop_append_of_le_length hdot,
    Digits.fractional_append_zeros hb]

theorem mantissa_zerosInFront (a : DigitArray) (digits : List Nat) (count dot : Nat) :
    mantissa { a with digits := List.replicate count 0 ++ digits, dot := count + dot } =
      mantissa { a with digits, dot } := by
  have htake : (List.replicate count 0 ++ digits).take ((List.replicate count 0).length + dot) =
      List.replicate count 0 ++ digits.take dot := List.take_length_add_append dot
  have hdrop : (List.replicate count 0 ++ digits).drop ((List.replicate count 0).length + dot) =
      digits.drop dot := List.drop_length_add_append dot
  rw [List.length_replicate] at htake hdrop
  simp only [mantissa, htake, hdrop, Digits.value_append, Digits.value_replicate_zero,
    Nat.zero_mul, Nat.zero_add]

/-- Zeros behind the digits. -/
theorem Valid.zerosBehind (h : a.Valid) (count : Nat) :
    a.SameNumber { a with digits := a.digits ++ List.replicate count 0 } where
  valid := by
    refine ⟨h.one_lt_base, h.one_le_dot, ?_, ?_, h.radix⟩
    · exact h.dot_le.trans (List.sublist_append_left _ _).length_le
    · exact Digits.inBase_append.2
        ⟨h.digits, Digits.inBase_replicate_zero (Nat.pos_of_ne_zero h.base_ne_zero) count⟩
  value := by
    have hmantissa := mantissa_zerosBehind h.base_ne_zero h.dot_le count
    simp only [value, magnitude, hmantissa]

/-- Zeros behind the point are taken away from the end. -/
theorem Valid.cutZerosBehind (h : a.Valid) {digits : List Nat} {count : Nat}
    (hdigits : a.digits = digits ++ List.replicate count 0) (hdot : a.dot ≤ digits.length) :
    a.SameNumber { a with digits } where
  valid := by
    have hin := h.digits
    rw [hdigits] at hin
    exact ⟨h.one_lt_base, h.one_le_dot, hdot, (Digits.inBase_append.1 hin).1, h.radix⟩
  value := by
    have hmantissa := mantissa_zerosBehind h.base_ne_zero hdot count
    rw [← hdigits] at hmantissa
    simp only [value, magnitude, ← hmantissa]

/-- Zeros in front of the digits. -/
theorem Valid.zerosInFront (h : a.Valid) (count : Nat) :
    a.SameNumber { a with digits := List.replicate count 0 ++ a.digits, dot := count + a.dot } where
  valid := by
    have hpos := h.one_le_dot
    have hdot := h.dot_le
    refine ⟨h.one_lt_base, by dsimp only; omega, ?_, ?_, h.radix⟩
    · simp only [List.length_append, List.length_replicate]
      omega
    · exact Digits.inBase_append.2
        ⟨Digits.inBase_replicate_zero (Nat.pos_of_ne_zero h.base_ne_zero) count, h.digits⟩
  value := by
    have hmantissa := mantissa_zerosInFront a a.digits count a.dot
    simp only [value, magnitude, hmantissa]

/-- Zeros in front of another digit of the whole part are taken away. -/
theorem Valid.cutZerosInFront (h : a.Valid) {digits : List Nat} {count dot : Nat}
    (hdigits : a.digits = List.replicate count 0 ++ digits) (hdot : a.dot = count + dot)
    (hpos : 1 ≤ dot) : a.SameNumber { a with digits, dot } where
  valid := by
    have hin := h.digits
    have hle := h.dot_le
    rw [hdigits] at hin hle
    rw [hdot, List.length_append, List.length_replicate] at hle
    exact ⟨h.one_lt_base, hpos, Nat.le_of_add_le_add_left hle, (Digits.inBase_append.1 hin).2,
      h.radix⟩
  value := by
    have hmantissa := mantissa_zerosInFront a digits count dot
    rw [← hdigits, ← hdot] at hmantissa
    simp only [value, magnitude, ← hmantissa]

/-- The point moves, and the exponent makes up for it. -/
theorem Valid.movePoint (h : a.Valid) (hradix : a.radix = a.base) {dot : Nat} (hpos : 1 ≤ dot)
    (hle : dot ≤ a.digits.length) :
    a.SameNumber { a with dot, exponent := a.exponent + a.dot - dot } := by
  have hmoved : Valid { a with dot, exponent := a.exponent + a.dot - dot } :=
    ⟨h.one_lt_base, hpos, hle, h.digits, h.radix⟩
  refine ⟨hmoved, ?_⟩
  have hb : (a.base : ℚ) ≠ 0 := Nat.cast_ne_zero.2 h.base_ne_zero
  -- either way the last digit counts the same power of the base
  have hlast (dot : Nat) (hle : dot ≤ a.digits.length) (exponent : Int) :
      (Digits.value a.base a.digits : ℚ) / (a.base : ℚ) ^ (a.digits.length - dot) *
          (a.base : ℚ) ^ exponent =
        Digits.value a.base a.digits * (a.base : ℚ) ^ (exponent + dot - a.digits.length) := by
    have hexponent : exponent + dot - a.digits.length =
        exponent - ((a.digits.length - dot : Nat) : Int) := by omega
    rw [hexponent, zpow_sub₀ hb, zpow_natCast]
    ring
  have hsum : a.exponent + a.dot - dot + dot - a.digits.length =
      a.exponent + a.dot - a.digits.length := by ring
  have hmagnitude : magnitude { a with dot, exponent := a.exponent + a.dot - dot } =
      a.magnitude := by
    rw [magnitude, magnitude, h.mantissa_eq, hmoved.mantissa_eq]
    simp only [hradix]
    rw [hlast dot hle, hlast a.dot h.dot_le, hsum]
  simp only [value, hmagnitude]

/-! ## Moving the point -/

/-- The point moves to where the exponent says, over zeros that are added in front or behind. -/
theorem Valid.toFixed (h : a.Valid) (hb : a.toFixed = .ok b) :
    a.SameNumber b ∧ b.radix = b.base := by
  have hpos := h.one_le_dot
  have hle := h.dot_le
  rw [DigitArray.toFixed] at hb
  split_ifs at hb with hmixed
  · cases hb
  · have hradix : a.radix = a.base := not_not.1 hmixed
    replace hb := signed_bind_eq_ok (signed_bind_eq_ok hb)
    split_ifs at hb with hpoint
    · obtain ⟨-, hb⟩ := unsigned_bind_eq_ok (signed_bind_eq_ok hb)
      cases hb
      set padding := (1 - ((a.dot : Int) + a.exponent)).toNat with hpadding
      have hexponent : a.exponent + ((padding + a.dot : Nat) : Int) - ((1 : Nat) : Int) = 0 := by
        omega
      have hfront := h.zerosInFront padding
      have hmoved := hfront.valid.movePoint hradix (Nat.le_refl 1)
        (by simp only [List.length_append]; omega)
      simp only [hexponent] at hmoved
      exact ⟨hfront.trans hmoved, hradix⟩
    · obtain ⟨-, hb⟩ := unsigned_bind_eq_ok hb
      cases hb
      set point := ((a.dot : Int) + a.exponent).toNat with hpointEq
      have hexponent : a.exponent + a.dot - (point : Int) = 0 := by omega
      have hbehind := h.zerosBehind (point - a.digits.length)
      have hmoved := hbehind.valid.movePoint hradix (show 1 ≤ point by omega)
        (by simp only [List.length_append, List.length_replicate]; omega)
      simp only [hexponent] at hmoved
      exact ⟨hbehind.trans hmoved, hradix⟩

/-! ## Zeros at the ends -/

/-- What is stripped is zeros, and not from the digits that are to stay. -/
theorem stripFrom_eq (least : Nat) (digits : List Nat) :
    (∃ count, digits = stripFrom least digits ++ List.replicate count 0) ∧
      min least digits.length ≤ (stripFrom least digits).length := by
  obtain ⟨count, hcount⟩ := Digits.trimTrailing_eq (digits.drop least)
  refine ⟨⟨count, ?_⟩, ?_⟩
  · rw [stripFrom, List.append_assoc, ← hcount, List.take_append_drop]
  · rw [stripFrom, List.length_append, List.length_take]
    omega

theorem Valid.stripFraction (h : a.Valid) {least : Nat}
    (hb : (a.stripFraction least : Checked Obstacle DigitArray) = .ok b) : a.SameNumber b := by
  have hle := h.dot_le
  replace hb := sum_bind_eq_ok hb
  cases hb
  obtain ⟨⟨count, hcount⟩, hlength⟩ := stripFrom_eq (a.dot + least) a.digits
  exact h.cutZerosBehind hcount (by omega)

theorem Valid.padFraction (h : a.Valid) {least : Nat}
    (hb : (a.padFraction least : Checked Obstacle DigitArray) = .ok b) : a.SameNumber b := by
  replace hb := sum_bind_eq_ok hb
  cases hb
  exact h.zerosBehind _

/-- The zeros at the front of a run, as many as there are. -/
theorem replicate_length_takeWhile (digits : List Nat) :
    List.replicate (digits.takeWhile (· == 0)).length 0 = digits.takeWhile (· == 0) := by
  refine (List.eq_replicate_of_mem fun d hd => ?_).symm
  simpa using List.mem_takeWhile_imp hd

theorem Valid.trimWhole (h : a.Valid) (hb : (a.trimWhole : Checked Obstacle DigitArray) = .ok b) :
    a.SameNumber b := by
  obtain ⟨hpos, hb⟩ := difference_bind_eq_ok hb
  obtain ⟨-, hlast, hb⟩ := span_bind_eq_ok hb
  obtain ⟨-, -, hb⟩ := span_bind_eq_ok hb
  obtain ⟨-, hb⟩ := difference_bind_eq_ok hb
  cases hb
  rw [List.drop_zero, List.take_length]
  set zeros := (a.digits.take (a.dot - 1)).takeWhile (· == 0) with hzeros
  have hsplit : a.digits = zeros ++ ((a.digits.take (a.dot - 1)).dropWhile (· == 0) ++
      a.digits.drop (a.dot - 1)) := by
    rw [← List.append_assoc, hzeros, List.takeWhile_append_dropWhile, List.take_append_drop]
  have hlength : zeros.length ≤ a.dot - 1 := by
    have hfront : zeros.length ≤ (a.digits.take (a.dot - 1)).length :=
      (List.takeWhile_sublist _).length_le
    rw [List.length_take] at hfront
    omega
  have hdigits : a.digits = List.replicate zeros.length 0 ++ a.digits.drop zeros.length := by
    rw [hzeros, replicate_length_takeWhile, ← hzeros]
    conv_rhs => rw [hsplit, List.drop_left]
    exact hsplit
  exact h.cutZerosInFront hdigits (by omega) (by omega)

theorem Valid.dropZeroSign (h : a.Valid) : a.SameNumber a.dropZeroSign := by
  have hdropped : a.dropZeroSign.Valid := h.restate _ a.exponent
  refine ⟨hdropped, ?_⟩
  by_cases hzero : a.isZero = true
  · rw [h.value_of_isZero hzero, hdropped.value_of_isZero hzero]
  · have hsame : a.dropZeroSign = a := by simp [DigitArray.dropZeroSign, hzero]
    rw [hsame]

/-! ## Whole numbers and hexadecimal digits -/

theorem Valid.toInteger (h : a.Valid) (hb : a.toInteger = .ok b) : a.SameNumber b := by
  obtain ⟨fixed, hfixed, hb⟩ := bind_eq_ok hb
  obtain ⟨-, -, hb⟩ := span_bind_eq_ok hb
  obtain ⟨hsame, -⟩ := h.toFixed hfixed
  rw [List.take_length] at hb
  split_ifs at hb with hzero
  · obtain ⟨trimmed, htrimmed, hb⟩ := bind_eq_ok hb
    cases hb
    have hzeros : fixed.digits.drop fixed.dot =
        List.replicate (fixed.digits.drop fixed.dot).length 0 := by
      refine List.eq_replicate_of_mem fun d hd => ?_
      simpa using List.all_eq_true.1 hzero d hd
    have hdigits : fixed.digits = fixed.digits.take fixed.dot ++
        List.replicate (fixed.digits.drop fixed.dot).length 0 := by
      rw [← hzeros, List.take_append_drop]
    have hcut := hsame.valid.cutZerosBehind hdigits
      (by rw [List.length_take, min_eq_left hsame.valid.dot_le])
    have htrim := hcut.valid.trimWhole htrimmed
    exact ((hsame.trans hcut).trans htrim).trans htrim.valid.dropZeroSign
  · cases hb

/-- Binary digits behind the point and their groups of four are the same fraction. -/
theorem Valid.toHex (h : a.Valid) (hb : a.toHex = .ok b) : a.SameNumber b := by
  rw [DigitArray.toHex] at hb
  split_ifs at hb with hshape hzero
  · cases hb
  · cases hb
    have hvalid : Valid { zero a.negative 16 with radix := 2 } :=
      ⟨Nat.one_lt_ofNat, Nat.le_refl 1, Nat.le_refl 1, by simp [zero], Or.inr ⟨rfl, rfl⟩⟩
    exact ⟨hvalid, (hvalid.value_of_isZero rfl).trans (h.value_of_isZero hzero).symm⟩
  · obtain ⟨hbase, hdot⟩ : a.base = 2 ∧ a.dot = 1 := by
      rw [not_or, not_not, not_not] at hshape
      exact hshape
    have hradix : a.radix = 2 := by
      rcases h.radix with hradix | ⟨hsixteen, -⟩ <;> omega
    obtain ⟨lead, hlead, hb⟩ := item_bind_eq_ok hb
    obtain ⟨-, -, hb⟩ := span_bind_eq_ok hb
    rw [List.take_length] at hb
    obtain ⟨rest, hdigits⟩ : ∃ rest, a.digits = lead :: rest := by
      rw [← List.head?_eq_getElem?] at hlead
      exact List.head?_eq_some_iff.1 hlead
    have hbits := h.digits
    rw [hbase, hdigits, Digits.inBase_cons] at hbits
    rw [hdigits, List.drop_one, List.tail_cons] at hb
    have hvalid : Valid
        { a with digits := lead :: Numeral.nibbles rest, base := 16, radix := 2 } := by
      refine ⟨Nat.one_lt_ofNat, h.one_le_dot, ?_, ?_, Or.inr ⟨rfl, rfl⟩⟩
      · rw [hdot]
        exact Nat.le_add_left 1 _
      · have hlow : lead < 16 := by omega
        exact Digits.inBase_cons.2 ⟨hlow, Digits.inBase_nibbles hbits.2⟩
    have hvalue : value
        { a with digits := lead :: Numeral.nibbles rest, base := 16, radix := 2 } = a.value := by
      simp only [value, magnitude, mantissa, hdot, hdigits, hbase, hradix, List.take_succ_cons,
        List.take_zero, List.drop_succ_cons, List.drop_zero, Digits.value_singleton,
        Digits.fractional_nibbles]
    exact SameNumber.trans ⟨hvalid, hvalue⟩ (hvalid.stripFraction hb)

/-! ## Rounding -/

/-- Digits behind the point are cut off. -/
theorem Valid.cut (h : a.Valid) {count : Nat} (hdot : a.dot ≤ count)
    (hcount : count ≤ a.digits.length) : Valid { a with digits := a.digits.take count } :=
  ⟨h.one_lt_base, h.one_le_dot, hdot.trans_eq (List.length_take_of_le hcount).symm,
    h.digits.sublist (List.take_sublist _ _), h.radix⟩

/-- A unit in the last place; a carry that leaves the digits is a new digit in front. -/
theorem Valid.increment (h : a.Valid) {run : List Nat} {carry : Bool}
    (hrun : Digits.increment a.base a.digits = (carry, run)) :
    Valid { a with digits := run } ∧ Valid { a with digits := 1 :: run, dot := a.dot + 1 } := by
  obtain ⟨hin, hlength, -⟩ := Digits.value_increment h.one_lt_base h.digits
  rw [hrun] at hin hlength
  have hdot : a.dot ≤ run.length := h.dot_le.trans_eq hlength.symm
  refine ⟨⟨h.one_lt_base, h.one_le_dot, hdot, hin, h.radix⟩, ?_⟩
  exact ⟨h.one_lt_base, Nat.le_add_left 1 _, Nat.succ_le_succ hdot,
    Digits.inBase_cons.2 ⟨h.one_lt_base, hin⟩, h.radix⟩

theorem Valid.roundPlaces (h : a.Valid) {places : Nat}
    (hb : (a.roundPlaces places : Checked Obstacle DigitArray) = .ok b) : b.Valid := by
  replace hb := sum_bind_eq_ok hb
  split_ifs at hb with hshort
  · cases hb
    exact (h.zerosBehind _).valid
  · obtain ⟨next, -, hb⟩ := item_bind_eq_ok hb
    have hcut := h.cut (Nat.le_add_right a.dot places) (by omega)
    split_ifs at hb
    · cases hb
      exact hcut
    · dsimp only at hb
      split at hb
      · rename_i run hrun
        cases hb
        exact (hcut.increment hrun).1
      · rename_i run hrun
        replace hb := sum_bind_eq_ok hb
        cases hb
        exact (hcut.increment hrun).2

theorem Valid.roundSignificant (h : a.Valid) {count : Nat} (hb : a.roundSignificant count = .ok b) :
    b.Valid := by
  rw [DigitArray.roundSignificant] at hb
  split_ifs at hb with hnone hdot hshort
  · cases hb
  · cases hb
  · cases hb
    exact (h.zerosBehind _).valid
  · obtain ⟨next, -, hb⟩ := item_bind_eq_ok hb
    have hcut := h.cut (show a.dot ≤ count by omega) (by omega)
    split_ifs at hb
    · cases hb
      exact hcut
    · dsimp only at hb
      split at hb
      · rename_i run hrun
        cases hb
        exact (hcut.increment hrun).1
      · rename_i run hrun
        replace hb := signed_bind_eq_ok hb
        cases hb
        -- the last digit makes room for the new one, and the point stays
        have hlonger := (hcut.increment hrun).2
        have hdigits := hlonger.digits.sublist (List.dropLast_sublist _)
        refine ⟨h.one_lt_base, h.one_le_dot, ?_, hdigits, h.radix⟩
        rw [List.length_dropLast]
        exact Nat.le_sub_one_of_lt hlonger.dot_le

end DigitArray

/-! ## All changes -/

/-- The changes of form. -/
inductive Change where
  | toFixed
  | roundPlaces (places : Nat)
  | roundSignificant (count : Nat)
  | toInteger
  | toHex
  | stripFraction (least : Nat)
  | padFraction (least : Nat)
  | trimWhole
  | dropZeroSign
  deriving DecidableEq, Repr

namespace Change

/-- The array after a change. -/
def apply (a : DigitArray) : Change → Checked Obstacle DigitArray
  | toFixed => a.toFixed
  | roundPlaces places => a.roundPlaces places
  | roundSignificant count => a.roundSignificant count
  | toInteger => a.toInteger
  | toHex => a.toHex
  | stripFraction least => a.stripFraction least
  | padFraction least => a.padFraction least
  | trimWhole => a.trimWhole
  | dropZeroSign => .ok a.dropZeroSign

/-- Whether a change rounds. -/
def rounds : Change → Bool
  | roundPlaces _ | roundSignificant _ => true
  | _ => false

end Change

namespace DigitArray

variable {a b : DigitArray} {change : Change}

/-- A change that does not round leads to a valid array of the same number. -/
theorem Valid.sameNumber_apply (h : a.Valid) (hexact : change.rounds = false)
    (hb : change.apply a = .ok b) : a.SameNumber b := by
  cases change with
  | toFixed => exact (h.toFixed hb).1
  | toInteger => exact h.toInteger hb
  | toHex => exact h.toHex hb
  | stripFraction least => exact h.stripFraction hb
  | padFraction least => exact h.padFraction hb
  | trimWhole => exact h.trimWhole hb
  | dropZeroSign =>
    cases hb
    exact h.dropZeroSign
  | roundPlaces places => cases hexact
  | roundSignificant count => cases hexact

/-- Every change leads to a valid array. -/
theorem Valid.apply (h : a.Valid) (hb : change.apply a = .ok b) : b.Valid := by
  by_cases hexact : change.rounds = false
  · exact (h.sameNumber_apply hexact hb).valid
  · cases change with
    | roundPlaces places => exact h.roundPlaces hb
    | roundSignificant count => exact h.roundSignificant hb
    | _ => exact absurd rfl hexact

end DigitArray

end Stencil
