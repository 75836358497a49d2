import Stencil.Proofs.Checked.Changes
import Stencil.Proofs.Checked.Notation
import Stencil.Proofs.Checked.Width

/-!
# Arrays on the way to a figure

The digits of a number start in scientific form, and changes of form follow one another from there.
Whatever their order, the point stays behind a digit and every digit below its base, and between two
roundings the number stays what it is. Every figure with digits is reached in this way.

* `Normal` — scientific form.
* `Valid.normalize` — how it is reached, by the moves that keep the number.
* `Origin` — where digits come from, and the number they are digits of.
* `Reached` — the arrays that changes of form lead to from there.
* `reached_figure` — the figure of every presentation is one of them.
* `reached_keeps_form` — what all of them have in common.
-/

namespace Stencil

open Checked

namespace DigitArray

variable {ε : Type} {a b : DigitArray}

/-! ## Scientific form -/

/-- A single zero, or digits that neither start nor end with a zero, with the point behind the first
of them. -/
def Normal (a : DigitArray) : Prop :=
  (a.digits = [0] ∧ a.dot = 1 ∧ a.exponent = 0) ∨
    (a.dot = 1 ∧ (∃ lead, a.digits.head? = some lead ∧ lead ≠ 0) ∧ a.digits.getLast? ≠ some 0)

/-- Digits in scientific form, in one radix. -/
structure Starts (a : DigitArray) : Prop where
  valid : a.Valid
  normal : a.Normal
  radix_eq : a.radix = a.base

theorem getLast?_stripFrom_one {lead : Nat} {rest : List Nat} (hlead : lead ≠ 0) :
    (stripFrom 1 (lead :: rest)).getLast? ≠ some 0 := by
  show (lead :: Digits.trimTrailing rest).getLast? ≠ some 0
  cases htrim : Digits.trimTrailing rest with
  | nil => simpa using hlead
  | cons d digits =>
    rw [List.getLast?_cons_cons, ← htrim]
    exact Digits.getLast_trimTrailing_ne_zero rest

/-- The point goes behind the first digit that is not zero, and the zeros at either end go. -/
theorem Valid.normalize (h : a.Valid) (hradix : a.radix = a.base)
    (hb : (a.normalize : Checked ε DigitArray) = .ok b) :
    b.Starts ∧ b.value = a.value ∧ b.base = a.base := by
  have hpos := h.one_lt_base
  have hsplit := Numeral.digits_eq_append a.digits
  have hzeros := replicate_length_takeWhile a.digits
  have hhead := Digits.head_trimLeading_ne_zero a.digits
  rw [DigitArray.normalize] at hb
  generalize (a.digits.takeWhile (· == 0)).length = leading at hb hzeros
  rw [← hzeros] at hsplit
  have hlength := congrArg List.length hsplit
  rw [List.length_append, List.length_replicate] at hlength
  split_ifs at hb with hall
  · cases hb
    have hnil : Digits.trimLeading a.digits = [] := List.length_eq_zero_iff.1 (by omega)
    have hzero : a.isZero = true := by
      rw [isZero, hsplit, hnil, List.append_nil]
      simp [Digits.allZero]
    have hvalid : (zero a.negative a.base).Valid :=
      ⟨hpos, Nat.le_refl 1, Nat.le_refl 1, by simp [zero]; omega, Or.inl rfl⟩
    exact ⟨⟨hvalid, Or.inl ⟨rfl, rfl, rfl⟩, rfl⟩,
      (hvalid.value_of_isZero rfl).trans (h.value_of_isZero hzero).symm, rfl⟩
  · obtain ⟨-, -, hb⟩ := span_bind_eq_ok hb
    replace hb := signed_bind_eq_ok (signed_bind_eq_ok (signed_bind_eq_ok (signed_bind_eq_ok
      (signed_bind_eq_ok hb))))
    cases hb
    obtain ⟨lead, rest, hkept⟩ : ∃ lead rest, Digits.trimLeading a.digits = lead :: rest :=
      List.exists_cons_of_ne_nil fun hnil => hall (by rw [hnil, List.length_nil] at hlength; omega)
    rw [hkept] at hsplit hhead hlength
    rw [List.length_cons] at hlength
    have hlead : lead ≠ 0 := by simpa using hhead
    have hdrop : (a.digits.take a.digits.length).drop leading = lead :: rest := by
      rw [List.take_length]
      conv_lhs => rw [hsplit]
      rw [List.drop_left' List.length_replicate]
    have hexponent : a.exponent + a.dot - ((leading + 1 : Nat) : Int) =
        a.exponent + ((a.dot : Int) - leading - 1) := by omega
    obtain ⟨⟨count, hcount⟩, hlong⟩ := stripFrom_eq 1 (lead :: rest)
    have hmoved := h.movePoint hradix (Nat.le_add_left 1 leading) (by omega)
    have hfront := hmoved.valid.cutZerosInFront hsplit rfl (Nat.le_refl 1)
    have hbehind := hfront.valid.cutZerosBehind hcount (by simpa using hlong)
    have hsame := (hmoved.trans hfront).trans hbehind
    simp only [hexponent] at hsame
    rw [hdrop]
    exact ⟨⟨hsame.valid, Or.inr ⟨rfl, ⟨lead, rfl, hlead⟩, getLast?_stripFrom_one hlead⟩, hradix⟩,
      hsame.value, rfl⟩

theorem mantissa_of_dot_eq_length (h : a.dot = a.digits.length) :
    a.mantissa = Digits.value a.base a.digits := by
  rw [mantissa, h, List.take_length, List.drop_length]
  simp [Digits.fractional]

/-- The digits of a whole number, with the point behind the last of them. -/
theorem ofDigits_starts {negative : Bool} {base : Nat} {digits : List Nat} (hb : 1 < base)
    (hne : digits ≠ []) (hin : Digits.InBase base digits)
    (ha : (ofDigits negative digits base : Checked ε DigitArray) = .ok a) :
    a.Starts ∧ a.base = base ∧
      a.value = if negative then -(Digits.value base digits : ℚ) else Digits.value base digits := by
  have hpos := List.length_pos_iff.2 hne
  rw [ofDigits, Nat.max_eq_left hpos] at ha
  have hvalid : Valid
      { negative, digits, dot := digits.length, exponent := 0, base, radix := base } :=
    ⟨hb, hpos, Nat.le_refl _, hin, Or.inl rfl⟩
  obtain ⟨hstarts, hvalue, hbase⟩ := hvalid.normalize rfl ha
  refine ⟨hstarts, hbase, hvalue.trans ?_⟩
  rw [value, magnitude, mantissa_of_dot_eq_length rfl, zpow_zero, mul_one]

theorem ofInt_starts {base : Nat} (hb : 1 < base) {v : Int}
    (ha : (ofInt base v : Checked ε DigitArray) = .ok a) : a.Starts ∧ a.value = v := by
  obtain ⟨hstarts, -, hvalue⟩ :=
    ofDigits_starts hb (Digits.ofNat_ne_nil hb v.natAbs) (Digits.inBase_ofNat hb v.natAbs) ha
  refine ⟨hstarts, hvalue.trans ?_⟩
  rw [Digits.value_ofNat, Nat.cast_natAbs]
  by_cases hv : v < 0
  · simp [hv, abs_of_neg hv]
  · simp [hv, abs_of_nonneg (not_lt.1 hv)]

/-- The number that a double is the shortest decimal of. -/
theorem ofFloat_starts {x : Binary64} (ha : ofFloat x = .ok a) :
    a.Starts ∧ a.value =
      if x.negative then -((x.shortest.1 : ℚ) * 10 ^ x.shortest.2)
      else x.shortest.1 * 10 ^ x.shortest.2 := by
  have hten : 1 < 10 := by decide
  have hpos := List.length_pos_iff.2 (Digits.ofNat_ne_nil hten x.shortest.1)
  rw [ofFloat] at ha
  split_ifs at ha
  · rw [x.readExponential_shortest, ofResult_ok, ok_bind] at ha
    have hvalid : Valid
        { negative := x.negative, digits := Digits.ofNat 10 x.shortest.1, dot := 1,
          exponent := x.shortest.2 + (Digits.ofNat 10 x.shortest.1).length - 1, base := 10,
          radix := 10 } :=
      ⟨hten, Nat.le_refl 1, hpos, Digits.inBase_ofNat hten _, Or.inl rfl⟩
    -- the text is without the zeros at the end
    obtain ⟨⟨count, hcount⟩, hlong⟩ := stripFrom_eq 1 (Digits.ofNat 10 x.shortest.1)
    have hcut := hvalid.cutZerosBehind hcount (by dsimp only; omega)
    obtain ⟨hstarts, hvalue, -⟩ := hcut.valid.normalize rfl ha
    -- with the point behind the last digit the exponent is that of the shortest decimal
    have hmoved := hvalid.movePoint rfl hpos (Nat.le_refl _)
    have hexponent : x.shortest.2 + (Digits.ofNat 10 x.shortest.1).length - 1 + ((1 : Nat) : Int) -
        (Digits.ofNat 10 x.shortest.1).length = x.shortest.2 := by omega
    refine ⟨hstarts, (hvalue.trans hcut.value).trans (hmoved.value.symm.trans ?_)⟩
    rw [value, magnitude, mantissa_of_dot_eq_length rfl]
    simp only [hexponent, Digits.value_ofNat, Nat.cast_ofNat]
  · cases ha

/-- A double is its significand times a power of two. -/
theorem ofFloatBinary_starts {x : Binary64} (ha : ofFloatBinary x = .ok a) :
    a.Starts ∧ a.value = if x.negative then -x.magnitude else x.magnitude := by
  have htwo : 1 < 2 := by decide
  rw [ofFloatBinary] at ha
  split_ifs at ha
  · obtain ⟨whole, hwhole, ha⟩ := bind_eq_ok ha
    obtain ⟨hstarts, hbase, hvalue⟩ :=
      ofDigits_starts htwo (Digits.ofNat_ne_nil htwo _) (Digits.inBase_ofNat htwo _) hwhole
    rw [Digits.value_ofNat] at hvalue
    rw [x.magnitude_eq]
    split_ifs at ha with hzero
    · cases ha
      rw [hstarts.valid.value_of_isZero hzero] at hvalue
      have hsignificand : (x.significand : ℚ) = 0 := by
        split_ifs at hvalue <;> linarith
      refine ⟨hstarts, (hstarts.valid.value_of_isZero hzero).trans ?_⟩
      simp [hsignificand]
    · replace ha := signed_bind_eq_ok ha
      cases ha
      refine ⟨⟨hstarts.valid.restate _ _, ?_, hstarts.radix_eq⟩, ?_⟩
      · refine Or.inr (hstarts.normal.resolve_left fun hsingle => hzero ?_)
        rw [isZero, hsingle.1]
        rfl
      · have hscaled : value { whole with exponent := whole.exponent + x.scale } =
            whole.value * (2 : ℚ) ^ x.scale := by
          simp only [value, magnitude, mantissa, hstarts.radix_eq, hbase, Nat.cast_ofNat,
            zpow_add₀ (two_ne_zero : (2 : ℚ) ≠ 0)]
          split_ifs <;> ring
        rw [hscaled, hvalue]
        split_ifs <;> ring
  · cases ha

end DigitArray

/-! ## Where digits come from -/

/-- A whole number in a radix, as a machine keeps it; the shortest decimal of a double; or all binary
digits of a double. -/
inductive Origin where
  | whole (radix : Nat) (h : 1 < radix ∧ radix ≤ 256) (i : Kept)
  | shortest (x : Binary64)
  | exact (x : Binary64)

namespace Origin

variable {origin : Origin} {a : DigitArray}

/-- The digits, in scientific form. -/
def start : Origin → Checked Obstacle DigitArray
  | whole radix _ i => DigitArray.ofDigits i.negative (i.digits radix) radix
  | shortest x => DigitArray.ofFloat x
  | exact x => DigitArray.ofFloatBinary x

/-- The number they are the digits of. -/
def value : Origin → ℚ
  | whole _ _ i => i.value
  | shortest x =>
    if x.negative then -((x.shortest.1 : ℚ) * 10 ^ x.shortest.2)
    else x.shortest.1 * 10 ^ x.shortest.2
  | exact x => if x.negative then -x.magnitude else x.magnitude

/-- A number that has digits, and no more than can be held. -/
def Fits : Origin → Prop
  | whole _ _ i => i.value.natAbs.log2 < spaceLimit
  | shortest x | exact x => x.isFinite = true

/-- Either width of a whole number has the digits of the number. -/
theorem start_whole (radix : Nat) (h : 1 < radix ∧ radix ≤ 256) (i : Kept) :
    (whole radix h i).start = DigitArray.ofInt radix i.value := by
  have hsmall : radix < Nat.pow 2 128 := Nat.lt_of_le_of_lt h.2 (by decide)
  rw [start, Kept.digits_eq h.1 hsmall, Kept.negative_eq]
  rfl

theorem exists_start (h : origin.Fits) : ∃ a, origin.start = .ok a := by
  cases origin with
  | whole radix hradix i =>
    rw [start_whole]
    exact ⟨_, (Numeral.ofInt_array hradix.1 h).1⟩
  | shortest x =>
    obtain ⟨n, -, harray, -⟩ := Numeral.ofFloat_array h
    exact ⟨n.array, harray⟩
  | exact x =>
    obtain ⟨n, -, harray, -⟩ := Numeral.ofFloatBinary_array h
    exact ⟨n.array, harray⟩

theorem starts (h : origin.start = .ok a) : a.Starts ∧ a.value = origin.value := by
  cases origin with
  | whole radix hradix i =>
    rw [start_whole] at h
    exact DigitArray.ofInt_starts hradix.1 h
  | shortest x => exact DigitArray.ofFloat_starts h
  | exact x => exact DigitArray.ofFloatBinary_starts h

end Origin

/-! ## Arrays that are reached -/

/-- The arrays that changes of form lead to from the digits of a number, in whatever order they
follow one another. A percentage counts its powers from two higher on. -/
inductive Reached : DigitArray → Prop where
  | start {origin : Origin} {a : DigitArray} : origin.start = .ok a → Reached a
  | percent {a : DigitArray} :
      Reached a → IsSigned (a.exponent + 2) → Reached { a with exponent := a.exponent + 2 }
  | change {a b : DigitArray} (change : Change) : Reached a → change.apply a = .ok b → Reached b

theorem Reached.valid {a : DigitArray} (h : Reached a) : a.Valid := by
  induction h with
  | start hstart => exact (Origin.starts hstart).1.valid
  | percent _ _ ih => exact ih.restate _ _
  | change change _ hb ih => exact ih.apply hb

/-! ## Every figure is reached -/

/-- A layout whose digits are reached, if it has digits. -/
def Layout.IsReached : Layout → Prop
  | finite a _ => Reached a
  | infinite _ | notANumber => True

namespace Layout

variable {q : Quantity} {a b : DigitArray} {layout : Layout}

theorem reached_ofInt {radix : Nat} (hradix : 1 < radix ∧ radix ≤ 256) {v : Int}
    (h : (DigitArray.ofInt radix v : Checked Obstacle DigitArray) = .ok a) : Reached a := by
  have hstart : (Origin.whole radix hradix (.wide v)).start = .ok a := by
    rw [Origin.start_whole]
    exact h
  exact .start hstart

theorem reached_decimal (h : DigitArray.decimal q = .ok a) : Reached a := by
  cases q with
  | integer v => exact reached_ofInt (by decide) h
  | float x => exact .start (show (Origin.shortest x).start = .ok a from h)

theorem reached_binary (h : DigitArray.binary q = .ok a) : Reached a := by
  cases q with
  | integer v => exact reached_ofInt (by decide) h
  | float x => exact .start (show (Origin.exact x).start = .ok a from h)

theorem whole_isReached {radix : Nat} (hradix : 1 < radix ∧ radix ≤ 256)
    (h : whole q radix = .ok layout) : layout.IsReached := by
  obtain ⟨v, -, h⟩ := bind_eq_ok h
  obtain ⟨a, ha, h⟩ := bind_eq_ok h
  obtain ⟨b, hb, h⟩ := bind_eq_ok h
  cases h
  exact (reached_ofInt hradix ha).change .toInteger hb

theorem fixedPlaces_isReached (ha : Reached a) {places : Nat}
    (h : fixedPlaces a places = .ok layout) : layout.IsReached := by
  obtain ⟨fixed, hfixed, h⟩ := bind_eq_ok h
  obtain ⟨rounded, hrounded, h⟩ := bind_eq_ok h
  obtain ⟨trimmed, htrimmed, h⟩ := bind_eq_ok h
  cases h
  exact ((ha.change .toFixed hfixed).change (.roundPlaces places) hrounded).change .trimWhole
    htrimmed

theorem scientific_isReached (ha : Reached a) {places : Nat}
    (h : scientific a places = .ok layout) : layout.IsReached := by
  replace h := sum_bind_eq_ok h
  obtain ⟨rounded, hrounded, h⟩ := bind_eq_ok h
  cases h
  exact ha.change (.roundSignificant (places + 1)) hrounded

theorem hexadecimal_isReached (ha : Reached a) {places : Option Nat}
    (h : hexadecimal a places = .ok layout) : layout.IsReached := by
  obtain ⟨hex, hhex, h⟩ := bind_eq_ok h
  have hreached := ha.change .toHex hhex
  cases places with
  | none =>
    cases h
    exact hreached
  | some places =>
    obtain ⟨rounded, hrounded, h⟩ := bind_eq_ok h
    cases h
    exact hreached.change (.roundPlaces places) hrounded

theorem reached_attempt (ha : Reached a) {g : General} (h : attempt a g = .ok b) : Reached b := by
  rw [attempt] at h
  split_ifs at h
  · exact ha.change (.roundSignificant g.precision) h
  · cases h
    exact ha

theorem reached_roundFor (ha : Reached a) {g : General} {exponent : Int}
    (h : roundFor a g exponent = .ok b) : Reached b := by
  rw [roundFor] at h
  split_ifs at h
  · obtain ⟨places, -, h⟩ := bind_eq_ok h
    exact ha.change (.roundPlaces places) h
  · cases h
    exact ha

theorem reached_stripFor (ha : Reached a) {g : General} {least : Nat}
    (h : stripFor a g least = .ok b) : Reached b := by
  rw [stripFor] at h
  split_ifs at h
  · exact ha.change (.stripFraction least) h
  · cases h
    exact ha

theorem general_isReached (ha : Reached a) {g : General} (h : general a g = .ok layout) :
    layout.IsReached := by
  obtain ⟨attempted, hattempt, h⟩ := bind_eq_ok h
  split_ifs at h
  · obtain ⟨fixed, hfixed, h⟩ := bind_eq_ok h
    obtain ⟨rounded, hrounded, h⟩ := bind_eq_ok h
    obtain ⟨stripped, hstripped, h⟩ := bind_eq_ok h
    obtain ⟨padded, hpadded, h⟩ := bind_eq_ok h
    cases h
    have hreached := reached_roundFor (ha.change .toFixed hfixed) hrounded
    exact (reached_stripFor hreached hstripped).change (.padFraction g.leastFraction) hpadded
  · obtain ⟨stripped, hstripped, h⟩ := bind_eq_ok h
    cases h
    exact reached_stripFor (reached_attempt ha hattempt) hstripped

theorem ofFinite_isReached {element : Element Nat} (h : ofFinite q element = .ok layout) :
    layout.IsReached := by
  unfold ofFinite at h
  dsimp only at h
  generalize element.type = type at h
  cases type with
  | byKind =>
    cases q with
    | integer v => exact whole_isReached (by decide) h
    | float x =>
      obtain ⟨a, ha, h⟩ := bind_eq_ok h
      obtain ⟨g, -, h⟩ := bind_eq_ok h
      exact general_isReached (reached_decimal ha) h
  | fixed letters =>
    obtain ⟨a, ha, h⟩ := bind_eq_ok h
    exact fixedPlaces_isReached (reached_decimal ha) h
  | percent =>
    obtain ⟨a, ha, h⟩ := bind_eq_ok h
    obtain ⟨hsigned, h⟩ := ite_bind_eq_ok h
    exact fixedPlaces_isReached ((reached_decimal ha).percent hsigned) h
  | exponent letters =>
    obtain ⟨a, ha, h⟩ := bind_eq_ok h
    exact scientific_isReached (reached_decimal ha) h
  | general letters =>
    obtain ⟨a, ha, h⟩ := bind_eq_ok h
    obtain ⟨g, -, h⟩ := bind_eq_ok h
    exact general_isReached (reached_decimal ha) h
  | hexFloat letters =>
    obtain ⟨a, ha, h⟩ := bind_eq_ok h
    exact hexadecimal_isReached (reached_binary ha) h
  | _ => cases h

theorem dropZeroSign_isReached (h : layout.IsReached) : layout.dropZeroSign.IsReached := by
  cases layout with
  | finite a style => exact Reached.change .dropZeroSign h rfl
  | infinite negative => trivial
  | notANumber => trivial

theorem ofQuantity_isReached {element : Element Nat} (h : ofQuantity q element = .ok layout) :
    layout.IsReached := by
  rw [ofQuantity] at h
  cases hradix : element.type.radix? with
  | some radix =>
    rw [hradix] at h
    refine whole_isReached ?_ h
    cases hcode : element.type <;> rw [hcode] at hradix <;> cases hradix <;> decide
  | none =>
    rw [hradix] at h
    cases hfinite : q.nonFinite? with
    | some figure =>
      rw [hfinite] at h
      cases h
      cases q with
      | integer v => cases hfinite
      | float x =>
        rw [Quantity.nonFinite?] at hfinite
        split_ifs at hfinite <;> cases hfinite <;> trivial
    | none =>
      rw [hfinite] at h
      obtain ⟨found, hfound, h⟩ := bind_eq_ok h
      cases h
      have hreached := ofFinite_isReached hfound
      split_ifs
      · exact dropZeroSign_isReached hreached
      · exact hreached

end Layout

/-- The digits of every figure are reached from the number that it is the figure of. -/
theorem reached_figure {q : Quantity} (hq : q.Fits) {element : Element Nat}
    (hprecision : ∀ p ∈ element.precision, p ≤ maxCount) (htype : element.type.PresentsNumbers)
    {n : Numeral} {style : Style} (h : q.figure element = .ok (.finite n style)) :
    Reached n.array := by
  rcases ofQuantity_laysOut hq hprecision htype with ⟨figure, hfigure, hlayout, -⟩ | ⟨hrefused, -⟩
  · rw [h] at hfigure
    cases hfigure
    exact Layout.ofQuantity_isReached hlayout
  · rw [h] at hrefused
    cases hrefused

/-! ## What they have in common -/

/-- Digits start in scientific form, as the digits of their number. In every array that changes of
form lead to from there, in whatever order, the point is behind at least one digit and at most all of
them, and every digit is below the base; a change that does not round leaves the number as it is. The
digits of every figure are such an array. -/
theorem reached_keeps_form :
    (∀ origin : Origin, (origin.Fits → ∃ a, origin.start = .ok a) ∧
      ∀ a, origin.start = .ok a → a.Normal ∧ a.value = origin.value) ∧
    (∀ a : DigitArray, Reached a → a.Valid ∧
      ∀ (change : Change) (b : DigitArray), change.rounds = false → change.apply a = .ok b →
        b.value = a.value) ∧
    ∀ (q : Quantity) (element : Element Nat) (n : Numeral) (style : Style), q.Fits →
      (∀ p ∈ element.precision, p ≤ maxCount) → element.type.PresentsNumbers →
        q.figure element = .ok (.finite n style) → Reached n.array := by
  refine ⟨fun origin => ⟨Origin.exists_start, fun a hstart => ?_⟩, fun a hreached => ?_, ?_⟩
  · obtain ⟨hstarts, hvalue⟩ := Origin.starts hstart
    exact ⟨hstarts.normal, hvalue⟩
  · have hvalid := hreached.valid
    exact ⟨hvalid, fun change b hexact hb => (hvalid.sameNumber_apply hexact hb).value⟩
  · intro q element n style hq hprecision htype hfigure
    exact reached_figure hq hprecision htype hfigure

/-- Binary digits of a negative number, and their groups of four. -/
theorem reached_keeps_form_hex :
    let origin := Origin.whole 2 (by decide) (.narrow (-10))
    let element : Element Nat := { type := .hexFloat .lower }
    let binary : DigitArray :=
      { negative := true, digits := [1, 0, 1], dot := 1, exponent := 3, base := 2, radix := 2 }
    let hex : Numeral :=
      { negative := true, whole := [1], fraction := [4], exponent := 3, base := 16, radix := 2 }
    origin.Fits ∧ origin.start = .ok binary ∧ binary.Normal ∧ binary.value = -10 ∧
      Change.toHex.apply binary = .ok hex.array ∧ hex.array.value = -10 ∧
      (Quantity.integer (-10)).figure element = .ok (.finite hex .hexadecimal) ∧
      hex.array.Valid := by
  intro origin element binary hex
  obtain ⟨hstarts, hchanges, hfigures⟩ := reached_keeps_form
  have hfits : origin.Fits := show (Kept.narrow (-10)).value.natAbs.log2 < spaceLimit by decide
  have hstart : origin.start = .ok binary := by decide +kernel
  have hhex : Change.toHex.apply binary = .ok hex.array := by decide +kernel
  have hfigure : (Quantity.integer (-10)).figure element = .ok (.finite hex .hexadecimal) := by
    decide +kernel
  have hq : (Quantity.integer (-10)).Fits := show (-10 : Int).natAbs.log2 < spaceLimit by decide
  obtain ⟨hnormal, hvalue⟩ := (hstarts origin).2 binary hstart
  have hkept : (Kept.narrow (-10)).value = -10 := by decide
  have hten : binary.value = -10 := by
    rw [hvalue, show origin.value = ((Kept.narrow (-10)).value : ℚ) from rfl, hkept]
    norm_num
  have hsame := (hchanges binary (.start hstart)).2 .toHex hex.array rfl hhex
  have hreached := hfigures (.integer (-10)) element hex .hexadecimal hq nofun trivial hfigure
  exact ⟨hfits, hstart, hnormal, hten, hhex, hsame.trans hten, hfigure, (hchanges _ hreached).1⟩

end Stencil
