import Stencil.Proofs.Render.Rounded
import Stencil.Proofs.Render.ZeroFill
import Stencil.Proofs.Render.Wholes

/-!
# Zeros without their sign

Whether a number is written as zero is known only once its digits are rounded, and then the flag `z`
takes its sign. That moves whatever is padded behind the sign, so the text is not the one with the
sign left out: it is the text of the number with the opposite sign.

* `Binary64.opposite` — the double of the other sign.
* `Numeral.signed`, `Figure.signed` — a number with a sign; no change of form looks at it.
* `Quantity.RoundsToZero`, `Value.LosesSign` — values that the flag takes the sign from.
* `finiteFigure_opposite` — the opposite of a double has the same digits.
* `renderValue_positiveZero` — the flag takes the sign of these values, and changes nothing else.
-/

namespace Stencil

/-! ## Opposite doubles -/

namespace Binary64

/-- The same magnitude with the other sign. Adding to the topmost bit flips it, since the carry is
lost. -/
def opposite (x : Binary64) : Binary64 :=
  ⟨x.bits + UInt64.ofNat (Nat.pow 2 63)⟩

theorem toNat_opposite (x : Binary64) :
    x.opposite.bits.toNat = (x.bits.toNat + 2 ^ 63) % 2 ^ 64 := by
  rw [opposite, UInt64.toNat_add]
  rfl

@[simp]
theorem negative_opposite (x : Binary64) : x.opposite.negative = !x.negative := by
  have hlt := x.bits.toNat_lt
  rw [negative, negative, toNat_opposite, Nat.pow_eq]
  by_cases h : x.bits.toNat / 2 ^ 63 = 1
  · have hflip : (x.bits.toNat + 2 ^ 63) % 2 ^ 64 / 2 ^ 63 = 0 := by omega
    rw [h, hflip]
    rfl
  · have hzero : x.bits.toNat / 2 ^ 63 = 0 := by omega
    have hflip : (x.bits.toNat + 2 ^ 63) % 2 ^ 64 / 2 ^ 63 = 1 := by omega
    rw [hzero, hflip]
    rfl

@[simp]
theorem storedExponent_opposite (x : Binary64) : x.opposite.storedExponent = x.storedExponent := by
  have hlt := x.bits.toNat_lt
  rw [storedExponent, storedExponent, toNat_opposite, Nat.pow_eq, Nat.pow_eq]
  omega

@[simp]
theorem storedFraction_opposite (x : Binary64) : x.opposite.storedFraction = x.storedFraction := by
  rw [storedFraction, storedFraction, toNat_opposite, Nat.pow_eq]
  omega

@[simp]
theorem isFinite_opposite (x : Binary64) : x.opposite.isFinite = x.isFinite := by
  rw [isFinite, isFinite, storedExponent_opposite]

@[simp]
theorem significand_opposite (x : Binary64) : x.opposite.significand = x.significand := by
  rw [significand, significand, storedExponent_opposite, storedFraction_opposite]

@[simp]
theorem scale_opposite (x : Binary64) : x.opposite.scale = x.scale := by
  rw [scale, scale, storedExponent_opposite]

/-- The decimals that read back are those of the magnitude. -/
@[simp]
theorem shortest_opposite (x : Binary64) : x.opposite.shortest = x.shortest := by
  have hnarrow : x.opposite.narrowBelow = x.narrowBelow := by
    rw [narrowBelow, narrowBelow, storedExponent_opposite, storedFraction_opposite]
  have hquarters : x.opposite.quarters = x.quarters := by
    rw [quarters, quarters, significand_opposite]
  have hreads (step quarter d : Nat) :
      x.opposite.ReadsBack step quarter d ↔ x.ReadsBack step quarter d := by
    simp only [ReadsBack, lowQuarters, highQuarters, hquarters, hnarrow, significand_opposite]
  have hgrid (k : Int) : x.opposite.gridPoint? k = x.gridPoint? k := by
    have hweights : x.opposite.weights k = x.weights k := by
      rw [weights, weights, scale_opposite]
    rw [gridPoint?, gridPoint?, hweights, hquarters]
    simp only [hreads]
  simp only [shortest, significand_opposite, hgrid]

end Binary64

/-! ## Numerals with another sign -/

namespace Numeral

variable (n : Numeral) (negative : Bool)

/-- A numeral with a sign. -/
def signed : Numeral :=
  { n with negative }

@[simp]
theorem isZero_signed : (n.signed negative).isZero = n.isZero := rfl

theorem normalize_signed : (n.signed negative).normalize = n.normalize.signed negative := by
  have hdigits : (n.signed negative).digits = n.digits := rfl
  rw [normalize, normalize, hdigits]
  split <;> rfl

theorem ofScaled_signed (sign : Bool) (base m : Nat) (exponent : Int) :
    ofScaled negative base m exponent = (ofScaled sign base m exponent).signed negative :=
  normalize_signed
    { negative := sign, whole := _, fraction := _, exponent, base, radix := _ } negative

theorem toFixed_signed :
    (n.signed negative).toFixed = n.toFixed.map fun m => m.signed negative := by
  simp only [toFixed, apply_ite (Except.map _)]
  rfl

theorem increment_signed : (n.signed negative).increment = n.increment.signed negative := by
  unfold increment
  dsimp only [signed]
  split
  · rfl
  · split <;> rfl

theorem roundPlaces_signed (places : Nat) :
    (n.signed negative).roundPlaces places = (n.roundPlaces places).signed negative := by
  have hfraction : (n.signed negative).fraction = n.fraction := rfl
  rw [roundPlaces, roundPlaces, hfraction]
  split
  · rfl
  · dsimp only
    rw [apply_ite (fun m => signed m negative), ← increment_signed]
    rfl

theorem roundSignificant_signed (count : Nat) :
    (n.signed negative).roundSignificant count =
      (n.roundSignificant count).map fun m => m.signed negative := by
  simp only [roundSignificant, roundPlaces_signed, apply_ite (Except.map _)]
  rfl

theorem trimWhole_signed : (n.signed negative).trimWhole = n.trimWhole.signed negative := by
  unfold trimWhole
  dsimp only [signed]
  split <;> rfl

theorem toHex_signed : (n.signed negative).toHex = n.toHex.map fun m => m.signed negative := by
  simp only [toHex, apply_ite (Except.map _)]
  rfl

end Numeral

/-! ## Figures with another sign -/

namespace Figure

/-- A figure with a sign on its digits. -/
def signed (negative : Bool) : Figure → Figure
  | finite n style => finite (n.signed negative) style
  | other => other

variable (n : Numeral) (negative : Bool)

theorem fixedPlaces_signed (places : Nat) :
    fixedPlaces (n.signed negative) places = (fixedPlaces n places).map (signed negative) := by
  rw [fixedPlaces, fixedPlaces, Numeral.toFixed_signed]
  cases n.toFixed with
  | error obstacle => rfl
  | ok m =>
    have hrounded : ((m.signed negative).roundPlaces places).trimWhole =
        (m.roundPlaces places).trimWhole.signed negative := by
      rw [Numeral.roundPlaces_signed, Numeral.trimWhole_signed]
    exact congrArg (fun m => Except.ok (finite m .fixed)) hrounded

theorem scientific_signed (places : Nat) :
    scientific (n.signed negative) places = (scientific n places).map (signed negative) := by
  rw [scientific, scientific, Numeral.roundSignificant_signed]
  cases n.roundSignificant (places + 1) <;> rfl

theorem hexadecimal_signed (places : Option Nat) :
    hexadecimal (n.signed negative) places = (hexadecimal n places).map (signed negative) := by
  rw [hexadecimal, hexadecimal, Numeral.toHex_signed]
  cases n.toHex with
  | error obstacle => rfl
  | ok m =>
    cases places with
    | none => rfl
    | some places =>
      exact congrArg (fun m => Except.ok (finite m .hexadecimal))
        (m.roundPlaces_signed negative places)

theorem general_signed (g : General) :
    general (n.signed negative) g = (general n g).map (signed negative) := by
  have hattempt : (if g.round then (n.signed negative).roundSignificant g.precision
      else .ok (n.signed negative)) =
        (if g.round then n.roundSignificant g.precision else .ok n).map
          fun m => m.signed negative := by
    rw [Numeral.roundSignificant_signed, apply_ite (Except.map _)]
    rfl
  cases h : if g.round then n.roundSignificant g.precision else .ok n with
  | error obstacle =>
    have hround : g.round = true := by
      by_contra hround
      rw [if_neg hround] at h
      cases h
    rw [if_pos hround] at h
    rw [general, general, if_pos hround, if_pos hround, Numeral.roundSignificant_signed, h]
    rfl
  | ok attempt =>
    rw [h] at hattempt
    have hstripped (m : Numeral) (least : Nat) :
        (if g.strip then (m.signed negative).stripFraction least else m.signed negative) =
          (if g.strip then m.stripFraction least else m).signed negative := by
      split_ifs <;> rfl
    have hrounded (m : Numeral) (places : Nat) :
        (if g.round then (m.signed negative).roundPlaces places else m.signed negative) =
          (if g.round then m.roundPlaces places else m).signed negative := by
      rw [Numeral.roundPlaces_signed]
      split_ifs <;> rfl
    rw [general_eq h, general_eq hattempt, Numeral.toFixed_signed, apply_ite (Except.map _)]
    refine if_congr Iff.rfl ?_ ?_
    · cases n.toFixed with
      | error obstacle => rfl
      | ok m =>
        simp only [Except.map, Bind.bind, Except.bind, hrounded, hstripped]
        rfl
    · simp only [hstripped]
      rfl

end Figure

namespace Quantity

variable {element : Element Nat} (x : Binary64)

theorem decimal_opposite :
    (float x.opposite).decimal = (float x).decimal.map (Numeral.signed · (!x.negative)) := by
  have hopposite := x.isFinite_opposite
  rw [decimal_float, decimal_float]
  cases hfinite : x.isFinite with
  | true =>
    rw [hfinite] at hopposite
    rw [Numeral.ofFloat_eq_ok hfinite, Numeral.ofFloat_eq_ok hopposite, Except.map,
      Binary64.negative_opposite, Binary64.shortest_opposite, Numeral.ofScaled_signed]
  | false =>
    rw [hfinite] at hopposite
    rw [Numeral.ofFloat, Numeral.ofFloat, hfinite, hopposite]
    rfl

theorem binary_opposite :
    (float x.opposite).binary = (float x).binary.map (Numeral.signed · (!x.negative)) := by
  rw [binary_float, binary_float, Numeral.ofFloatBinary, Numeral.ofFloatBinary,
    apply_ite (Except.map _)]
  simp only [Binary64.isFinite_opposite, Binary64.negative_opposite, Binary64.significand_opposite,
    Binary64.scale_opposite, Except.map, ← Numeral.ofScaled_signed]

/-- The opposite of a double has the same digits. -/
theorem finiteFigure_opposite (element : Element Nat) :
    (float x.opposite).finiteFigure element =
      ((float x).finiteFigure element).map (Figure.signed !x.negative) := by
  have hbind (result : Except Obstacle Numeral) {f : Numeral → Except Obstacle Figure}
      (hf : ∀ n : Numeral, f (n.signed !x.negative) = (f n).map (Figure.signed !x.negative)) :
      (result.map (Numeral.signed · (!x.negative)) >>= f) =
        (result >>= f).map (Figure.signed !x.negative) := by
    cases result with
    | error obstacle => rfl
    | ok n => exact hf n
  unfold finiteFigure
  dsimp only
  rw [decimal_opposite, binary_opposite]
  cases element.type with
  | byKind | general _ => exact hbind _ fun n => Figure.general_signed n _ _
  | fixed _ => exact hbind _ fun n => Figure.fixedPlaces_signed n _ _
  | percent =>
    exact hbind _ fun n => Figure.fixedPlaces_signed { n with exponent := n.exponent + 2 } _ _
  | exponent _ => exact hbind _ fun n => Figure.scientific_signed n _ _
  | hexFloat _ => exact hbind _ fun n => Figure.hexadecimal_signed n _ _
  | _ => rfl

/-- Whether a number has no digits but zeros once it is rounded the way an element asks for. -/
def RoundsToZero (q : Quantity) (element : Element Nat) : Prop :=
  ∃ n style, q.finiteFigure element = .ok (.finite n style) ∧ n.isZero = true

end Quantity

/-! ## The flag -/

section Flag

variable {element : Element Nat} {q : Quantity} {v : Value}

/-- An element with the flag `z` or without it. -/
def Element.flagged {κ : Type} (element : Element κ) (flag : Bool) : Element κ :=
  { element with positiveZero := flag }

theorem Value.eq_float_of_quantity? {x : Binary64} (hv : v.quantity? = some (.float x)) :
    v = .float x := by
  cases v <;> cases hv
  rfl

/-- Negative doubles, and negative zero, whose digits are rounded to zeros. -/
def Value.LosesSign (v : Value) (element : Element Nat) : Prop :=
  ∃ x, v = .float x ∧ x.isFinite = true ∧ x.negative = true ∧
    (Quantity.float x).RoundsToZero element

/-- What has no digits is written as it is. -/
theorem Quantity.figure_of_nonFinite {figure : Figure}
    (htype : element.type = .byKind ∨ element.type.isFloat = true)
    (hfinite : q.nonFinite? = some figure) (flag : Bool) :
    q.figure (element.flagged flag) = .ok figure := by
  have hradix : (element.flagged flag).type.radix? = none := TypeCode.radix?_eq_none htype
  rw [Quantity.figure, hradix]
  dsimp only
  rw [hfinite]

/-- The flag takes the sign of a zero, and does nothing else to the digits. -/
theorem Quantity.figure_flagged {n : Numeral} {style : Style}
    (htype : element.type = .byKind ∨ element.type.isFloat = true) (hfinite : q.nonFinite? = none)
    (hfigure : q.finiteFigure element = .ok (.finite n style)) (flag : Bool) :
    q.figure (element.flagged flag) =
      .ok (.finite (if flag then n.dropZeroSign else n) style) := by
  have hradix : (element.flagged flag).type.radix? = none := TypeCode.radix?_eq_none htype
  have hflagged : q.finiteFigure (element.flagged flag) = .ok (.finite n style) := hfigure
  rw [figure, hradix]
  dsimp only
  rw [hfinite]
  dsimp only
  rw [hflagged]
  cases flag <;> rfl

/-- A figure is the same under the flag, unless the flag takes the sign of its number. -/
theorem Quantity.figure_of_not_losesSign (hv : v.quantity? = some q)
    (htype : element.type = .byKind ∨ element.type.isFloat = true)
    (hsign : ¬v.LosesSign element) :
    q.figure (element.flagged true) = q.figure (element.flagged false) := by
  cases hfinite : q.nonFinite? with
  | some figure => rw [figure_of_nonFinite htype hfinite, figure_of_nonFinite htype hfinite]
  | none =>
    have hq := finite_of_nonFinite? hfinite
    obtain ⟨n, style, hn, -, hnegative, hinteger⟩ := finiteFigure_signed hq htype
    have hkept : n.dropZeroSign = n := by
      have hnonzero : n.negative = true → n.isZero = false := by
        intro hminus
        rw [hnegative] at hminus
        cases q with
        | integer i =>
          have hi : i < 0 := of_decide_eq_true hminus
          exact hinteger i rfl (by omega)
        | float x =>
          rw [← Bool.not_eq_true]
          intro hzero
          exact hsign ⟨x, Value.eq_float_of_quantity? hv, hq, hminus, n, style, hn, hzero⟩
      have hsame : (n.negative && !n.isZero) = n.negative := by
        cases hminus : n.negative with
        | false => rfl
        | true => rw [hnonzero hminus]; rfl
      rw [Numeral.dropZeroSign, hsame]
    rw [figure_flagged htype hfinite hn, figure_flagged htype hfinite hn, if_pos rfl, hkept]
    rfl

/-- Where the flag takes the sign of a number, the figure is that of its opposite. -/
theorem Quantity.figure_of_losesSign {x : Binary64}
    (htype : element.type = .byKind ∨ element.type.isFloat = true)
    (hsign : (Value.float x).LosesSign element) :
    ∃ figure, (float x).figure (element.flagged true) = .ok figure ∧
      (float x.opposite).figure (element.flagged false) = .ok figure := by
  obtain ⟨x, ⟨⟩, hfinite, hx, n, style, hn, hzero⟩ := hsign
  have hq : (Quantity.float x).Finite := hfinite
  have hq' : (Quantity.float x.opposite).Finite := (Binary64.isFinite_opposite x).trans hfinite
  have hnegative : n.negative = true := by
    obtain ⟨m, _, hm, -, hnegative, -⟩ := finiteFigure_signed hq htype
    rw [hn] at hm
    cases hm
    exact hnegative.trans hx
  have hopposite : (float x.opposite).finiteFigure element =
      .ok (.finite (n.signed false) style) := by
    rw [finiteFigure_opposite, hn, hx]
    rfl
  have hdropped : n.dropZeroSign = n.signed false := by
    rw [Numeral.dropZeroSign, hzero, hnegative]
    rfl
  refine ⟨.finite (n.signed false) style, ?_, ?_⟩
  · rw [figure_flagged htype hq.nonFinite? hn, if_pos rfl, hdropped]
  · exact figure_flagged htype hq'.nonFinite? hopposite false

theorem renderValue_flagged (hv : v.quantity? = some q)
    (htype : element.type = .byKind ∨ element.type.isFloat = true)
    (hkind : element.type = .byKind → ∃ x, v = .float x) (layers : List (Layer Nat)) (flag : Bool)
    (options : Options) :
    renderValue options layers (element.flagged flag) v =
      renderQuantity q v (element.flagged flag) options := by
  have hunder : v.numberUnder? (element.flagged flag) = some q := by
    unfold Value.numberUnder?
    cases hcode : (element.flagged flag).type with
    | byKind =>
      obtain ⟨x, rfl⟩ := hkind hcode
      obtain rfl := Option.some.inj hv
      rfl
    | exponent _ | fixed _ | percent | general _ | hexFloat _ => exact hv
    | _ =>
      have hcode : element.type = _ := hcode
      rw [hcode] at htype
      rcases htype with htype | htype <;> cases htype
  rw [renderValue_scalar layers (Value.isContainer_of_numberUnder? hunder),
    renderScalar_of_numberUnder? hunder]

end Flag

/-! ## Minus signs -/

/-- Every digit stays when it is grouped. -/
theorem Grouping.sublist_apply (g : Grouping) (run : List Char) : run.Sublist (g.apply run) := by
  induction run with
  | nil => exact List.nil_sublist _
  | cons d rest ih =>
    rw [apply_cons]
    split_ifs
    · exact ih.cons_cons d
    · exact (ih.cons g.separator).cons_cons d

/-- The whole part of a numeral is among the characters that are written for it. -/
theorem chars_subset_wholeText (n : Numeral) (element : Element Nat) (grouping : Option Grouping)
    (taken : Nat) : Digits.chars n.whole ⊆ wholeText n element grouping taken := by
  cases grouping with
  | none => exact List.Subset.refl _
  | some g =>
    rw [wholeText]
    split_ifs
    · exact List.Subset.trans (List.subset_append_right _ _) (g.sublist_apply _).subset
    · exact (g.sublist_apply _).subset

/-- A figure with a digit that is not zero, and which is written in front of the exponent. -/
def Figure.ShowsNonzero (figure : Figure) (element : Element Nat) (options : Options) : Prop :=
  ∃ n style significand, figure = .finite n style ∧
    (figure.parts element options).2 =
      significand ++ (exponentText n style ++ percentText element.type) ∧
    ∃ d ∈ n.digits, 0 < d ∧ d < 16 ∧ Digits.char d ∈ significand

theorem Figure.showsNonzero {n : Numeral} (hzero : n.isZero = false)
    (hdigits : Digits.InBase 16 n.digits) (style : Style) (element : Element Nat)
    (options : Options) : (Figure.finite n style).ShowsNonzero element options := by
  obtain ⟨d, hd, hne⟩ : ∃ d ∈ n.digits, d ≠ 0 := by
    simpa [Numeral.isZero, Digits.allZero] using hzero
  let separators := Separators.resolve element n.base options.locale
  obtain ⟨taken, hbody⟩ : ∃ taken, ((Figure.finite n style).parts element options).2 =
      wholeText n element separators.grouping taken ++
        tailText n style element separators.point := ⟨_, rfl⟩
  let fraction := fractionText n style element.alternate separators.point
  refine ⟨n, style, wholeText n element separators.grouping taken ++ fraction, rfl, ?_, d, hd,
    Nat.pos_of_ne_zero hne, hdigits d hd, ?_⟩
  · rw [hbody, tailText, List.append_assoc, List.append_assoc]
  · rw [List.mem_append]
    rcases List.mem_append.1 hd with hwhole | hfraction
    · exact .inl (chars_subset_wholeText n element _ taken (List.mem_map_of_mem hwhole))
    · right
      have hnil : n.fraction ≠ [] := List.ne_nil_of_mem hfraction
      show _ ∈ fractionText n style element.alternate separators.point
      rw [fractionText, if_pos hnil]
      exact List.mem_cons_of_mem _ (List.mem_map_of_mem hfraction)

/-- With the flag there is a minus sign only in front of minus infinity, or of digits that are not
all zero. -/
theorem exists_figure_flagged {v : Value} {q : Quantity} (hv : v.quantity? = some q)
    {element : Element Nat} (htype : element.type = .byKind ∨ element.type.isFloat = true)
    (options : Options) :
    ∃ figure : Figure, q.figure (element.flagged true) = .ok figure ∧
      ('-' ∈ (figure.parts element options).1 →
        (∃ x, v = .float x ∧ x.isFinite = false ∧ x.isNaN = false ∧ x.negative = true ∧
          figure = .infinite true) ∨ figure.ShowsNonzero element options) := by
  cases hfinite : q.nonFinite? with
  | some figure =>
    refine ⟨figure, Quantity.figure_of_nonFinite htype hfinite true, fun hminus => .inl ?_⟩
    cases q with
    | integer i => cases hfinite
    | float x =>
      have hx := Value.eq_float_of_quantity? hv
      rw [Quantity.nonFinite?] at hfinite
      split_ifs at hfinite with hdigits hnan
      · obtain rfl := Option.some.inj hfinite
        exact absurd ((minus_mem_signText false element.sign).1 hminus) (by decide)
      · obtain rfl := Option.some.inj hfinite
        have hnegative := (minus_mem_signText _ _).1 hminus
        rw [Bool.not_eq_true] at hdigits hnan
        exact ⟨x, hx, hdigits, hnan, hnegative, by rw [hnegative]⟩
  | none =>
    obtain ⟨n, style, hn, hdigits, -⟩ :=
      Quantity.finiteFigure_signed (Quantity.finite_of_nonFinite? hfinite) htype
    refine ⟨_, Quantity.figure_flagged htype hfinite hn true, fun hminus => .inr ?_⟩
    rcases List.mem_append.1 hminus with hsign | hmark
    · have hkept := (minus_mem_signText _ _).1 hsign
      have hzero : n.isZero = false := by
        have hboth : (n.negative && !n.isZero) = true := hkept
        simpa using (Bool.and_eq_true_iff.1 hboth).2
      exact Figure.showsNonzero (n := n.dropZeroSign) hzero hdigits style element options
    · exact absurd hmark (minus_not_mem_radixMark _ _ _)

/-! ## The law -/

/-- With the flag `z`, a negative double whose digits are all rounded to zero renders as its
opposite does without the flag, and every other number renders as it does without the flag. An
infinity keeps its sign. So a minus sign is only written in front of minus infinity, or of digits
that are not all zero. -/
theorem renderValue_positiveZero {v : Value} {q : Quantity} (hv : v.quantity? = some q)
    {element : Element Nat} (htype : element.type = .byKind ∨ element.type.isFloat = true)
    (hkind : element.type = .byKind → ∃ x, v = .float x) (layers : List (Layer Nat))
    (options : Options) :
    (¬v.LosesSign element → renderValue options layers (element.flagged true) v =
        renderValue options layers (element.flagged false) v) ∧
      (∀ x, v = .float x → v.LosesSign element →
        renderValue options layers (element.flagged true) v =
          renderValue options layers (element.flagged false) (.float x.opposite)) ∧
      (∀ x, v = .float x → x.isFinite = false → x.isNaN = false →
        renderValue options layers (element.flagged true) v =
          .ok ((Figure.infinite x.negative).written element options)) ∧
      ∃ figure : Figure,
        renderValue options layers (element.flagged true) v =
          .ok (figure.written element options) ∧
        ('-' ∈ (figure.parts element options).1 →
          (∃ x, v = .float x ∧ x.isFinite = false ∧ x.isNaN = false ∧ x.negative = true ∧
            figure = .infinite true) ∨ figure.ShowsNonzero element options) := by
  have hrender := renderValue_flagged hv htype hkind layers
  refine ⟨fun hsign => ?_, ?_, ?_, ?_⟩
  · rw [hrender, hrender, renderQuantity, renderQuantity,
      Quantity.figure_of_not_losesSign hv htype hsign]
    rfl
  · rintro x rfl hsign
    obtain rfl := Option.some.inj hv
    have hopposite := renderValue_flagged (v := .float x.opposite) rfl htype (fun _ => ⟨_, rfl⟩)
      layers false options
    obtain ⟨figure, hflagged, hplain⟩ := Quantity.figure_of_losesSign htype hsign
    rw [hrender, hopposite, renderQuantity, renderQuantity, hflagged, hplain]
    rfl
  · rintro x rfl hfinite hnan
    obtain rfl := Option.some.inj hv
    have hinfinite : (Quantity.float x).nonFinite? = some (.infinite x.negative) := by
      simp [Quantity.nonFinite?, hfinite, hnan]
    rw [hrender, renderQuantity, Quantity.figure_of_nonFinite htype hinfinite]
    rfl
  · obtain ⟨figure, hfigure, hminus⟩ := exists_figure_flagged hv htype options
    refine ⟨figure, ?_, hminus⟩
    rw [hrender, renderQuantity, hfigure]
    rfl

/-- `-0.04` to one place: the zeros fill what the sign has left. -/
theorem renderValue_positiveZero_filled :
    let element : Element Nat :=
      { zeroPad := true, width := some 6, precision := some 1, type := .fixed .lower }
    let v : Value := .float ⟨0xBFA47AE147AE147B⟩
    v.LosesSign element ∧
      renderValue {} [] (element.flagged false) v = .ok "-000.0".toList ∧
      renderValue {} [] (element.flagged true) v = .ok "0000.0".toList := by
  intro element v
  have hsign : v.LosesSign element := by
    refine ⟨_, rfl, by decide, by decide,
      { negative := true, whole := [0], fraction := [0], exponent := 0, base := 10, radix := 10 },
      .fixed, ?_, rfl⟩
    decide +kernel
  have htype : element.type = .byKind ∨ element.type.isFloat = true := .inr rfl
  have hlaw := renderValue_positiveZero (show v.quantity? = some _ from rfl) htype nofun [] {}
  refine ⟨hsign, by decide +kernel, ?_⟩
  rw [hlaw.2.1 _ rfl hsign]
  decide +kernel

end Stencil
