import Stencil.Proofs.Number.Whole
import Stencil.Proofs.Render.Hexadecimals

/-!
# Every number has its figure

The changes of form start from digits in scientific form, which every number with digits has. So a
presentation of numbers finds a figure for every number, unless it wants a whole number and is given
a fraction.

* `TypeCode.PresentsNumbers` — the codes that have figures.
* `general_eq` — general notation once the attempt is known.
* `HasDigits`, `figure_hasDigits` — a number with digits has a figure with digits.
* `Unbroken`, `figure_unbroken` — every number has a figure, or is refused for its fraction.
-/

namespace Stencil

/-! ## Numbers with digits -/

/-- A type code that presents numbers. -/
def TypeCode.PresentsNumbers : TypeCode → Prop
  | .text | .character => False
  | _ => True

theorem TypeCode.one_lt_of_radix? {type : TypeCode} {radix : Nat} (h : type.radix? = some radix) :
    1 < radix := by
  cases type <;> simp [TypeCode.radix?] at h <;> omega

theorem Quantity.finite_of_nonFinite? {q : Quantity} (h : q.nonFinite? = none) : q.Finite := by
  cases q with
  | integer v => trivial
  | float x =>
    rw [nonFinite?] at h
    split_ifs at h with hfinite
    exact hfinite

/-! ## Styles -/

/-- A figure with digits. -/
def HasDigits (result : Except Obstacle Figure) : Prop :=
  ∃ n style, result = .ok (.finite n style)

/-- A figure, or the refusal of a fraction. -/
def Unbroken (result : Except Obstacle Figure) : Prop :=
  (∃ figure, result = .ok figure) ∨ result = .error .fractional

namespace Figure

variable {n : Numeral}

theorem whole_unbroken (q : Quantity) {radix : Nat} (hradix : 1 < radix) :
    Unbroken (whole q radix) := by
  by_cases hq : ∃ v, q.Equals v
  · obtain ⟨v, hv⟩ := hq
    exact .inl ⟨_, whole_of_equals hv hradix⟩
  · exact .inr (whole_of_not_equals (not_exists.1 hq))

theorem scientific_hasDigits (h : n.Scientific) (hbase : n.base = 10) (places : Nat) :
    HasDigits (scientific n places) := by
  have heven : 2 ∣ n.base := by rw [hbase]; decide
  obtain ⟨m, hm, -⟩ := Numeral.roundSignificant_spec h heven (Nat.le_add_left 1 places)
  rw [scientific, hm]
  exact ⟨_, _, rfl⟩

theorem hexadecimal_hasDigits (h : n.Scientific) (hbase : n.base = 2) (places : Option Nat) :
    HasDigits (hexadecimal n places) := by
  obtain ⟨m, hm, -⟩ := Numeral.toHex_eq_ok h hbase
  rw [hexadecimal, hm]
  cases places <;> exact ⟨_, _, rfl⟩

/-- The style is chosen by the exponent of the attempt. -/
theorem general_eq {g : General} {attempt : Numeral}
    (h : (if g.round then n.roundSignificant g.precision else .ok n) = .ok attempt) :
    general n g =
      if -4 ≤ attempt.exponent ∧ attempt.exponent < g.switch then do
        let fixed ← n.toFixed
        let places := (g.precision : Int) - 1 - attempt.exponent
        let fixed := if g.round then fixed.roundPlaces places.toNat else fixed
        let fixed := if g.strip then fixed.stripFraction g.leastFraction else fixed
        return .finite (fixed.padFraction g.leastFraction) .fixed
      else return .finite (if g.strip then attempt.stripFraction 0 else attempt) .scientific := by
  rw [general]
  by_cases hround : g.round = true
  · rw [if_pos hround] at h ⊢
    rw [h]
    rfl
  · rw [if_neg hround] at h ⊢
    rw [h]
    rfl

theorem general_hasDigits (h : n.Scientific) (hbase : n.base = 10) {g : General}
    (hg : 1 ≤ g.precision) : HasDigits (general n g) := by
  have heven : 2 ∣ n.base := by rw [hbase]; decide
  obtain ⟨attempt, hattempt⟩ :
      ∃ m, (if g.round then n.roundSignificant g.precision else .ok n) = .ok m := by
    split_ifs
    · obtain ⟨m, hm, -⟩ := Numeral.roundSignificant_spec h heven hg
      exact ⟨m, hm⟩
    · exact ⟨n, rfl⟩
  obtain ⟨fixed, hfixed, -⟩ := Numeral.toFixed_eq_ok h.valid h.radix_eq
  rw [general_eq hattempt, hfixed]
  split_ifs <;> exact ⟨_, _, rfl⟩

end Figure

/-! ## Every presentation -/

namespace Quantity

variable {q : Quantity} {element : Element Nat}

theorem finiteFigure_hasDigits (hq : q.Finite) (htype : element.type.PresentsNumbers)
    (hradix : element.type.radix? = none) : HasDigits (q.finiteFigure element) := by
  obtain ⟨n, hn, hsci, -, hbase, -⟩ := q.decimal_eq_ok hq
  have hnradix : n.radix = 10 := hsci.radix_eq.trans hbase
  unfold finiteFigure
  dsimp only
  cases hcode : element.type with
  | byKind =>
    cases q with
    | integer v => exact ⟨_, _, Figure.whole_of_equals rfl (by decide)⟩
    | float x =>
      dsimp only
      rw [hn]
      refine Figure.general_hasDigits hsci hbase ?_
      cases element.precision with
      | none => exact (by decide : 1 ≤ General.shortestThreshold)
      | some p => exact Nat.le_max_right p 1
  | fixed letters =>
    obtain ⟨m, hm, -⟩ :=
      Figure.fixedPlaces_eq_ok hsci.valid hbase hnradix (element.precision.getD defaultPlaces)
    dsimp only
    rw [hn]
    exact ⟨_, _, hm⟩
  | percent =>
    have hvalid : Numeral.Valid { n with exponent := n.exponent + 2 } :=
      ⟨hsci.valid.one_lt_base, hsci.valid.whole_ne_nil, hsci.valid.whole, hsci.valid.fraction⟩
    obtain ⟨m, hm, -⟩ :=
      Figure.fixedPlaces_eq_ok hvalid hbase hnradix (element.precision.getD defaultPlaces)
    dsimp only
    rw [hn]
    exact ⟨_, _, hm⟩
  | exponent letters =>
    dsimp only
    rw [hn]
    exact Figure.scientific_hasDigits hsci hbase _
  | general letters =>
    dsimp only
    rw [hn]
    exact Figure.general_hasDigits (g := General.coded element.precision element.alternate) hsci
      hbase (Nat.le_max_right _ 1)
  | hexFloat letters =>
    obtain ⟨m, hm, hmSci, -, hmBase, -⟩ := q.binary_eq_ok hq
    dsimp only
    rw [hm]
    exact Figure.hexadecimal_hasDigits hmSci hmBase _
  | text => rw [hcode] at htype; exact htype.elim
  | character => rw [hcode] at htype; exact htype.elim
  | _ => rw [hcode] at hradix; exact absurd hradix (by simp [TypeCode.radix?])

/-- A presentation of numbers has a figure with digits for every number that has some; an integer
code wants a whole number. -/
theorem figure_hasDigits (hq : q.Finite) (htype : element.type.PresentsNumbers)
    (hwhole : element.type.radix? ≠ none → ∃ v, q.Equals v) : HasDigits (q.figure element) := by
  rw [figure]
  cases hradix : element.type.radix? with
  | some radix =>
    obtain ⟨v, hv⟩ := hwhole (by simp [hradix])
    exact ⟨_, _, Figure.whole_of_equals hv (TypeCode.one_lt_of_radix? hradix)⟩
  | none =>
    obtain ⟨n, style, hfigure⟩ := finiteFigure_hasDigits hq htype hradix
    dsimp only
    rw [hq.nonFinite?]
    dsimp only
    rw [hfigure]
    cases element.positiveZero with
    | true => exact ⟨n.dropZeroSign, style, rfl⟩
    | false => exact ⟨n, style, rfl⟩

/-- A presentation of numbers has a figure for every number, or refuses a fraction. -/
theorem figure_unbroken (q : Quantity) (htype : element.type.PresentsNumbers) :
    Unbroken (q.figure element) := by
  cases hradix : element.type.radix? with
  | some radix =>
    rw [figure, hradix]
    exact Figure.whole_unbroken q (TypeCode.one_lt_of_radix? hradix)
  | none =>
    cases hfinite : q.nonFinite? with
    | some figure =>
      refine .inl ⟨figure, ?_⟩
      rw [Quantity.figure, hradix]
      dsimp only
      rw [hfinite]
    | none =>
      obtain ⟨n, style, hfigure⟩ :=
        figure_hasDigits (finite_of_nonFinite? hfinite) htype (absurd hradix)
      exact .inl ⟨_, hfigure⟩

end Quantity

end Stencil
