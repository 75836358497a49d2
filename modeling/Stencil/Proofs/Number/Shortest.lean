import Stencil.Proofs.Number.Nearest
import Stencil.Proofs.Number.Whole

/-!
# The shortest decimal is the shortest

The search looks for a grid of powers of ten with a point in the interval of a double, from the
coarsest grid on, and takes the point that is nearest to the double. No decimal with fewer digits is
read as the double, since rounding it to fewer digits would have given a point on a coarser grid.

* `readsBack_iff`, `floor_spec` — the test in natural weights, and the point below a double.
* `gridPoint?_eq_none`, `gridPoint?_eq_some` — what is found on one grid.
* `exists_gridPoint` — the finest grid has a point in every interval.
* `IsCoarsest`, `isCoarsest_shortest` — what is found on all grids.
* `IsShortest`, `isShortest_shortest` — no other decimal that is read as the double has fewer
  digits, or as many and is nearer.
-/

namespace Stencil.Binary64

/-! ## The interval of a double -/

section

variable {x : Binary64} {a b r : ℚ}

/-- What lies between two numbers of an interval lies in it. -/
theorem Covers.between (ha : x.Covers a) (hb : x.Covers b) (hle : a ≤ r) (hle' : r ≤ b) :
    x.Covers r := by
  unfold Covers at *
  split_ifs at *
  · exact ⟨ha.1.trans hle, hle'.trans hb.2⟩
  · exact ⟨ha.1.trans_le hle, hle'.trans_lt hb.2⟩

theorem lowEnd_lt_magnitude (h : x.significand ≠ 0) : x.lowEnd < x.magnitude := by
  have := x.previous_lt_magnitude
  rw [lowEnd_eq h]
  linarith

/-- A double lies in its own interval. -/
theorem covers_of_lt (hlow : x.lowEnd < r) (hle : r ≤ x.magnitude) : x.Covers r := by
  have hhigh := hle.trans_lt x.magnitude_lt_highEnd
  unfold Covers
  split_ifs
  · exact ⟨hlow.le, hhigh.le⟩
  · exact ⟨hlow, hhigh⟩

theorem covers_magnitude (h : x.significand ≠ 0) : x.Covers x.magnitude :=
  covers_of_lt (lowEnd_lt_magnitude h) le_rfl

end

/-! ## Weights -/

/-- The weights are the step of the grid and the quarter unit, on one scale. -/
theorem exists_weights (x : Binary64) (k : Int) :
    ∃ f : ℚ, 0 < f ∧ ((x.weights k).1 : ℚ) = f * 10 ^ k ∧
      ((x.weights k).2 : ℚ) = f * 2 ^ (x.scale - 2) := by
  obtain ⟨hpos, hquotient⟩ := quotient_eq 1 (x.scale - 2)
  have hden : (0 : ℚ) < (quotient 1 (x.scale - 2)).2 := Nat.cast_pos.2 hpos
  rw [Nat.cast_one, one_mul] at hquotient
  rw [weights, hquotient]
  dsimp only
  split_ifs with hk
  · obtain ⟨n, rfl⟩ := Int.eq_ofNat_of_zero_le hk
    refine ⟨_, hden, ?_, ?_⟩
    · rw [Int.toNat_natCast, Nat.pow_eq, zpow_natCast]
      push_cast
      ring
    · field_simp
  · obtain ⟨n, hn⟩ : ∃ n : Nat, k = -(n : Int) := ⟨(-k).toNat, by omega⟩
    subst hn
    have hpow : (0 : ℚ) < 10 ^ n := by positivity
    refine ⟨(quotient 1 (x.scale - 2)).2 * 10 ^ n, by positivity, ?_, ?_⟩
    · rw [zpow_neg, zpow_natCast]
      field_simp
    · rw [neg_neg, Int.toNat_natCast, Nat.pow_eq]
      push_cast
      field_simp

/-- Weights compare counts of quarters and of steps as the numbers that are counted. -/
theorem weights_le_iff (x : Binary64) (k : Int) (q d : Nat) :
    (q * (x.weights k).2 ≤ d * (x.weights k).1 ↔ (q : ℚ) * 2 ^ (x.scale - 2) ≤ d * 10 ^ k) ∧
      (d * (x.weights k).1 ≤ q * (x.weights k).2 ↔
        (d : ℚ) * 10 ^ k ≤ q * 2 ^ (x.scale - 2)) := by
  obtain ⟨f, hf, hstep, hquarter⟩ := x.exists_weights k
  have hstep' : ((d * (x.weights k).1 : Nat) : ℚ) = f * (d * 10 ^ k) := by
    push_cast
    rw [hstep]
    ring
  have hquarter' : ((q * (x.weights k).2 : Nat) : ℚ) = f * (q * 2 ^ (x.scale - 2)) := by
    push_cast
    rw [hquarter]
    ring
  constructor
  · rw [← Nat.cast_le (α := ℚ), hstep', hquarter', mul_le_mul_iff_right₀ hf]
  · rw [← Nat.cast_le (α := ℚ), hstep', hquarter', mul_le_mul_iff_right₀ hf]

/-- The test on weights is that of the interval. -/
theorem readsBack_iff (x : Binary64) (k : Int) (d : Nat) :
    x.ReadsBack (x.weights k).1 (x.weights k).2 d ↔ x.Covers (d * 10 ^ k) := by
  obtain ⟨hlow, hlow'⟩ := x.weights_le_iff k x.lowQuarters d
  obtain ⟨hhigh, hhigh'⟩ := x.weights_le_iff k x.highQuarters d
  unfold ReadsBack Covers lowEnd highEnd
  split_ifs
  · rw [hlow, hhigh']
  · rw [← not_le, ← not_le, hlow', hhigh, not_le, not_le]

theorem quarters_mul (x : Binary64) : (x.quarters : ℚ) * 2 ^ (x.scale - 2) = x.magnitude := by
  rw [quarters, quarter_scale, magnitude_eq]
  push_cast
  ring

/-- The last point of a grid that does not lie above a double. -/
def floor (x : Binary64) (k : Int) : Nat :=
  x.quarters * (x.weights k).2 / (x.weights k).1

theorem floor_spec (x : Binary64) (k : Int) :
    (x.floor k : ℚ) * 10 ^ k ≤ x.magnitude ∧ x.magnitude < (x.floor k + 1 : Nat) * 10 ^ k := by
  have hpos : 0 < (x.weights k).1 := by
    obtain ⟨f, hf, hstep, -⟩ := x.exists_weights k
    have hstep' : (0 : ℚ) < (x.weights k).1 := by
      rw [hstep]
      positivity
    exact_mod_cast hstep'
  rw [← quarters_mul]
  constructor
  · exact (x.weights_le_iff k x.quarters (x.floor k)).2.1 (Nat.div_mul_le_self _ _)
  · rw [← not_le, ← (x.weights_le_iff k x.quarters (x.floor k + 1)).2, not_le]
    exact (Nat.div_lt_iff_lt_mul hpos).1 (Nat.lt_succ_self _)

/-! ## One grid -/

section

variable {x : Binary64} {k : Int} {d : Nat}

/-- A point of a grid lies at or below the last one that is not above the double, or at or above
the one after it. -/
theorem point_cases (x : Binary64) (k : Int) (d : Nat) :
    (d : ℚ) * 10 ^ k ≤ x.floor k * 10 ^ k ∨
      ((x.floor k + 1 : Nat) : ℚ) * 10 ^ k ≤ d * 10 ^ k := by
  have hpos : (0 : ℚ) < 10 ^ k := by positivity
  rw [mul_le_mul_iff_left₀ hpos, mul_le_mul_iff_left₀ hpos, Nat.cast_le, Nat.cast_le]
  omega

/-- Of the two points around a double the one is taken that is read as it, and of both the nearer;
if they are equally near, the one above. -/
theorem gridPoint?_cases (x : Binary64) (k : Int) :
    let low : ℚ := x.floor k * 10 ^ k
    let high : ℚ := (x.floor k + 1 : Nat) * 10 ^ k
    (x.gridPoint? k = none ∧ ¬x.Covers low ∧ ¬x.Covers high) ∨
      (x.gridPoint? k = some (x.floor k) ∧ x.Covers low ∧
        (x.Covers high → x.magnitude < (low + high) / 2)) ∨
      (x.gridPoint? k = some (x.floor k + 1) ∧ x.Covers high ∧
        (x.Covers low → (low + high) / 2 ≤ x.magnitude)) := by
  intro low high
  have hlow : x.ReadsBack (x.weights k).1 (x.weights k).2 (x.floor k) ↔ x.Covers low :=
    x.readsBack_iff k (x.floor k)
  have hhigh : x.ReadsBack (x.weights k).1 (x.weights k).2 (x.floor k + 1) ↔ x.Covers high :=
    x.readsBack_iff k (x.floor k + 1)
  have hhalf : (x.floor k + (x.floor k + 1)) * (x.weights k).1 ≤
      2 * x.quarters * (x.weights k).2 ↔ (low + high) / 2 ≤ x.magnitude := by
    have hsum : ((x.floor k + (x.floor k + 1) : Nat) : ℚ) * 10 ^ k = low + high := by
      rw [Nat.cast_add, add_mul]
    have htwice : ((2 * x.quarters : Nat) : ℚ) * 2 ^ (x.scale - 2) = x.magnitude * 2 := by
      rw [← quarters_mul]
      push_cast
      ring
    rw [(x.weights_le_iff k (2 * x.quarters) _).2, hsum, htwice, div_le_iff₀ two_pos]
  have hpoint : x.gridPoint? k =
      if x.ReadsBack (x.weights k).1 (x.weights k).2 (x.floor k) then
        if x.ReadsBack (x.weights k).1 (x.weights k).2 (x.floor k + 1) ∧
            (x.floor k + (x.floor k + 1)) * (x.weights k).1 ≤ 2 * x.quarters * (x.weights k).2 then
          some (x.floor k + 1)
        else some (x.floor k)
      else if x.ReadsBack (x.weights k).1 (x.weights k).2 (x.floor k + 1) then
        some (x.floor k + 1)
      else none := rfl
  rw [hpoint]
  split_ifs with h₁ h₂ h₂
  · exact .inr (.inr ⟨rfl, hhigh.1 h₂.1, fun _ => hhalf.1 h₂.2⟩)
  · refine .inr (.inl ⟨rfl, hlow.1 h₁, fun h => ?_⟩)
    rw [← not_le, ← hhalf]
    exact fun hle => h₂ ⟨hhigh.2 h, hle⟩
  · exact .inr (.inr ⟨rfl, hhigh.1 h₂, fun h => absurd (hlow.2 h) h₁⟩)
  · exact .inl ⟨rfl, fun h => h₁ (hlow.2 h), fun h => h₂ (hhigh.2 h)⟩

/-- A point of a grid that is read as a double lies beyond one of the two around the double, which
is then read as the double too. -/
theorem covers_floor (hx : x.significand ≠ 0) (h : x.Covers (d * 10 ^ k)) :
    (d : ℚ) * 10 ^ k ≤ x.floor k * 10 ^ k ∧ x.Covers (x.floor k * 10 ^ k) ∨
      ((x.floor k + 1 : Nat) : ℚ) * 10 ^ k ≤ d * 10 ^ k ∧
        x.Covers ((x.floor k + 1 : Nat) * 10 ^ k) := by
  obtain ⟨hlow, hhigh⟩ := x.floor_spec k
  have hself := covers_magnitude hx
  rcases x.point_cases k d with hle | hge
  · exact .inl ⟨hle, h.between hself hle hlow⟩
  · exact .inr ⟨hge, hself.between h hhigh.le hge⟩

/-- If nothing is found, then no point of the grid is read as the double. -/
theorem gridPoint?_eq_none (hx : x.significand ≠ 0) (h : x.gridPoint? k = none) (d : Nat) :
    ¬x.Covers (d * 10 ^ k) := by
  intro hcovers
  rcases x.gridPoint?_cases k with ⟨-, hlow, hhigh⟩ | ⟨hsome, -⟩ | ⟨hsome, -⟩
  · exact (covers_floor hx hcovers).elim (fun hle => hlow hle.2) fun hge => hhigh hge.2
  · rw [hsome] at h
    cases h
  · rw [hsome] at h
    cases h

/-- What is found is read as the double, and no point of the grid that is, is nearer. -/
theorem gridPoint?_eq_some (hx : x.significand ≠ 0) (h : x.gridPoint? k = some d) :
    x.Covers (d * 10 ^ k) ∧ ∀ d' : Nat, x.Covers (d' * 10 ^ k) →
      |d * 10 ^ k - x.magnitude| ≤ |d' * 10 ^ k - x.magnitude| := by
  obtain ⟨hbelow, habove⟩ := x.floor_spec k
  rcases x.gridPoint?_cases k with ⟨hnone, -⟩ | ⟨hsome, hlow, hnear⟩ | ⟨hsome, hhigh, hnear⟩
  · rw [hnone] at h
    cases h
  · obtain rfl := Option.some.inj (hsome.symm.trans h)
    refine ⟨hlow, fun d' hd' => ?_⟩
    rw [abs_of_nonpos (by linarith)]
    rcases covers_floor hx hd' with ⟨hle, -⟩ | ⟨hge, hhigh⟩
    · rw [abs_of_nonpos (by linarith)]
      linarith
    · have := hnear hhigh
      rw [abs_of_nonneg (by linarith)]
      linarith
  · obtain rfl := Option.some.inj (hsome.symm.trans h)
    refine ⟨hhigh, fun d' hd' => ?_⟩
    rw [abs_of_nonneg (by linarith)]
    rcases covers_floor hx hd' with ⟨hle, hlow⟩ | ⟨hge, -⟩
    · have := hnear hlow
      rw [abs_of_nonpos (by linarith)]
      linarith
    · rw [abs_of_nonneg (by linarith)]
      linarith

end

/-! ## All grids -/

/-- Small powers of ten and of two compare as the large ones. -/
theorem mul_zpow_neg_iff (a b m n : Nat) :
    ((a : ℚ) * 10 ^ (-(m : Int)) ≤ b * 2 ^ (-(n : Int)) ↔ a * 2 ^ n ≤ b * 10 ^ m) ∧
      ((a : ℚ) * 10 ^ (-(m : Int)) < b * 2 ^ (-(n : Int)) ↔ a * 2 ^ n < b * 10 ^ m) := by
  have hm : (0 : ℚ) < 10 ^ m := by positivity
  have hn : (0 : ℚ) < 2 ^ n := by positivity
  rw [zpow_neg, zpow_neg, zpow_natCast, zpow_natCast, ← div_eq_mul_inv, ← div_eq_mul_inv,
    div_le_div_iff₀ hm hn, div_lt_div_iff₀ hm hn]
  constructor <;> exact_mod_cast Iff.rfl

theorem two_pow_lt_ten_pow {m n : Nat} (h : 2 ^ n < 10 ^ m) : (2 : ℚ) ^ n < 10 ^ m := by
  exact_mod_cast h

section

variable {x : Binary64}

/-- The interval of a double reaches further down than the finest grid goes in one step. -/
theorem lowEnd_add_lt (hx : x.significand ≠ 0) : x.lowEnd + 10 ^ (-324 : ℤ) < x.magnitude := by
  have hgap : (2 : ℚ) ^ (-1075 : ℤ) ≤ x.magnitude - x.lowEnd := by
    have hleast := x.canonical.least_le
    have heq : x.magnitude - x.lowEnd = x.gapBelow * 2 ^ (x.scale - 1) := by
      rw [lowEnd_eq hx, previous, magnitude_eq, zpow_sub_one₀ two_ne_zero]
      ring
    rw [heq, gapBelow]
    split_ifs with hnarrow
    · have hscale := ((narrowBelow_iff x).1 hnarrow).2
      have hhalf : (1 / 2 : ℚ) * 2 ^ (x.scale - 1) = 2 ^ (x.scale - 2) := by
        rw [zpow_sub₀ two_ne_zero, zpow_sub₀ two_ne_zero]
        ring
      rw [hhalf]
      exact zpow_le_zpow_right₀ one_le_two (by omega)
    · rw [one_mul]
      exact zpow_le_zpow_right₀ one_le_two (by omega)
  have hfinest := (mul_zpow_neg_iff 1 1 324 1075).2.2 (by decide +kernel)
  rw [Nat.cast_one, one_mul, one_mul, Nat.cast_ofNat, Nat.cast_ofNat] at hfinest
  linarith

/-- The finest grid has a point in the interval of every double. -/
theorem exists_gridPoint (hx : x.significand ≠ 0) :
    ∃ d, x.gridPoint? (coarsest - (gridCount - 1 : Nat)) = some d := by
  have hfinest : coarsest - (gridCount - 1 : Nat) = -324 := by decide
  rw [hfinest, ← Option.ne_none_iff_exists']
  intro hnone
  obtain ⟨hlow, hhigh⟩ := x.floor_spec (-324)
  rw [Nat.cast_succ, add_mul, one_mul] at hhigh
  have hroom := lowEnd_add_lt hx
  exact gridPoint?_eq_none hx hnone _ (covers_of_lt (by linarith) hlow)

/-- Zero is not read as any other double. -/
theorem not_covers_zero (hx : x.significand ≠ 0) : ¬x.Covers 0 := by
  intro h
  have hquarters : 0 < x.lowQuarters := by
    unfold lowQuarters quarters
    split_ifs <;> omega
  have hpos : 0 < x.lowEnd := by
    rw [lowEnd]
    positivity
  exact absurd h.bounds.1 (not_le.2 hpos)

theorem ne_zero_of_covers (hx : x.significand ≠ 0) {d : Nat} {k : Int}
    (h : x.Covers (d * 10 ^ k)) : d ≠ 0 := by
  rintro rfl
  rw [Nat.cast_zero, zero_mul] at h
  exact not_covers_zero hx h

theorem overflowLimit_lt : overflowLimit < 10 ^ (coarsest + 1) := by
  have hcoarsest : coarsest + 1 = ((310 : Nat) : Int) := rfl
  have hpow := two_pow_lt_ten_pow (m := 310) (n := 1024) (by decide +kernel)
  rw [hcoarsest, zpow_natCast, overflowLimit]
  exact (sub_lt_self _ (by positivity)).trans hpow

/-- No grid is coarser than the ones that are looked at and has a point in the interval. -/
theorem not_covers_of_coarsest_lt (hfinite : x.isFinite = true) (hx : x.significand ≠ 0) {k : Int}
    (hk : coarsest < k) (d : Nat) : ¬x.Covers (d * 10 ^ k) := by
  intro h
  have hlimit := h.lt_overflowLimit hfinite
  have hone : (1 : ℚ) ≤ d := Nat.one_le_cast.2 (Nat.one_le_iff_ne_zero.2 (ne_zero_of_covers hx h))
  have hstep : (10 : ℚ) ^ (coarsest + 1) ≤ 10 ^ k := zpow_le_zpow_right₀ (by norm_num) hk
  have hlarge : (10 : ℚ) ^ k ≤ d * 10 ^ k := le_mul_of_one_le_left (by positivity) hone
  exact absurd (overflowLimit_lt.trans_le (hstep.trans hlarge)) (not_lt.2 hlimit.le)

/-- A search through a range ends at the first success. -/
theorem exists_first_of_findSome?_range {α : Type} {f : Nat → Option α} {n : Nat} {a : α}
    (h : (List.range n).findSome? f = some a) :
    ∃ i, f i = some a ∧ ∀ j < i, f j = none := by
  induction n with
  | zero => cases h
  | succ n ih =>
    rw [List.range_succ, List.findSome?_append] at h
    cases hbefore : (List.range n).findSome? f with
    | some b =>
      rw [hbefore, Option.some_or] at h
      exact ih (hbefore.trans h)
    | none =>
      rw [hbefore, Option.none_or, List.findSome?_singleton] at h
      rw [List.findSome?_eq_none_iff] at hbefore
      exact ⟨n, h, fun j hj => hbefore j (List.mem_range.2 hj)⟩

/-- The search ends at the coarsest grid that has a point in the interval. -/
theorem shortest_spec (hfinite : x.isFinite = true) (hx : x.significand ≠ 0) :
    x.gridPoint? x.shortest.2 = some x.shortest.1 ∧
      ∀ k, x.shortest.2 < k → ∀ d : Nat, ¬x.Covers (d * 10 ^ k) := by
  obtain ⟨d, hd⟩ := exists_gridPoint hx
  have hfound : ((List.range gridCount).findSome? fun (i : Nat) =>
      (x.gridPoint? (coarsest - (i : Int))).map (·, coarsest - (i : Int))).isSome := by
    rw [List.findSome?_isSome_iff]
    exact ⟨gridCount - 1, List.mem_range.2 (by decide), by simp [hd]⟩
  obtain ⟨found, hfind⟩ := Option.isSome_iff_exists.1 hfound
  have hshortest : x.shortest = found := by
    rw [shortest, if_neg hx]
    dsimp only
    rw [hfind, Option.getD_some]
  obtain ⟨i, hi, hnone⟩ := exists_first_of_findSome?_range hfind
  obtain ⟨c, hc, rfl⟩ := Option.map_eq_some_iff.1 hi
  rw [hshortest]
  refine ⟨hc, fun k hk d => ?_⟩
  dsimp only at hk
  by_cases hcoarse : coarsest < k
  · exact not_covers_of_coarsest_lt hfinite hx hcoarse d
  · -- the grids before the one that is found are the coarser ones
    have hmiss := hnone (coarsest - k).toNat (by omega)
    have hback : coarsest - ((coarsest - k).toNat : Int) = k := by omega
    rw [Option.map_eq_none_iff, hback] at hmiss
    exact gridPoint?_eq_none hx hmiss d

end

/-! ## The shortest decimal -/

/-- A decimal, as a coefficient and a power of ten, is the shortest of a double: it is read as the
double, no decimal with fewer digits is, and no decimal with as many digits that is, is nearer. -/
structure IsShortest (x : Binary64) (c : Nat) (e : Int) : Prop where
  reads : x.Reads (c * 10 ^ e)
  fewest : ∀ (d : Nat) (k : Int), x.Reads (d * 10 ^ k) →
    (Nat.digits 10 c).length ≤ (Nat.digits 10 d).length
  nearest : ∀ (d : Nat) (k : Int), x.Reads (d * 10 ^ k) →
    (Nat.digits 10 d).length = (Nat.digits 10 c).length →
      |c * 10 ^ e - x.magnitude| ≤ |d * 10 ^ k - x.magnitude|

/-- A decimal is on the coarsest grid that has a point in the interval of a double, and no point of
that grid in the interval is nearer. -/
structure IsCoarsest (x : Binary64) (c : Nat) (e : Int) : Prop where
  covers : x.Covers (c * 10 ^ e)
  nearest : ∀ d : Nat, x.Covers (d * 10 ^ e) →
    |c * 10 ^ e - x.magnitude| ≤ |d * 10 ^ e - x.magnitude|
  not_covers : ∀ k, e < k → ∀ d : Nat, ¬x.Covers (d * 10 ^ k)

theorem isCoarsest_shortest {x : Binary64} (hfinite : x.isFinite = true) (hx : x.significand ≠ 0) :
    x.IsCoarsest x.shortest.1 x.shortest.2 := by
  obtain ⟨hpoint, hcoarse⟩ := shortest_spec hfinite hx
  obtain ⟨hcovers, hnear⟩ := gridPoint?_eq_some hx hpoint
  exact ⟨hcovers, hnear, hcoarse⟩

/-! ### How many digits there are -/

theorem mul_zpow_le_of_length_le {d n : Nat} (hd : (Nat.digits 10 d).length ≤ n) (k : Int) :
    (d : ℚ) * 10 ^ k ≤ 10 ^ (n + k) := by
  have hlt : d < 10 ^ n :=
    (Nat.lt_base_pow_length_digits (by decide)).trans_le (Nat.pow_le_pow_right (by decide) hd)
  have hcast : (d : ℚ) ≤ 10 ^ n := by exact_mod_cast hlt.le
  rw [zpow_add₀ (by norm_num), zpow_natCast]
  exact mul_le_mul_of_nonneg_right hcast (by positivity)

theorem zpow_le_mul_of_length {c : Nat} (hc : c ≠ 0) (e : Int) :
    (10 : ℚ) ^ ((Nat.digits 10 c).length - 1 + e) ≤ c * 10 ^ e := by
  have hle := Nat.base_pow_length_digits_le 10 c (by decide) hc
  have hcast : (10 : ℚ) ^ (Nat.digits 10 c).length ≤ 10 * c := by exact_mod_cast hle
  have hten : (10 : ℚ) ≠ 0 := by norm_num
  rw [zpow_add₀ hten, zpow_sub_one₀ hten, zpow_natCast]
  refine mul_le_mul_of_nonneg_right ?_ (by positivity)
  linarith

section

variable {x : Binary64} {c d : Nat} {e k : Int}

theorem IsCoarsest.le (h : x.IsCoarsest c e) (hd : x.Covers (d * 10 ^ k)) : k ≤ e :=
  not_lt.1 fun hlt => h.not_covers k hlt d hd

/-- No power of ten beyond the coarsest grid separates two decimals that are read as the double. -/
theorem IsCoarsest.not_separated (h : x.IsCoarsest c e) (hd : x.Covers (d * 10 ^ k)) {j : Int}
    (hj : e < j) (hlow : (d : ℚ) * 10 ^ k ≤ 10 ^ j) : (c : ℚ) * 10 ^ e < 10 ^ j := by
  by_contra hle
  refine h.not_covers j hj 1 ?_
  rw [Nat.cast_one, one_mul]
  exact hd.between h.covers hlow (not_lt.1 hle)

/-- A decimal of too few digits for its grid would lie below a power of ten that the one on the
coarsest grid reaches. -/
theorem IsCoarsest.length_add_lt (h : x.IsCoarsest c e) (hx : x.significand ≠ 0)
    (hd : x.Covers (d * 10 ^ k)) (hc : 1 < (Nat.digits 10 c).length) :
    (Nat.digits 10 c).length - 1 + e < (Nat.digits 10 d).length + k := by
  by_contra hle
  have hbelow := (mul_zpow_le_of_length_le le_rfl k).trans
    (zpow_le_zpow_right₀ (show (1 : ℚ) ≤ 10 by norm_num) (not_lt.1 hle))
  have hleast := zpow_le_mul_of_length (ne_zero_of_covers hx h.covers) e
  exact absurd (h.not_separated hd (by omega) hbelow) (not_lt.2 hleast)

theorem IsCoarsest.length_le (h : x.IsCoarsest c e) (hx : x.significand ≠ 0)
    (hd : x.Covers (d * 10 ^ k)) : (Nat.digits 10 c).length ≤ (Nat.digits 10 d).length := by
  have hpos : (Nat.digits 10 d).length ≠ 0 := by
    rw [ne_eq, List.length_eq_zero_iff, Nat.digits_eq_nil_iff_eq_zero]
    exact ne_zero_of_covers hx hd
  by_contra hfew
  have := h.length_add_lt hx hd (by omega)
  have := h.le hd
  omega

end

/-! ### Which of them is nearest -/

/-- A single digit on a finer grid stays below nine tenths of a power of ten. -/
theorem single_digit_le {d : Nat} {e k : Int} (hd : d < 10) (hk : k < e) :
    (d : ℚ) * 10 ^ k ≤ 9 / 10 * 10 ^ e := by
  have hnine : (d : ℚ) ≤ 9 := by exact_mod_cast Nat.le_of_lt_succ hd
  have hstep : (10 : ℚ) ^ k ≤ 10 ^ (e - 1) := zpow_le_zpow_right₀ (by norm_num) (by omega)
  calc (d : ℚ) * 10 ^ k ≤ 9 * 10 ^ (e - 1) := mul_le_mul hnine hstep (by positivity) (by norm_num)
    _ = 9 / 10 * 10 ^ e := by
      rw [zpow_sub_one₀ (show (10 : ℚ) ≠ 0 by norm_num)]
      ring

/-- Only the least doubles have intervals that are wide enough for a power of ten much larger than
the double. -/
theorem least_of_covers_power {x : Binary64} {e : Int} (h : x.Covers (10 ^ e))
    (hlt : x.magnitude < 19 / 20 * 10 ^ e) : x.significand ≤ 9 ∧ x.scale = -1074 := by
  have hhigh := h.bounds.2
  have hpos := x.scale_pos
  rw [highEnd_eq_mul] at hhigh
  rw [magnitude_eq] at hlt
  have hbound : (x.significand : ℚ) * 2 ^ x.scale < 19 / 2 * 2 ^ x.scale := by linarith
  have hcast : (x.significand : ℚ) < 19 / 2 := lt_of_mul_lt_mul_right hbound hpos.le
  have hfew : x.significand < 10 := by
    have : (x.significand : ℚ) < 10 := hcast.trans (by norm_num)
    exact_mod_cast this
  refine ⟨by omega, ?_⟩
  by_contra hne
  have hleast := x.canonical.least_le
  have hlead := x.canonical.le_of_lt (by omega)
  omega

/-- A power of ten that is read as a double is not much larger than it. The only double small enough
for that to be in question is the second, which is read from `10 ^ -323`. -/
theorem le_magnitude_of_covers_power {x : Binary64} (hx : x.significand ≠ 0) {e : Int}
    (h : x.Covers (10 ^ e)) : 19 / 20 * 10 ^ e ≤ x.magnitude := by
  by_contra hlt
  rw [not_le] at hlt
  obtain ⟨hfew, hscale⟩ := least_of_covers_power h hlt
  have hone : (1 : ℚ) ≤ x.significand := Nat.one_le_cast.2 (Nat.one_le_iff_ne_zero.2 hx)
  have hnine : (x.significand : ℚ) ≤ 9 := by exact_mod_cast hfew
  have hhigh := h.bounds.2
  have hpos := x.scale_pos
  rw [highEnd_eq_mul] at hhigh
  rw [magnitude_eq] at hlt
  rw [hscale] at hhigh hlt hpos
  have hten : (0 : ℚ) < 10 ^ e := by positivity
  -- the least double lies between two powers of ten, and so does ten times as much
  have hlow : -324 < e := by
    have hpower := (mul_zpow_neg_iff 1 1 324 1074).2.2 (by decide +kernel)
    rw [Nat.cast_one, one_mul, one_mul, Nat.cast_ofNat, Nat.cast_ofNat] at hpower
    refine (zpow_lt_zpow_iff_right₀ (show (1 : ℚ) < 10 by norm_num)).1 (hpower.trans ?_)
    nlinarith
  have hup : e < -322 := by
    have hpower := mt (mul_zpow_neg_iff 2 19 322 1074).1.1 (by decide +kernel)
    rw [Nat.cast_ofNat, Nat.cast_ofNat, Nat.cast_ofNat, Nat.cast_ofNat] at hpower
    refine (zpow_lt_zpow_iff_right₀ (show (1 : ℚ) < 10 by norm_num)).1 ?_
    nlinarith
  obtain rfl : e = -323 := by omega
  by_cases hleast : x.significand = 1
  · have hfar := mt (mul_zpow_neg_iff 2 3 323 1074).1.1 (by decide +kernel)
    rw [Nat.cast_ofNat, Nat.cast_ofNat, Nat.cast_ofNat, Nat.cast_ofNat] at hfar
    rw [hleast, Nat.cast_one] at hhigh
    linarith
  · have hnear := (mul_zpow_neg_iff 19 40 323 1074).1.2 (by decide +kernel)
    rw [Nat.cast_ofNat, Nat.cast_ofNat, Nat.cast_ofNat, Nat.cast_ofNat] at hnear
    have htwo : (2 : ℚ) ≤ x.significand := by
      have : 2 ≤ x.significand := by omega
      exact_mod_cast this
    nlinarith

/-- On a finer grid there is no decimal with as many digits, but one of a single digit, and that
lies so far below the double that a power of ten is nearer. -/
theorem IsCoarsest.nearest_of_lt {x : Binary64} {c d : Nat} {e k : Int} (h : x.IsCoarsest c e)
    (hx : x.significand ≠ 0) (hd : x.Covers (d * 10 ^ k)) (hk : k < e)
    (hlength : (Nat.digits 10 d).length = (Nat.digits 10 c).length) :
    |c * 10 ^ e - x.magnitude| ≤ |d * 10 ^ k - x.magnitude| := by
  have hten : (0 : ℚ) < 10 ^ e := by positivity
  have hsingle : (Nat.digits 10 d).length ≤ 1 := by
    by_contra hmany
    have := h.length_add_lt hx hd (by omega)
    omega
  have hdigit : d < 10 ^ 1 := (Nat.lt_base_pow_length_digits (by decide)).trans_le
    (Nat.pow_le_pow_right (by decide) hsingle)
  have hbelow := single_digit_le (by omega) hk
  have habove : (10 : ℚ) ^ e ≤ c * 10 ^ e := le_mul_of_one_le_left (by positivity)
    (Nat.one_le_cast.2 (Nat.one_le_iff_ne_zero.2 (ne_zero_of_covers hx h.covers)))
  have hpower : x.Covers (10 ^ e) := hd.between h.covers (by linarith) habove
  have hnearer := h.nearest 1 (by rwa [Nat.cast_one, one_mul])
  rw [Nat.cast_one, one_mul] at hnearer
  have hmag := le_magnitude_of_covers_power hx hpower
  have hlower : (d : ℚ) * 10 ^ k < 10 ^ e := by linarith
  exact hnearer.trans ((abs_sub_le_iff_half_le hlower).2 (by linarith))

/-! ### The shortest of a double -/

/-- Zero has no digits at all. -/
theorem isShortest_zero {x : Binary64} (hfinite : x.isFinite = true) (hzero : x.significand = 0) :
    x.IsShortest 0 0 := by
  have hmag : x.magnitude = 0 := by rw [magnitude_eq, hzero, Nat.cast_zero, zero_mul]
  have hcovers : x.Covers 0 := by
    rw [Covers, if_pos (by rw [hzero]), lowEnd_of_zero hzero, ← hmag]
    exact ⟨le_rfl, x.magnitude_lt_highEnd.le⟩
  constructor
  case reads => simpa using hcovers.reads hfinite
  case fewest => simp
  case nearest =>
    intro d k _ _
    rw [hmag, Nat.cast_zero, zero_mul, sub_zero, abs_zero]
    exact abs_nonneg _

theorem IsCoarsest.isShortest {x : Binary64} {c : Nat} {e : Int} (h : x.IsCoarsest c e)
    (hfinite : x.isFinite = true) (hx : x.significand ≠ 0) : x.IsShortest c e := by
  have hreads {d : Nat} {k : Int} : x.Reads (d * 10 ^ k) ↔ x.Covers (d * 10 ^ k) :=
    reads_iff_covers hfinite (by positivity)
  constructor
  case reads => exact hreads.2 h.covers
  case fewest => exact fun d k hd => h.length_le hx (hreads.1 hd)
  case nearest =>
    intro d k hd hlength
    have hd := hreads.1 hd
    rcases (h.le hd).eq_or_lt with rfl | hlt
    · exact h.nearest d hd
    · exact h.nearest_of_lt hx hd hlt hlength

/-- What the search finds is the shortest decimal. -/
theorem isShortest_shortest {x : Binary64} (hx : x.isFinite = true) :
    x.IsShortest x.shortest.1 x.shortest.2 := by
  by_cases hzero : x.significand = 0
  · have hshortest : x.shortest = (0, 0) := if_pos hzero
    rw [hshortest]
    exact isShortest_zero hx hzero
  · exact (isCoarsest_shortest hx hzero).isShortest hx hzero

end Stencil.Binary64
