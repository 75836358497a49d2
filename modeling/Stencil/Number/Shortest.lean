import Stencil.Number.Binary64

/-!
# The shortest decimal of a double

Many decimals read back as the same double: all those in the interval of numbers that are nearer to
it than to any other double, together with the ends of that interval when the significand is even.
The shortest of them lies on the coarsest grid of powers of ten that has a point in the interval.

* `ReadsBack` — the interval, as a test on grid points in exact integer arithmetic.
* `gridPoint?` — the grid point that reads back and is nearest to the number.
* `shortest` — coefficient and exponent of the shortest decimal.
-/

namespace Stencil.Binary64

/-! ## The interval that reads back -/

/-- Whether the gap below the number is half the gap above it, as it is below a power of two whose
lower neighbour has a smaller exponent. -/
def narrowBelow (x : Binary64) : Bool :=
  x.storedFraction == 0 && decide (1 < x.storedExponent)

/-- The number, in quarters of its unit in the last place. -/
def quarters (x : Binary64) : Nat :=
  4 * x.significand

/-- The lower end of the interval that reads back, in the same quarters. -/
def lowQuarters (x : Binary64) : Nat :=
  x.quarters - if x.narrowBelow then 1 else 2

/-- The upper end of the interval that reads back, in the same quarters. -/
def highQuarters (x : Binary64) : Nat :=
  x.quarters + 2

/-- Natural weights in the ratio of the grid step `10 ^ k` to a quarter unit: a count `d` of steps
and a count `q` of quarters are equal if `d * weights.1 = q * weights.2`. -/
def weights (x : Binary64) (k : Int) : Nat × Nat :=
  let (num, den) := quotient 1 (x.scale - 2)
  if 0 ≤ k then (Nat.pow 10 k.toNat * den, num) else (den, num * Nat.pow 10 (-k).toNat)

/-- Whether `d` grid steps read back as the number, given the weights of a step and a quarter. -/
def ReadsBack (x : Binary64) (step quarter d : Nat) : Prop :=
  if x.significand % 2 = 0 then
    x.lowQuarters * quarter ≤ d * step ∧ d * step ≤ x.highQuarters * quarter
  else
    x.lowQuarters * quarter < d * step ∧ d * step < x.highQuarters * quarter

instance (x : Binary64) (step quarter d : Nat) : Decidable (x.ReadsBack step quarter d) := by
  unfold ReadsBack; infer_instance

/-! ## The coarsest grid -/

/-- The point of the grid of step `10 ^ k` that reads back and is nearest to the number; of two
points equally near, the larger. -/
def gridPoint? (x : Binary64) (k : Int) : Option Nat :=
  let (step, quarter) := x.weights k
  let below := x.quarters * quarter / step
  let above := below + 1
  if x.ReadsBack step quarter below then
    if x.ReadsBack step quarter above ∧ (below + above) * step ≤ 2 * x.quarters * quarter then
      some above
    else some below
  else if x.ReadsBack step quarter above then some above
  else none

/-- The exponent of the coarsest grid that can have a point near a finite double. -/
def coarsest : Int := 309

/-- How many grids there are from the coarsest to the one as fine as the least subnormal. -/
def gridCount : Nat := 634

/-- The shortest decimal that reads back as a finite number, as a coefficient and a power of ten. -/
def shortest (x : Binary64) : Nat × Int :=
  if x.significand = 0 then (0, 0)
  else
    ((List.range gridCount).findSome? fun (i : Nat) =>
      let k := coarsest - (i : Int)
      (x.gridPoint? k).map (·, k)).getD (0, 0)

end Stencil.Binary64
