/-!
# Digit groups

A run of digits is cut into groups from the right: each group takes the next size of a list, the
last size repeats, and a zero ends the cutting.

* `Grouping` — a separator and the sizes.
* `groupSizes` — the sizes of the groups of a run, rightmost first.
* `pieces`, `apply` — the run cut into its groups, and joined by the separator.
* `zeroFill` — the run with as few zeros in front as bring the grouped text to a width.
-/

namespace Stencil

/-- A separator between groups of digits, and the sizes of the groups from the right. -/
structure Grouping where
  separator : Char
  sizes : List Nat
  deriving DecidableEq, Repr

namespace Grouping

/-! ## Sizes of the groups -/

/-- The sizes of the groups of `count` digits when every group has the same size. -/
def evenSizes (size count : Nat) : List Nat :=
  if size = 0 then [count]
  else
    let full := (count - 1) / size
    List.replicate full size ++ [count - full * size]

/-- The sizes of the groups of `count` digits, rightmost first, after a group of size `last`. -/
def groupSizesAfter (last : Nat) : List Nat → Nat → List Nat
  | [], count => evenSizes last count
  | size :: sizes, count =>
    if size = 0 ∨ count ≤ size then [count]
    else size :: groupSizesAfter size sizes (count - size)

/-- The sizes of the groups of `count` digits, rightmost first. -/
def groupSizes (g : Grouping) (count : Nat) : List Nat :=
  groupSizesAfter 0 g.sizes count

/-- How many separators `count` digits need after a group of size `last`. -/
def separatorsAfter (last : Nat) : List Nat → Nat → Nat
  | [], count => if last = 0 then 0 else (count - 1) / last
  | size :: sizes, count =>
    if size = 0 ∨ count ≤ size then 0 else 1 + separatorsAfter size sizes (count - size)

/-- How many separators `count` digits need. -/
def separators (g : Grouping) (count : Nat) : Nat :=
  separatorsAfter 0 g.sizes count

/-- The length of `count` digits with their separators. -/
def groupedLength (g : Grouping) (count : Nat) : Nat :=
  count + g.separators count

theorem length_groupSizesAfter (last : Nat) (sizes : List Nat) (count : Nat) :
    (groupSizesAfter last sizes count).length = separatorsAfter last sizes count + 1 := by
  induction sizes generalizing last count with
  | nil =>
    simp only [groupSizesAfter, separatorsAfter, evenSizes]
    split <;> simp
  | cons size sizes ih =>
    simp only [groupSizesAfter, separatorsAfter]
    split
    · rfl
    · simp only [List.length_cons, ih]
      omega

/-- There is one group more than there are separators. -/
theorem length_groupSizes (g : Grouping) (count : Nat) :
    (g.groupSizes count).length = g.separators count + 1 :=
  length_groupSizesAfter 0 g.sizes count

/-! ## Cutting and joining -/

/-- Cuts groups of the given sizes off the front of a reversed run, and puts each before those that
are cut already. -/
def cut : List Nat → List Char → List (List Char) → List (List Char)
  | [], _, done => done
  | size :: sizes, run, done => cut sizes (run.drop size) ((run.take size).reverse :: done)

/-- The groups of a run of digits, leftmost first. -/
def pieces (g : Grouping) (digits : List Char) : List (List Char) :=
  cut (g.groupSizes digits.length) digits.reverse []

/-- A run of digits with a separator between its groups. -/
def apply (g : Grouping) (digits : List Char) : List Char :=
  List.intercalate [g.separator] (g.pieces digits)

/-! ## Zeros in front -/

/-- The least number of digits, at least `count`, whose grouped length reaches the width. -/
def fillCount (g : Grouping) (width count : Nat) : Nat :=
  if width ≤ g.groupedLength count then count else g.fillCount width (count + 1)
termination_by width - count
decreasing_by
  simp only [groupedLength] at *
  omega

/-- A run of digits with the fewest zeros in front that bring the grouped text to the width. -/
def zeroFill (g : Grouping) (digits : List Char) (width : Nat) : List Char :=
  let count := g.fillCount width digits.length
  g.apply (List.replicate (count - digits.length) '0' ++ digits)

end Grouping

end Stencil
