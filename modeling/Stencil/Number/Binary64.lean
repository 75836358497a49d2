/-!
# Double-precision numbers

A double is kept as its 64 bits, so that not-a-number, the infinities and negative zero are what
they are. A finite double is a significand times a power of two, both read off the bits.

* `Binary64` — the bits, with `negative`, `isNaN` and `isFinite`.
* `significand`, `scale` — the magnitude of a finite double is `significand * 2 ^ scale`.
* `quotient`, `isWhole`, `truncated?` — the magnitude as a quotient of naturals, whether a number is
  whole, and the number without its fraction.
* `ofSingle` — a single-precision number, widened without loss.
-/

namespace Stencil

/-- A double-precision number, given by its bits. -/
structure Binary64 where
  bits : UInt64
  deriving DecidableEq, Repr

namespace Binary64

/-! ## The parts of the bits -/

/-- Whether the sign bit is set. -/
def negative (x : Binary64) : Bool :=
  x.bits.toNat / Nat.pow 2 63 == 1

/-- The exponent as stored: 0 for zero and subnormals, 2047 for infinities and not-a-number. -/
def storedExponent (x : Binary64) : Nat :=
  x.bits.toNat / Nat.pow 2 52 % Nat.pow 2 11

/-- The fraction as stored, without the leading bit of normal numbers. -/
def storedFraction (x : Binary64) : Nat :=
  x.bits.toNat % Nat.pow 2 52

/-- Whether the number is neither an infinity nor not-a-number. -/
def isFinite (x : Binary64) : Bool :=
  x.storedExponent != 2047

/-- Whether the bits are not a number. -/
def isNaN (x : Binary64) : Bool :=
  !x.isFinite && x.storedFraction != 0

/-! ## The magnitude of a finite number -/

/-- The significand of a finite number, its leading bit included. -/
def significand (x : Binary64) : Nat :=
  if x.storedExponent = 0 then x.storedFraction else Nat.pow 2 52 + x.storedFraction

/-- The power of two that the significand counts. -/
def scale (x : Binary64) : Int :=
  if x.storedExponent = 0 then -1074 else (x.storedExponent : Int) - 1075

/-- `m * 2 ^ e` as a quotient of naturals. -/
def quotient (m : Nat) (e : Int) : Nat × Nat :=
  if 0 ≤ e then (m * Nat.pow 2 e.toNat, 1) else (m, Nat.pow 2 (-e).toNat)

/-- Whether a finite number has no fraction. -/
def isWhole (x : Binary64) : Bool :=
  let (num, den) := quotient x.significand x.scale
  num % den == 0

/-- The number without its fraction, if it is finite. -/
def truncated? (x : Binary64) : Option Int :=
  let (num, den) := quotient x.significand x.scale
  let magnitude : Int := (num / den : Nat)
  if x.isFinite then some (if x.negative then -magnitude else magnitude) else none

/-! ## Widening -/

/-- The double of the same value as the 32 bits of a single-precision number. A not-a-number keeps
its sign and payload and comes out quiet. -/
def ofSingle (bits : UInt32) : Binary64 :=
  let n := bits.toNat
  let sign := n / Nat.pow 2 31
  let exponent := n / Nat.pow 2 23 % Nat.pow 2 8
  let fraction := n % Nat.pow 2 23
  let pack (e f : Nat) : Binary64 := ⟨UInt64.ofNat (sign * Nat.pow 2 63 + e * Nat.pow 2 52 + f)⟩
  if exponent = 255 then
    if fraction = 0 then pack 2047 0
    else pack 2047 (Nat.pow 2 51 + fraction * Nat.pow 2 29 % Nat.pow 2 51)
  else if exponent ≠ 0 then
    pack (exponent + 896) (fraction * Nat.pow 2 29)
  else if fraction = 0 then
    pack 0 0
  else
    -- A subnormal single is a normal double: its highest set bit becomes the leading one.
    let top := fraction.log2
    pack (top + 874) ((fraction - Nat.pow 2 top) * Nat.pow 2 (52 - top))

end Binary64

end Stencil
