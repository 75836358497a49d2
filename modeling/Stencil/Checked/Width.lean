import Stencil.Render.Arguments

/-!
# Integers by width

A machine keeps a whole number in 128 bits, or as a sign and a magnitude of any size. Each width has
its own ways to digits, to a count, to a code point and to the text of diagnostics.

* `Kept` — a whole number as it is kept.
* `Kept.digits`, `Kept.count?`, `Kept.point?`, `Kept.display` — the ways of either width.
-/

namespace Stencil

/-- A whole number as a machine keeps it, in two's complement or without limit. -/
inductive Kept where
  | narrow (bits : BitVec 128)
  | wide (v : Int)
  deriving DecidableEq, Repr

namespace Kept

/-- The number that is kept. -/
def value : Kept → Int
  | narrow bits => bits.toInt
  | wide v => v

/-- The argument that keeps it. -/
def toValue : Kept → Value
  | narrow bits => .int bits.toInt
  | wide v => .big v

/-- Whether a minus sign is due. -/
def negative : Kept → Bool
  | narrow bits => bits.slt 0
  | wide v => v < 0

/-- The digits of an unsigned word in front of a run that is already known; the last digit is split
off until nothing is left. -/
def wordDigits (base word : BitVec 128) (known : List Nat) : List Nat :=
  let known := (word % base).toNat :: known
  if word / base = 0 ∨ base.toNat < 2 then known else wordDigits base (word / base) known
termination_by word.toNat
decreasing_by
  rename_i h
  rw [not_or] at h
  have hne : word.toNat ≠ 0 := by
    intro hzero
    refine h.1 (BitVec.eq_of_toNat_eq ?_)
    rw [BitVec.toNat_udiv, hzero]
    simp
  rw [BitVec.toNat_udiv]
  exact Nat.div_lt_self (by omega) (by omega)

/-- The digits of the magnitude in a radix. -/
def digits (base : Nat) : Kept → List Nat
  | narrow bits => wordDigits (BitVec.ofNat 128 base) bits.abs []
  | wide v => Digits.ofNat base v.natAbs

/-- The number as an unsigned word below a limit. -/
def below? (limit : Nat) : Kept → Option Nat
  | narrow bits => if bits.slt 0 ∨ limit ≤ bits.toNat then none else some bits.toNat
  | wide (.ofNat n) => if n < limit then some n else none
  | wide (.negSucc _) => none

/-- The number as a width or precision. -/
def count? (i : Kept) : Option Nat :=
  i.below? wordLimit

/-- The character of the number, which has to be an unsigned word of 32 bits first. -/
def point? (i : Kept) : Option Char :=
  (i.below? (Nat.pow 2 32)).bind fun n => if n.isValidChar then some (Char.ofNat n) else none

/-- The number as diagnostics show it. -/
def display (i : Kept) : List Char :=
  (if i.negative then ['-'] else []) ++ Digits.chars (i.digits 10)

end Kept

end Stencil
