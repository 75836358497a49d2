/-!
# Digits

Runs of digits in a base, most significant digit first.

* `ofNat`, `value` — the digits of a number, and the number of a run of digits.
* `increment` — one unit in the last place, with the carry that leaves the run.
* `trimLeading`, `trimTrailing` — the run without its zeros at either end.
* `char`, `chars`, `decimal` — digits as characters, `0` to `9` and `a` to `f`.
-/

namespace Stencil.Digits

/-! ## Numbers and runs -/

/-- The digits of `n` in front of a run that is already known. -/
def ofNatAux (base n : Nat) (known : List Nat) : List Nat :=
  if n < base ∨ base < 2 then n :: known else ofNatAux base (n / base) (n % base :: known)
termination_by n
decreasing_by exact Nat.div_lt_self (by omega) (by omega)

/-- The digits of `n`; zero is a single `0`. -/
def ofNat (base n : Nat) : List Nat :=
  ofNatAux base n []

/-- The number a run of digits denotes; the empty run denotes zero. -/
def value (base : Nat) (digits : List Nat) : Nat :=
  digits.foldl (fun (n d : Nat) => base * n + d) 0

/-! ## Arithmetic on runs -/

/-- Adds a carry to a digit that stands left of a finished run. -/
def addCarry (base d : Nat) : Bool × List Nat → Bool × List Nat
  | (false, run) => (false, d :: run)
  | (true, run) => if d + 1 = base then (true, 0 :: run) else (false, (d + 1) :: run)

/-- Adds one unit in the last place; the flag tells whether a carry left the run. -/
def increment (base : Nat) (digits : List Nat) : Bool × List Nat :=
  digits.foldr (addCarry base) (true, [])

/-- The least digit that rounds up: half the base, rounded up itself. -/
def half (base : Nat) : Nat :=
  (base + 1) / 2

/-- Whether every digit is zero. -/
def allZero (digits : List Nat) : Bool :=
  digits.all (· == 0)

/-- The run without the zeros at its front. -/
def trimLeading (digits : List Nat) : List Nat :=
  digits.dropWhile (· == 0)

/-- The run without the zeros at its end. -/
def trimTrailing (digits : List Nat) : List Nat :=
  (trimLeading digits.reverse).reverse

/-- The run brought to the given length with zeros at its end. -/
def padTrailing (length : Nat) (digits : List Nat) : List Nat :=
  digits ++ List.replicate (length - digits.length) 0

/-! ## Digits as characters -/

/-- The character of a digit below sixteen. -/
def char (d : Nat) : Char :=
  if d < 10 then Char.ofNat ('0'.toNat + d) else Char.ofNat ('a'.toNat + (d - 10))

/-- A run of digits as characters. -/
def chars (digits : List Nat) : List Char :=
  digits.map char

/-- A number in plain decimal. -/
def decimal (n : Nat) : List Char :=
  chars (ofNat 10 n)

end Stencil.Digits
