import Stencil.Field.Basic

/-!
# Machine arithmetic

A run on a machine can break laws that numbers and lists do not have: a sum is not a word any more,
a difference is below zero, a position lies outside the list it is taken from. Every such step
checks its law here, so that a run shows whether it has kept them all. Breaking a law is not the
same as refusing a request.

* `Breach` — the laws.
* `Checked` — a run that ends with a result, with an error of its own, or with a breach.
* `sum`, `difference` and the signed ones — arithmetic on 64-bit words.
* `item`, `span` — an entry and a range of a list.
* `behind`, `upTo`, `between` — parts of a text, by their offsets in bytes.
-/

namespace Stencil

/-- The laws that a step on a machine can break. -/
inductive Breach where
  /-- A position or range that is not inside, or an offset that cuts a character. -/
  | outOfRange
  /-- A difference of words that is below zero. -/
  | belowZero
  /-- A number that is not a word. -/
  | overflow
  /-- A loop that has not come closer to its end. -/
  | stalled
  deriving DecidableEq, Repr

/-- Why a checked run ends without a result. -/
inductive Stop (ε : Type) where
  | breach (law : Breach)
  | refusal (error : ε)
  deriving DecidableEq, Repr

/-- A run that checks the laws of the machine. -/
abbrev Checked (ε α : Type) := Except (Stop ε) α

namespace Checked

variable {ε ε' α β : Type}

/-- The run of a result that is had without steps to check. -/
def ofResult (result : Except ε α) : Checked ε α :=
  result.mapError .refusal

/-- A run with its refusals told in another way. -/
def mapRefusal (f : ε → ε') (run : Checked ε α) : Checked ε' α :=
  run.mapError fun
    | .breach law => .breach law
    | .refusal e => .refusal (f e)

/-! ## Words -/

/-- Signed words lie below this number, and not below its negative. -/
def signedLimit : Nat := Nat.pow 2 63

/-- A signed word holds the number. -/
def IsSigned (v : Int) : Prop := -(signedLimit : Int) ≤ v ∧ v < signedLimit

instance (v : Int) : Decidable (IsSigned v) := inferInstanceAs (Decidable (_ ∧ _))

/-- The sum of two words. A machine adds nothing but words, so nothing is asked of other numbers. -/
def sum (a b : Nat) : Checked ε Nat :=
  if a < wordLimit ∧ b < wordLimit ∧ wordLimit ≤ a + b then .error (.breach .overflow)
  else .ok (a + b)

/-- The difference of two words. -/
def difference (a b : Nat) : Checked ε Nat :=
  if b ≤ a then .ok (a - b) else .error (.breach .belowZero)

/-- A number as a signed word. -/
def signed (v : Int) : Checked ε Int :=
  if IsSigned v then .ok v else .error (.breach .overflow)

/-- A signed word as a word. -/
def unsigned (v : Int) : Checked ε Nat :=
  if 0 ≤ v then .ok v.toNat else .error (.breach .belowZero)

/-! ## Lists -/

/-- The entry at a position. -/
def item (xs : List α) (i : Nat) : Checked ε α :=
  match xs[i]? with
  | some x => .ok x
  | none => .error (.breach .outOfRange)

/-- The entries from one position up to another one, exclusive. -/
def span (xs : List α) (start stop : Nat) : Checked ε (List α) :=
  if start ≤ stop ∧ stop ≤ xs.length then .ok ((xs.take stop).drop start)
  else .error (.breach .outOfRange)

/-! ## Texts -/

/-- The length of a text in bytes. -/
def bytes : List Char → Nat
  | [] => 0
  | c :: text => c.utf8Size + bytes text

/-- The text from an offset on. -/
def behind : Nat → List Char → Checked ε (List Char)
  | 0, text => .ok text
  | _ + 1, [] => .error (.breach .outOfRange)
  | offset + 1, c :: text =>
    if c.utf8Size ≤ offset + 1 then behind (offset + 1 - c.utf8Size) text
    else .error (.breach .outOfRange)

/-- The text up to an offset. -/
def upTo : Nat → List Char → Checked ε (List Char)
  | 0, _ => .ok []
  | _ + 1, [] => .error (.breach .outOfRange)
  | offset + 1, c :: text =>
    if c.utf8Size ≤ offset + 1 then (upTo (offset + 1 - c.utf8Size) text).map (c :: ·)
    else .error (.breach .outOfRange)

/-- The text from one offset up to another one. -/
def between (start stop : Nat) (text : List Char) : Checked ε (List Char) := do
  let front ← upTo stop text
  behind start front

end Checked

end Stencil
