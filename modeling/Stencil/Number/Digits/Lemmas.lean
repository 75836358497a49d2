import Mathlib.Tactic.Ring
import Stencil.Number.Digits

/-!
# The number of a run of digits

* `value_cons`, `value_append` — a digit counts as many places as there are digits behind it.
* `value_ofNat` — the digits of a number denote it.
-/

namespace Stencil.Digits

/-- A number in front of a run counts as many places as the run has digits. -/
theorem foldl_eq_value (base n : Nat) (digits : List Nat) :
    digits.foldl (fun (n d : Nat) => base * n + d) n =
      n * base ^ digits.length + value base digits := by
  induction digits generalizing n with
  | nil => simp [value]
  | cons d digits ih =>
    have h : value base (d :: digits) =
        (base * 0 + d) * base ^ digits.length + value base digits := by
      rw [value, List.foldl_cons]
      exact ih _
    rw [List.foldl_cons, ih, h, List.length_cons, pow_succ]
    ring

theorem value_cons (base d : Nat) (digits : List Nat) :
    value base (d :: digits) = d * base ^ digits.length + value base digits := by
  rw [value, List.foldl_cons, foldl_eq_value]
  simp

theorem value_append (base : Nat) (front back : List Nat) :
    value base (front ++ back) = value base front * base ^ back.length + value base back := by
  rw [value, List.foldl_append, foldl_eq_value]
  rfl

theorem value_ofNatAux (base n : Nat) (known : List Nat) :
    value base (ofNatAux base n known) = n * base ^ known.length + value base known := by
  fun_induction ofNatAux base n known with
  | case1 => exact value_cons _ _ _
  | case2 n known _ ih =>
    have h := Nat.div_add_mod n base
    rw [ih, value_cons, List.length_cons, pow_succ]
    conv_rhs => rw [← h]
    ring

/-- The digits of a number denote it. -/
theorem value_ofNat (base n : Nat) : value base (ofNat base n) = n := by
  rw [ofNat, value_ofNatAux]
  simp [value]

end Stencil.Digits
