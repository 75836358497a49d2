import Stencil.Checked.Template
import Stencil.Proofs.Checked.Steps
import Stencil.Proofs.Template.Scanning

/-!
# Scanning that follows offsets

A template that can be held is cut into tokens by offsets as it is without them. The braces that are
open are never fewer than none, and every offset stands between two characters, for it is the length
of a part of the template in bytes.

* `fieldEnd_eq_ok` — where a field ends.
* `field_eq_ok`, `unbalanced_eq` — the text of a field, and the position of a brace without a
  partner.
* `scanFrom_eq_ofResult` — the tokens of what is left of a template.
* `compile_eq_ofResult` — the segments of a template.
-/

namespace Stencil.Checked

variable {ε : Type}

/-! ## Fields -/

/-- The end of a field stands behind the bytes of its text. -/
theorem fieldEnd_eq_ok {depth : Nat} (hpos : 1 ≤ depth) (hle : depth ≤ 2) (offset : Nat)
    (text : List Char) :
    (fieldEnd depth offset text : Checked ε (Option Nat)) =
      .ok ((Token.closeField depth text).map fun cut => offset + bytes cut.1) := by
  obtain ⟨hword, -, hcount, -⟩ := limits
  fun_induction Token.closeField depth text generalizing offset with
  | case1 => rfl
  | case2 depth text hlt ih =>
    rw [fieldEnd, sum_eq_ok (by omega), ok_bind, if_neg (by omega),
      ih (by omega) (by omega), Option.map_map]
    refine congrArg (fun f => Except.ok (Option.map f _)) (funext fun cut => ?_)
    show offset + 1 + bytes cut.1 = offset + bytes ('{' :: cut.1)
    rw [bytes_cons, Nat.add_assoc]
    rfl
  | case3 depth text hlt =>
    rw [fieldEnd, sum_eq_ok (by omega), ok_bind, if_pos (by omega)]
    rfl
  | case4 depth text hlast =>
    rw [fieldEnd, difference_eq_ok hpos, ok_bind, if_pos (by omega)]
    rfl
  | case5 depth text hmore ih =>
    rw [fieldEnd, difference_eq_ok hpos, ok_bind, if_neg (by omega),
      ih (by omega) (by omega), Option.map_map]
    refine congrArg (fun f => Except.ok (Option.map f _)) (funext fun cut => ?_)
    show offset + 1 + bytes cut.1 = offset + bytes ('}' :: cut.1)
    rw [bytes_cons, Nat.add_assoc]
    rfl
  | case6 depth c text hopen hclose ih =>
    rw [fieldEnd, ih hpos hle, Option.map_map]
    · refine congrArg (fun f => Except.ok (Option.map f _)) (funext fun cut => ?_)
      show offset + c.utf8Size + bytes cut.1 = offset + bytes (c :: cut.1)
      rw [bytes_cons, Nat.add_assoc]
    · exact hopen
    · exact hclose

variable {front text : List Char}

/-- A brace without a partner is reported by the number of characters in front of it. -/
theorem unbalanced_eq {α : Type} (front text : List Char) :
    (unbalanced (front ++ text) (bytes front) : Checked Nat α) =
      .error (.refusal front.length) := by
  rw [unbalanced, upTo_append]
  rfl

/-- The field at an offset is the text up to the brace that closes it. -/
theorem field_eq_ok (hroom : bytes (front ++ '{' :: text) < wordLimit) :
    field (front ++ '{' :: text) (bytes front) =
      match Token.closeField 1 text with
      | some cut => .ok cut
      | none => .error (.refusal front.length) := by
  have hend : (fieldEnd 0 0 ('{' :: text) : Checked Nat (Option Nat)) =
      .ok ((Token.closeField 1 text).map fun cut => 1 + bytes cut.1) := by
    rw [fieldEnd, sum_zero, ok_bind, if_neg (by omega), fieldEnd_eq_ok (Nat.le_refl 1) (by omega)]
  have hbrace : bytes ['{'] = 1 := rfl
  rw [field, behind_append, ok_bind, hend, ok_bind]
  cases hclose : Token.closeField 1 text with
  | none => exact unbalanced_eq front _
  | some cut =>
    obtain ⟨inner, rest⟩ := cut
    obtain ⟨rfl, -⟩ := Token.eq_append_of_closeField hclose
    -- the template, cut in front of the text of the field and behind its closing brace
    have hstart : front ++ '{' :: (inner ++ '}' :: rest) =
        front ++ ['{'] ++ inner ++ ('}' :: rest) := by simp
    have hafter : front ++ '{' :: (inner ++ '}' :: rest) =
        front ++ ['{'] ++ inner ++ ['}'] ++ rest := by simp
    have hinner := between_append (ε := Nat) (front ++ ['{']) inner ('}' :: rest)
    have hrest := behind_append (ε := Nat) (front ++ ['{'] ++ inner ++ ['}']) rest
    have hclosing : bytes ['}'] = 1 := rfl
    rw [hafter, bytes_append] at hroom
    simp only [bytes_append, hbrace, hclosing] at hinner hrest hroom
    dsimp only [Option.map_some]
    rw [sum_eq_ok (by omega), ok_bind, sum_eq_ok (by omega), ok_bind, hstart, ← Nat.add_assoc,
      hinner, ok_bind, sum_eq_ok (by omega), ok_bind, ← hstart, hafter, hrest]
    rfl

/-! ## Tokens -/

/-- Two braces are two bytes. -/
theorem behind_two {c d : Char} (hc : c.utf8Size = 1) (hd : d.utf8Size = 1) (text : List Char) :
    (behind 2 (c :: d :: text) : Checked ε (List Char)) = .ok text := by
  have h := behind_append (ε := ε) [c, d] text
  rw [bytes_cons, bytes_cons, bytes_nil, hc, hd] at h
  exact h

theorem difference_bytes (front text : List Char) :
    (difference (bytes (front ++ text)) (bytes text) : Checked ε Nat) = .ok (bytes front) := by
  rw [bytes_append, difference_eq_ok (Nat.le_add_left _ _), Nat.add_sub_cancel]

/-- What is left of a template behind a front part is scanned by offsets as it is without them. -/
theorem scanFrom_eq_ofResult (front text : List Char) (hroom : bytes (front ++ text) < wordLimit) :
    scanFrom (front ++ text) text = ofResult (Token.scanFrom front.length text) := by
  generalize hposition : front.length = position
  fun_induction Token.scanFrom position text generalizing front with
  | case1 => rw [scanFrom]; rfl
  | case2 position text ih =>
    have hsplit : front ++ '{' :: '{' :: text = front ++ ['{', '{'] ++ text := by simp
    rw [scanFrom, behind_two rfl rfl, ok_bind, dif_pos (Nat.le_refl _), hsplit,
      ih _ (by rwa [← hsplit]) (by simp [hposition]), ofResult_map]
  | case3 position text ih =>
    have hsplit : front ++ '}' :: '}' :: text = front ++ ['}', '}'] ++ text := by simp
    rw [scanFrom, behind_two rfl rfl, ok_bind, dif_pos (Nat.le_refl _), hsplit,
      ih _ (by rwa [← hsplit]) (by simp [hposition]), ofResult_map]
  | case4 position text hdouble =>
    rw [scanFrom, difference_bytes, ok_bind, unbalanced_eq, hposition]
    · rfl
    · exact hdouble
  | case5 position text hdouble inner rest hclose ih =>
    obtain ⟨htext, -⟩ := Token.eq_append_of_closeField hclose
    have hlength := Token.length_of_closeField hclose
    have hsplit : front ++ '{' :: text = front ++ '{' :: inner ++ ['}'] ++ rest := by
      rw [htext]
      simp
    rw [scanFrom, difference_bytes, ok_bind, field_eq_ok hroom, hclose, ok_bind]
    · dsimp only
      rw [dif_pos (by omega), hsplit, ih _ (by rwa [← hsplit]) (by simp [← hposition]; omega),
        ofResult_map]
    · exact hdouble
  | case6 position text hdouble hclose =>
    rw [scanFrom, difference_bytes, ok_bind, field_eq_ok hroom, hclose, hposition]
    · rfl
    · exact hdouble
  | case7 position c text hopen hclose hdoubleOpen hdoubleClose ih =>
    have hsplit : front ++ c :: text = front ++ [c] ++ text := by simp
    rw [scanFrom, hsplit, ih _ (by rwa [← hsplit]) (by simp [hposition]), ofResult_map]
    all_goals assumption

theorem tokenize_eq_ofResult {template : String} (hroom : bytes template.toList < wordLimit) :
    tokenize template = ofResult (Stencil.tokenize template) := by
  have hscan := scanFrom_eq_ofResult [] template.toList hroom
  rw [List.nil_append] at hscan
  rw [tokenize, hscan, mapRefusal_ofResult]
  rfl

/-- A template that can be held is compiled by offsets as it is without them. -/
theorem compile_eq_ofResult {template : String} (hroom : bytes template.toList < wordLimit) :
    compile template = ofResult (Stencil.compile template) := by
  rw [compile, Stencil.compile, tokenize_eq_ofResult hroom, ofResult_bind]

end Stencil.Checked
