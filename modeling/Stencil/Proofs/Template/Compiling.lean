import Stencil.Proofs.Template.Scanning

/-!
# Compiling token by token

A template is compiled one token after the other, up to the first field that cannot be read. So a
compiled template can be cut where its tokens can, and a field of it is one that has been read.

* `exists_first_of_mapM_eq_error` — a traversal fails at the first element that fails.
* `exists_cut_of_mapM_eq_ok` — its result can be cut where the list can.
* `exists_cut_at_field` — a field of a compiled template, among the tokens.
* `exists_leftmost_refused` — where a template with matching braces does not compile.
-/

namespace Stencil

/-! ## Traversals -/

section Traversal

variable {ε α β : Type} {f : α → Except ε β}

/-- A traversal fails at the first element that fails. -/
theorem exists_first_of_mapM_eq_error {xs : List α} {e : ε} (h : xs.mapM f = .error e) :
    ∃ before x after ys, xs = before ++ x :: after ∧ before.mapM f = .ok ys ∧ f x = .error e := by
  induction xs with
  | nil => cases h
  | cons x rest ih =>
    rw [List.mapM_cons] at h
    cases hx : f x with
    | error found =>
      rw [hx] at h
      obtain rfl := Except.error.inj h
      exact ⟨[], x, rest, [], rfl, rfl, hx⟩
    | ok y =>
      cases hrest : rest.mapM f with
      | ok ys =>
        rw [hx, hrest] at h
        cases h
      | error found =>
        rw [hx, hrest] at h
        obtain rfl := Except.error.inj h
        obtain ⟨before, z, after, ys, rfl, hbefore, hz⟩ := ih hrest
        refine ⟨x :: before, z, after, y :: ys, rfl, ?_, hz⟩
        rw [List.mapM_cons, hx, hbefore]
        rfl

/-- What a traversal makes of a list can be cut where the list can. -/
theorem exists_cut_of_mapM_eq_ok {xs : List α} {front back : List β}
    (h : xs.mapM f = .ok (front ++ back)) :
    ∃ before after, xs = before ++ after ∧ before.mapM f = .ok front ∧
      after.mapM f = .ok back := by
  induction front generalizing xs with
  | nil => exact ⟨[], xs, rfl, rfl, h⟩
  | cons y front ih =>
    cases xs with
    | nil => cases h
    | cons x rest =>
      rw [List.mapM_cons] at h
      obtain ⟨y', hx, h⟩ := bind_eq_ok h
      obtain ⟨ys, hrest, h⟩ := bind_eq_ok h
      obtain ⟨rfl, rfl⟩ := List.cons.inj (Except.ok.inj h)
      obtain ⟨before, after, rfl, hbefore, hafter⟩ := ih hrest
      refine ⟨x :: before, after, rfl, ?_, hafter⟩
      rw [List.mapM_cons, hx, hbefore]
      rfl

theorem mapM_append_eq_ok {first second : List α} {zs : List β}
    (h : (first ++ second).mapM f = .ok zs) :
    ∃ xs ys, first.mapM f = .ok xs ∧ second.mapM f = .ok ys ∧ zs = xs ++ ys := by
  rw [List.mapM_append] at h
  obtain ⟨xs, hxs, h⟩ := bind_eq_ok h
  obtain ⟨ys, hys, h⟩ := bind_eq_ok h
  exact ⟨xs, ys, hxs, hys, (Except.ok.inj h).symm⟩

end Traversal

/-! ## Fields -/

/-- A field of what is compiled stands for a token, and what is in front of the one has been compiled
from what is in front of the other. -/
theorem exists_cut_at_field {tokens : List Token} {front back : Template Field} {field : Field}
    (h : tokens.mapM compileToken = .ok (front ++ .field field :: back)) :
    ∃ before text after, tokens = before ++ .field text :: after ∧
      before.mapM compileToken = .ok front ∧ parseField (String.ofList text) = .ok field := by
  obtain ⟨before, behind, rfl, hbefore, hbehind⟩ := exists_cut_of_mapM_eq_ok h
  cases behind with
  | nil => cases hbehind
  | cons token after =>
    rw [List.mapM_cons] at hbehind
    obtain ⟨segment, hsegment, hbehind⟩ := bind_eq_ok hbehind
    obtain ⟨segments, -, hbehind⟩ := bind_eq_ok hbehind
    obtain ⟨rfl, -⟩ := List.cons.inj (Except.ok.inj hbehind)
    cases token with
    | literal run => cases hsegment
    | field text =>
      obtain ⟨found, hparse, hfound⟩ := map_eq_ok hsegment
      obtain rfl := Segment.field.inj hfound
      exact ⟨before, text, after, rfl, hbefore, hparse⟩

theorem exists_parseField_of_mapM {tokens : List Token} {compiled : Template Field}
    (h : tokens.mapM compileToken = .ok compiled) {field : Field}
    (hfield : .field field ∈ compiled) : ∃ raw, parseField raw = .ok field := by
  obtain ⟨front, back, rfl⟩ := List.append_of_mem hfield
  obtain ⟨_, text, _, -, -, hparse⟩ := exists_cut_at_field h
  exact ⟨String.ofList text, hparse⟩

/-- The text of a field that cannot be read. -/
def Token.Refused (text : List Char) : Prop :=
  ∃ e, parseField (String.ofList text) = .error e

/-- What compiles has no such field. -/
theorem not_refused_of_mapM {tokens : List Token} {segments : Template Field}
    (h : tokens.mapM compileToken = .ok segments) {text : List Char}
    (htext : .field text ∈ tokens) : ¬Token.Refused text := by
  rintro ⟨e, he⟩
  obtain ⟨before, after, rfl⟩ := List.append_of_mem htext
  obtain ⟨_, _, -, hafter, -⟩ := mapM_append_eq_ok h
  rw [List.mapM_cons, compileToken, he] at hafter
  cases hafter

/-- If some field cannot be read, the leftmost of these is at fault. -/
theorem exists_leftmost_refused {tokens : List Token} {e : FormatError}
    (h : tokens.mapM compileToken = .error e) :
    ∃ before text after, tokens = before ++ .field text :: after ∧
      parseField (String.ofList text) = .error e ∧
      ∀ earlier, .field earlier ∈ before → ¬Token.Refused earlier := by
  obtain ⟨before, token, after, segments, rfl, hbefore, htoken⟩ :=
    exists_first_of_mapM_eq_error h
  cases token with
  | literal run => cases htoken
  | field text =>
    exact ⟨before, text, after, rfl, map_eq_error htoken,
      fun _ hearlier => not_refused_of_mapM hbefore hearlier⟩

end Stencil
