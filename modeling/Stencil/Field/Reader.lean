import Stencil.Error
import Stencil.Field.Basic

/-!
# Reading fields

A field is read from left to right by small steps. A step that does not apply takes nothing, and
the next one is tried where it stood. The segments behind the selector are not cut at colons: a
segment whose text up to the end of the field is an element ends the field, and any other has to be
a layer that a colon closes.

* `Reader` — a step: what it reads and what is left, or nothing if it does not apply.
* `natural`, `selector`, `count`, `padding` — the steps of the grammar.
* `element`, `layer` — a presentation and the text it cannot use.
* `presentation` — all layers and the element.
* `Field.read` — the whole field, not yet checked against the rules of its type.
-/

namespace Stencil

/-- A step of reading: a result and the text that is left, if the step applies. -/
abbrev Reader (α : Type) := List Char → Option (α × List Char)

namespace Reader

/-! ## Steps -/

/-- One character of a class, as what it stands for. -/
def oneOf {α : Type} (meaning : Char → Option α) : Reader α
  | [] => none
  | c :: rest => (meaning c).map (·, rest)

/-- The first step if it applies, else the second. -/
def orElse {α : Type} (first second : Reader α) : Reader α := fun text =>
  (first text).or (second text)

/-- A step that may be left out. -/
def optional {α : Type} (step : Reader α) (text : List Char) : Option α × List Char :=
  match step text with
  | some (a, rest) => (some a, rest)
  | none => (none, text)

/-- A character that may be left out. -/
def flag (c : Char) : List Char → Bool × List Char
  | [] => (false, [])
  | d :: rest => if d = c then (true, rest) else (false, d :: rest)

/-- The number a run of decimal digits denotes. -/
def numberOf (digits : List Char) : Nat :=
  digits.foldl (fun n c => 10 * n + (c.toNat - '0'.toNat)) 0

/-- A number: all the digits that stand here, if there are any and they fit a machine word. -/
def natural : Reader Nat := fun text =>
  let digits := text.takeWhile Char.isDigit
  if digits ≠ [] ∧ numberOf digits < wordLimit then
    some (numberOf digits, text.dropWhile Char.isDigit)
  else none

/-- Whether a character can start a name. -/
def startsName (c : Char) : Bool :=
  c.isAlpha || c == '_'

/-- Whether a character can stand inside a name. -/
def continuesName (c : Char) : Bool :=
  c.isAlphanum || c == '_'

/-- A name: an ASCII letter or underscore, and letters, digits and underscores after it. -/
def name : Reader String
  | [] => none
  | c :: rest =>
    if startsName c then
      some (String.ofList (c :: rest.takeWhile continuesName), rest.dropWhile continuesName)
    else none

/-! ## Selectors, counts and padding -/

/-- The argument of a field; a text that starts neither with a number nor with a name leaves it to
the order of fields. -/
def selector (text : List Char) : Selector × List Char :=
  match natural text with
  | some (n, rest) => (.index n, rest)
  | none =>
    match name text with
    | some (key, rest) => (.name key, rest)
    | none => (.auto, text)

/-- A reference to another argument: braces around a position, or around nothing. -/
def reference : Reader Selector
  | '{' :: text =>
    let (position, rest) := optional natural text
    match rest with
    | '}' :: rest => some (position.elim .auto .index, rest)
    | _ => none
  | _ => none

/-- A width or precision. -/
def count : Reader Count := fun text =>
  match natural text with
  | some (n, rest) => some (.literal n, rest)
  | none => (reference text).map fun (selector, rest) => (.ref selector, rest)

/-- Whether a character can be a fill. -/
def isFill (c : Char) : Bool :=
  c != '{' && c != '}'

/-- A fill and the alignment behind it. -/
def filledAlign (align : Char → Option Align) : Reader (Option Char × Align)
  | [] => none
  | c :: text =>
    match oneOf align text with
    | some (a, rest) => if isFill c then some ((some c, a), rest) else none
    | none => none

/-- An alignment without a fill. -/
def bareAlign (align : Char → Option Align) : Reader (Option Char × Align) := fun text =>
  match oneOf align text with
  | some (a, rest) => some ((none, a), rest)
  | none => none

/-- A fill and an alignment, or an alignment alone. -/
def padding (align : Char → Option Align) : Reader (Option Char × Align) :=
  orElse (filledAlign align) (bareAlign align)

/-- The alignments of a container: all but the sign-aware one. -/
def containerAlign (c : Char) : Option Align :=
  if c = '=' then none else Align.ofChar? c

/-! ## Elements and layers -/

/-- The flag `0`. It needs a width behind it: a zero with none is itself the width. -/
def zeroFlag : List Char → Bool × List Char
  | '0' :: c :: rest =>
    if c.isDigit || c == '{' then (true, c :: rest) else (false, '0' :: c :: rest)
  | text => (false, text)

/-- A group separator. -/
def groupSeparator (c : Char) : Option Char :=
  if c = ',' ∨ c = '_' then some c else none

/-- A point and the precision behind it. -/
def precision : Reader Count
  | '.' :: text => count text
  | _ => none

/-- An element, and the text from the first character that it cannot use. -/
def element (text : List Char) : Element Count × List Char :=
  let (pads, text) := optional (padding Align.ofChar?) text
  let (sign, text) := optional (oneOf SignMode.ofChar?) text
  let (positiveZero, text) := flag 'z' text
  let (alternate, text) := flag '#' text
  let (zeroPad, text) := zeroFlag text
  let (width, text) := optional count text
  let (grouping, text) := optional (oneOf groupSeparator) text
  let (precision, text) := optional precision text
  let (localized, text) := flag 'L' text
  let (type, text) := optional (oneOf TypeCode.ofChar?) text
  ({ fill := pads.bind (·.1), align := pads.map (·.2), sign, positiveZero, alternate, zeroPad,
     width, grouping, precision, localized, type := type.getD .byKind }, text)

/-- A layer, and the text from the first character that it cannot use. -/
def layer (text : List Char) : Layer Count × List Char :=
  let (pads, text) := optional (padding containerAlign) text
  let (width, text) := optional count text
  let (kind, text) := optional (oneOf ContainerKind.ofChar?) text
  ({ fill := pads.bind (·.1), align := pads.map (·.2), width, kind := kind.getD .plain }, text)

/-! ## No step adds text -/

/-- A step leaves at most as much text as it was given. -/
def Shrinks {α : Type} (step : Reader α) : Prop :=
  ∀ text a rest, step text = some (a, rest) → rest.length ≤ text.length

theorem shrinks_oneOf {α : Type} (meaning : Char → Option α) : Shrinks (oneOf meaning) := by
  intro text a rest h
  cases text with
  | nil => simp [oneOf] at h
  | cons c text =>
    simp only [oneOf, Option.map_eq_some_iff, Prod.mk.injEq] at h
    obtain ⟨_, _, _, rfl⟩ := h
    simp

theorem length_dropWhile_le {α : Type} (p : α → Bool) (l : List α) :
    (l.dropWhile p).length ≤ l.length :=
  (List.dropWhile_sublist p).length_le

theorem shrinks_natural : Shrinks natural := by
  intro text a rest h
  simp only [natural] at h
  split at h
  · simp only [Option.some.injEq, Prod.mk.injEq] at h
    rw [← h.2]
    exact length_dropWhile_le _ _
  · simp at h

theorem length_optional_le {α : Type} {step : Reader α} (h : Shrinks step) (text : List Char) :
    (optional step text).2.length ≤ text.length := by
  unfold optional
  split
  · rename_i a rest heq
    exact h _ _ _ heq
  · simp

theorem shrinks_reference : Shrinks reference := by
  intro text a rest h
  unfold reference at h
  split at h
  · rename_i inner
    have hle := length_optional_le shrinks_natural inner
    simp only at h
    split at h
    · rename_i rest' heq
      simp only [Option.some.injEq, Prod.mk.injEq] at h
      rw [heq] at hle
      simp only [List.length_cons] at hle ⊢
      rw [← h.2]
      omega
    · simp at h
  · simp at h

theorem shrinks_count : Shrinks count := by
  intro text a rest h
  unfold count at h
  split at h
  · rename_i n rest' heq
    simp only [Option.some.injEq, Prod.mk.injEq] at h
    rw [← h.2]
    exact shrinks_natural _ _ _ heq
  · simp only [Option.map_eq_some_iff, Prod.mk.injEq] at h
    obtain ⟨⟨s, r⟩, heq, _, rfl⟩ := h
    exact shrinks_reference _ _ _ heq

theorem shrinks_orElse {α : Type} {first second : Reader α} (hf : Shrinks first)
    (hs : Shrinks second) : Shrinks (orElse first second) := by
  intro text a rest h
  simp only [orElse, Option.or_eq_some_iff] at h
  rcases h with h | ⟨_, h⟩
  · exact hf _ _ _ h
  · exact hs _ _ _ h

theorem shrinks_filledAlign (align : Char → Option Align) : Shrinks (filledAlign align) := by
  intro text a rest h
  unfold filledAlign at h
  split at h
  · simp at h
  · split at h
    · rename_i heq
      have := shrinks_oneOf align _ _ _ heq
      split at h
      · simp only [Option.some.injEq, Prod.mk.injEq] at h
        rw [← h.2, List.length_cons]
        omega
      · simp at h
    · simp at h

theorem shrinks_bareAlign (align : Char → Option Align) : Shrinks (bareAlign align) := by
  intro text a rest h
  unfold bareAlign at h
  split at h
  · rename_i heq
    simp only [Option.some.injEq, Prod.mk.injEq] at h
    rw [← h.2]
    exact shrinks_oneOf align _ _ _ heq
  · simp at h

theorem shrinks_padding (align : Char → Option Align) : Shrinks (padding align) :=
  shrinks_orElse (shrinks_filledAlign align) (shrinks_bareAlign align)

/-- A layer leaves at most as much text as it was given. -/
theorem length_layer_le (text : List Char) : (layer text).2.length ≤ text.length := by
  unfold layer
  exact Nat.le_trans (length_optional_le (shrinks_oneOf _) _)
    (Nat.le_trans (length_optional_le shrinks_count _) (length_optional_le (shrinks_padding _) _))

/-! ## The whole field -/

/-- Layers and element up to the end of the text; failing that, the text that the element of the
last segment could not use. -/
def presentation (text : List Char) : Except (List Char) (List (Layer Count) × Element Count) :=
  match element text with
  | (last, []) => .ok ([], last)
  | (_, unused) =>
    match _h : layer text with
    | (first, ':' :: rest) =>
      (presentation rest).map fun (layers, last) => (first :: layers, last)
    | _ => .error unused
termination_by text.length
decreasing_by
  have := length_layer_le text
  rw [_h] at this
  simp only [List.length_cons] at this
  omega

end Reader

/-- Reads the text between the braces of a field. -/
def Field.read (raw : String) : Except Fault Field :=
  match Reader.selector raw.toList with
  | (selector, []) => .ok { raw, selector }
  | (selector, ':' :: text) =>
    match Reader.presentation text with
    | .ok (layers, element) => .ok { raw, selector, layers, element }
    | .error unused => .error (.unconsumed unused)
  | (_, rest) => .error (.afterSelector rest)

end Stencil
