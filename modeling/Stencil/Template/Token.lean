/-!
# Tokens of a template

A template is literal text with fields between braces; a doubled brace stands for a brace of the
text. A field may hold braces of its own, one level deep, around the arguments it refers to.

* `Token` — a run of text, or the text of a field.
* `closeField` — the text up to the brace that closes a field.
* `scan` — the tokens of a template, or the position of the brace that has no partner.
* `spell`, `escape` — a list of tokens, or plain text, as a template.
* `Canonical` — the lists that scanning produces.
-/

namespace Stencil

/-- A piece of a template: literal text, or the text between the braces of a field. -/
inductive Token where
  | literal (text : List Char)
  | field (text : List Char)
  deriving DecidableEq, Repr

namespace Token

/-! ## Fields -/

/-- The text of a field that has `depth` braces open, and the text behind the brace that closes it;
none if a third brace opens or the text ends. -/
def closeField (depth : Nat) : List Char → Option (List Char × List Char)
  | [] => none
  | '{' :: text =>
    if depth < 2 then (closeField (depth + 1) text).map fun (inner, rest) => ('{' :: inner, rest)
    else none
  | '}' :: text =>
    if depth ≤ 1 then some ([], text)
    else (closeField (depth - 1) text).map fun (inner, rest) => ('}' :: inner, rest)
  | c :: text => (closeField depth text).map fun (inner, rest) => (c :: inner, rest)

/-- A closed field and what is behind it make up the text but for the closing brace. -/
theorem length_of_closeField {depth : Nat} {text inner rest : List Char}
    (h : closeField depth text = some (inner, rest)) :
    inner.length + rest.length + 1 = text.length := by
  fun_induction closeField depth text generalizing inner rest with
  | case1 => simp at h
  | case2 depth text hd ih =>
    simp only [Option.map_eq_some_iff, Prod.mk.injEq] at h
    obtain ⟨⟨f, r⟩, heq, rfl, rfl⟩ := h
    have := ih heq
    simp only [List.length_cons]
    omega
  | case3 => simp at h
  | case4 depth text hd =>
    simp only [Option.some.injEq, Prod.mk.injEq] at h
    obtain ⟨rfl, rfl⟩ := h
    simp
  | case5 depth text hd ih =>
    simp only [Option.map_eq_some_iff, Prod.mk.injEq] at h
    obtain ⟨⟨f, r⟩, heq, rfl, rfl⟩ := h
    have := ih heq
    simp only [List.length_cons]
    omega
  | case6 depth c text _ _ ih =>
    simp only [Option.map_eq_some_iff, Prod.mk.injEq] at h
    obtain ⟨⟨f, r⟩, heq, rfl, rfl⟩ := h
    have := ih heq
    simp only [List.length_cons]
    omega

/-! ## Scanning -/

/-- Puts a character in front of the text that a list of tokens starts with. -/
def consChar (c : Char) : List Token → List Token
  | literal text :: rest => literal (c :: text) :: rest
  | tokens => literal [c] :: tokens

/-- The tokens of a text that starts at a position of the template, or the position of the first
brace without a partner. -/
def scanFrom (position : Nat) : List Char → Except Nat (List Token)
  | [] => .ok []
  | '{' :: '{' :: text => (scanFrom (position + 2) text).map (consChar '{')
  | '}' :: '}' :: text => (scanFrom (position + 2) text).map (consChar '}')
  | '}' :: _ => .error position
  | '{' :: text =>
    match _h : closeField 1 text with
    | some (inner, rest) => (scanFrom (position + inner.length + 2) rest).map (field inner :: ·)
    | none => .error position
  | c :: text => (scanFrom (position + 1) text).map (consChar c)
termination_by text => text.length
decreasing_by
  all_goals simp only [List.length_cons]
  all_goals first
    | omega
    | have := length_of_closeField _h
      omega

/-- The tokens of a template, or the position of the first brace without a partner. -/
def scan (template : List Char) : Except Nat (List Token) :=
  scanFrom 0 template

/-! ## Writing -/

/-- Text as a template that stands for it: every brace is doubled. -/
def escape (text : List Char) : List Char :=
  text.flatMap fun c => if c = '{' ∨ c = '}' then [c, c] else [c]

/-- A token as part of a template. -/
def spell : Token → List Char
  | literal text => escape text
  | field text => '{' :: text ++ ['}']

/-- Tokens as a template. -/
def spellAll (tokens : List Token) : List Char :=
  tokens.flatMap spell

/-- Whether a token is literal text. -/
def IsLiteral : Token → Prop
  | literal _ => True
  | field _ => False

/-- Braces match, nested at most `room` deep, with `opened` of them open at the start. -/
def Balanced (room : Nat) : Nat → List Char → Prop
  | opened, [] => opened = 0
  | opened, '{' :: text => opened < room ∧ Balanced room (opened + 1) text
  | opened, '}' :: text => 0 < opened ∧ Balanced room (opened - 1) text
  | opened, _ :: text => Balanced room opened text

/-- What scanning produces: no literal is empty or stands beside another, and the braces of a field
match, are nested at most once and do not stand at its front. -/
def Canonical : List Token → Prop
  | [] => True
  | literal text :: rest =>
    text ≠ [] ∧ (∀ next ∈ rest.head?, ¬ next.IsLiteral) ∧ Canonical rest
  | field text :: rest => Balanced 1 0 text ∧ text.head? ≠ some '{' ∧ Canonical rest

end Token

end Stencil
