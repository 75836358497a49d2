import Mathlib.Data.List.Basic
import Stencil.Render.Template

/-!
# Scanning and spelling are inverse

Cutting a template into tokens loses nothing and adds nothing: the canonical lists of tokens are
exactly those that scanning produces, and each of them comes from its own spelling alone.

* `closeField_append`, `eq_append_of_closeField` — a field ends at the brace that closes it, and
  what is in front of that brace is balanced.
* `scanFrom_spellAll` — scanning the spelling of a canonical list gives the list back.
* `canonical_and_spellAll_of_scanFrom` — what scanning gives is canonical, and spells the text that
  was scanned.
* `scan_eq_ok_iff` — both directions in one.
* `formatWith_of_scan_literal` — a template without fields is formatted as its text.
-/

namespace Stencil

theorem map_eq_ok {ε α β : Type} {f : α → β} {x : Except ε α} {b : β} (h : x.map f = .ok b) :
    ∃ a, x = .ok a ∧ f a = b := by
  cases x with
  | error e => simp [Except.map] at h
  | ok a => exact ⟨a, rfl, Except.ok.inj h⟩

theorem map_eq_error {ε α β : Type} {f : α → β} {x : Except ε α} {e : ε}
    (h : x.map f = .error e) : x = .error e := by
  cases x with
  | error found => exact congrArg Except.error (Except.error.inj h)
  | ok a => cases h

theorem bind_eq_ok {ε α β : Type} {x : Except ε α} {f : α → Except ε β} {b : β}
    (h : x >>= f = .ok b) : ∃ a, x = .ok a ∧ f a = .ok b := by
  cases x with
  | error e => cases h
  | ok a => exact ⟨a, rfl, h⟩

namespace Token

/-! ## The text of a field -/

/-- A balanced text is cut off at the brace behind it. -/
theorem closeField_append {opened : Nat} {inner : List Char} (rest : List Char)
    (h : Balanced 1 opened inner) :
    closeField (opened + 1) (inner ++ '}' :: rest) = some (inner, rest) := by
  fun_induction Balanced 1 opened inner with
  | case1 opened =>
    subst h
    rfl
  | case2 opened text ih =>
    have hd : opened + 1 < 2 := by omega
    rw [List.cons_append, closeField, if_pos hd, ih h.2]
    rfl
  | case3 opened text ih =>
    obtain ⟨hpos, hb⟩ := h
    have hd : ¬ opened + 1 ≤ 1 := by omega
    have hs : opened - 1 + 1 = opened := by omega
    have ih := ih hb
    rw [hs] at ih
    rw [List.cons_append, closeField, if_neg hd, Nat.add_sub_cancel, ih]
    rfl
  | case4 opened c text hopen hclose ih =>
    rw [List.cons_append, closeField, ih h]
    · rfl
    · exact hopen
    · exact hclose

/-- What is cut off is balanced, and a closing brace stands behind it. -/
theorem eq_append_of_closeField {opened : Nat} {text inner rest : List Char}
    (h : closeField (opened + 1) text = some (inner, rest)) :
    text = inner ++ '}' :: rest ∧ Balanced 1 opened inner := by
  induction text generalizing opened inner with
  | nil => simp [closeField] at h
  | cons c text ih =>
    by_cases hopen : c = '{'
    · subst hopen
      rw [closeField] at h
      split at h
      · rename_i hd
        obtain ⟨⟨f, r⟩, heq, hmk⟩ := Option.map_eq_some_iff.1 h
        obtain ⟨rfl, rfl⟩ := Prod.mk.inj hmk
        obtain ⟨ht, hb⟩ := ih heq
        exact ⟨by rw [ht, List.cons_append], by omega, hb⟩
      · simp at h
    · by_cases hclose : c = '}'
      · subst hclose
        rw [closeField] at h
        split at h
        · rename_i hd
          obtain ⟨rfl, rfl⟩ := Prod.mk.inj (Option.some.inj h)
          exact ⟨rfl, by simp [Balanced]; omega⟩
        · rename_i hd
          obtain ⟨⟨f, r⟩, heq, hmk⟩ := Option.map_eq_some_iff.1 h
          obtain ⟨rfl, rfl⟩ := Prod.mk.inj hmk
          have hs : opened + 1 - 1 = opened - 1 + 1 := by omega
          rw [hs] at heq
          obtain ⟨ht, hb⟩ := ih heq
          exact ⟨by rw [ht, List.cons_append], by omega, hb⟩
      · rw [closeField] at h
        · obtain ⟨⟨f, r⟩, heq, hmk⟩ := Option.map_eq_some_iff.1 h
          obtain ⟨rfl, rfl⟩ := Prod.mk.inj hmk
          obtain ⟨ht, hb⟩ := ih heq
          refine ⟨by rw [ht, List.cons_append], ?_⟩
          rw [Balanced]
          · exact hb
          · exact hopen
          · exact hclose
        · exact hopen
        · exact hclose

/-! ## Text and tokens -/

theorem consChar_eq (c : Char) {tokens : List Token} (h : ∀ next ∈ tokens.head?, ¬ next.IsLiteral) :
    consChar c tokens = literal [c] :: tokens := by
  cases tokens with
  | nil => rfl
  | cons t rest =>
    cases t with
    | literal text => exact absurd trivial (h (literal text) rfl)
    | field text => rfl

theorem scanFrom_escape_cons (position : Nat) (c : Char) (text : List Char) :
    ∃ next, scanFrom position (escape [c] ++ text) = (scanFrom next text).map (consChar c) := by
  by_cases hopen : c = '{'
  · subst hopen
    exact ⟨position + 2, by rw [scanFrom.eq_def]; rfl⟩
  · by_cases hclose : c = '}'
    · subst hclose
      exact ⟨position + 2, by rw [scanFrom.eq_def]; rfl⟩
    · refine ⟨position + 1, ?_⟩
      have he : escape [c] = [c] := by simp [escape, hopen, hclose]
      rw [he, List.singleton_append, scanFrom]
      all_goals simp [hopen, hclose]

/-- A run of text in front of tokens that do not start with text becomes one literal. -/
theorem scanFrom_escape_append (position : Nat) {text : List Char} (hne : text ≠ [])
    (rest : List Char) {tokens : List Token} (hfree : ∀ next ∈ tokens.head?, ¬ next.IsLiteral)
    (h : ∀ position, scanFrom position rest = .ok tokens) :
    scanFrom position (escape text ++ rest) = .ok (literal text :: tokens) := by
  induction text generalizing position with
  | nil => exact absurd rfl hne
  | cons c text ih =>
    have hsplit : escape (c :: text) ++ rest = escape [c] ++ (escape text ++ rest) := by
      simp [escape]
    obtain ⟨next, hnext⟩ := scanFrom_escape_cons position c (escape text ++ rest)
    rw [hsplit, hnext]
    cases text with
    | nil =>
      rw [show escape [] ++ rest = rest from rfl, h next, Except.map, consChar_eq c hfree]
    | cons d text =>
      rw [ih next (by simp), Except.map, consChar]

theorem scanFrom_field (position : Nat) {inner : List Char} (rest : List Char)
    (hb : Balanced 1 0 inner) (hhead : inner.head? ≠ some '{') :
    ∃ next, scanFrom position (spell (field inner) ++ rest) =
      (scanFrom next rest).map (field inner :: ·) := by
  have hclose : closeField 1 (inner ++ '}' :: rest) = some (inner, rest) :=
    closeField_append rest hb
  refine ⟨position + inner.length + 2, ?_⟩
  have hs : spell (field inner) ++ rest = '{' :: (inner ++ '}' :: rest) := by simp [spell]
  rw [hs, scanFrom]
  · split
    · rename_i f r heq
      rw [hclose] at heq
      obtain ⟨rfl, rfl⟩ := Prod.mk.inj (Option.some.inj heq)
      rfl
    · rename_i heq
      rw [hclose] at heq
      simp at heq
  · -- a doubled brace would have to begin the field
    intro text htext
    cases inner with
    | nil => simp at htext
    | cons c inner =>
      obtain ⟨rfl, -⟩ := List.cons.inj htext
      exact hhead rfl

/-- Scanning the spelling of a canonical list of tokens gives the list back. -/
theorem scanFrom_spellAll {tokens : List Token} (h : Canonical tokens) (position : Nat) :
    scanFrom position (spellAll tokens) = .ok tokens := by
  induction tokens generalizing position with
  | nil =>
    rw [spellAll, List.flatMap_nil, scanFrom]
  | cons token tokens ih =>
    rw [spellAll, List.flatMap_cons, ← spellAll]
    cases token with
    | literal text =>
      obtain ⟨hne, hfree, hrest⟩ := h
      exact scanFrom_escape_append position hne _ hfree fun next => ih hrest next
    | field inner =>
      obtain ⟨hb, hhead, hrest⟩ := h
      obtain ⟨next, hnext⟩ := scanFrom_field position (spellAll tokens) hb hhead
      rw [hnext, ih hrest next]
      rfl

/-! ## What scanning gives -/

theorem canonical_consChar (c : Char) {tokens : List Token} (h : Canonical tokens) :
    Canonical (consChar c tokens) := by
  cases tokens with
  | nil => exact ⟨by simp, by simp, trivial⟩
  | cons t rest =>
    cases t with
    | literal text => exact ⟨by simp, h.2.1, h.2.2⟩
    | field text =>
      refine ⟨by simp, ?_, h⟩
      intro next hnext
      obtain rfl := Option.some.inj hnext
      exact not_false

theorem spellAll_consChar (c : Char) (tokens : List Token) :
    spellAll (consChar c tokens) = escape [c] ++ spellAll tokens := by
  cases tokens with
  | nil => simp [consChar, spellAll, spell]
  | cons t rest =>
    cases t with
    | literal text => simp [consChar, spellAll, spell, escape]
    | field text => simp [consChar, spellAll, spell]

/-- What scanning gives is canonical and spells the text that was scanned. -/
theorem canonical_and_spellAll_of_scanFrom {position : Nat} {text : List Char}
    {tokens : List Token} (h : scanFrom position text = .ok tokens) :
    Canonical tokens ∧ spellAll tokens = text := by
  fun_induction scanFrom position text generalizing tokens with
  | case1 =>
    obtain rfl := Except.ok.inj h
    exact ⟨trivial, rfl⟩
  | case2 position text ih =>
    obtain ⟨ts, hts, rfl⟩ := map_eq_ok h
    obtain ⟨hc, hs⟩ := ih hts
    exact ⟨canonical_consChar _ hc, by rw [spellAll_consChar, hs]; rfl⟩
  | case3 position text ih =>
    obtain ⟨ts, hts, rfl⟩ := map_eq_ok h
    obtain ⟨hc, hs⟩ := ih hts
    exact ⟨canonical_consChar _ hc, by rw [spellAll_consChar, hs]; rfl⟩
  | case4 => simp at h
  | case5 position text hdouble inner rest heq ih =>
    obtain ⟨ts, hts, rfl⟩ := map_eq_ok h
    obtain ⟨hc, hs⟩ := ih hts
    obtain ⟨htext, hb⟩ := eq_append_of_closeField heq
    refine ⟨⟨hb, ?_, hc⟩, ?_⟩
    · intro hhead
      obtain ⟨tail, rfl⟩ := List.head?_eq_some_iff.1 hhead
      exact hdouble _ htext
    · rw [spellAll, List.flatMap_cons, ← spellAll, hs, htext, spell]
      simp
  | case6 => simp at h
  | case7 position c text hopen hclose _ _ ih =>
    obtain ⟨ts, hts, rfl⟩ := map_eq_ok h
    obtain ⟨hc, hs⟩ := ih hts
    refine ⟨canonical_consChar _ hc, ?_⟩
    rw [spellAll_consChar, hs]
    simp_all [escape]

/-- Scanning succeeds exactly on the spellings of canonical lists, and gives the list that is
spelled. -/
theorem scan_eq_ok_iff {template : List Char} {tokens : List Token} :
    scan template = .ok tokens ↔ Canonical tokens ∧ template = spellAll tokens := by
  constructor
  · intro h
    obtain ⟨hc, hs⟩ := canonical_and_spellAll_of_scanFrom h
    exact ⟨hc, hs.symm⟩
  · rintro ⟨hc, rfl⟩
    exact scanFrom_spellAll hc 0

/-- The tokens of an escaped text: the text itself, unless it is empty. -/
def ofText (text : List Char) : List Token :=
  if text = [] then [] else [literal text]

theorem scan_escape (text : List Char) : scan (escape text) = .ok (ofText text) := by
  rw [scan_eq_ok_iff, ofText]
  by_cases h : text = []
  · subst h
    exact ⟨trivial, rfl⟩
  · rw [if_neg h]
    refine ⟨⟨h, by simp, trivial⟩, ?_⟩
    rw [spellAll, List.flatMap_singleton, spell]

end Token

/-! ## Templates -/

theorem tokenize_eq_ok_iff_scan {template : String} {tokens : List Token} :
    tokenize template = .ok tokens ↔ Token.scan template.toList = .ok tokens := by
  rw [tokenize]
  cases Token.scan template.toList with
  | error position => simp [Except.mapError]
  | ok result => simp [Except.mapError]

theorem formatWith_of_scan_literal {template : String} {text : List Char}
    (h : tokenize template = .ok (Token.ofText text)) (args : List Value) (options : Options) :
    formatWith template args options = .ok (String.ofList text) := by
  rw [formatWith, compile, h, Token.ofText]
  by_cases ht : text = []
  · subst ht
    rfl
  · rw [if_neg ht]
    simp [bind, Except.bind, compileToken, Template.render, renderFrom, Except.map, pure,
      Except.pure]

/-- Scanning is a bijection between the templates that scan and the canonical lists of tokens, and
an escaped text is a template of that text. -/
theorem tokenize_eq_ok_iff_spellAll :
    (∀ (template : String) (tokens : List Token), tokenize template = .ok tokens ↔
      Token.Canonical tokens ∧ template = String.ofList (Token.spellAll tokens)) ∧
    ∀ (text : String) (args : List Value) (options : Options),
      formatWith (String.ofList (Token.escape text.toList)) args options = .ok text := by
  constructor
  · intro template tokens
    rw [tokenize_eq_ok_iff_scan, Token.scan_eq_ok_iff, ← String.toList_inj,
      String.toList_ofList]
  · intro text args options
    have h : tokenize (String.ofList (Token.escape text.toList)) =
        .ok (Token.ofText text.toList) := by
      rw [tokenize_eq_ok_iff_scan, String.toList_ofList]
      exact Token.scan_escape text.toList
    rw [formatWith_of_scan_literal h, String.ofList_toList]

end Stencil
