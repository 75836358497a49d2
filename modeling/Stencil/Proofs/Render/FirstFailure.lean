import Stencil.Proofs.Render.Concatenation
import Stencil.Proofs.Render.Mixing
import Stencil.Proofs.Template.Compiling

/-!
# The field that is to blame

A template whose braces match fails at one of its fields. Fields are read before any is rendered, so
a field that cannot be read comes first, and of several the leftmost. Otherwise it is the first
field that does not render. What stands behind that field has no part in the failure.

* `Token.upTo` — a template up to one of its fields.
* `exists_compile_upTo` — templates that are the same up to a field compile to the same segments.
* `exists_first_unrendered` — the field at fault if all fields can be read.
* `formatWith_first_failure` — which field a failure names.
-/

namespace Stencil

/-! ## Tokens up to a field -/

namespace Token

/-- A template up to the field of a text behind some tokens, the field included. -/
def upTo (before : List Token) (text : List Char) : String :=
  String.ofList (spellAll (before ++ [field text]))

theorem canonical_upTo {before after : List Token} {text : List Char}
    (h : Canonical (before ++ field text :: after)) : Canonical (before ++ [field text]) := by
  induction before with
  | nil => exact ⟨h.1, h.2.1, trivial⟩
  | cons token rest ih =>
    cases token with
    | field inner => exact ⟨h.1, h.2.1, ih h.2.2⟩
    | literal run =>
      refine ⟨h.1, ?_, ih h.2.2⟩
      cases rest with
      | nil => exact h.2.1
      | cons next rest => exact h.2.1

theorem spellAll_append_field (before : List Token) (text : List Char) (after : List Token) :
    spellAll (before ++ field text :: after) =
      spellAll before ++ '\x7b' :: text ++ '\x7d' :: spellAll after := by
  simp [spellAll, spell]

/-- A field does not merge with what comes behind it. -/
theorem join_append_field (before : List Token) (text : List Char) (second : List Token) :
    join (before ++ [field text]) second = before ++ field text :: second := by
  induction before with
  | nil => rfl
  | cons token rest ih =>
    rw [List.cons_append, List.cons_append, ← ih]
    cases rest <;> cases token <;> rfl

end Token

/-- Templates that are the same up to a field have the same tokens up to that field. -/
theorem exists_tokenize_upTo {before after : List Token} {text : List Char}
    (h : Token.Canonical (before ++ .field text :: after)) {rest : String} {tokens : List Token}
    (htokens : tokenize (Token.upTo before text ++ rest) = .ok tokens) :
    ∃ behind, tokens = before ++ .field text :: behind := by
  have hscan : Token.scan (Token.upTo before text).toList = .ok (before ++ [.field text]) :=
    Token.scan_eq_ok_iff.2 ⟨Token.canonical_upTo h, String.toList_ofList⟩
  rw [tokenize_eq_ok_iff_scan, String.toList_append, Token.scan_append hscan] at htokens
  obtain ⟨behind, -, rfl⟩ := map_eq_ok htokens
  exact ⟨behind, Token.join_append_field before text behind⟩

/-- So they compile to the same segments up to it. -/
theorem exists_compile_upTo {before after : List Token} {text : List Char} {front : Template Field}
    {field : Field} (h : Token.Canonical (before ++ .field text :: after))
    (hfront : before.mapM compileToken = .ok front)
    (hfield : parseField (String.ofList text) = .ok field) {rest : String}
    {other : Template Field} (hother : compile (Token.upTo before text ++ rest) = .ok other) :
    ∃ back, other = front ++ .field field :: back := by
  obtain ⟨tokens, htokens, hother⟩ := bind_eq_ok hother
  obtain ⟨behind, rfl⟩ := exists_tokenize_upTo h htokens
  obtain ⟨xs, ys, hxs, hys, rfl⟩ := mapM_append_eq_ok hother
  rw [List.mapM_cons, compileToken, hfield] at hys
  obtain ⟨segment, hsegment, hys⟩ := bind_eq_ok hys
  obtain ⟨back, -, hys⟩ := bind_eq_ok hys
  rw [hfront] at hxs
  obtain rfl := Except.ok.inj hxs
  obtain rfl := Except.ok.inj hsegment
  exact ⟨back, by rw [← Except.ok.inj hys]⟩

/-! ## Fields that are read -/

/-- A field that is not read is named. -/
theorem field?_of_parseField {raw : String} {e : FormatError} (h : parseField raw = .error e) :
    e.field? = some raw := by
  rw [parseField] at h
  cases hparse : Field.parse raw with
  | ok field =>
    rw [hparse] at h
    cases h
  | error fault =>
    rw [hparse] at h
    obtain rfl := Except.error.inj h
    rfl

theorem raw_of_parseField {raw : String} {field : Field} (h : parseField raw = .ok field) :
    field.raw = raw :=
  (Field.read_sound (Field.parse_eq_ok_iff.1 (parseField_eq_ok_iff.1 h)).1).1

/-! ## Failures -/

/-- Braces are all that a template can fail for as a whole. -/
theorem kind_of_tokenize {template : String} {e : FormatError}
    (h : tokenize template = .error e) : e.kind = "UnbalancedBrace" := by
  rw [tokenize] at h
  cases hscan : Token.scan template.toList with
  | ok tokens =>
    rw [hscan] at h
    cases h
  | error position =>
    rw [hscan] at h
    obtain rfl := Except.error.inj h
    rfl

theorem Renders.renderFrom_eq_ok {options : Options} {args : List Value} {c c' : Cursor}
    {front : Template Field} {text : List Char} (h : Renders options args c front text c') :
    renderFrom options args c front = .ok text := by
  have happend := renderFrom_append h []
  rw [List.append_nil] at happend
  rw [happend, renderFrom, Except.map, List.append_nil]

section Failures

variable {template : String} {args : List Value} {options : Options} {e : FormatError}

/-- If all can be read, the segments in front of the failing one render, and nothing but them
and the field decides about the failure. -/
theorem exists_first_unrendered {tokens : List Token} {segments : Template Field}
    (hcanonical : Token.Canonical tokens) (hsegments : tokens.mapM compileToken = .ok segments)
    (h : segments.render args options = .error e) :
    ∃ before text after front field back, tokens = before ++ .field text :: after ∧
      segments = front ++ .field field :: back ∧ e.field? = some (String.ofList text) ∧
      before.mapM compileToken = .ok front ∧ parseField (String.ofList text) = .ok field ∧
      (∃ out, Template.render front args options = .ok out) ∧
      ∀ rest other, compile (Token.upTo before text ++ rest) = .ok other →
        formatWith (Token.upTo before text ++ rest) args options = .error e := by
  rw [render_eq_error_iff_renderFrom] at h
  obtain ⟨front, field, back, out, c, fault, rfl, hrendered, hfield, rfl⟩ :=
    renderFrom_eq_error_iff.1 h
  obtain ⟨before, text, after, rfl, hbefore, hparse⟩ := exists_cut_at_field hsegments
  refine ⟨before, text, after, front, field, back, rfl, rfl, ?_, hbefore, hparse, ?_, ?_⟩
  · rw [raw_of_parseField hparse]
    rfl
  · exact ⟨String.ofList out, congrArg (Except.map String.ofList) hrendered.renderFrom_eq_ok⟩
  · intro rest other hother
    obtain ⟨back', rfl⟩ := exists_compile_upTo hcanonical hbefore hparse hother
    rw [formatWith, hother]
    exact render_eq_error_iff_renderFrom.2 (hrendered.field_error hfield back')

end Failures

/-- A template with matching braces fails at a field, and names the text between its braces. If some
field cannot be read, it is the leftmost of these. If all can, the segments in front of the field
render, and a template that compiles and is the same up to this field fails in the same way. -/
theorem formatWith_first_failure {template : String} {args : List Value} {options : Options}
    {e : FormatError} (h : formatWith template args options = .error e)
    (hkind : e.kind ≠ "UnbalancedBrace") :
    ∃ before text after,
      tokenize template = .ok (before ++ .field text :: after) ∧
      template.toList = Token.spellAll before ++ '\x7b' :: text ++ '\x7d' :: Token.spellAll after ∧
      e.field? = some (String.ofList text) ∧
      ((∃ refused, .field refused ∈ before ++ .field text :: after ∧ Token.Refused refused) →
        parseField (String.ofList text) = .error e ∧
          ∀ earlier, .field earlier ∈ before → ¬Token.Refused earlier) ∧
      ((∀ accepted, .field accepted ∈ before ++ .field text :: after → ¬Token.Refused accepted) →
        ∃ front field back, compile template = .ok (front ++ .field field :: back) ∧
          before.mapM compileToken = .ok front ∧ parseField (String.ofList text) = .ok field ∧
          (∃ out, Template.render front args options = .ok out) ∧
          ∀ rest other, compile (Token.upTo before text ++ rest) = .ok other →
            formatWith (Token.upTo before text ++ rest) args options = .error e) := by
  rw [formatWith] at h
  cases htokens : tokenize template with
  | error found =>
    rw [compile, htokens] at h
    obtain rfl := Except.error.inj h
    exact absurd (kind_of_tokenize htokens) hkind
  | ok tokens =>
    obtain ⟨hcanonical, hspelled⟩ := Token.scan_eq_ok_iff.1 (tokenize_eq_ok_iff_scan.1 htokens)
    have hcompile : compile template = tokens.mapM compileToken := by
      rw [compile, htokens]
      rfl
    rw [hcompile] at h
    cases hsegments : tokens.mapM compileToken with
    | error found =>
      rw [hsegments] at h
      obtain rfl := Except.error.inj h
      obtain ⟨before, text, after, rfl, hrefused, hearlier⟩ := exists_leftmost_refused hsegments
      refine ⟨before, text, after, rfl, ?_, field?_of_parseField hrefused,
        fun _ => ⟨hrefused, hearlier⟩, fun haccepted => ?_⟩
      · rw [hspelled, Token.spellAll_append_field]
      · exact absurd ⟨_, hrefused⟩ (haccepted text (by simp))
    | ok segments =>
      rw [hsegments] at h
      obtain ⟨before, text, after, front, field, back, rfl, rfl, hnamed, hfront, hfield, hrendered,
        hsame⟩ := exists_first_unrendered hcanonical hsegments h
      refine ⟨before, text, after, rfl, ?_, hnamed, ?_, fun _ =>
        ⟨front, field, back, hcompile.trans hsegments, hfront, hfield, hrendered, hsame⟩⟩
      · rw [hspelled, Token.spellAll_append_field]
      · rintro ⟨refused, hmem, hrefused⟩
        exact absurd hrefused (not_refused_of_mapM hsegments hmem)

/-- The second of three fields is at fault, whatever stands behind it. -/
theorem formatWith_first_failure_second :
    let args : List Value := [.int 7]
    let e : FormatError := .inField "0:s" (.unsupportedType .text "integer" "7")
    formatWith "a\x7b0:d\x7d\x7b0:s\x7d\x7b9\x7d" args {} = .error e ∧
      e.kind ≠ "UnbalancedBrace" ∧
      ∀ rest other, compile ("a\x7b0:d\x7d\x7b0:s\x7d" ++ rest) = .ok other →
        formatWith ("a\x7b0:d\x7d\x7b0:s\x7d" ++ rest) args {} = .error e := by
  intro args e
  have hfails : formatWith "a\x7b0:d\x7d\x7b0:s\x7d\x7b9\x7d" args {} = .error e := by
    decide +kernel
  have hkind : e.kind ≠ "UnbalancedBrace" := by decide
  have htokens : tokenize "a\x7b0:d\x7d\x7b0:s\x7d\x7b9\x7d" =
      .ok [.literal ['a'], .field "0:d".toList, .field "0:s".toList, .field "9".toList] := by
    decide +kernel
  refine ⟨hfails, hkind, ?_⟩
  obtain ⟨before, text, after, hplace, -, hnamed, -, hrendered⟩ :=
    formatWith_first_failure hfails hkind
  rw [htokens] at hplace
  obtain rfl : "0:s".toList = text := by
    rw [← String.toList_ofList (l := text), ← Option.some.inj hnamed]
  obtain ⟨rfl, rfl⟩ : before = [.literal ['a'], .field "0:d".toList] ∧
      after = [.field "9".toList] := by
    have hplace := Except.ok.inj hplace
    rcases before with _ | ⟨first, _ | ⟨second, _ | ⟨third, _ | ⟨fourth, more⟩⟩⟩⟩ <;>
      simp at hplace ⊢
    exact ⟨⟨hplace.1.symm, hplace.2.1.symm⟩, hplace.2.2.symm⟩
  have hsegments : [Token.literal ['a'], .field "0:d".toList, .field "0:s".toList,
      .field "9".toList].mapM compileToken =
        .ok [.literal "a",
          .field { raw := "0:d", selector := .index 0, element := { type := .decimal } },
          .field { raw := "0:s", selector := .index 0, element := { type := .text } },
          .field { raw := "9", selector := .index 9 }] := by
    decide +kernel
  obtain ⟨_, _, _, -, -, -, -, hsame⟩ :=
    hrendered fun _ haccepted => not_refused_of_mapM hsegments haccepted
  have hupTo : Token.upTo [.literal ['a'], .field "0:d".toList] "0:s".toList =
      "a\x7b0:d\x7d\x7b0:s\x7d" := by
    decide +kernel
  rwa [hupTo] at hsame

end Stencil
