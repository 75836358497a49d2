import Stencil.Proofs.Field.References
import Stencil.Proofs.Render.Explicit
import Stencil.Proofs.Template.Compiling

/-!
# References equal numbers

Where a width or a precision is taken from an argument, the digits of that argument can be written
instead. The two ways share no code: a number goes through the grammar and the checks of its field,
a reference is looked up when the field is rendered. They come to the same wherever the numbers are
in bounds and no argument is left to the order, so that one reference less changes nothing for the
others.

* `Filling.ofArgs`, `Filling.template` — the numbers among the arguments, and a template with them
  in place of its references.
* `compile_template` — the filled template compiles to the filled fields.
* `agrees_field` — a filled field renders as the field does.
* `formatWith_template_ofArgs` — so does the whole template.
-/

namespace Stencil

/-! ## Filled templates -/

namespace Filling

/-- The numbers among the arguments, in plain decimal. -/
def ofArgs (args : List Value) : Filling := fun position =>
  (args[position]?.bind Value.word?).bind fun n =>
    if h : n < wordLimit then some (.ofNat n h) else none

/-- A token with the references of a field replaced. -/
def token (filling : Filling) : Token → Token
  | .literal text => .literal text
  | .field text => .field (filling.text text)

/-- A template with the references of its fields replaced. One whose braces do not match has no
fields. -/
def template (filling : Filling) (source : String) : String :=
  match Token.scan source.toList with
  | .ok tokens => String.ofList (Token.spellAll (tokens.map filling.token))
  | .error _ => source

variable {filling : Filling}

theorem balanced_append_iff {room opened : Nat} {front : List Char}
    (h : ∀ c ∈ front, c.isDigit = true) (rest : List Char) :
    Token.Balanced room opened (front ++ rest) ↔ Token.Balanced room opened rest := by
  induction front with
  | nil => rfl
  | cons c front ih =>
    obtain ⟨hc, hfront⟩ := List.forall_mem_cons.1 h
    rw [List.cons_append, Token.Balanced, ih hfront]
    · rintro rfl
      exact absurd hc (by decide)
    · rintro rfl
      exact absurd hc (by decide)

/-- The digits in place of a reference have no braces, and the other braces match as before. -/
theorem balanced_text {opened : Nat} {source : List Char} (h : Token.Balanced 1 opened source) :
    Token.Balanced 1 opened (filling.text source) := by
  fun_induction filling.text source generalizing opened with
  | case1 => exact h
  | case2 c tail run rest hread ih =>
    obtain ⟨s, hs, -⟩ := filling.reader_eq_some_iff.1 hread
    obtain ⟨digits, hsource, hdigits, -⟩ := Reader.exists_digits_of_reference hs
    rw [hsource] at h
    obtain ⟨hopened, h⟩ := h
    obtain rfl : opened = 0 := by omega
    rw [balanced_append_iff hdigits] at h
    rw [balanced_append_iff run.isDigit]
    exact ih h.2
  | case3 c tail hread ih =>
    by_cases hopen : c = '{'
    · subst hopen
      exact ⟨h.1, ih h.2⟩
    · by_cases hclose : c = '}'
      · subst hclose
        exact ⟨h.1, ih h.2⟩
      · rw [Token.Balanced] at h ⊢
        · exact ih h
        · exact hopen
        · exact hclose
        · exact hopen
        · exact hclose

theorem head?_text_ne_open {source : List Char} (h : source.head? ≠ some '{') :
    (filling.text source).head? ≠ some '{' := by
  rwa [head?_text]
  rintro c hc rfl
  exact h hc

theorem canonical_map_token {tokens : List Token} (h : Token.Canonical tokens) :
    Token.Canonical (tokens.map filling.token) := by
  induction tokens with
  | nil => exact h
  | cons token rest ih =>
    cases token with
    | literal text =>
      obtain ⟨hne, hfree, hrest⟩ := h
      refine ⟨hne, ?_, ih hrest⟩
      intro next hnext
      rw [List.head?_map, Option.mem_map] at hnext
      obtain ⟨source, hsource, rfl⟩ := hnext
      have hsource := hfree source hsource
      cases source with
      | literal text => exact hsource
      | field text => exact hsource
    | field text => exact ⟨balanced_text h.1, head?_text_ne_open h.2.1, ih h.2.2⟩

/-- The filled template has the filled fields. -/
theorem tokenize_filled {source : String} {tokens : List Token} (h : tokenize source = .ok tokens) :
    tokenize (filling.template source) = .ok (tokens.map filling.token) := by
  rw [tokenize_eq_ok_iff_scan] at h
  rw [template, h, tokenize_eq_ok_iff_scan, Token.scan_eq_ok_iff, String.toList_ofList]
  exact ⟨canonical_map_token (Token.scan_eq_ok_iff.1 h).1, rfl⟩

/-- The numbers that are filled into a field are in bounds: at least one for a width, and no more
than the limit anywhere. -/
structure InBounds (filling : Filling) (field : Field) : Prop where
  width : ∀ s run, .ref s ∈ field.widths → filling.lookup s = some run → 1 ≤ run.value
  count : ∀ s run, .ref s ∈ field.counts → filling.lookup s = some run → run.value ≤ maxCount

theorem mapM_compileToken_map {tokens : List Token} {compiled : Template Field}
    (h : tokens.mapM compileToken = .ok compiled) (hplain : filling.Plain)
    (hbounds : ∀ field, .field field ∈ compiled → filling.InBounds field) :
    (tokens.map filling.token).mapM compileToken =
      .ok (compiled.map (Segment.map filling.field)) := by
  induction tokens generalizing compiled with
  | nil =>
    obtain rfl := Except.ok.inj h
    rfl
  | cons token rest ih =>
    rw [List.mapM_cons] at h
    obtain ⟨segment, hsegment, h⟩ := bind_eq_ok h
    obtain ⟨segments, hsegments, h⟩ := bind_eq_ok h
    obtain rfl := Except.ok.inj h
    have hrest := ih hsegments fun field hfield => hbounds field (List.mem_cons_of_mem _ hfield)
    have hfilled : compileToken (filling.token token) = .ok (segment.map filling.field) := by
      cases token with
      | literal text =>
        obtain rfl := Except.ok.inj hsegment
        rfl
      | field text =>
        obtain ⟨field, hfield, rfl⟩ := map_eq_ok hsegment
        obtain ⟨hwidth, hcount⟩ := hbounds field List.mem_cons_self
        have hparse := parseField_text hfield hplain hwidth hcount
        rw [String.toList_ofList] at hparse
        rw [token, compileToken, hparse]
        rfl
    rw [List.map_cons, List.mapM_cons, hfilled, hrest]
    rfl

/-- The filled template compiles to the filled fields, if the numbers are in bounds. -/
theorem compile_filled {source : String} {compiled : Template Field}
    (h : compile source = .ok compiled) (hplain : filling.Plain)
    (hbounds : ∀ field, .field field ∈ compiled → filling.InBounds field) :
    compile (filling.template source) = .ok (compiled.map (Segment.map filling.field)) := by
  obtain ⟨tokens, htokens, h⟩ := bind_eq_ok h
  rw [compile, tokenize_filled htokens]
  exact mapM_compileToken_map h hplain hbounds

/-! ## Looking numbers up -/

/-- The numbers of a filling are those of the arguments. -/
def Describes (filling : Filling) (args : List Value) : Prop :=
  ∀ position run, filling position = some run →
    ∃ v, args[position]? = some v ∧ v.word? = some run.value

theorem countOf_of_word? {v : Value} {n : Nat} (h : v.word? = some n) (hn : n ≤ maxCount) :
    Picking.countOf v = .ok n := by
  rw [Picking.countOf, h]
  simp only
  rw [if_neg (Nat.not_lt.2 hn)]

/-- Looking a reference up is taking the number that replaces it, if that is no more than the
limit. -/
theorem agrees_pickCount_filled {args : List Value} (h : filling.Describes args)
    {w : Option Count} (hauto : .ref .auto ∉ w)
    (hw : ∀ s run, .ref s ∈ w → filling.lookup s = some run → run.value ≤ maxCount) :
    Agrees (Picking.pickCount args w) (Picking.pickCount args (w.map filling.count)) := by
  cases w with
  | none => exact Relates.pure none
  | some c =>
    cases c with
    | literal n => exact Relates.pure (some n)
    | ref s =>
      cases hs : filling.lookup s with
      | none =>
        rw [Option.map_some, count, hs]
        exact agrees_pickCount args hauto
      | some run =>
        have hcount : filling.count (.ref s) = .literal run.value := by
          rw [count, hs]
          rfl
        have hle : run.value ≤ maxCount := hw s run rfl hs
        obtain ⟨position, rfl, hrun⟩ := exists_position_of_lookup hs
        obtain ⟨v, hv, hword⟩ := h position run hrun
        have hpositional : Picking.positional args position = .ok v := by
          rw [Picking.positional, hv]
        intro c c' hc
        refine .inr ⟨some run.value, { c with numbering := some .manual }, c', ?_, ?_,
          by simp [Settled], hc.2⟩
        · rw [pickCount_ref, pick_index args position hc.1, hpositional]
          simp only [Except.map, Except.bind, countOf_of_word? hword hle]
        · rw [Option.map_some, hcount]
          rfl

/-- A filled field renders as the field does. -/
theorem agrees_field {args : List Value} (h : filling.Describes args) (options : Options)
    {field : Field} (hauto : .auto ∉ field.selectors) (hbounds : filling.InBounds field) :
    Agrees (field.render options args) ((filling.field field).render options args) := by
  have hcounts : .ref .auto ∉ field.counts := fun hc => hauto (mem_selectors_of_mem_counts hc)
  have hstep : ∀ w, (∀ c ∈ w, c ∈ field.counts) →
      Agrees (Picking.pickCount args w) (Picking.pickCount args (w.map filling.count)) := by
    intro w hw
    refine agrees_pickCount_filled h (fun hc => hcounts (hw _ hc)) ?_
    intro s run hs
    exact hbounds.count s run (hw _ hs)
  refine agrees_render args options (agrees_pick args fun hs => hauto ?_) ?_ ?_
  · rw [← hs]
    exact List.mem_cons_self
  · refine List.forall₂_map_right_iff.2 (List.forall₂_same.2 fun layer hlayer => ?_)
    refine Relates.bind (hstep layer.width fun c hc => ?_) fun _ => Relates.pure _
    exact List.mem_append_right _ (List.mem_filterMap.2 ⟨layer, hlayer, hc⟩)
  · refine Relates.bind (hstep field.element.width fun c hc => ?_) fun _ => ?_
    · exact List.mem_append_left _ (List.mem_append_left _ (Option.mem_toList.2 hc))
    · refine Relates.bind (hstep field.element.precision fun c hc => ?_) fun _ => Relates.pure _
      exact List.mem_append_left _ (List.mem_append_right _ (Option.mem_toList.2 hc))

/-- A template whose references are filled in renders as before: to the same text, or with a failure
of the same kind. -/
theorem sameOutcome_filled {source : String} {compiled : Template Field} {args : List Value}
    (hcompile : compile source = .ok compiled) (hplain : filling.Plain)
    (hexplicit : compiled.Explicit) (h : filling.Describes args)
    (hbounds : ∀ field, .field field ∈ compiled → filling.InBounds field) (options : Options) :
    SameOutcome (formatWith source args options)
      (formatWith (filling.template source) args options) := by
  have hagrees : List.Forall₂ (Segment.Agrees options args) compiled
      (compiled.map (Segment.map filling.field)) := by
    refine List.forall₂_map_right_iff.2 (List.forall₂_same.2 fun segment hsegment => ?_)
    cases segment with
    | literal text => exact rfl
    | field field =>
      exact agrees_field h options (hexplicit.selector_ne_auto hsegment) (hbounds field hsegment)
  have hstart : Settled {} := by simp [Settled]
  rw [formatWith, formatWith, hcompile, compile_filled hcompile hplain hbounds]
  exact (renderFrom_agrees hagrees hstart hstart).bind fun text => .inl ⟨_, rfl, rfl⟩

/-! ## The numbers among the arguments -/

theorem ofArgs_eq_some {args : List Value} {position : Nat} {run : DigitRun}
    (h : ofArgs args position = some run) :
    ∃ v, args[position]? = some v ∧ v.word? = some run.value ∧
      run.digits = Digits.decimal run.value := by
  obtain ⟨n, hn, h⟩ := Option.bind_eq_some_iff.1 h
  obtain ⟨v, hv, hword⟩ := Option.bind_eq_some_iff.1 hn
  split at h
  · rename_i hlt
    obtain rfl := Option.some.inj h
    exact ⟨v, hv, by rw [hword, DigitRun.value_ofNat], by rw [DigitRun.value_ofNat]; rfl⟩
  · simp at h

theorem describes_ofArgs (args : List Value) : (ofArgs args).Describes args := by
  intro position run h
  obtain ⟨v, hv, hword, -⟩ := ofArgs_eq_some h
  exact ⟨v, hv, hword⟩

theorem plain_ofArgs (args : List Value) : (ofArgs args).Plain := by
  intro position run h hzero
  obtain ⟨-, -, -, hdigits⟩ := ofArgs_eq_some h
  by_cases hvalue : run.value = 0
  · rw [hdigits, hvalue, Digits.decimal_eq_toDigits, Nat.toDigits_zero]
  · obtain ⟨c, rest, hc, -, hne⟩ := Reader.exists_cons_decimal hvalue
    rw [hdigits, hc] at hzero
    exact absurd (Option.some.inj hzero) hne

end Filling

/-- A position gives a whole number, in machine width or without limit. -/
def GivesInteger (args : List Value) (position : Nat) (n : Int) : Prop :=
  args[position]? = some (.int n) ∨ args[position]? = some (.big n)

theorem GivesInteger.word? {args : List Value} {position n : Nat}
    (h : GivesInteger args position n) (hn : n ≤ maxCount) :
    args[position]?.bind Value.word? = some n := by
  have hlt : n < wordLimit := Nat.lt_of_le_of_lt hn (by decide)
  rcases h with h | h
  · simp [h, Value.word?, hlt]
  · simp [h, Value.word?, hlt]

theorem GivesInteger.value_eq {args : List Value} {position n : Nat}
    (h : GivesInteger args position n) (hn : n ≤ maxCount) {run : DigitRun}
    (hrun : Filling.ofArgs args position = some run) : run.value = n := by
  obtain ⟨v, hv, hword, -⟩ := Filling.ofArgs_eq_some hrun
  have hsome := h.word? hn
  rw [hv, Option.bind_some, hword] at hsome
  exact Option.some.inj hsome

theorem GivesInteger.isSome {args : List Value} {position n : Nat}
    (h : GivesInteger args position n) (hn : n ≤ maxCount) :
    (Filling.ofArgs args position).isSome := by
  have hlt : n < wordLimit := Nat.lt_of_le_of_lt hn (by decide)
  rw [Filling.ofArgs, h.word? hn, Option.bind_some, dif_pos hlt]
  rfl

/-- Every reference of a field gives a whole number up to the limit, and those of widths a positive
one. -/
structure Field.ReferencesInBounds (field : Field) (args : List Value) : Prop where
  width : ∀ position, .ref (.index position) ∈ field.widths →
    ∃ n : Nat, GivesInteger args position n ∧ 1 ≤ n ∧ n ≤ maxCount
  precision : ∀ position, field.element.precision = some (.ref (.index position)) →
    ∃ n : Nat, GivesInteger args position n ∧ n ≤ maxCount

namespace Filling

theorem count_of_referencesInBounds {args : List Value} {field : Field}
    (h : field.ReferencesInBounds args) {position : Nat}
    (hposition : .ref (.index position) ∈ field.counts) :
    ∃ n : Nat, GivesInteger args position n ∧ n ≤ maxCount := by
  have hwidth : .ref (.index position) ∈ field.widths →
      ∃ n : Nat, GivesInteger args position n ∧ n ≤ maxCount := by
    intro hmem
    obtain ⟨n, hn, -, hle⟩ := h.width position hmem
    exact ⟨n, hn, hle⟩
  rcases List.mem_append.1 hposition with hmem | hmem
  · rcases List.mem_append.1 hmem with hmem | hmem
    · exact hwidth (List.mem_append_left _ hmem)
    · exact h.precision position (Option.mem_toList.1 hmem)
  · exact hwidth (List.mem_append_right _ hmem)

theorem inBounds_ofArgs {args : List Value} {field : Field}
    (h : field.ReferencesInBounds args) : (ofArgs args).InBounds field := by
  constructor
  · intro s run hs hrun
    obtain ⟨position, rfl, hrun⟩ := exists_position_of_lookup hrun
    obtain ⟨n, hn, hone, hle⟩ := h.width position hs
    rwa [hn.value_eq hle hrun]
  · intro s run hs hrun
    obtain ⟨position, rfl, hrun⟩ := exists_position_of_lookup hrun
    obtain ⟨n, hn, hle⟩ := count_of_referencesInBounds h hs
    rwa [hn.value_eq hle hrun]

/-- All references of an explicit field are replaced. -/
theorem isLiteral_of_mem_counts {args : List Value} {field : Field}
    (h : field.ReferencesInBounds args) (hwell : field.WellFormed) (hauto : .auto ∉ field.selectors)
    {c : Count} (hc : c ∈ ((ofArgs args).field field).counts) : ∃ n, c = .literal n := by
  rw [counts_field] at hc
  obtain ⟨d, hd, rfl⟩ := List.mem_map.1 hc
  cases d with
  | literal n => exact ⟨n, rfl⟩
  | ref s =>
    cases s with
    | auto => exact absurd (mem_selectors_of_mem_counts hd) hauto
    | name key => exact (Field.mem_counts_wellFormed hwell hd).elim
    | index position =>
      obtain ⟨n, hn, hle⟩ := count_of_referencesInBounds h hd
      obtain ⟨run, hrun⟩ := Option.isSome_iff_exists.1 (hn.isSome hle)
      exact ⟨run.value, by rw [Filling.count, lookup, hrun]; rfl⟩

end Filling

/-- The fields of a template that compiles are well-formed. -/
theorem wellFormed_of_compile {source : String} {compiled : Template Field}
    (h : compile source = .ok compiled) {field : Field} (hfield : .field field ∈ compiled) :
    field.WellFormed := by
  obtain ⟨tokens, -, h⟩ := bind_eq_ok h
  obtain ⟨raw, hraw⟩ := exists_parseField_of_mapM h hfield
  exact Field.wellFormed_of_parse (parseField_eq_ok_iff.1 hraw)

/-- References equal numbers: in a template that compiles and leaves no argument to the order, the
references of widths and precisions may be replaced by the digits of the arguments they refer to, if
those are in bounds. The template with the digits compiles and has no references left; it renders to
the same texts, and fails where the other one does with the same kind of failure. -/
theorem formatWith_filled {source : String} {compiled : Template Field} {args : List Value}
    (hcompile : compile source = .ok compiled) (hexplicit : compiled.Explicit)
    (hbounds : ∀ field, .field field ∈ compiled → field.ReferencesInBounds args) :
    (∃ filled, compile ((Filling.ofArgs args).template source) = .ok filled ∧
      ∀ field, .field field ∈ filled → ∀ count ∈ field.counts, ∃ n, count = .literal n) ∧
    ∀ options,
      (∀ text, formatWith source args options = .ok text ↔
        formatWith ((Filling.ofArgs args).template source) args options = .ok text) ∧
      ∀ e e', formatWith source args options = .error e →
        formatWith ((Filling.ofArgs args).template source) args options = .error e' →
        e.kind = e'.kind := by
  have hfillable : ∀ field, .field field ∈ compiled → (Filling.ofArgs args).InBounds field :=
    fun field hfield => Filling.inBounds_ofArgs (hbounds field hfield)
  have hfilled := Filling.compile_filled hcompile (Filling.plain_ofArgs args) hfillable
  refine ⟨⟨_, hfilled, ?_⟩, fun options => ?_⟩
  · intro field hfield count hcount
    obtain ⟨segment, hsegment, hmap⟩ := List.mem_map.1 hfield
    cases segment with
    | literal text => cases hmap
    | field origin =>
      cases hmap
      have hwell := wellFormed_of_compile hcompile hsegment
      exact Filling.isLiteral_of_mem_counts (hbounds origin hsegment) hwell
        (hexplicit.selector_ne_auto hsegment) hcount
  · have hsame := Filling.sameOutcome_filled hcompile (Filling.plain_ofArgs args) hexplicit
      (Filling.describes_ofArgs args) hfillable options
    rcases hsame with ⟨text, h, h'⟩ | ⟨e, e', h, h', hkind⟩
    · simp [h, h']
    · rw [h, h']
      refine ⟨by simp, ?_⟩
      intro f f' hf hf'
      rwa [← Except.error.inj hf, ← Except.error.inj hf']

/-- A list whose width and whose items' width are references, and a text cut to no characters. -/
theorem formatWith_filled_list :
    let args : List Value := [.list [.int 42, .int 7], .int 16, .big 4, .text "cut", .int 0]
    (Filling.ofArgs args).template "\x7b0:*^\x7b1\x7dm:0\x7b2\x7d\x7d|\x7b3:.\x7b4\x7d\x7d" =
        "\x7b0:*^16m:04\x7d|\x7b3:.0\x7d" ∧
      formatWith "\x7b0:*^\x7b1\x7dm:0\x7b2\x7d\x7d|\x7b3:.\x7b4\x7d\x7d" args {} =
        .ok "**\x7b0042, 0007\x7d**|" ∧
      formatWith "\x7b0:*^16m:04\x7d|\x7b3:.0\x7d" args {} = .ok "**\x7b0042, 0007\x7d**|" := by
  intro args
  have hcompile : compile "\x7b0:*^\x7b1\x7dm:0\x7b2\x7d\x7d|\x7b3:.\x7b4\x7d\x7d" = .ok
      [.field {
        raw := "0:*^\x7b1\x7dm:0\x7b2\x7d"
        selector := .index 0
        layers := [{
          fill := some '*'
          align := some .center
          width := some (.ref (.index 1))
          kind := .brace }]
        element := { zeroPad := true, width := some (.ref (.index 2)) } },
      .literal "|",
      .field {
        raw := "3:.\x7b4\x7d"
        selector := .index 3
        element := { precision := some (.ref (.index 4)) } }] := by
    decide +kernel
  have htext : formatWith "\x7b0:*^\x7b1\x7dm:0\x7b2\x7d\x7d|\x7b3:.\x7b4\x7d\x7d" args {} =
      .ok "**\x7b0042, 0007\x7d**|" := by
    decide +kernel
  have hfilled : (Filling.ofArgs args).template
      "\x7b0:*^\x7b1\x7dm:0\x7b2\x7d\x7d|\x7b3:.\x7b4\x7d\x7d" =
      "\x7b0:*^16m:04\x7d|\x7b3:.0\x7d" := by
    decide +kernel
  refine ⟨hfilled, htext, ?_⟩
  rw [← hfilled]
  refine (((formatWith_filled hcompile (by decide) ?_).2 {}).1 _).1 htext
  intro field hfield
  simp only [List.mem_cons, Segment.field.injEq, reduceCtorEq, List.not_mem_nil, or_false,
    false_or] at hfield
  rcases hfield with rfl | rfl
  · refine ⟨?_, by simp⟩
    intro position hposition
    simp only [Field.widths, Option.toList, List.filterMap, List.cons_append, List.nil_append,
      List.mem_cons, Count.ref.injEq, Selector.index.injEq, List.not_mem_nil, or_false] at hposition
    rcases hposition with rfl | rfl
    · exact ⟨4, .inr rfl, by decide, by decide⟩
    · exact ⟨16, .inl rfl, by decide, by decide⟩
  · refine ⟨by simp [Field.widths], ?_⟩
    intro position hposition
    simp only [Option.some.injEq, Count.ref.injEq, Selector.index.injEq] at hposition
    subst hposition
    exact ⟨0, .inl rfl, by decide⟩

end Stencil
