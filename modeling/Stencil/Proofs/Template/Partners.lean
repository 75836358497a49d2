import Stencil.Proofs.Render.Concatenation

/-!
# The brace without a partner

A template that does not scan is refused for one brace, by its position. Everything in front of that
brace is a template that scans. The brace itself is a closing one that is not doubled, or an opening
one from which braces are counted until a third one is open or the text ends, with never a moment
at which all are closed.

* `Token.braceDepth` — the braces that a text opens, less those that it closes.
* `Token.StaysOpen` — a depth that never comes down to zero in a text.
* `Token.LacksPartner` — a text that starts with such a brace.
* `Token.closeField_eq_none_iff` — a field without an end, told by the depth.
* `Token.scanFrom_eq_error_iff` — what scans, and behind it a brace without a partner.
* `tokenize_lacksPartner` — so for templates, whatever comes later.
-/

namespace Stencil

namespace Token

/-! ## Depth -/

/-- The braces that a text opens, less those that it closes. -/
def braceDepth (text : List Char) : Int :=
  text.count '{' - text.count '}'

theorem braceDepth_cons (c : Char) (text : List Char) :
    braceDepth (c :: text) = braceDepth [c] + braceDepth text := by
  simp only [braceDepth, List.count_cons, List.count_nil]
  omega

/-- Counted on from a depth, no start of a text comes down to zero. -/
def StaysOpen (depth : Int) (text : List Char) : Prop :=
  ∀ front, front <+: text → depth + braceDepth front ≠ 0

/-- Counted on from a depth, some start of a text comes to three and was not down at zero before. -/
def Overfills (depth : Int) (text : List Char) : Prop :=
  ∃ front, front <+: text ∧ depth + braceDepth front = 3 ∧ StaysOpen depth front

section

variable {depth : Int} {c : Char} {text : List Char}

theorem staysOpen_nil : StaysOpen depth [] ↔ depth ≠ 0 := by
  simp [StaysOpen, braceDepth]

theorem staysOpen_cons :
    StaysOpen depth (c :: text) ↔ depth ≠ 0 ∧ StaysOpen (depth + braceDepth [c]) text := by
  constructor
  · intro h
    refine ⟨by simpa [braceDepth] using h [] List.nil_prefix, fun front hfront => ?_⟩
    have hopen := h (c :: front) ((List.prefix_cons_inj c).2 hfront)
    rwa [braceDepth_cons, ← Int.add_assoc] at hopen
  · rintro ⟨hdepth, h⟩ front hfront
    rcases List.prefix_cons_iff.1 hfront with rfl | ⟨rest, rfl, hrest⟩
    · simpa [braceDepth] using hdepth
    · rw [braceDepth_cons, ← Int.add_assoc]
      exact h rest hrest

theorem overfills_cons : Overfills depth (c :: text) ↔
    depth = 3 ∨ depth ≠ 0 ∧ Overfills (depth + braceDepth [c]) text := by
  constructor
  · rintro ⟨front, hfront, hthree, hopen⟩
    rcases List.prefix_cons_iff.1 hfront with rfl | ⟨rest, rfl, hrest⟩
    · exact .inl (by simpa [braceDepth] using hthree)
    · rw [braceDepth_cons, ← Int.add_assoc] at hthree
      obtain ⟨hdepth, hopen⟩ := staysOpen_cons.1 hopen
      exact .inr ⟨hdepth, rest, hrest, hthree, hopen⟩
  · rintro (hthree | ⟨hdepth, front, hfront, hthree, hopen⟩)
    · exact ⟨[], List.nil_prefix, by simpa [braceDepth] using hthree,
        staysOpen_nil.2 (by omega)⟩
    · refine ⟨c :: front, (List.prefix_cons_inj c).2 hfront, ?_, staysOpen_cons.2 ⟨hdepth, hopen⟩⟩
      rwa [braceDepth_cons, ← Int.add_assoc]

/-- As long as braces are open and not too many, the next character decides nothing but the depth
that is counted on from. -/
theorem overfills_or_staysOpen_cons (hzero : depth ≠ 0) (hthree : depth ≠ 3) :
    Overfills depth (c :: text) ∨ StaysOpen depth (c :: text) ↔
      Overfills (depth + braceDepth [c]) text ∨ StaysOpen (depth + braceDepth [c]) text := by
  simp only [overfills_cons, staysOpen_cons, hzero, hthree, ne_eq, not_false_eq_true, true_and,
    false_or]

theorem not_overfills_or_staysOpen_zero : ¬ (Overfills 0 text ∨ StaysOpen 0 text) := by
  rintro (⟨front, -, -, hopen⟩ | hopen)
  · exact hopen [] List.nil_prefix rfl
  · exact hopen [] List.nil_prefix rfl

theorem overfills_three (text : List Char) : Overfills 3 text :=
  ⟨[], List.nil_prefix, rfl, staysOpen_nil.2 (by decide)⟩

end

/-! ## Fields without an end -/

/-- A field with one or two braces open has no end if a third one opens before all are closed, or if
the text ends before. -/
theorem closeField_eq_none_iff {depth : Nat} (hpos : 1 ≤ depth) (hle : depth ≤ 2)
    {text : List Char} :
    closeField depth text = none ↔ Overfills depth text ∨ StaysOpen depth text := by
  have hopens : braceDepth ['{'] = 1 := by decide
  have hcloses : braceDepth ['}'] = -1 := by decide
  fun_induction closeField depth text with
  | case1 depth => exact iff_of_true rfl (.inr (staysOpen_nil.2 (by omega)))
  | case2 depth text hroom ih =>
    refine Option.map_eq_none_iff.trans ((ih (by omega) (by omega)).trans ?_)
    rw [overfills_or_staysOpen_cons (by omega) (by omega), hopens, Int.natCast_succ]
  | case3 depth text hfull =>
    -- two braces are open, so that this is the third one
    obtain rfl : depth = 2 := by omega
    refine iff_of_true rfl ((overfills_or_staysOpen_cons (by decide) (by decide)).2 (.inl ?_))
    exact overfills_three text
  | case4 depth text hlast =>
    obtain rfl : depth = 1 := by omega
    rw [overfills_or_staysOpen_cons (by decide) (by decide), hcloses]
    exact iff_of_false (Option.some_ne_none _) not_overfills_or_staysOpen_zero
  | case5 depth text hmore ih =>
    refine Option.map_eq_none_iff.trans ((ih (by omega) (by omega)).trans ?_)
    have hless : ((depth - 1 : Nat) : Int) = depth + -1 := by omega
    rw [overfills_or_staysOpen_cons (by omega) (by omega), hcloses, hless]
  | case6 depth c text hopen hclose ih =>
    refine Option.map_eq_none_iff.trans ((ih hpos hle).trans ?_)
    have hneither : braceDepth [c] = 0 := by
      simp only [braceDepth, List.count_singleton, beq_iff_eq]
      rw [if_neg hopen, if_neg hclose]
      rfl
    rw [overfills_or_staysOpen_cons (by omega) (by omega), hneither, Int.add_zero]

/-! ## The first brace without a partner -/

/-- A text that starts with a brace without a partner. It is a closing brace that is not doubled; or
an opening one that is not doubled and from which a third brace opens before all are closed,
whatever comes after that; or such a one from which all are never closed. -/
inductive LacksPartner : List Char → Prop where
  | closing {text : List Char} (hsingle : text.head? ≠ some '}') : LacksPartner ('}' :: text)
  | overfilled {text : List Char} (hsingle : text.head? ≠ some '{') (hopen : StaysOpen 1 text)
      (hthree : 1 + braceDepth text = 3) (rest : List Char) : LacksPartner ('{' :: text ++ rest)
  | unclosed {text : List Char} (hsingle : text.head? ≠ some '{') (hopen : StaysOpen 1 text) :
      LacksPartner ('{' :: text)

/-- A third brace does not open before there is text. -/
theorem ne_nil_of_overfilled {text : List Char} (h : 1 + braceDepth text = 3) : text ≠ [] := by
  rintro rfl
  simp [braceDepth] at h

theorem lacksPartner_open_iff {text : List Char} (hsingle : text.head? ≠ some '{') :
    LacksPartner ('{' :: text) ↔ closeField 1 text = none := by
  rw [closeField_eq_none_iff (Nat.le_refl 1) (by decide)]
  constructor
  · intro h
    generalize hwhole : '{' :: text = whole at h
    cases h with
    | closing _ => cases hwhole
    | @overfilled front _ hopen hthree rest =>
      obtain rfl : text = front ++ rest := (List.cons.inj hwhole).2
      exact .inl ⟨front, List.prefix_append front rest, hthree, hopen⟩
    | unclosed _ hopen =>
      obtain ⟨-, rfl⟩ := List.cons.inj hwhole
      exact .inr hopen
  · rintro (⟨front, ⟨rest, rfl⟩, hthree, hopen⟩ | hopen)
    · rw [List.head?_append_of_ne_nil front (ne_nil_of_overfilled hthree)] at hsingle
      exact .overfilled hsingle hopen hthree rest
    · exact .unclosed hsingle hopen

/-- A brace is single if the text behind it does not start with another one. -/
theorem head?_ne_iff {c : Char} {text : List Char} :
    text.head? ≠ some c ↔ ∀ rest, text ≠ c :: rest := by
  rw [ne_eq, List.head?_eq_some_iff, not_exists]

/-- A field without an end is refused where it starts. -/
theorem scanFrom_of_closeField {text : List Char} (hsingle : text.head? ≠ some '{')
    (hclose : closeField 1 text = none) (position : Nat) :
    scanFrom position ('{' :: text) = .error position := by
  rw [scanFrom]
  · split
    · rename_i heq
      rw [hclose] at heq
      cases heq
    · rfl
  · exact head?_ne_iff.1 hsingle

/-- A text that starts with a brace without a partner is refused for it at once. -/
theorem LacksPartner.scanFrom_eq {text : List Char} (h : LacksPartner text) (position : Nat) :
    scanFrom position text = .error position := by
  cases h with
  | closing hsingle =>
    rw [scanFrom]
    exact head?_ne_iff.1 hsingle
  | @overfilled front hsingle hopen hthree rest =>
    have hbehind : (front ++ rest).head? ≠ some '{' := by
      rwa [List.head?_append_of_ne_nil front (ne_nil_of_overfilled hthree)]
    exact scanFrom_of_closeField hbehind
      ((lacksPartner_open_iff hbehind).1 (.overfilled hsingle hopen hthree rest)) position
  | unclosed hsingle hopen =>
    exact scanFrom_of_closeField hsingle
      ((lacksPartner_open_iff hsingle).1 (.unclosed hsingle hopen)) position

/-- What is a template on its own. -/
def Scans (text : List Char) : Prop :=
  ∃ tokens, scan text = .ok tokens

theorem Scans.nil : Scans [] :=
  ⟨[], by rw [scan, scanFrom]⟩

theorem Scans.append {first second : List Char} (hfirst : Scans first) (hsecond : Scans second) :
    Scans (first ++ second) := by
  obtain ⟨front, hfront⟩ := hfirst
  obtain ⟨back, hback⟩ := hsecond
  exact ⟨join front back, by rw [scan_append hfront, hback]; rfl⟩

theorem Scans.escape (text : List Char) : Scans (escape text) :=
  ⟨ofText text, scan_escape text⟩

theorem Scans.field {text inner rest : List Char} (h : closeField 1 text = some (inner, rest))
    (hsingle : text.head? ≠ some '{') : Scans (spell (.field inner)) := by
  obtain ⟨rfl, hbalanced⟩ := eq_append_of_closeField h
  refine ⟨[.field inner], scan_eq_ok_iff.2 ⟨⟨hbalanced, ?_, trivial⟩, by simp [spellAll]⟩⟩
  intro hhead
  rw [List.head?_append, hhead] at hsingle
  exact hsingle rfl

/-- A text that starts at a position is a template on its own up to the found position, and a brace
without a partner stands there. -/
def RefusedAt (position found : Nat) (text : List Char) : Prop :=
  ∃ front rest, text = front ++ rest ∧ found = position + front.length ∧ Scans front ∧
    LacksPartner rest

theorem LacksPartner.refusedAt {text : List Char} (h : LacksPartner text) (position : Nat) :
    RefusedAt position position text :=
  ⟨[], text, rfl, rfl, .nil, h⟩

theorem RefusedAt.append {position found : Nat} {piece text : List Char} (hpiece : Scans piece)
    (h : RefusedAt (position + piece.length) found text) :
    RefusedAt position found (piece ++ text) := by
  obtain ⟨front, rest, rfl, rfl, hfront, hrest⟩ := h
  refine ⟨piece ++ front, rest, by rw [List.append_assoc], ?_, hpiece.append hfront, hrest⟩
  rw [List.length_append, Nat.add_assoc]

/-- Scanning is refused exactly for the first brace without a partner. -/
theorem scanFrom_eq_error_iff {position found : Nat} {text : List Char} :
    scanFrom position text = .error found ↔ RefusedAt position found text := by
  constructor
  · intro h
    fun_induction scanFrom position text with
    | case1 => cases h
    | case2 position text ih => exact .append (.escape ['{']) (ih (map_eq_error h))
    | case3 position text ih => exact .append (.escape ['}']) (ih (map_eq_error h))
    | case4 position text hdouble =>
      obtain rfl := Except.error.inj h
      exact LacksPartner.refusedAt (.closing (head?_ne_iff.2 hdouble)) position
    | case5 position text hdouble inner rest heq ih =>
      have hsingle : text.head? ≠ some '{' := head?_ne_iff.2 hdouble
      have hspell : '{' :: text = spell (.field inner) ++ rest := by
        rw [(eq_append_of_closeField heq).1, spell]
        simp
      have hlength : position + inner.length + 2 = position + (spell (.field inner)).length := by
        simp [spell, Nat.add_assoc]
      have hrest := ih (map_eq_error h)
      rw [hlength] at hrest
      rw [hspell]
      exact .append (.field heq hsingle) hrest
    | case6 position text hdouble heq =>
      obtain rfl := Except.error.inj h
      have hsingle : text.head? ≠ some '{' := head?_ne_iff.2 hdouble
      exact ((lacksPartner_open_iff hsingle).2 heq).refusedAt position
    | case7 position c text hopens hcloses hclose hopen ih =>
      have hplain : escape [c] = [c] := by
        rw [escape, List.flatMap_singleton, if_neg (not_or.2 ⟨hopen, hclose⟩)]
      have hpiece := Scans.escape [c]
      rw [hplain] at hpiece
      exact .append hpiece (ih (map_eq_error h))
  · rintro ⟨front, rest, rfl, rfl, hfront, hrest⟩
    obtain ⟨tokens, htokens⟩ := hfront
    have hpart : scanFrom position front = .ok tokens := by
      rw [← Nat.add_zero position, scanFrom_add, ← scan, htokens]
      rfl
    rw [scanFrom_append hpart, hrest.scanFrom_eq]
    rfl

end Token

/-! ## Templates -/

/-- A template is refused for a brace without a partner and for nothing else: it is the first such
brace, and what is in front of it is a template that scans. Conversely, behind a template that scans
a brace without a partner is the one the whole is refused for, whatever comes later. -/
theorem tokenize_lacksPartner :
    (∀ (template : String) (error : FormatError), tokenize template = .error error →
      ∃ position, error = .unbalancedBrace template position ∧
        (∃ tokens, tokenize (String.ofList (template.toList.take position)) = .ok tokens) ∧
        Token.LacksPartner (template.toList.drop position)) ∧
    ∀ (front : String) (tokens : List Token) (rest : List Char), tokenize front = .ok tokens →
      Token.LacksPartner rest →
      tokenize (front ++ String.ofList rest) =
        .error (.unbalancedBrace (front ++ String.ofList rest) front.length) := by
  constructor
  · intro template error h
    rw [tokenize] at h
    cases hscan : Token.scan template.toList with
    | ok tokens =>
      rw [hscan] at h
      cases h
    | error position =>
      rw [hscan] at h
      obtain rfl := Except.error.inj h
      obtain ⟨front, rest, hsplit, hposition, ⟨tokens, htokens⟩, hrest⟩ :=
        Token.scanFrom_eq_error_iff.1 hscan
      rw [Nat.zero_add] at hposition
      subst hposition
      refine ⟨front.length, rfl, ⟨tokens, ?_⟩, ?_⟩
      · rw [hsplit, List.take_left, tokenize_eq_ok_iff_scan, String.toList_ofList, htokens]
      · rwa [hsplit, List.drop_left]
  · intro front tokens rest hfront hrest
    have hscan : Token.scan (front.toList ++ rest) = .error front.toList.length :=
      Token.scanFrom_eq_error_iff.2 ⟨front.toList, rest, rfl, (Nat.zero_add _).symm,
        ⟨tokens, tokenize_eq_ok_iff_scan.1 hfront⟩, hrest⟩
    rw [tokenize, String.toList_append, String.toList_ofList, hscan, String.length_toList]
    rfl

/-- A third brace inside a field, behind a letter of two bytes and an escaped brace. -/
theorem tokenize_lacksPartner_third :
    let rest := '{' :: [':', '{', '{'] ++ ['}', '}', '}', '}']
    let template := "é\x7b\x7bx" ++ String.ofList rest
    tokenize "é\x7b\x7bx" = .ok [.literal ['é', '{', 'x']] ∧ Token.LacksPartner rest ∧
      tokenize template = .error (.unbalancedBrace template 4) ∧
      ∃ position, FormatError.unbalancedBrace template 4 = .unbalancedBrace template position ∧
        (∃ tokens, tokenize (String.ofList (template.toList.take position)) = .ok tokens) ∧
        Token.LacksPartner (template.toList.drop position) := by
  intro rest template
  have hfront : tokenize "é\x7b\x7bx" = .ok [.literal ['é', '{', 'x']] := by decide +kernel
  have hbrace : Token.LacksPartner rest := by
    refine .overfilled (by decide) ?_ (by decide) _
    simp only [Token.staysOpen_cons, Token.staysOpen_nil]
    decide
  have herror := tokenize_lacksPartner.2 _ _ _ hfront hbrace
  exact ⟨hfront, hbrace, herror, tokenize_lacksPartner.1 _ _ herror⟩

end Stencil
