import Stencil.Proofs.Render.Explicit

/-!
# Templates behind each other

The scanner looks one character ahead and counts braces, yet it never looks past the end of a
template that scans: behind such a template the next one is scanned as if it stood alone, with all
positions moved. So formatting two templates in one is formatting each and joining the texts, as
long as none of them leaves its arguments to the order.

* `Token.join` — tokens behind tokens; texts that meet become one.
* `Token.scan_append` — scanning behind a template that scans.
* `exists_compile_join` — joined tokens compile to what renders like the two parts.
* `formatWith_append` — formatting two templates in one, and where the second one is at fault.
-/

namespace Stencil

namespace Token

/-! ## Joining -/

/-- Two lists of tokens behind each other; literal texts that meet become one. -/
def join : List Token → List Token → List Token
  | [], second => second
  | [literal text], literal more :: rest => literal (text ++ more) :: rest
  | token :: rest, second => token :: join rest second

theorem join_consChar (c : Char) (first second : List Token) :
    join (consChar c first) second = consChar c (join first second) := by
  cases first with
  | nil =>
    cases second with
    | nil => rfl
    | cons token rest => cases token <;> rfl
  | cons token rest =>
    cases token with
    | field text => cases rest <;> rfl
    | literal text =>
      cases rest with
      | cons _ _ => rfl
      | nil =>
        cases second with
        | nil => rfl
        | cons token rest => cases token <;> rfl

theorem map_join_consChar (c : Char) (first : List Token) (x : Except Nat (List Token)) :
    (x.map (join first)).map (consChar c) = x.map (join (consChar c first)) := by
  cases x with
  | error position => rfl
  | ok second => simp only [Except.map, join_consChar]

theorem map_join_field (text : List Char) (first : List Token) (x : Except Nat (List Token)) :
    (x.map (join first)).map (field text :: ·) = x.map (join (field text :: first)) := by
  cases x with
  | error position => rfl
  | ok second => cases first <;> rfl

/-! ## Scanning -/

theorem closeField_append_rest {text inner rest : List Char}
    (h : closeField 1 text = some (inner, rest)) (more : List Char) :
    closeField 1 (text ++ more) = some (inner, rest ++ more) := by
  obtain ⟨rfl, hbalanced⟩ := eq_append_of_closeField h
  rw [List.append_assoc, List.cons_append]
  exact closeField_append (rest ++ more) hbalanced

/-- Behind a text that scans, what follows is scanned from its own position on. -/
theorem scanFrom_append {position : Nat} {text : List Char} {tokens : List Token}
    (h : scanFrom position text = .ok tokens) (more : List Char) :
    scanFrom position (text ++ more) =
      (scanFrom (position + text.length) more).map (join tokens) := by
  fun_induction scanFrom position text generalizing tokens with
  | case1 position =>
    obtain rfl := Except.ok.inj h
    cases hmore : scanFrom position more <;> simp [hmore, Except.map, join]
  | case2 position text ih =>
    obtain ⟨rest, hrest, rfl⟩ := map_eq_ok h
    rw [List.cons_append, List.cons_append, scanFrom, ih hrest, map_join_consChar,
      List.length_cons, List.length_cons, Nat.add_right_comm position 2, Nat.add_assoc position]
  | case3 position text ih =>
    obtain ⟨rest, hrest, rfl⟩ := map_eq_ok h
    rw [List.cons_append, List.cons_append, scanFrom, ih hrest, map_join_consChar,
      List.length_cons, List.length_cons, Nat.add_right_comm position 2, Nat.add_assoc position]
  | case4 => cases h
  | case5 position text hdouble inner rest heq ih =>
    obtain ⟨tokens, hrest, rfl⟩ := map_eq_ok h
    have hclose := closeField_append_rest heq more
    have hlength := length_of_closeField heq
    have hposition : position + inner.length + 2 + rest.length =
        position + ('{' :: text).length := by
      rw [List.length_cons]
      omega
    rw [List.cons_append, scanFrom]
    · split
      · rename_i inner' rest' hclose'
        rw [hclose] at hclose'
        obtain ⟨rfl, rfl⟩ := Prod.mk.inj (Option.some.inj hclose')
        rw [ih hrest, map_join_field, hposition]
      · rename_i hnone
        rw [hclose] at hnone
        cases hnone
    · -- a brace at the front of what follows would have to begin the field already
      intro text' htext
      cases text with
      | nil => cases heq
      | cons c text =>
        obtain ⟨rfl, -⟩ := List.cons.inj htext
        exact hdouble text rfl
  | case6 => cases h
  | case7 position c text _ _ hclose hopen ih =>
    obtain ⟨rest, hrest, rfl⟩ := map_eq_ok h
    rw [List.cons_append, scanFrom, ih hrest, map_join_consChar, List.length_cons,
      Nat.add_right_comm position 1, Nat.add_assoc position]
    · exact fun _ hc _ => hopen hc
    · exact fun _ hc _ => hclose hc
    · exact hclose
    · exact hopen

/-- From a later start, scanning gives the same tokens, and a brace without a partner stands as much
later. -/
theorem scanFrom_add (k position : Nat) (text : List Char) :
    scanFrom (k + position) text = (scanFrom position text).mapError (k + ·) := by
  have hmap {α β : Type} (f : α → β) (x : Except Nat α) :
      (x.mapError (k + ·)).map f = (x.map f).mapError (k + ·) := by
    cases x <;> rfl
  fun_induction scanFrom position text with
  | case1 position => rw [scanFrom]; rfl
  | case2 position text ih => rw [scanFrom, Nat.add_assoc, ih, hmap]
  | case3 position text ih => rw [scanFrom, Nat.add_assoc, ih, hmap]
  | case4 position text hdouble =>
    rw [scanFrom]
    · rfl
    · exact hdouble
  | case5 position text hdouble inner rest heq ih =>
    rw [scanFrom]
    · split
      · rename_i inner' rest' heq'
        rw [heq] at heq'
        obtain ⟨rfl, rfl⟩ := Prod.mk.inj (Option.some.inj heq')
        rw [Nat.add_assoc, Nat.add_assoc, ← Nat.add_assoc position, ih, hmap]
      · rename_i hnone
        rw [heq] at hnone
        cases hnone
    · exact hdouble
  | case6 position text hdouble heq =>
    rw [scanFrom]
    · split
      · rename_i heq'
        rw [heq] at heq'
        cases heq'
      · rfl
    · exact hdouble
  | case7 position c text hopens hcloses hclose hopen ih =>
    rw [scanFrom, Nat.add_assoc, ih, hmap]
    · exact hopens
    · exact hcloses
    · exact hclose
    · exact hopen

/-- Behind a template that scans, the next one scans as if it stood alone, but for its positions. -/
theorem scan_append {first : List Char} {tokens : List Token} (h : scan first = .ok tokens)
    (second : List Char) :
    scan (first ++ second) =
      ((scan second).mapError (first.length + ·)).map (join tokens) := by
  rw [scan, scanFrom_append h, Nat.add_comm 0, scanFrom_add, scan]

end Token

/-! ## Compiling -/

/-- Joined tokens compile if both parts do, to segments that render like those of the one part and
then those of the other. -/
theorem exists_compile_join {first second : List Token} {front back : Template Field}
    (hfirst : first.mapM compileToken = .ok front)
    (hsecond : second.mapM compileToken = .ok back) :
    ∃ joined, (Token.join first second).mapM compileToken = .ok joined ∧
      ∀ options args c,
        renderFrom options args c joined = renderFrom options args c (front ++ back) := by
  fun_induction Token.join first second generalizing front back with
  | case1 second =>
    obtain rfl := Except.ok.inj hfirst
    exact ⟨back, hsecond, fun _ _ _ => rfl⟩
  | case2 text more rest =>
    -- the two texts become one literal, which renders as they do one after the other
    obtain rfl : [Segment.literal (String.ofList text)] = front := Except.ok.inj hfirst
    rw [List.mapM_cons] at hsecond ⊢
    obtain ⟨segment, hsegment, hsecond⟩ := bind_eq_ok hsecond
    obtain ⟨segments, hsegments, hsecond⟩ := bind_eq_ok hsecond
    obtain rfl := Except.ok.inj hsegment
    obtain rfl := Except.ok.inj hsecond
    refine ⟨.literal (String.ofList (text ++ more)) :: segments, ?_, ?_⟩
    · rw [hsegments]
      rfl
    · intro options args c
      simp only [List.cons_append, List.nil_append, renderFrom, String.toList_ofList]
      cases renderFrom options args c segments <;> simp [bind, Except.bind, pure, Except.pure]
  | case3 second token rest hmeet ih =>
    rw [List.mapM_cons] at hfirst ⊢
    obtain ⟨segment, hsegment, hfirst⟩ := bind_eq_ok hfirst
    obtain ⟨segments, hsegments, hfirst⟩ := bind_eq_ok hfirst
    obtain rfl := Except.ok.inj hfirst
    obtain ⟨joined, hjoined, hrender⟩ := ih hsegments hsecond
    refine ⟨segment :: joined, ?_, ?_⟩
    · rw [hsegment, hjoined]
      rfl
    · intro options args c
      rw [List.cons_append]
      cases segment <;> simp only [renderFrom, hrender]

theorem tokenize_append {first : String} {tokens : List Token} (h : tokenize first = .ok tokens)
    (second : String) :
    tokenize (first ++ second) =
      ((Token.scan second.toList).mapError fun position =>
        .unbalancedBrace (first ++ second) (first.length + position)).map (Token.join tokens) := by
  have hscan := Token.scan_append (tokenize_eq_ok_iff_scan.1 h) second.toList
  rw [tokenize, String.toList_append, hscan, String.length_toList]
  cases Token.scan second.toList <;> rfl

/-! ## Formatting -/

/-- Formatting two templates in one: if neither leaves its arguments to the order, what the two give
is joined. And if the first one scans but the second one does not, the brace without a partner is
that of the second one, as far behind the first one as it stands in the second. -/
theorem formatWith_append (first second : String) :
    ((∀ compiled, compile first = .ok compiled → compiled.Explicit) →
      (∀ compiled, compile second = .ok compiled → compiled.Explicit) →
      ∀ args options a b, formatWith first args options = .ok a →
        formatWith second args options = .ok b →
        formatWith (first ++ second) args options = .ok (a ++ b)) ∧
    ∀ tokens position, tokenize first = .ok tokens →
      tokenize second = .error (.unbalancedBrace second position) →
      compile (first ++ second) =
          .error (.unbalancedBrace (first ++ second) (first.length + position)) ∧
        ∀ args options, formatWith (first ++ second) args options =
          .error (.unbalancedBrace (first ++ second) (first.length + position)) := by
  constructor
  · intro hfirst hsecond args options a b ha hb
    obtain ⟨front, hfront, ha⟩ := bind_eq_ok ha
    obtain ⟨back, hback, hb⟩ := bind_eq_ok hb
    obtain ⟨text, htext, rfl⟩ := map_eq_ok ha
    obtain ⟨more, hmore, rfl⟩ := map_eq_ok hb
    have hexplicit := hfirst front hfront
    have hagrees := (hsecond back hback).agrees options args
    obtain ⟨tokens, htokens, hfront⟩ := bind_eq_ok hfront
    obtain ⟨behind, hbehind, hback⟩ := bind_eq_ok hback
    obtain ⟨joined, hjoined, hrender⟩ := exists_compile_join hfront hback
    have hcompile : compile (first ++ second) = .ok joined := by
      rw [compile, tokenize_append htokens, tokenize_eq_ok_iff_scan.1 hbehind]
      exact hjoined
    -- the first template leaves a cursor at which the second one renders as at the start
    have hstart : Settled {} := by simp [Settled]
    obtain ⟨c, hc⟩ := exists_renders htext
    have hlater : renderFrom options args c back = .ok more := by
      rcases renderFrom_agrees hagrees (hc.settled hexplicit hstart) hstart with
        ⟨out, hout, hout'⟩ | ⟨_, _, _, herror, -⟩
      · rw [hmore] at hout'
        rw [hout, ← hout']
      · rw [hmore] at herror
        cases herror
    rw [formatWith, hcompile]
    simp only [bind, Except.bind, Template.render, hrender, renderFrom_append hc, hlater,
      Except.map, String.ofList_append]
  · intro tokens position hfirst hsecond
    have hscan : Token.scan second.toList = .error position := by
      rw [tokenize] at hsecond
      cases hscan : Token.scan second.toList with
      | ok tokens =>
        rw [hscan] at hsecond
        cases hsecond
      | error found =>
        rw [hscan] at hsecond
        cases hsecond
        rfl
    have hcompile : compile (first ++ second) =
        .error (.unbalancedBrace (first ++ second) (first.length + position)) := by
      rw [compile, tokenize_append hfirst, hscan]
      rfl
    refine ⟨hcompile, fun args options => ?_⟩
    rw [formatWith, hcompile]
    rfl

/-- Two templates that meet in escaped braces, and one that ends inside a field. -/
theorem formatWith_append_seam :
    let args : List Value := [.map [(.text "n", .int 7)], .int 4]
    formatWith "\x7b\x7b\x7b1\x7d\x7d\x7d" args {} = .ok "\x7b4\x7d" ∧
      formatWith "\x7d\x7d\x7bn:>\x7b1\x7d\x7d\x7b\x7b" args {} = .ok "\x7d   7\x7b" ∧
      formatWith ("\x7b\x7b\x7b1\x7d\x7d\x7d" ++ "\x7d\x7d\x7bn:>\x7b1\x7d\x7d\x7b\x7b") args {} =
        .ok ("\x7b4\x7d" ++ "\x7d   7\x7b") ∧
      tokenize "é\x7b\x7b\x7b0" = .error (.unbalancedBrace "é\x7b\x7b\x7b0" 3) ∧
      formatWith ("\x7b\x7b\x7b1\x7d\x7d\x7d" ++ "é\x7b\x7b\x7b0") args {} =
        .error (.unbalancedBrace ("\x7b\x7b\x7b1\x7d\x7d\x7d" ++ "é\x7b\x7b\x7b0") 10) := by
  intro args
  have hfront : compile "\x7b\x7b\x7b1\x7d\x7d\x7d" =
      .ok [.literal "\x7b", .field { raw := "1", selector := .index 1 }, .literal "\x7d"] := by
    decide +kernel
  have hback : compile "\x7d\x7d\x7bn:>\x7b1\x7d\x7d\x7b\x7b" =
      .ok [.literal "\x7d", .field {
        raw := "n:>\x7b1\x7d"
        selector := .name "n"
        element := { align := some .right, width := some (.ref (.index 1)) } },
      .literal "\x7b"] := by
    decide +kernel
  have hfirst : formatWith "\x7b\x7b\x7b1\x7d\x7d\x7d" args {} = .ok "\x7b4\x7d" := by
    decide +kernel
  have hsecond :
      formatWith "\x7d\x7d\x7bn:>\x7b1\x7d\x7d\x7b\x7b" args {} = .ok "\x7d   7\x7b" := by
    decide +kernel
  have htokens : tokenize "\x7b\x7b\x7b1\x7d\x7d\x7d" =
      .ok [.literal ['\x7b'], .field ['1'], .literal ['\x7d']] := by
    decide +kernel
  have hbroken : tokenize "é\x7b\x7b\x7b0" = .error (.unbalancedBrace "é\x7b\x7b\x7b0" 3) := by
    decide +kernel
  refine ⟨hfirst, hsecond, ?_, hbroken, ?_⟩
  · refine (formatWith_append _ _).1 ?_ ?_ args {} _ _ hfirst hsecond
    · intro compiled hcompiled
      rw [hfront] at hcompiled
      cases hcompiled
      decide
    · intro compiled hcompiled
      rw [hback] at hcompiled
      cases hcompiled
      decide
  · exact ((formatWith_append _ _).2 _ 3 htokens hbroken).2 args {}

end Stencil
