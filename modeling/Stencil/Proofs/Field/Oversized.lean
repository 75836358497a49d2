import Mathlib.Data.List.Basic
import Stencil.Proofs.Field.References
import Stencil.Proofs.Template.Scanning

/-!
# Numbers that do not fit a machine word

A number that does not fit a machine word is not read in part: the step that comes to its digits
does not apply, and no later one takes a digit either. The digits stay behind, so the field is
refused as one that says something else. Only a fill can be a digit outside a number, and that is
one digit; only the flag `0` can be one in front of a number, and that does not change the number.

* `WordSized` — texts whose runs of digits all fit a machine word.
* `LeavesOversized` — steps that take no part of a number that does not fit.
* `wordSized_of_presentation` — what layers and an element are read from is such a text.
* `lt_wordLimit_of_presentation` — the numbers that are read all fit.
* `parseField_of_not_wordSized` — a field with a larger number behind its selector is malformed.
-/

namespace Stencil

/-- All runs of digits in a text fit a machine word. -/
def WordSized (text : List Char) : Prop :=
  ∀ digits, digits <:+: text → (∀ c ∈ digits, c.isDigit = true) →
    Reader.numberOf digits < wordLimit

namespace Reader

/-! ## Runs of digits -/

theorem numberOf_append (front digits : List Char) :
    numberOf (front ++ digits) = 10 ^ digits.length * numberOf front + numberOf digits := by
  have h (l : List Char) : numberOf l = Nat.ofDigitChars 10 l 0 := rfl
  rw [h, h, h, Nat.ofDigitChars_append, Nat.ofDigitChars_eq_ofDigitChars_zero]

/-- A part of a number is no larger than the number. -/
theorem numberOf_le_numberOf {digits run : List Char} (h : digits <:+: run) :
    numberOf digits ≤ numberOf run := by
  obtain ⟨front, rest, rfl⟩ := h
  rw [numberOf_append, numberOf_append]
  have hrest : 1 ≤ 10 ^ rest.length := Nat.one_le_pow _ _ (by decide)
  calc numberOf digits ≤ 10 ^ digits.length * numberOf front + numberOf digits :=
        Nat.le_add_left _ _
    _ ≤ 10 ^ rest.length * (10 ^ digits.length * numberOf front + numberOf digits) :=
        Nat.le_mul_of_pos_left _ hrest
    _ ≤ _ := Nat.le_add_right _ _

theorem numberOf_singleton_lt {c : Char} (h : c.isDigit = true) : numberOf [c] < wordLimit := by
  have hlt := (exists_digit_of_isDigit h).1
  have hvalue : numberOf [c] = c.toNat - '0'.toNat := Nat.zero_add _
  rw [hvalue]
  exact Nat.lt_trans hlt (by decide)

end Reader

namespace WordSized

open Reader

theorem nil : WordSized [] := by
  intro digits h _
  rw [List.infix_nil.1 h]
  decide

theorem of_suffix {text rest : List Char} (h : WordSized text) (hrest : rest <:+ text) :
    WordSized rest :=
  fun digits hdigits => h digits (hdigits.trans hrest.isInfix)

/-- In front of a character that is no digit there may be any run of digits that fits. -/
theorem run_append {run rest : List Char} (hrun : numberOf run < wordLimit)
    (hrest : ∀ c ∈ rest.head?, c.isDigit = false) (h : WordSized rest) :
    WordSized (run ++ rest) := by
  intro digits hdigits hall
  rcases List.infix_append_iff.1 hdigits with
    hfront | hbehind | ⟨front, behind, rfl, hfront, hbehind⟩
  · exact Nat.lt_of_le_of_lt (numberOf_le_numberOf hfront) hrun
  · exact h digits hbehind hall
  · -- what a run of digits takes from the rest is nothing
    have hnil : behind = [] := by
      cases behind with
      | nil => rfl
      | cons c behind =>
        obtain ⟨tail, rfl⟩ := hbehind
        have hdigit : c.isDigit = true := hall c (by simp)
        rw [hrest c rfl] at hdigit
        cases hdigit
    rw [hnil, List.append_nil]
    exact Nat.lt_of_le_of_lt (numberOf_le_numberOf hfront.isInfix) hrun

theorem cons {c : Char} (hc : c.isDigit = false) {text : List Char} (h : WordSized text) :
    WordSized (c :: text) := by
  intro digits hdigits hall
  rcases List.infix_cons_iff.1 hdigits with hfront | hbehind
  · rcases List.prefix_cons_iff.1 hfront with rfl | ⟨tail, rfl, -⟩
    · decide
    · have hdigit : c.isDigit = true := hall c List.mem_cons_self
      rw [hc] at hdigit
      cases hdigit
  · exact h digits hbehind hall

/-- A zero in front of a number does not change it. -/
theorem zero_cons {text : List Char} (h : WordSized text) : WordSized ('0' :: text) := by
  intro digits hdigits hall
  rcases List.infix_cons_iff.1 hdigits with hfront | hbehind
  · rcases List.prefix_cons_iff.1 hfront with rfl | ⟨tail, rfl, htail⟩
    · decide
    · have hvalue : numberOf ('0' :: tail) = numberOf tail := rfl
      rw [hvalue]
      exact h tail htail.isInfix fun c hc => hall c (List.mem_cons_of_mem _ hc)
  · exact h digits hbehind hall

end WordSized

namespace Reader

/-! ## Steps -/

/-- A step leaves the numbers that do not fit: where all fit in what it leaves, all did before. -/
def LeavesOversized {α : Type} (step : Reader α) : Prop :=
  ∀ text a rest, step text = some (a, rest) → WordSized rest → WordSized text

theorem leavesOversized_oneOf {α : Type} {meaning : Char → Option α}
    (h : ∀ c, startsWidth c = true → meaning c = none) : LeavesOversized (oneOf meaning) := by
  intro text a rest hstep hrest
  obtain ⟨c, rfl, hc⟩ := oneOf_eq_some hstep
  refine hrest.cons ?_
  rw [← Bool.not_eq_true]
  intro hdigit
  rw [h c (by rw [startsWidth, hdigit, Bool.true_or])] at hc
  cases hc

theorem leavesOversized_natural : LeavesOversized natural := by
  intro text n rest hstep hrest
  obtain ⟨run, -, rfl, hhead⟩ := exists_run_of_natural hstep
  exact hrest.run_append run.lt_wordLimit hhead

theorem wordSized_of_optional {α : Type} {step : Reader α} (h : LeavesOversized step)
    {text : List Char} (hrest : WordSized (optional step text).2) : WordSized text := by
  unfold optional at hrest
  split at hrest
  · rename_i a rest hstep
    exact h text a rest hstep hrest
  · exact hrest

theorem leavesOversized_reference : LeavesOversized reference := by
  intro text s rest hstep hrest
  unfold reference at hstep
  split at hstep
  · rename_i inner
    simp only at hstep
    split at hstep
    · rename_i behind hbehind
      obtain ⟨-, rfl⟩ := Prod.mk.inj (Option.some.inj hstep)
      refine WordSized.cons rfl (wordSized_of_optional leavesOversized_natural ?_)
      rw [hbehind]
      exact hrest.cons rfl
    · cases hstep
  · cases hstep

theorem leavesOversized_count : LeavesOversized count := by
  intro text c rest hstep hrest
  unfold count at hstep
  split at hstep
  · rename_i n behind hn
    obtain ⟨-, rfl⟩ := Prod.mk.inj (Option.some.inj hstep)
    exact leavesOversized_natural text n behind hn hrest
  · obtain ⟨⟨s, behind⟩, hs, hpair⟩ := Option.map_eq_some_iff.1 hstep
    obtain ⟨-, rfl⟩ := Prod.mk.inj hpair
    exact leavesOversized_reference text s behind hs hrest

theorem leavesOversized_precision : LeavesOversized precision := by
  intro text c rest hstep hrest
  unfold precision at hstep
  split at hstep
  · exact (leavesOversized_count _ c rest hstep hrest).cons rfl
  · cases hstep

/-- A fill may be a digit: with an alignment behind it, it is a run of its own. -/
theorem leavesOversized_padding {align : Char → Option Align}
    (halign : ∀ c a, align c = some a → c = a.char) : LeavesOversized (padding align) := by
  have hplain : ∀ a : Align, a.char.isDigit = false := by
    intro a
    cases a <;> rfl
  intro text p rest hstep hrest
  obtain ⟨front, rfl, hfront, -⟩ := reads_padding halign hstep
  have ha : WordSized (p.2.char :: rest) := hrest.cons (hplain p.2)
  obtain ⟨fill, a⟩ := p
  cases fill with
  | none =>
    rw [hfront]
    exact ha
  | some f =>
    rw [hfront]
    by_cases hf : f.isDigit = true
    · have hhead : ∀ c ∈ (a.char :: rest).head?, c.isDigit = false := by
        rintro c hc
        obtain rfl := Option.some.inj hc
        exact hplain a
      have hfill : WordSized ([f] ++ a.char :: rest) :=
        ha.run_append (numberOf_singleton_lt hf) hhead
      exact hfill
    · exact ha.cons (Bool.not_eq_true _ ▸ hf)

theorem wordSized_of_flag {c : Char} (hc : c.isDigit = false) {text : List Char}
    (hrest : WordSized (flag c text).2) : WordSized text := by
  cases text with
  | nil => exact hrest
  | cons d text =>
    by_cases hd : d = c
    · rw [flag, if_pos hd] at hrest
      rw [hd]
      exact hrest.cons hc
    · rwa [flag, if_neg hd] at hrest

theorem wordSized_of_zeroFlag {text : List Char} (hrest : WordSized (zeroFlag text).2) :
    WordSized text := by
  unfold zeroFlag at hrest
  split at hrest
  · split at hrest
    · exact hrest.zero_cons
    · exact hrest
  · exact hrest

/-! ## Elements and layers -/

theorem wordSized_of_element {text : List Char} (h : WordSized (element text).2) :
    WordSized text := by
  unfold element at h
  have hlocal := wordSized_of_flag rfl
    (wordSized_of_optional (leavesOversized_oneOf fun _ => type_of_startsWidth) h)
  have hprecision := wordSized_of_optional leavesOversized_precision hlocal
  have hgroup := wordSized_of_optional
    (leavesOversized_oneOf fun _ => groupSeparator_of_startsWidth) hprecision
  have hwidth := wordSized_of_zeroFlag (wordSized_of_optional leavesOversized_count hgroup)
  have hmarks := wordSized_of_flag rfl (wordSized_of_flag rfl hwidth)
  have hsign := wordSized_of_optional (leavesOversized_oneOf fun _ => sign_of_startsWidth) hmarks
  exact wordSized_of_optional (leavesOversized_padding fun _ _ => Align.ofChar?_eq_some_iff.1) hsign

theorem wordSized_of_layer {text : List Char} (h : WordSized (layer text).2) :
    WordSized text := by
  unfold layer at h
  have hkind := wordSized_of_optional (leavesOversized_oneOf fun _ => kind_of_startsWidth) h
  have hwidth := wordSized_of_optional leavesOversized_count hkind
  refine wordSized_of_optional (leavesOversized_padding ?_) hwidth
  exact fun _ _ ha => Align.ofChar?_eq_some_iff.1 (ofChar?_of_containerAlign ha).1

/-- All numbers fit in a text that is read as layers and an element. -/
theorem wordSized_of_presentation {text : List Char} {layers : List (Layer Count)}
    {e : Element Count} (h : presentation text = .ok (layers, e)) : WordSized text := by
  fun_induction presentation text generalizing layers with
  | case1 text last hlast =>
    refine wordSized_of_element ?_
    rw [hlast]
    exact .nil
  | case2 text _ unused _ _ first rest hfirst ih =>
    obtain ⟨inner, hrest, hpair⟩ := map_eq_ok h
    obtain ⟨rfl, rfl⟩ := Prod.mk.inj hpair
    refine wordSized_of_layer ?_
    rw [hfirst]
    exact (ih hrest).cons rfl
  | case3 => cases h

/-! ## Numbers that are read -/

theorem lt_wordLimit_of_count {text rest : List Char} {n : Nat}
    (h : count text = some (.literal n, rest)) : n < wordLimit := by
  unfold count at h
  split at h
  · rename_i m behind hm
    obtain ⟨run, rfl, -⟩ := exists_run_of_natural hm
    cases h
    exact run.lt_wordLimit
  · obtain ⟨⟨s, behind⟩, -, hpair⟩ := Option.map_eq_some_iff.1 h
    cases hpair

theorem lt_wordLimit_of_optional_count {text : List Char} {n : Nat}
    (h : .literal n ∈ (optional count text).1) : n < wordLimit := by
  unfold optional at h
  split at h
  · rename_i c rest hc
    obtain rfl := Option.some.inj h
    exact lt_wordLimit_of_count hc
  · cases h

theorem lt_wordLimit_of_optional_precision {text : List Char} {n : Nat}
    (h : .literal n ∈ (optional precision text).1) : n < wordLimit := by
  unfold optional precision at h
  split at h
  · rename_i c rest hc
    obtain rfl := Option.some.inj h
    split at hc
    · exact lt_wordLimit_of_count hc
    · cases hc
  · cases h

/-- All numbers of a presentation fit a machine word. -/
theorem lt_wordLimit_of_presentation {text : List Char} {layers : List (Layer Count)}
    {e : Element Count} (h : presentation text = .ok (layers, e)) {n : Nat}
    (hn : .literal n ∈ e.width ∨ .literal n ∈ e.precision ∨ ∃ l ∈ layers, .literal n ∈ l.width) :
    n < wordLimit := by
  fun_induction presentation text generalizing layers with
  | case1 text last hlast =>
    obtain ⟨rfl, rfl⟩ := Prod.mk.inj (Except.ok.inj h)
    have helement : (element text).1 = last := by rw [hlast]
    subst helement
    rcases hn with hn | hn | ⟨l, hl, -⟩
    · exact lt_wordLimit_of_optional_count hn
    · exact lt_wordLimit_of_optional_precision hn
    · cases hl
  | case2 text _ unused _ _ first rest hfirst ih =>
    obtain ⟨inner, hrest, hpair⟩ := map_eq_ok h
    obtain ⟨rfl, rfl⟩ := Prod.mk.inj hpair
    rcases hn with hn | hn | ⟨l, hl, hn⟩
    · exact ih hrest (.inl hn)
    · exact ih hrest (.inr (.inl hn))
    · rcases List.mem_cons.1 hl with rfl | hl
      · have hlayer : (layer text).1 = l := by rw [hfirst]
        subst hlayer
        exact lt_wordLimit_of_optional_count hn
      · exact ih hrest (.inr (.inr ⟨l, hl, hn⟩))
  | case3 => cases h

/-! ## The whole field -/

theorem suffix_dropWhile {p : Char → Bool} (hp : p ':' = false) {text spec : List Char}
    (h : ':' :: spec <:+ text) : ':' :: spec <:+ text.dropWhile p := by
  induction text with
  | nil => exact h
  | cons c text ih =>
    cases hc : p c with
    | false => rwa [List.dropWhile_cons, hc]
    | true =>
      rw [List.dropWhile_cons, hc, if_pos rfl]
      rcases List.suffix_cons_iff.1 h with heq | htail
      · rw [← (List.cons.inj heq).1, hp] at hc
        cases hc
      · exact ih htail

/-- A selector ends in front of the first colon. -/
theorem suffix_selector {text spec : List Char} (h : ':' :: spec <:+ text) :
    ':' :: spec <:+ (selector text).2 := by
  unfold selector
  split
  · rename_i n rest hn
    unfold natural at hn
    simp only at hn
    split at hn
    · obtain ⟨-, rfl⟩ := Prod.mk.inj (Option.some.inj hn)
      exact suffix_dropWhile rfl h
    · cases hn
  · split
    · rename_i key rest hname
      cases text with
      | nil => cases hname
      | cons c text =>
        rw [name] at hname
        split at hname
        · rename_i hc
          obtain ⟨-, rfl⟩ := Prod.mk.inj (Option.some.inj hname)
          rcases List.suffix_cons_iff.1 h with heq | htail
          · rw [← (List.cons.inj heq).1] at hc
            exact absurd hc (by decide)
          · exact suffix_dropWhile (by decide) htail
        · cases hname
    · exact h

end Reader

/-- All numbers fit behind the selector of a field that can be read. -/
theorem Field.wordSized_of_read {raw : String} {field : Field} (h : read raw = .ok field)
    {spec : List Char} (hspec : ':' :: spec <:+ raw.toList) : WordSized spec := by
  have hrest := Reader.suffix_selector hspec
  unfold read at h
  split at h
  · rename_i s hs
    rw [hs] at hrest
    cases List.suffix_nil.1 hrest
  · rename_i s text hs
    rw [hs] at hrest
    split at h
    · rename_i hpresentation
      refine (Reader.wordSized_of_presentation hpresentation).of_suffix ?_
      rcases List.suffix_cons_iff.1 hrest with heq | htail
      · rw [(List.cons.inj heq).2]
      · exact (List.suffix_cons _ _).trans htail
    · cases h
  · cases h

theorem Field.lt_wordLimit_of_read {raw : String} {field : Field} (h : read raw = .ok field)
    {n : Nat} (hn : .literal n ∈ field.counts) : n < wordLimit := by
  simp only [counts, List.mem_append, Option.mem_toList, List.mem_filterMap] at hn
  unfold read at h
  split at h
  · obtain rfl := Except.ok.inj h
    simp at hn
  · split at h
    · rename_i hpresentation
      obtain rfl := Except.ok.inj h
      exact Reader.lt_wordLimit_of_presentation hpresentation (or_assoc.1 hn)
    · cases h
  · cases h

theorem Field.exists_malformed_of_read {raw : String} {fault : Fault}
    (h : read raw = .error fault) : ∃ reason, fault = .malformed reason := by
  unfold read at h
  split at h
  · cases h
  · split at h
    · cases h
    · exact ⟨_, (Except.error.inj h).symm⟩
  · exact ⟨_, (Except.error.inj h).symm⟩

/-- A field is malformed if a number behind its selector does not fit a machine word, wherever that
number stands. -/
theorem parseField_of_not_wordSized {raw : String} {spec : List Char}
    (hspec : ':' :: spec <:+ raw.toList) (hlarge : ¬ WordSized spec) :
    ∃ reason, parseField raw = .error (.inField raw (.malformed reason)) := by
  rw [parseField, Field.parse]
  cases hread : Field.read raw with
  | ok field => exact absurd (Field.wordSized_of_read hread hspec) hlarge
  | error fault =>
    obtain ⟨reason, rfl⟩ := Field.exists_malformed_of_read hread
    exact ⟨reason, rfl⟩

end Stencil
