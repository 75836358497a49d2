import Mathlib.Data.List.Basic
import Stencil.Proofs.Field.Grammar

/-!
# Numbers in place of references

A width or precision can be given by a number or by a reference to an argument, and the two can
stand in the same places: digits written over a reference are read as a number there, and everything
around them is read as before. A digit in front of the first specifier could be taken for a fill and
a zero in front of a width for the flag `0`; the first needs an alignment behind the reference,
which no field has, and the second does not change the number.

* `DigitRun`, `Filling` — numbers as they are written, and which references they replace.
* `Filling.text` — a text with the references replaced; `Filling.field` — a field likewise.
* `optional_count_text`, `element_text`, `layer_text` — reading a part of the filled text.
* `presentation_text`, `read_text` — all of them, and the whole field.
* `parseField_text`, `check_only` — the filled field with its checks, for numbers in bounds and for
  one that is not.
-/

namespace Stencil

/-! ## Numbers as they are written -/

/-- A number as it is written: decimal digits, with or without zeros in front, that fit a machine
word. -/
structure DigitRun where
  digits : List Char
  ne_nil : digits ≠ []
  isDigit : ∀ c ∈ digits, c.isDigit = true
  lt_wordLimit : Reader.numberOf digits < wordLimit

namespace DigitRun

/-- The number a run denotes. -/
def value (run : DigitRun) : Nat :=
  Reader.numberOf run.digits

/-- A number in plain decimal. -/
def ofNat (n : Nat) (h : n < wordLimit) : DigitRun where
  digits := Digits.decimal n
  ne_nil := Reader.decimal_ne_nil n
  isDigit _ hc := Reader.isDigit_of_mem_decimal hc
  lt_wordLimit := by rwa [Reader.numberOf_decimal]

@[simp]
theorem value_ofNat (n : Nat) (h : n < wordLimit) : (ofNat n h).value = n :=
  Reader.numberOf_decimal n

end DigitRun

/-- The numbers that replace the references to some positions. -/
abbrev Filling := Nat → Option DigitRun

namespace Reader

/-! ## Numbers and references in front of a rest -/

theorem natural_append (run : DigitRun) {rest : List Char}
    (hr : ∀ c ∈ rest.head?, c.isDigit = false) :
    natural (run.digits ++ rest) = some (run.value, rest) := by
  obtain ⟨htake, hdrop⟩ := takeWhile_append_of_all _ _ run.isDigit hr
  unfold natural
  rw [htake, hdrop]
  simp only
  rw [if_pos ⟨run.ne_nil, run.lt_wordLimit⟩]
  rfl

/-- A number that has been read stands in front of something that is no digit. -/
theorem exists_run_of_natural {text rest : List Char} {n : Nat}
    (h : natural text = some (n, rest)) :
    ∃ run : DigitRun, run.value = n ∧ text = run.digits ++ rest ∧
      ∀ c ∈ rest.head?, c.isDigit = false := by
  unfold natural at h
  simp only at h
  split at h
  · rename_i hcond
    obtain ⟨rfl, rfl⟩ := Prod.mk.inj (Option.some.inj h)
    refine ⟨⟨text.takeWhile Char.isDigit, hcond.1, fun _ => List.mem_takeWhile_imp, hcond.2⟩, rfl,
      (List.takeWhile_append_dropWhile).symm, ?_⟩
    intro c hc
    obtain ⟨tail, htail⟩ := List.head?_eq_some_iff.1 hc
    have hfirst := List.head_dropWhile_not Char.isDigit (l := text) (by simp [htail])
    simpa [htail] using hfirst
  · simp at h

/-- A reference is digits between braces, and it is read in front of any other rest as well. -/
theorem exists_digits_of_reference {text rest : List Char} {s : Selector}
    (h : reference text = some (s, rest)) :
    ∃ digits, text = '{' :: (digits ++ '}' :: rest) ∧ (∀ c ∈ digits, c.isDigit = true) ∧
      ∀ other, reference ('{' :: (digits ++ '}' :: other)) = some (s, other) := by
  unfold reference at h
  split at h
  · rename_i inner
    cases hn : natural inner with
    | some result =>
      obtain ⟨n, behind⟩ := result
      obtain ⟨run, rfl, rfl, -⟩ := exists_run_of_natural hn
      simp only [optional, hn] at h
      split at h
      · rename_i tail
        obtain ⟨rfl, rfl⟩ := Prod.mk.inj (Option.some.inj h)
        refine ⟨run.digits, rfl, run.isDigit, fun other => ?_⟩
        rw [reference, optional, natural_append run (by simp)]
        rfl
      · simp at h
    | none =>
      simp only [optional, hn] at h
      split at h
      · rename_i tail
        obtain ⟨rfl, rfl⟩ := Prod.mk.inj (Option.some.inj h)
        refine ⟨[], rfl, by simp, fun other => ?_⟩
        rw [List.nil_append, reference, optional, natural_eq_none (by simp)]
        rfl
      · simp at h
  · simp at h

end Reader

namespace Filling

variable (filling : Filling)

/-! ## Replacing references -/

/-- The number that replaces a reference. -/
def lookup : Selector → Option DigitRun
  | .index position => filling position
  | _ => none

theorem exists_position_of_lookup {filling : Filling} {s : Selector} {run : DigitRun}
    (h : filling.lookup s = some run) : ∃ position, s = .index position ∧
      filling position = some run := by
  cases s with
  | auto => simp [lookup] at h
  | index position => exact ⟨position, rfl, h⟩
  | name key => simp [lookup] at h

/-- A reference that is replaced. -/
def reader : Reader DigitRun := fun text =>
  (Reader.reference text).bind fun (selector, rest) => (filling.lookup selector).map (·, rest)

theorem reader_eq_some_iff {text rest : List Char} {run : DigitRun} :
    filling.reader text = some (run, rest) ↔
      ∃ s, Reader.reference text = some (s, rest) ∧ filling.lookup s = some run := by
  simp [reader, Option.bind_eq_some_iff]

theorem length_lt_of_reader {text rest : List Char} {run : DigitRun}
    (h : filling.reader text = some (run, rest)) : rest.length < text.length := by
  obtain ⟨s, hs, -⟩ := filling.reader_eq_some_iff.1 h
  obtain ⟨digits, rfl, -⟩ := Reader.exists_digits_of_reference hs
  simp only [List.length_cons, List.length_append]
  omega

/-- A text with the digits of the filling in place of the references. -/
def text : List Char → List Char
  | [] => []
  | c :: tail =>
    match _h : filling.reader (c :: tail) with
    | some (run, rest) => run.digits ++ text rest
    | none => c :: text tail
termination_by source => source.length
decreasing_by
  · exact filling.length_lt_of_reader _h
  · simp

/-- A count with the number of the filling in place of a reference. -/
def count : Count → Count
  | .literal n => .literal n
  | .ref selector => (filling.lookup selector).elim (.ref selector) fun run => .literal run.value

/-- A layer with its width filled in. -/
def layer (layer : Layer Count) : Layer Count :=
  { layer with width := layer.width.map filling.count }

/-- An element with its width and precision filled in. -/
def element (element : Element Count) : Element Count :=
  { element with
    width := element.width.map filling.count
    precision := element.precision.map filling.count }

/-- A field with the numbers of the filling in place of its references, in its text as well. -/
def field (field : Field) : Field :=
  { raw := String.ofList (filling.text field.raw.toList)
    selector := field.selector
    layers := field.layers.map filling.layer
    element := filling.element field.element }

variable {filling}

@[simp]
theorem text_nil : filling.text [] = [] := by
  rw [text]

theorem text_of_reader {source rest : List Char} {run : DigitRun}
    (h : filling.reader source = some (run, rest)) :
    filling.text source = run.digits ++ filling.text rest := by
  cases source with
  | nil => simp [reader, Reader.reference] at h
  | cons c tail =>
    rw [text]
    split
    · rename_i heq
      rw [h] at heq
      obtain ⟨rfl, rfl⟩ := Prod.mk.inj (Option.some.inj heq)
      rfl
    · rename_i heq
      rw [h] at heq
      simp at heq

theorem text_of_reader_eq_none {c : Char} {tail : List Char}
    (h : filling.reader (c :: tail) = none) :
    filling.text (c :: tail) = c :: filling.text tail := by
  rw [text]
  split
  · rename_i heq
    rw [h] at heq
    simp at heq
  · rfl

theorem text_cons {c : Char} (h : c ≠ '{') (tail : List Char) :
    filling.text (c :: tail) = c :: filling.text tail := by
  refine text_of_reader_eq_none ?_
  have hnone : Reader.reference (c :: tail) = none := by
    unfold Reader.reference
    split
    · rename_i heq
      exact absurd (List.cons.inj heq).1 h
    · rfl
  rw [reader, hnone]
  rfl

theorem text_append {front : List Char} (h : ∀ c ∈ front, c ≠ '{') (rest : List Char) :
    filling.text (front ++ rest) = front ++ filling.text rest := by
  induction front with
  | nil => rfl
  | cons c front ih =>
    obtain ⟨hc, hfront⟩ := List.forall_mem_cons.1 h
    rw [List.cons_append, text_cons hc, ih hfront, List.cons_append]

/-- A text that does not start with a brace keeps its first character, and one that does starts with
what can start a width. -/
theorem text_cases (source : List Char) :
    (source = [] ∧ filling.text source = []) ∨
      (∃ c tail, source = c :: tail ∧ c ≠ '{' ∧ filling.text source = c :: filling.text tail) ∨
      ∃ tail c rest, source = '{' :: tail ∧ filling.text source = c :: rest ∧
        Reader.startsWidth c = true := by
  cases source with
  | nil => exact .inl ⟨rfl, text_nil⟩
  | cons c tail =>
    by_cases hc : c = '{'
    · subst hc
      refine .inr (.inr ?_)
      cases hread : filling.reader ('{' :: tail) with
      | none => exact ⟨tail, '{', _, rfl, text_of_reader_eq_none hread, rfl⟩
      | some result =>
        obtain ⟨run, rest⟩ := result
        obtain ⟨d, digits, hrun⟩ := List.exists_cons_of_ne_nil run.ne_nil
        have hd : d.isDigit = true := run.isDigit d (by simp [hrun])
        refine ⟨tail, d, digits ++ filling.text rest, rfl, ?_, by simp [Reader.startsWidth, hd]⟩
        rw [text_of_reader hread, hrun, List.cons_append]
    · exact .inr (.inl ⟨c, tail, rfl, hc, text_cons hc tail⟩)

theorem head?_text {source : List Char} (h : ∀ c ∈ source.head?, c ≠ '{') :
    (filling.text source).head? = source.head? := by
  rcases filling.text_cases source with
    ⟨rfl, hfill⟩ | ⟨c, tail, rfl, -, hfill⟩ | ⟨tail, _, _, rfl, -⟩
  · rw [hfill]
  · rw [hfill]
    rfl
  · exact absurd rfl (h '{' rfl)

end Filling

namespace Reader

variable (filling : Filling)

/-! ## Single characters -/

theorem oneOf_text {α : Type} {meaning : Char → Option α}
    (h : ∀ c, startsWidth c = true → meaning c = none) (source : List Char) :
    oneOf meaning (filling.text source) =
      (oneOf meaning source).map fun (a, rest) => (a, filling.text rest) := by
  rcases filling.text_cases source with
    ⟨rfl, hfill⟩ | ⟨c, tail, rfl, -, hfill⟩ | ⟨tail, c, rest, rfl, hfill, hc⟩
  · rw [hfill]
    rfl
  · rw [hfill, oneOf, oneOf]
    cases meaning c <;> rfl
  · rw [hfill, oneOf, oneOf, h c hc, h '{' rfl]
    rfl

theorem optional_oneOf_text {α : Type} {meaning : Char → Option α}
    (h : ∀ c, startsWidth c = true → meaning c = none) (source : List Char) :
    optional (oneOf meaning) (filling.text source) =
      ((optional (oneOf meaning) source).1, filling.text (optional (oneOf meaning) source).2) := by
  rw [optional, optional, oneOf_text filling h]
  cases oneOf meaning source <;> rfl

theorem flag_text {c : Char} (h : startsWidth c = false) (source : List Char) :
    flag c (filling.text source) = ((flag c source).1, filling.text (flag c source).2) := by
  rcases filling.text_cases source with
    ⟨rfl, hfill⟩ | ⟨d, tail, rfl, -, hfill⟩ | ⟨tail, d, rest, rfl, hfill, hd⟩
  · rw [hfill]
    exact Prod.ext rfl hfill.symm
  · by_cases hd : d = c
    · rw [hfill, flag, flag, if_pos hd, if_pos hd]
    · rw [hfill, flag, flag, if_neg hd, if_neg hd, hfill]
  · rw [flag, if_neg (ne_of_startsWidth rfl h), hfill, flag, if_neg (ne_of_startsWidth hd h)]

/-! ## Counts -/

/-- No width can start at the front of a text. -/
def NoWidth (source : List Char) : Prop :=
  ∀ c ∈ source.head?, startsWidth c = false

theorem NoWidth.head?_text {source : List Char} (h : NoWidth source) :
    (filling.text source).head? = source.head? := by
  refine Filling.head?_text fun c hc => ?_
  rintro rfl
  exact absurd (h '{' hc) (by decide)

theorem NoWidth.text {source : List Char} (h : NoWidth source) : NoWidth (filling.text source) := by
  rwa [NoWidth, h.head?_text filling]

theorem NoWidth.not_isDigit {source : List Char} (h : NoWidth source) :
    ∀ c ∈ source.head?, c.isDigit = false := by
  intro c hc
  have hw := h c hc
  rw [startsWidth, Bool.or_eq_false_iff] at hw
  exact hw.1

theorem BeginsAt.noWidth {source : List Char} (h : BeginsAt 7 source) : NoWidth source :=
  fun c hc => startsWidth_eq_false_of_slot (h c hc)

theorem ne_open_of_isDigit {digits : List Char} (h : ∀ c ∈ digits, c.isDigit = true) :
    ∀ c ∈ digits, c ≠ '{' := by
  rintro c hc rfl
  exact absurd (h _ hc) (by decide)

/-- A reference that is not replaced stands in the filled text. -/
theorem reference_text {source rest : List Char} {s : Selector}
    (h : reference source = some (s, rest)) (hs : filling.lookup s = none) :
    reference (filling.text source) = some (s, filling.text rest) ∧
      ∃ tail, filling.text source = '{' :: tail := by
  have hkeep : filling.reader source = none := by
    simp [Filling.reader, h, hs]
  obtain ⟨digits, rfl, hdigits, hother⟩ := exists_digits_of_reference h
  rw [Filling.text_of_reader_eq_none hkeep, Filling.text_append (ne_open_of_isDigit hdigits),
    Filling.text_cons (by decide)]
  exact ⟨hother _, _, rfl⟩

theorem count_text {source rest : List Char} {c : Count} (h : count source = some (c, rest))
    (hr : NoWidth rest) :
    count (filling.text source) = some (filling.count c, filling.text rest) := by
  have hdigit := (hr.text filling).not_isDigit
  unfold count at h
  split at h
  · rename_i n behind hn
    obtain ⟨rfl, rfl⟩ := Prod.mk.inj (Option.some.inj h)
    obtain ⟨run, rfl, rfl, -⟩ := exists_run_of_natural hn
    rw [Filling.text_append (ne_open_of_isDigit run.isDigit), count, natural_append run hdigit]
    rfl
  · obtain ⟨⟨s, behind⟩, hs, hpair⟩ := Option.map_eq_some_iff.1 h
    obtain ⟨rfl, rfl⟩ := Prod.mk.inj hpair
    cases hlookup : filling.lookup s with
    | some run =>
      rw [Filling.text_of_reader (filling.reader_eq_some_iff.2 ⟨s, hs, hlookup⟩), count,
        natural_append run hdigit, Filling.count, hlookup]
      rfl
    | none =>
      obtain ⟨href, tail, htail⟩ := reference_text filling hs hlookup
      have hn : natural (filling.text source) = none := by
        rw [htail]
        exact natural_eq_none (by simp)
      rw [count, hn]
      simp only [href, Option.map_some, Filling.count, hlookup, Option.elim_none]

/-- A width that is read up to something that could not start another one is read likewise in the
filled text. -/
theorem optional_count_text {source : List Char} (h : NoWidth (optional count source).2) :
    optional count (filling.text source) =
      ((optional count source).1.map filling.count, filling.text (optional count source).2) := by
  unfold optional at h ⊢
  cases hread : count source with
  | some result =>
    obtain ⟨c, rest⟩ := result
    rw [hread] at h
    rw [count_text filling hread h]
    rfl
  | none =>
    rw [hread] at h
    rw [count_eq_none (h.text filling)]
    rfl

theorem optional_precision_text {source : List Char}
    (h : BeginsAt 9 (optional precision source).2) :
    optional precision (filling.text source) =
      ((optional precision source).1.map filling.count,
        filling.text (optional precision source).2) := by
  rcases filling.text_cases source with
    ⟨rfl, hfill⟩ | ⟨c, tail, rfl, -, hfill⟩ | ⟨tail, _, _, rfl, -, -⟩
  · rw [hfill]
    exact Prod.ext rfl hfill.symm
  · by_cases hc : c = '.'
    · subst hc
      have hpoint : ∀ rest, precision ('.' :: rest) = count rest := fun _ => rfl
      rw [hfill]
      unfold optional at h ⊢
      rw [hpoint] at h
      rw [hpoint, hpoint]
      cases hread : count tail with
      | some result =>
        obtain ⟨p, rest⟩ := result
        rw [hread] at h
        rw [count_text filling hread (h.mono (by omega)).noWidth]
        rfl
      | none =>
        rw [hread] at h
        exact absurd (h '.' rfl) (by decide)
    · have hnone : ∀ rest, precision (c :: rest) = none := by
        intro rest
        unfold precision
        split
        · rename_i heq
          exact absurd (List.cons.inj heq).1 hc
        · rfl
      rw [hfill, optional, optional, hnone, hnone]
      exact Prod.ext rfl hfill.symm
  · exact absurd (h '{' rfl) (by decide)

/-! ## The flag 0 and the width behind it -/

theorem zeroFlag_of_ne {c : Char} (h : c ≠ '0') (tail : List Char) :
    zeroFlag (c :: tail) = (false, c :: tail) := by
  unfold zeroFlag
  split
  · rename_i heq
    exact absurd (List.cons.inj heq).1 h
  · rfl

theorem zeroFlag_of_startsWidth {c : Char} (h : startsWidth c = true) (tail : List Char) :
    zeroFlag ('0' :: c :: tail) = (true, c :: tail) := by
  rw [startsWidth] at h
  rw [zeroFlag, if_pos h]

theorem zeroFlag_of_noWidth {tail : List Char} (h : NoWidth tail) :
    zeroFlag ('0' :: tail) = (false, '0' :: tail) := by
  cases tail with
  | nil => rfl
  | cons c tail =>
    have hc := h c rfl
    rw [startsWidth] at hc
    rw [zeroFlag, hc, if_neg Bool.false_ne_true]

theorem zeroFlag_text {source : List Char} (h : ∀ c ∈ source.head?, c ≠ '{') :
    zeroFlag (filling.text source) = ((zeroFlag source).1, filling.text (zeroFlag source).2) := by
  rcases filling.text_cases source with
    ⟨rfl, hfill⟩ | ⟨c, tail, rfl, -, hfill⟩ | ⟨tail, _, _, rfl, -, -⟩
  · rw [hfill]
    exact Prod.ext rfl hfill.symm
  · by_cases hc : c = '0'
    · subst hc
      rw [hfill]
      rcases filling.text_cases tail with
        ⟨rfl, htail⟩ | ⟨d, more, rfl, -, htail⟩ | ⟨more, d, rest, rfl, htail, hd⟩
      · rw [htail] at hfill ⊢
        exact Prod.ext rfl hfill.symm
      · by_cases hd : startsWidth d = true
        · rw [htail, zeroFlag_of_startsWidth hd, zeroFlag_of_startsWidth hd, htail]
        · have hno : ∀ rest, NoWidth (d :: rest) := by
            rintro rest e he
            obtain rfl := Option.some.inj he
            exact Bool.not_eq_true _ ▸ hd
          rw [htail, zeroFlag_of_noWidth (hno _), zeroFlag_of_noWidth (hno _), hfill, htail]
      · rw [htail, zeroFlag_of_startsWidth hd, zeroFlag_of_startsWidth rfl, htail]
    · rw [hfill, zeroFlag_of_ne hc, zeroFlag_of_ne hc, hfill]
  · exact absurd rfl (h '{' rfl)

end Reader

/-- A filling whose numbers have no zeros in front. -/
def Filling.Plain (filling : Filling) : Prop :=
  ∀ position run, filling position = some run → run.digits.head? = some '0' → run.digits = ['0']

theorem Filling.Plain.lookup {filling : Filling} (h : filling.Plain) {s : Selector} {run : DigitRun}
    (hs : filling.lookup s = some run) (hzero : run.digits.head? = some '0') :
    run.digits = ['0'] := by
  obtain ⟨position, -, hrun⟩ := Filling.exists_position_of_lookup hs
  exact h position run hrun hzero

namespace Reader

variable (filling : Filling)

/-- A zero in front of other digits leaves the number as it is. -/
theorem exists_run_of_zero_cons {run : DigitRun} {d : Char} {digits : List Char}
    (h : run.digits = '0' :: d :: digits) :
    ∃ shorter : DigitRun, shorter.digits = d :: digits ∧ shorter.value = run.value := by
  have hvalue : numberOf (d :: digits) = numberOf run.digits := by
    rw [h, numberOf, numberOf, List.foldl_cons]
    rfl
  refine ⟨⟨d :: digits, by simp, ?_, ?_⟩, rfl, hvalue⟩
  · intro c hc
    exact run.isDigit c (by rw [h]; exact List.mem_cons_of_mem _ hc)
  · rw [hvalue]
    exact run.lt_wordLimit

theorem optional_count_append (run : DigitRun) {rest : List Char} (h : NoWidth rest) :
    optional count (run.digits ++ rest) = (some (.literal run.value), rest) := by
  rw [optional, count, natural_append run h.not_isDigit]

/-- A run of digits is a width whether or not its first zero is taken for the flag `0`. -/
theorem width_append (run : DigitRun) {rest : List Char} (h : NoWidth rest) :
    optional count (zeroFlag (run.digits ++ rest)).2 = (some (.literal run.value), rest) ∧
      ((run.digits.head? = some '0' → run.digits = ['0']) →
        (zeroFlag (run.digits ++ rest)).1 = false) := by
  obtain ⟨c, digits, hrun⟩ := List.exists_cons_of_ne_nil run.ne_nil
  have hcount := optional_count_append run h
  by_cases hc : c = '0'
  · subst hc
    cases digits with
    | nil =>
      rw [hrun, List.singleton_append] at hcount ⊢
      rw [zeroFlag_of_noWidth h]
      exact ⟨hcount, fun _ => rfl⟩
    | cons d digits =>
      obtain ⟨shorter, hshorter, hvalue⟩ := exists_run_of_zero_cons hrun
      have hd : startsWidth d = true := by
        rw [startsWidth, run.isDigit d (by simp [hrun]), Bool.true_or]
      rw [hrun, List.cons_append, List.cons_append, zeroFlag_of_startsWidth hd, ← List.cons_append,
        ← hshorter, optional_count_append shorter h, hvalue]
      exact ⟨rfl, fun hplain => absurd (by simpa using hplain) shorter.ne_nil⟩
  · rw [hrun, List.cons_append] at hcount ⊢
    rw [zeroFlag_of_ne hc]
    exact ⟨hcount, fun _ => rfl⟩

/-- The flag `0` and the width behind it: a zero in front of a number that is filled in is taken for
the flag, and the number remains. -/
theorem width_text {source : List Char} (h : NoWidth (optional count (zeroFlag source).2).2) :
    optional count (zeroFlag (filling.text source)).2 =
        ((optional count (zeroFlag source).2).1.map filling.count,
          filling.text (optional count (zeroFlag source).2).2) ∧
      (filling.Plain → (zeroFlag (filling.text source)).1 = (zeroFlag source).1) := by
  by_cases hopen : ∀ c ∈ source.head?, c ≠ '{'
  · rw [zeroFlag_text filling hopen]
    exact ⟨optional_count_text filling h, fun _ => rfl⟩
  · obtain ⟨tail, rfl⟩ : ∃ tail, source = '{' :: tail := by
      simpa [List.head?_eq_some_iff] using hopen
    have hflag : zeroFlag ('{' :: tail) = (false, '{' :: tail) := zeroFlag_of_ne (by decide) tail
    rw [hflag] at h ⊢
    rw [← optional_count_text filling h]
    cases hread : filling.reader ('{' :: tail) with
    | none =>
      rw [Filling.text_of_reader_eq_none hread, zeroFlag_of_ne (by decide)]
      exact ⟨rfl, fun _ => rfl⟩
    | some result =>
      obtain ⟨run, rest⟩ := result
      obtain ⟨position, hs, hrun⟩ := filling.reader_eq_some_iff.1 hread
      have hrest : NoWidth rest := by
        rwa [optional, count, natural_eq_none (by simp), hs] at h
      -- The digits may start with a zero, which is then the flag and no part of the width.
      obtain ⟨hcount, hplain⟩ := width_append run (hrest.text filling)
      rw [Filling.text_of_reader hread, hcount, optional_count_append run (hrest.text filling)]
      exact ⟨rfl, fun h => hplain (h.lookup hrun)⟩

/-! ## Padding -/

section Padding

variable {align : Char → Option Align}

theorem oneOf_eq_none {α : Type} {meaning : Char → Option α} {source : List Char}
    (h : ∀ c ∈ source.head?, meaning c = none) : oneOf meaning source = none := by
  cases source with
  | nil => rfl
  | cons c tail =>
    rw [oneOf, h c rfl]
    rfl

theorem padding_open (h : align '{' = none) (tail : List Char) :
    padding align ('{' :: tail) = none := by
  have hbare : bareAlign align ('{' :: tail) = none := by
    rw [bareAlign, oneOf, h]
    rfl
  rw [padding, orElse, hbare, Option.or_none, filledAlign]
  split <;> rfl

theorem padding_eq_none {c : Char} {tail : List Char} (hc : align c = none)
    (htail : oneOf align tail = none) : padding align (c :: tail) = none := by
  rw [padding, orElse, filledAlign, htail, bareAlign, oneOf, hc]
  rfl

/-- The padding at the front of a text is read from the filled text as well, unless an alignment
stands behind a reference that is replaced. -/
theorem padding_text (halign : ∀ c, startsWidth c = true → align c = none) {source : List Char}
    (h : ∀ run rest, filling.reader source = some (run, rest) → oneOf align rest = none) :
    padding align (filling.text source) =
      (padding align source).map fun (p, rest) => (p, filling.text rest) := by
  by_cases hopen : ∀ c ∈ source.head?, c ≠ '{'
  · cases source with
    | nil => rw [Filling.text_nil]; rfl
    | cons c tail =>
      have hfill : filling.text (c :: tail) = c :: filling.text tail :=
        Filling.text_cons (hopen c rfl) tail
      have hfilled : filledAlign align (filling.text (c :: tail)) =
          (filledAlign align (c :: tail)).map fun (p, rest) => (p, filling.text rest) := by
        rw [hfill, filledAlign, filledAlign, oneOf_text filling halign]
        cases oneOf align tail with
        | none => rfl
        | some result =>
          by_cases hc : isFill c = true <;> simp [hc]
      have hbare : bareAlign align (filling.text (c :: tail)) =
          (bareAlign align (c :: tail)).map fun (p, rest) => (p, filling.text rest) := by
        rw [bareAlign, bareAlign, oneOf_text filling halign]
        cases oneOf align (c :: tail) <;> rfl
      rw [padding, orElse, orElse, hfilled, hbare, Option.map_or]
  · obtain ⟨tail, rfl⟩ : ∃ tail, source = '{' :: tail := by
      simpa [List.head?_eq_some_iff] using hopen
    have hbrace : align '{' = none := halign '{' rfl
    rw [padding_open hbrace]
    cases hread : filling.reader ('{' :: tail) with
    | none =>
      rw [Filling.text_of_reader_eq_none hread, padding_open hbrace]
      rfl
    | some result =>
      obtain ⟨run, rest⟩ := result
      have hdigit : ∀ c ∈ run.digits, align c = none := fun c hc =>
        halign c (by rw [startsWidth, run.isDigit c hc, Bool.true_or])
      obtain ⟨c, digits, hrun⟩ := List.exists_cons_of_ne_nil run.ne_nil
      -- A single digit could be a fill, so what stands behind the reference matters.
      rw [Filling.text_of_reader hread, hrun, List.cons_append,
        padding_eq_none (hdigit c (by simp [hrun]))]
      · rfl
      · cases digits with
        | nil =>
          rw [List.nil_append, oneOf_text filling halign, h run rest hread]
          rfl
        | cons d digits =>
          rw [List.cons_append, oneOf, hdigit d (by simp [hrun])]
          rfl

end Padding

/-! ## Elements -/

theorem five_le_slot_of_startsWidth {c : Char} (h : startsWidth c = true) : 5 ≤ slot c := by
  by_cases h0 : c = '0'
  · subst h0
    decide
  · rw [slot_of_startsWidth h h0]
    omega

theorem align_of_startsWidth {c : Char} (h : startsWidth c = true) : Align.ofChar? c = none :=
  ofChar?_eq_none_of_slot (two_le_slot_of_startsWidth h)

theorem sign_of_startsWidth {c : Char} (h : startsWidth c = true) : SignMode.ofChar? c = none :=
  sign_eq_none_of_slot (Nat.le_trans (by omega) (five_le_slot_of_startsWidth h))

/-- The text behind the specifiers that stand in front of a width. -/
def behindMarks (source : List Char) : List Char :=
  (flag '#' (flag 'z' (optional (oneOf SignMode.ofChar?)
    (optional (padding Align.ofChar?) source).2).2).2).2

/-- The text behind a width. -/
def behindWidth (source : List Char) : List Char :=
  (optional count (zeroFlag (behindMarks source)).2).2

/-- The text behind a group separator and a precision. -/
def behindPrecision (source : List Char) : List Char :=
  (optional precision (optional (oneOf groupSeparator) (behindWidth source)).2).2

theorem Reads.beginsAt {α : Type} {taken : α → List Char → Prop} {source : List Char}
    {result : α × List Char} (h : Reads taken source result) {place : Nat}
    (hfront : ∀ front, taken result.1 front → BeginsAt place front)
    (hrest : BeginsAt place result.2) : BeginsAt place source := by
  obtain ⟨front, hsource, htaken⟩ := h
  rw [hsource]
  exact (hfront front htaken).append hrest

/-- An element stops early only in front of the flag `L`, a type code or something else that is no
specifier, so behind its precision there is none of the specifiers before those. -/
theorem beginsAt_behindPrecision {source : List Char} (h : BeginsAt 9 (element source).2) :
    BeginsAt 9 (behindPrecision source) := by
  have hlocal : BeginsAt 9 (flag 'L' (behindPrecision source)).2 := by
    refine (reads_type _).beginsAt ?_ h
    rintro _ rfl
    exact (beginsAt_type _).mono (by omega)
  refine (reads_flag 'L' (behindPrecision source)).beginsAt ?_ hlocal
  rintro _ rfl
  exact beginsAt_spellFlag _ (by decide)

theorem beginsAt_behindWidth {source : List Char} (h : BeginsAt 9 (element source).2) :
    BeginsAt 7 (behindWidth source) := by
  have hgroup : BeginsAt 8 (optional (oneOf groupSeparator) (behindWidth source)).2 := by
    refine (reads_optional (fun _ _ => reads_precision) _).beginsAt ?_
      ((beginsAt_behindPrecision h).mono (by omega))
    intro front hfront
    obtain ⟨hspells, -⟩ := spellsOption_and hfront
    intro c hc
    revert hspells
    generalize (optional precision _).1 = p
    intro hspells
    cases p with
    | none =>
      obtain rfl : front = [] := hspells
      simp at hc
    | some p =>
      obtain ⟨digits, -, rfl⟩ := hspells
      obtain rfl := Option.some.inj hc
      decide
  refine (reads_grouping (behindWidth source)).beginsAt ?_ (hgroup.mono (by omega))
  rintro _ ⟨rfl, hseparator⟩
  exact beginsAt_grouping hseparator

theorem optional_padding_open {align : Char → Option Align} (h : align '{' = none)
    (tail : List Char) : optional (padding align) ('{' :: tail) = (none, '{' :: tail) := by
  rw [optional, padding_open h]

/-- A reference at the front of an element is its width. -/
theorem behindWidth_of_reference {source rest : List Char} {s : Selector}
    (h : reference source = some (s, rest)) : behindWidth source = rest := by
  obtain ⟨digits, rfl, -⟩ := exists_digits_of_reference h
  rw [behindWidth, behindMarks, optional_padding_open rfl, optional_oneOf_eq_none rfl, flag,
    if_neg (by decide), flag, if_neg (by decide), zeroFlag_of_ne (by decide), optional, count,
    natural_eq_none (by simp), h]
  rfl

theorem optional_padding_text {align : Char → Option Align}
    (halign : ∀ c, startsWidth c = true → align c = none) {source : List Char}
    (h : ∀ run rest, filling.reader source = some (run, rest) → oneOf align rest = none) :
    optional (padding align) (filling.text source) =
      ((optional (padding align) source).1, filling.text (optional (padding align) source).2) := by
  rw [optional, optional, padding_text filling halign h]
  cases padding align source <;> rfl

/-- An element is read from the filled text with its counts filled in, if what it leaves cannot
extend them. -/
theorem element_text {source : List Char} (h : BeginsAt 9 (element source).2) :
    ∃ zeroPad, element (filling.text source) =
        ({ filling.element (element source).1 with zeroPad }, filling.text (element source).2) ∧
      (filling.Plain → zeroPad = (element source).1.zeroPad) := by
  -- A reference in front is the width, so no alignment stands behind it.
  have hpad : optional (padding Align.ofChar?) (filling.text source) =
      ((optional (padding Align.ofChar?) source).1,
        filling.text (optional (padding Align.ofChar?) source).2) := by
    refine optional_padding_text filling (fun c => align_of_startsWidth) ?_
    intro run rest hread
    obtain ⟨s, hs, -⟩ := filling.reader_eq_some_iff.1 hread
    have hrest := beginsAt_behindWidth h
    rw [behindWidth_of_reference hs] at hrest
    exact oneOf_eq_none fun c hc => ofChar?_eq_none_of_slot (Nat.le_trans (by omega) (hrest c hc))
  have hsign := optional_oneOf_text filling (fun c => sign_of_startsWidth)
    (optional (padding Align.ofChar?) source).2
  have hz := flag_text filling (show startsWidth 'z' = false from rfl)
    (optional (oneOf SignMode.ofChar?) (optional (padding Align.ofChar?) source).2).2
  have hmark := flag_text filling (show startsWidth '#' = false from rfl)
    (flag 'z' (optional (oneOf SignMode.ofChar?) (optional (padding Align.ofChar?) source).2).2).2
  obtain ⟨hwidth, hplain⟩ := width_text filling (beginsAt_behindWidth h).noWidth
  have hgroup := optional_oneOf_text filling (fun c => groupSeparator_of_startsWidth)
    (behindWidth source)
  have hprec := optional_precision_text filling (beginsAt_behindPrecision h)
  have hlocal := flag_text filling (show startsWidth 'L' = false from rfl)
    (behindPrecision source)
  have htype := optional_oneOf_text filling (fun c => type_of_startsWidth)
    (flag 'L' (behindPrecision source)).2
  refine ⟨(zeroFlag (filling.text (behindMarks source))).1, ?_, hplain⟩
  simp only [behindPrecision, behindWidth, behindMarks] at hwidth hgroup hprec hlocal htype ⊢
  rw [element, hpad]
  simp only [hsign, hz, hmark, hwidth, hgroup, hprec, hlocal, htype]
  rfl

/-! ## Layers -/

theorem kind_of_startsWidth {c : Char} (h : startsWidth c = true) :
    ContainerKind.ofChar? c = none := by
  rw [← Option.not_isSome_iff_eq_none, Option.isSome_iff_exists]
  rintro ⟨kind, hkind⟩
  have hchar := ContainerKind.ofChar?_eq_some_iff.1 hkind
  cases kind <;> cases hchar <;> exact absurd h (by decide)

/-- The text behind the padding and the width of a layer. -/
def behindLayerWidth (source : List Char) : List Char :=
  (optional count (optional (padding containerAlign) source).2).2

theorem beginsAt_behindLayerWidth {source : List Char} (h : BeginsAt 7 (layer source).2) :
    BeginsAt 7 (behindLayerWidth source) := by
  refine (reads_kind (behindLayerWidth source)).beginsAt ?_ h
  rintro _ rfl c hc
  generalize (optional (oneOf ContainerKind.ofChar?) _).1.getD .plain = kind at hc
  cases kind with
  | plain => simp [ContainerKind.char?] at hc
  | _ =>
    obtain rfl := Option.some.inj hc
    decide

theorem behindLayerWidth_of_reference {source rest : List Char} {s : Selector}
    (h : reference source = some (s, rest)) : behindLayerWidth source = rest := by
  obtain ⟨digits, rfl, -⟩ := exists_digits_of_reference h
  rw [behindLayerWidth, optional_padding_open rfl, optional, count, natural_eq_none (by simp), h]
  rfl

theorem containerAlign_of_startsWidth {c : Char} (h : startsWidth c = true) :
    containerAlign c = none :=
  containerAlign_eq_none (align_of_startsWidth h)

/-- A layer is read from the filled text with its width filled in. -/
theorem layer_text {source : List Char} (h : BeginsAt 7 (layer source).2) :
    layer (filling.text source) =
      (filling.layer (layer source).1, filling.text (layer source).2) := by
  have hpad : optional (padding containerAlign) (filling.text source) =
      ((optional (padding containerAlign) source).1,
        filling.text (optional (padding containerAlign) source).2) := by
    refine optional_padding_text filling (fun c => containerAlign_of_startsWidth) ?_
    intro run rest hread
    obtain ⟨s, hs, -⟩ := filling.reader_eq_some_iff.1 hread
    have hrest := beginsAt_behindLayerWidth h
    rw [behindLayerWidth_of_reference hs] at hrest
    refine oneOf_eq_none fun c hc => containerAlign_eq_none ?_
    exact ofChar?_eq_none_of_slot (Nat.le_trans (by omega) (hrest c hc))
  have hwidth := optional_count_text filling (beginsAt_behindLayerWidth h).noWidth
  have hkind := optional_oneOf_text filling (fun c => kind_of_startsWidth)
    (behindLayerWidth source)
  simp only [behindLayerWidth] at hkind
  rw [layer, hpad]
  simp only [hwidth, hkind]
  rfl

/-! ## Layers and elements in their order -/

/-- Behind the padding of a layer there is all that it leaves. -/
theorem mem_behind_padding {source : List Char} {c : Char} (h : c ∈ (layer source).2) :
    c ∈ (optional (padding containerAlign) source).2 := by
  obtain ⟨width, hwidth, -⟩ := reads_optional (fun _ _ => reads_count)
    (optional (padding containerAlign) source).2
  obtain ⟨kind, hkind, -⟩ := reads_kind (behindLayerWidth source)
  have hmem : c ∈ behindLayerWidth source := by
    rw [hkind]
    exact List.mem_append_right _ h
  rw [hwidth]
  exact List.mem_append_right _ hmem

theorem colon_mem_of_mem_tail {c : Char} {tail : List Char} (h : ':' ∈ tail) :
    ':' ∈ (optional (padding Align.ofChar?) (c :: tail)).2 := by
  unfold optional
  split
  · rename_i p rest heq
    obtain ⟨front, hfront, rfl, -⟩ := reads_padding (fun _ _ => Align.ofChar?_eq_some_iff.1) heq
    obtain ⟨fill, a⟩ := p
    cases fill with
    | none =>
      obtain ⟨-, rfl⟩ := List.cons.inj hfront
      exact h
    | some f =>
      obtain ⟨-, rfl⟩ := List.cons.inj hfront
      have hne : ':' ≠ a.char := by cases a <;> decide
      simpa [hne] using h
  · exact List.mem_cons_of_mem _ h

/-- An element has no more padding in front than a layer has, but for a sign-aware alignment: so a
colon that a layer leaves is left by the element, or it is the fill of such an alignment. -/
theorem colon_mem_behind_padding {source : List Char}
    (h : ':' ∈ (optional (padding containerAlign) source).2) :
    ':' ∈ (optional (padding Align.ofChar?) source).2 ∨ ∃ rest, source = ':' :: '=' :: rest := by
  cases source with
  | nil => exact .inl h
  | cons c tail =>
    by_cases htail : ':' ∈ tail
    · exact .inl (colon_mem_of_mem_tail htail)
    · -- The colon is the first character, and the layer leaves it: it is no fill there.
      obtain ⟨front, hfront, -⟩ := reads_optional_padding
        (fun _ _ h => Align.ofChar?_eq_some_iff.1 (ofChar?_of_containerAlign h).1) (c :: tail)
      have hmem : ':' ∈ c :: tail := by
        rw [hfront]
        exact List.mem_append_right _ h
      obtain rfl : ':' = c := (List.mem_cons.1 hmem).resolve_right htail
      cases tail with
      | nil => exact .inl h
      | cons d rest =>
        by_cases ha : Align.ofChar? d = none
        · have hnone : padding Align.ofChar? (':' :: d :: rest) = none :=
            padding_eq_none rfl (oneOf_eq_none (by simpa using ha))
          rw [optional, hnone]
          exact .inl List.mem_cons_self
        · by_cases hd : d = '='
          · exact .inr ⟨rest, by rw [hd]⟩
          · obtain ⟨a, ha⟩ := Option.ne_none_iff_exists'.1 ha
            have hfill :
                padding containerAlign (':' :: d :: rest) = some ((some ':', a), rest) := by
              rw [padding, orElse, filledAlign, oneOf, containerAlign, if_neg hd, ha]
              rfl
            rw [optional, hfill] at h
            exact absurd (List.mem_cons_of_mem _ h) htail

theorem presentation_of_end {source : List Char} (h : (element source).2 = []) :
    presentation source = .ok ([], (element source).1) := by
  have hpair : element source = ((element source).1, []) := Prod.ext rfl h
  rw [presentation, hpair]

theorem presentation_of_layer {source rest : List Char} {first : Layer Count}
    (h : (element source).2 ≠ []) (hlayer : layer source = (first, ':' :: rest)) :
    presentation source =
      (presentation rest).map fun (layers, last) => (first :: layers, last) := by
  rw [presentation]
  split
  · rename_i heq
    rw [heq] at h
    exact absurd rfl h
  · split
    · rename_i heq
      rw [hlayer] at heq
      obtain ⟨rfl, htail⟩ := Prod.mk.inj heq
      obtain ⟨-, rfl⟩ := List.cons.inj htail
      rfl
    · rename_i hno
      exact absurd hlayer (hno first rest)

theorem presentation_of_no_layer {source : List Char} (h : (element source).2 ≠ [])
    (hlayer : ∀ rest, (layer source).2 ≠ ':' :: rest) :
    presentation source = .error (element source).2 := by
  rw [presentation]
  split
  · rename_i heq
    rw [heq] at h
    exact absurd rfl h
  · rename_i heq
    split
    · rename_i hcolon
      exact absurd (congrArg Prod.snd hcolon) (hlayer _)
    · rw [heq]

/-- A layer leaves a text as it is that starts with none of its parts. -/
theorem layer_snd_of_none {c : Char} {tail : List Char}
    (hpad : padding containerAlign (c :: tail) = none) (hwidth : startsWidth c = false)
    (hkind : ContainerKind.ofChar? c = none) : (layer (c :: tail)).2 = c :: tail := by
  have hcount : count (c :: tail) = none := count_eq_none (by simpa using hwidth)
  have hpadding : optional (padding containerAlign) (c :: tail) = (none, c :: tail) := by
    rw [optional, hpad]
  have hoptional : optional count (c :: tail) = (none, c :: tail) := by
    rw [optional, hcount]
  rw [layer, hpadding]
  simp only [hoptional, optional_oneOf_eq_none hkind]

/-- Behind its padding an element cannot use an alignment. -/
theorem element_snd_of_align {c : Char} (h : Align.ofChar? c ≠ none) (tail : List Char) :
    (element (':' :: '=' :: c :: tail)).2 = c :: tail := by
  obtain ⟨a, ha⟩ := Option.ne_none_iff_exists'.1 h
  obtain rfl := Align.ofChar?_eq_some_iff.1 ha
  cases a <;> rfl

theorem exists_of_text_eq_cons {source rest : List Char} {c : Char} (hc : startsWidth c = false)
    (h : filling.text source = c :: rest) :
    ∃ tail, source = c :: tail ∧ filling.text tail = rest := by
  rcases filling.text_cases source with
    ⟨-, hfill⟩ | ⟨d, tail, rfl, -, hfill⟩ | ⟨_, d, _, -, hfill, hd⟩
  · rw [hfill] at h
    simp at h
  · rw [hfill] at h
    obtain ⟨rfl, rfl⟩ := List.cons.inj h
    exact ⟨tail, rfl, rfl⟩
  · rw [hfill] at h
    exact absurd (List.cons.inj h).1 (ne_of_startsWidth hd hc)

/-- With a colon as its fill in front or not, a sign-aware alignment leaves an element the same
text, unless another alignment follows. -/
theorem element_snd_of_signAware {tail : List Char}
    (h : ∀ c ∈ tail.head?, Align.ofChar? c = none) :
    (element ('=' :: tail)).2 = (element (':' :: '=' :: tail)).2 := by
  have hfilled : optional (padding Align.ofChar?) (':' :: '=' :: tail) =
      (some (some ':', .signAware), tail) := rfl
  have hbare :
      optional (padding Align.ofChar?) ('=' :: tail) = (some (none, .signAware), tail) := by
    rw [optional, padding, orElse, filledAlign, oneOf_eq_none h]
    rfl
  rw [element, element, hfilled, hbare]

theorem layer_text_of_colon {source rest : List Char} {first : Layer Count}
    (h : layer source = (first, ':' :: rest)) :
    layer (filling.text source) = (filling.layer first, ':' :: filling.text rest) := by
  have hbegin : BeginsAt 7 (layer source).2 := by
    rw [h]
    intro c hc
    obtain rfl := Option.some.inj hc
    decide
  rw [layer_text filling hbegin, h, Filling.text_cons (by decide)]

/-- A segment that is a layer is no element in the filled text either. -/
theorem element_snd_text_ne_nil {source rest : List Char} {first : Layer Count}
    (h : (element source).2 ≠ []) (hlayer : layer source = (first, ':' :: rest))
    (hrest : ∀ unused, presentation rest ≠ .error unused) :
    (element (filling.text source)).2 ≠ [] := by
  have hcolon : ':' ∈ (layer (filling.text source)).2 := by
    rw [layer_text_of_colon filling hlayer]
    exact List.mem_cons_self
  rcases colon_mem_behind_padding (mem_behind_padding hcolon) with hmem | ⟨filled, hfilled⟩
  · exact List.ne_nil_of_mem (colon_mem_element hmem)
  · -- The next segment starts with `=`. It would fail if no alignment came behind that, and an
    -- alignment there is what the element, with the colon as its fill, leaves.
    obtain ⟨tail, rfl, htail⟩ := exists_of_text_eq_cons filling rfl hfilled
    obtain ⟨more, rfl, rfl⟩ := exists_of_text_eq_cons filling rfl htail
    have hsame : (layer (':' :: '=' :: more)).2 = ':' :: '=' :: more :=
      layer_snd_of_none (padding_eq_none rfl rfl) rfl rfl
    rw [hlayer] at hsame
    obtain ⟨-, rfl⟩ := List.cons.inj hsame
    by_cases halign : ∀ c ∈ more.head?, Align.ofChar? c = none
    · rw [← element_snd_of_signAware halign] at h
      have hpad : padding containerAlign ('=' :: more) = none :=
        padding_eq_none rfl (oneOf_eq_none fun c hc => containerAlign_eq_none (halign c hc))
      refine absurd (presentation_of_no_layer h fun next hnext => ?_) (hrest _)
      rw [layer_snd_of_none hpad rfl rfl] at hnext
      simp at hnext
    · simp only [not_forall] at halign
      obtain ⟨c, hc, ha⟩ := halign
      obtain ⟨behind, rfl⟩ := List.head?_eq_some_iff.1 hc
      have hne : c ≠ '{' := by
        rintro rfl
        exact ha rfl
      rw [hfilled, Filling.text_cons hne, element_snd_of_align ha]
      simp

/-- Layers and an element are read from the filled text with their counts filled in. -/
theorem presentation_text {source : List Char} {layers : List (Layer Count)} {e : Element Count}
    (h : presentation source = .ok (layers, e)) :
    ∃ zeroPad, presentation (filling.text source) =
        .ok (layers.map filling.layer, { filling.element e with zeroPad }) ∧
      (filling.Plain → zeroPad = e.zeroPad) := by
  fun_induction presentation source generalizing layers with
  | case1 source last hlast =>
    obtain ⟨rfl, rfl⟩ := Prod.mk.inj (Except.ok.inj h)
    have hend : BeginsAt 9 (element source).2 := by
      rw [hlast]
      exact beginsAt_nil 9
    obtain ⟨zeroPad, hread, hplain⟩ := element_text filling hend
    rw [hlast] at hread hplain
    refine ⟨zeroPad, ?_, hplain⟩
    rw [presentation_of_end (by rw [hread, Filling.text_nil]), hread]
    rfl
  | case2 source _ unused hunused helement first rest hfirst ih =>
    cases hrest : presentation rest with
    | error left =>
      rw [hrest] at h
      simp [Except.map] at h
    | ok inner =>
      rw [hrest] at h
      obtain ⟨rfl, rfl⟩ := Prod.mk.inj (Except.ok.inj h)
      obtain ⟨zeroPad, hinner, hplain⟩ := ih hrest
      have hunused : (element source).2 ≠ [] := by
        rw [helement]
        exact hunused
      have hleft := element_snd_text_ne_nil filling hunused hfirst (by simp [hrest])
      refine ⟨zeroPad, ?_, hplain⟩
      rw [presentation_of_layer hleft (layer_text_of_colon filling hfirst), hinner]
      rfl
  | case3 => simp at h

/-! ## The whole field -/

theorem selector_eq_auto {source : List Char} (h : ∀ c ∈ source.head?, c = ':') :
    selector source = (.auto, source) := by
  cases source with
  | nil => rfl
  | cons c tail =>
    obtain rfl := h c rfl
    have hn : natural (':' :: tail) = none := natural_eq_none (by simp)
    have hname : name (':' :: tail) = none := rfl
    rw [selector, hn]
    simp only [hname]

theorem exists_of_name {source rest : List Char} {key : String}
    (h : name source = some (key, rest)) :
    ∃ c front, source = c :: (front ++ rest) ∧ key = String.ofList (c :: front) ∧
      startsName c = true ∧ ∀ d ∈ front, continuesName d = true := by
  cases source with
  | nil => simp [name] at h
  | cons c tail =>
    rw [name] at h
    split at h
    · rename_i hc
      obtain ⟨rfl, rfl⟩ := Prod.mk.inj (Option.some.inj h)
      exact ⟨c, tail.takeWhile continuesName, by rw [List.takeWhile_append_dropWhile], rfl, hc,
        fun _ => List.mem_takeWhile_imp⟩
    · simp at h

theorem selector_append_of_name {c : Char} {front rest : List Char} (hc : startsName c = true)
    (hfront : ∀ d ∈ front, continuesName d = true)
    (hrest : ∀ d ∈ rest.head?, continuesName d = false) :
    selector (c :: (front ++ rest)) = (.name (String.ofList (c :: front)), rest) := by
  obtain ⟨htake, hdrop⟩ := takeWhile_append_of_all front rest hfront hrest
  have hn : natural (c :: (front ++ rest)) = none :=
    natural_eq_none (by simpa using not_isDigit_of_startsName hc)
  rw [selector, hn]
  simp only [name, hc, if_true, htake, hdrop]

/-- A selector that a colon follows, or nothing, is the same in the filled text. -/
theorem selector_text {source rest : List Char} {s : Selector}
    (h : selector source = (s, rest)) (hrest : ∀ c ∈ rest.head?, c = ':') :
    selector (filling.text source) = (s, filling.text rest) := by
  have hhead : ∀ c ∈ (filling.text rest).head?, c = ':' := by
    rw [Filling.head?_text]
    · exact hrest
    · intro c hc
      rw [hrest c hc]
      decide
  unfold selector at h
  split at h
  · rename_i n behind hn
    obtain ⟨rfl, rfl⟩ := Prod.mk.inj h
    obtain ⟨run, rfl, rfl, -⟩ := exists_run_of_natural hn
    have hdigit : ∀ c ∈ (filling.text behind).head?, c.isDigit = false := by
      intro c hc
      rw [hhead c hc]
      rfl
    rw [Filling.text_append (ne_open_of_isDigit run.isDigit), selector, natural_append run hdigit]
  · split at h
    · rename_i key behind hname
      obtain ⟨rfl, rfl⟩ := Prod.mk.inj h
      obtain ⟨c, front, rfl, rfl, hc, hfront⟩ := exists_of_name hname
      have hcontinues : ∀ d ∈ (filling.text behind).head?, continuesName d = false := by
        intro d hd
        rw [hhead d hd]
        decide
      have hne : c ≠ '{' := by
        rintro rfl
        exact absurd hc (by decide)
      have hfree : ∀ d ∈ front, d ≠ '{' := by
        rintro d hd rfl
        exact absurd (hfront _ hd) (by decide)
      rw [Filling.text_cons hne, Filling.text_append hfree,
        selector_append_of_name hc hfront hcontinues]
    · obtain ⟨rfl, rfl⟩ := Prod.mk.inj h
      exact selector_eq_auto hhead

/-- A text that is read as a field is read with its references filled in from the filled text. Only
the flag `0` can be one more, from a zero in front of the number that replaces the width. -/
theorem read_text {raw : String} {field : Field} (h : Field.read raw = .ok field) :
    ∃ zeroPad, Field.read (String.ofList (filling.text raw.toList)) =
        .ok { filling.field field with element := { filling.element field.element with zeroPad } } ∧
      (filling.Plain → zeroPad = field.element.zeroPad) := by
  unfold Field.read at h
  split at h
  · rename_i s hs
    obtain rfl := Except.ok.inj h
    have hfill := selector_text filling hs (by simp)
    refine ⟨false, ?_, fun _ => rfl⟩
    rw [Field.read, String.toList_ofList, hfill, Filling.text_nil]
    rfl
  · rename_i s behind hs
    have hfill := selector_text filling hs (by simp)
    split at h
    · rename_i layers e hpresentation
      obtain rfl := Except.ok.inj h
      obtain ⟨zeroPad, hread, hplain⟩ := presentation_text filling hpresentation
      refine ⟨zeroPad, ?_, hplain⟩
      rw [Field.read, String.toList_ofList, hfill, Filling.text_cons (by decide)]
      simp only [hread]
      rfl
    · simp at h
  · simp at h

end Reader

/-! ## Checks -/

namespace Filling

variable {filling : Filling}

theorem widths_field (field : Field) :
    (filling.field field).widths = field.widths.map filling.count := by
  simp only [Field.widths, Filling.field, Filling.element, List.map_append, List.filterMap_map,
    List.map_filterMap, Option.toList_map]
  rfl

theorem counts_field (field : Field) :
    (filling.field field).counts = field.counts.map filling.count := by
  simp only [Field.counts, Filling.field, Filling.element, List.map_append, List.filterMap_map,
    List.map_filterMap, Option.toList_map]
  rfl

theorem uses_element (e : Element Count) (s : Specifier) :
    (filling.element e).uses s = e.uses s := by
  cases s <;> simp [Element.uses, Filling.element]

theorem wellFormed_count {least : Nat} {c : Count} (h : c.WellFormed least)
    (hc : ∀ s run, c = .ref s → filling.lookup s = some run →
      least ≤ run.value ∧ run.value ≤ maxCount) : (filling.count c).WellFormed least := by
  cases c with
  | literal n => exact h
  | ref s =>
    cases hs : filling.lookup s with
    | none =>
      rw [Filling.count, hs]
      exact h
    | some run =>
      rw [Filling.count, hs]
      exact hc s run rfl hs

theorem wellFormed_option {least : Nat} {o : Option Count} (h : ∀ c ∈ o, c.WellFormed least)
    (ho : ∀ s run, .ref s ∈ o → filling.lookup s = some run →
      least ≤ run.value ∧ run.value ≤ maxCount) :
    ∀ c ∈ o.map filling.count, c.WellFormed least := by
  intro c hc
  obtain ⟨d, hd, rfl⟩ := Option.map_eq_some_iff.1 hc
  refine wellFormed_count (h d hd) ?_
  rintro s run rfl
  exact ho s run hd

/-- A well-formed field stays so if the numbers that are filled in are in bounds: at least one for a
width, and no more than the limit anywhere. -/
theorem wellFormed_field {field : Field} (h : field.WellFormed)
    (hwidth : ∀ s run, .ref s ∈ field.widths → filling.lookup s = some run → 1 ≤ run.value)
    (hcount : ∀ s run, .ref s ∈ field.counts → filling.lookup s = some run →
      run.value ≤ maxCount) : (filling.field field).WellFormed := by
  refine ⟨h.selector, ?_, ?_⟩
  · intro layer hlayer
    obtain ⟨source, hsource, rfl⟩ := List.mem_map.1 hlayer
    obtain ⟨hpadded, halign, hw⟩ := h.layers source hsource
    refine ⟨hpadded, halign, wellFormed_option hw ?_⟩
    intro s run hs hrun
    have hmem : .ref s ∈ field.layers.filterMap (·.width) :=
      List.mem_filterMap.2 ⟨source, hsource, hs⟩
    exact ⟨hwidth s run (List.mem_append_right _ hmem) hrun,
      hcount s run (List.mem_append_right _ hmem) hrun⟩
  · have helement := h.element
    refine ⟨helement.padded, ?_, wellFormed_option helement.width ?_,
      wellFormed_option helement.precision ?_, helement.grouping, helement.one_grouping, ?_⟩
    · intro hzero
      rw [Filling.field, Filling.element, Option.isSome_map]
      exact helement.width_of_zeroPad hzero
    · intro s run hs hrun
      have hmem : .ref s ∈ field.element.width.toList := Option.mem_toList.2 hs
      exact ⟨hwidth s run (List.mem_append_left _ hmem) hrun,
        hcount s run (List.mem_append_left _ (List.mem_append_left _ hmem)) hrun⟩
    · intro s run hs hrun
      have hmem : .ref s ∈ field.element.precision.toList := Option.mem_toList.2 hs
      exact ⟨Nat.zero_le _,
        hcount s run (List.mem_append_left _ (List.mem_append_right _ hmem)) hrun⟩
    · intro s hs
      rw [Filling.field, uses_element] at hs
      exact helement.admitted s hs

/-- A field whose references are replaced by numbers in bounds is the field with the numbers. -/
theorem parseField_text {raw : String} {field : Field} (h : parseField raw = .ok field)
    (hplain : filling.Plain)
    (hwidth : ∀ s run, .ref s ∈ field.widths → filling.lookup s = some run → 1 ≤ run.value)
    (hcount : ∀ s run, .ref s ∈ field.counts → filling.lookup s = some run →
      run.value ≤ maxCount) :
    parseField (String.ofList (filling.text raw.toList)) = .ok (filling.field field) := by
  have hparse := parseField_eq_ok_iff.1 h
  have hwell := Field.wellFormed_of_parse hparse
  obtain ⟨hread, -⟩ := Field.parse_eq_ok_iff.1 hparse
  obtain ⟨zeroPad, hfilled, hzero⟩ := Reader.read_text filling hread
  obtain rfl := hzero hplain
  exact parseField_eq_ok_iff.2 (Field.parse_eq_ok_iff.2
    ⟨hfilled, Field.check_eq_ok (wellFormed_field hwell hwidth hcount)⟩)

/-! ## Numbers above the limit -/

/-- Only the references to one position are replaced. -/
def only (position : Nat) (run : DigitRun) : Filling := fun other =>
  if other = position then some run else none

theorem lookup_only_eq_some {position : Nat} {run found : DigitRun} {s : Selector}
    (h : (only position run).lookup s = some found) : found = run := by
  obtain ⟨other, -, hfound⟩ := exists_position_of_lookup h
  rw [only] at hfound
  split at hfound
  · exact (Option.some.inj hfound).symm
  · simp at hfound

/-- The first number above the limit in a field that was well-formed before is the one that has been
filled in. -/
theorem excessiveCount?_only {field : Field} (h : field.WellFormed) {position : Nat}
    (hposition : .ref (.index position) ∈ field.counts) {run : DigitRun}
    (hrun : maxCount < run.value) :
    ((only position run).field field).excessiveCount? = some run.value := by
  have hmem : run.value ∈ ((only position run).field field).counts.filterMap Count.literal? := by
    rw [counts_field]
    refine List.mem_filterMap.2 ⟨.literal run.value, List.mem_map.2 ⟨_, hposition, ?_⟩, rfl⟩
    simp [Filling.count, lookup, only]
  cases hfind : ((only position run).field field).excessiveCount? with
  | none =>
    rw [Field.excessiveCount?, List.find?_eq_none] at hfind
    simpa [hrun] using hfind _ hmem
  | some n =>
    rw [Field.excessiveCount?] at hfind
    have hlarge : maxCount < n := by simpa using List.find?_some hfind
    obtain ⟨c, hc, hn⟩ := List.mem_filterMap.1 (List.mem_of_find?_eq_some hfind)
    rw [counts_field] at hc
    obtain ⟨d, hd, rfl⟩ := List.mem_map.1 hc
    cases d with
    | literal m =>
      obtain rfl := Option.some.inj hn
      have hm := (Field.mem_counts_wellFormed h hd).2
      omega
    | ref s =>
      cases hs : (only position run).lookup s with
      | none => simp [Filling.count, hs, Count.literal?] at hn
      | some found =>
        rw [lookup_only_eq_some hs] at hs
        rw [Filling.count, hs] at hn
        rw [← Option.some.inj hn]

theorem zero_not_mem_widths_only {field : Field} (h : field.WellFormed) {position : Nat}
    {run : DigitRun} (hrun : maxCount < run.value) :
    .literal 0 ∉ ((only position run).field field).widths := by
  rw [widths_field]
  intro hmem
  obtain ⟨c, hc, hcount⟩ := List.mem_map.1 hmem
  cases c with
  | literal n =>
    obtain rfl := Count.literal.inj hcount
    exact Field.zero_not_mem_widths h hc
  | ref s =>
    cases hs : (only position run).lookup s with
    | none => simp [Filling.count, hs] at hcount
    | some found =>
      rw [lookup_only_eq_some hs] at hs
      rw [Filling.count, hs] at hcount
      have hvalue := Count.literal.inj hcount
      omega

theorem check_of_excessiveCount? {field : Field} (hzero : .literal 0 ∉ field.widths) {n : Nat}
    (h : field.excessiveCount? = some n) : field.check = .error (.countTooLarge n maxCount) := by
  rw [Field.check, if_neg hzero, h]

/-- A field that was well-formed before fails its check at the number above the limit. -/
theorem check_only {field : Field} (h : field.WellFormed) {position : Nat}
    (hposition : .ref (.index position) ∈ field.counts) {run : DigitRun}
    (hrun : maxCount < run.value) (zeroPad : Bool) :
    Field.check { (only position run).field field with
        element := { (only position run).element field.element with zeroPad } } =
      .error (.countTooLarge run.value maxCount) := by
  refine check_of_excessiveCount? ?_ ?_
  · exact zero_not_mem_widths_only h hrun
  · exact excessiveCount?_only h hposition hrun

end Filling

end Stencil
