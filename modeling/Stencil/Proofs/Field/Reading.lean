import Mathlib.Data.List.Basic
import Stencil.Proofs.Field.WellFormed
import Stencil.Proofs.Number.DigitRuns
import Stencil.Template.Basic

/-!
# Reading what is written

A field that is written in its plain spelling is read back as it was. Every step of reading takes
exactly the part that was written for it, because the parts are in a fixed order and none of them
starts like a later one (`slot`). The segments behind the selector are told apart by their colons:
an element cannot use a colon unless it is a fill.

* `natural_decimal_append`, `optional_count`, `optional_padding` — the steps, in front of a rest
  that they cannot extend into.
* `element_spell`, `layer_spell_append` — a whole element, and a layer in front of its colon.
* `colon_mem_element` — an element leaves the colons that stand behind its padding.
* `Field.read_canonical`, `parseField_canonical` — a whole field, and then with its checks.
-/

namespace Stencil

namespace Reader

/-! ## Numbers and names -/

theorem numberOf_decimal (n : Nat) : numberOf (Digits.decimal n) = n := by
  rw [Digits.decimal_eq_toDigits]
  exact Nat.ofDigitChars_ten_toDigits

theorem isDigit_of_mem_decimal {n : Nat} {c : Char} (hc : c ∈ Digits.decimal n) :
    c.isDigit = true := by
  rw [Digits.decimal_eq_toDigits] at hc
  exact Nat.isDigit_of_mem_toDigits (by omega) (by omega) hc

theorem decimal_ne_nil (n : Nat) : Digits.decimal n ≠ [] := by
  rw [Digits.decimal_eq_toDigits]
  exact Nat.toDigits_ne_nil

theorem takeWhile_append_of_all {p : Char → Bool} (front rest : List Char)
    (hf : ∀ c ∈ front, p c = true) (hr : ∀ c ∈ rest.head?, p c = false) :
    (front ++ rest).takeWhile p = front ∧ (front ++ rest).dropWhile p = rest := by
  have hrest : rest.takeWhile p = [] ∧ rest.dropWhile p = rest := by
    cases rest with
    | nil => exact ⟨rfl, rfl⟩
    | cons c rest =>
      have hc : p c = false := hr c rfl
      exact ⟨by rw [List.takeWhile_cons, hc]; rfl, by rw [List.dropWhile_cons, hc]; rfl⟩
  constructor
  · rw [List.takeWhile_append_of_pos hf, hrest.1, List.append_nil]
  · rw [List.dropWhile_append_of_pos hf, hrest.2]

/-- A number in front of something that is no digit is read as it was written. -/
theorem natural_decimal_append {n : Nat} (hn : n < wordLimit) {rest : List Char}
    (hr : ∀ c ∈ rest.head?, c.isDigit = false) :
    natural (Digits.decimal n ++ rest) = some (n, rest) := by
  obtain ⟨htake, hdrop⟩ := takeWhile_append_of_all _ _ (fun _ => isDigit_of_mem_decimal) hr
  unfold natural
  rw [htake, hdrop]
  simp only [numberOf_decimal]
  rw [if_pos ⟨decimal_ne_nil n, hn⟩]

theorem natural_eq_none {text : List Char} (h : ∀ c ∈ text.head?, c.isDigit = false) :
    natural text = none := by
  obtain ⟨htake, -⟩ := takeWhile_append_of_all [] text (by simp) h
  rw [List.nil_append] at htake
  rw [natural]
  simp [htake]

theorem not_isDigit_of_startsName {c : Char} (h : startsName c = true) : c.isDigit = false := by
  rw [← Bool.not_eq_true]
  intro hd
  simp only [startsName, Bool.or_eq_true, beq_iff_eq, Char.isAlpha, Char.isUpper, Char.isLower,
    Char.isDigit, Bool.and_eq_true, decide_eq_true_eq, ge_iff_le, UInt32.le_iff_toNat_le] at h hd
  have hZ : 'Z'.val.toNat = 90 := rfl
  have hA : 'A'.val.toNat = 65 := rfl
  have ha : 'a'.val.toNat = 97 := rfl
  have h9 : '9'.val.toNat = 57 := rfl
  rcases h with (h | h) | rfl
  · omega
  · omega
  · exact absurd hd.2 (by decide)

/-- The selector of a field is read back up to the colon behind it. -/
theorem selector_spell_append {s : Selector} (h : s.WellFormed) (text : List Char) :
    selector (s.spell ++ ':' :: text) = (s, ':' :: text) := by
  cases s with
  | auto =>
    have hn : natural (':' :: text) = none := natural_eq_none (by simp)
    have hname : name (':' :: text) = none := rfl
    rw [Selector.spell, List.nil_append, selector, hn]
    simp only [hname]
  | index position =>
    rw [Selector.spell, selector, natural_decimal_append h (by simp)]
  | name key =>
    obtain ⟨first, rest, hkey, hfirst, hrest⟩ := h
    have hs : startsName first = true := by
      simpa [startsName] using hfirst
    have hc : ∀ c ∈ rest, continuesName c = true := by
      intro c hc
      simpa [continuesName] using hrest c hc
    obtain ⟨htake, hdrop⟩ := takeWhile_append_of_all rest (':' :: text) hc (by simp; decide)
    have hn : natural (first :: (rest ++ ':' :: text)) = none :=
      natural_eq_none (by simpa using not_isDigit_of_startsName hs)
    rw [Selector.spell, hkey, List.cons_append, selector, hn]
    simp only [name, hs, if_true, htake, hdrop]
    rw [← hkey, String.ofList_toList]

/-! ## Optional parts -/

theorem optional_oneOf {α : Type} {meaning : Char → Option α} (write : α → Char) (o : Option α)
    (hm : ∀ a ∈ o, meaning (write a) = some a) {rest : List Char}
    (hr : ∀ c ∈ rest.head?, meaning c = none) :
    optional (oneOf meaning) ((o.map write).toList ++ rest) = (o, rest) := by
  cases o with
  | some a => simp [optional, oneOf, hm a rfl]
  | none =>
    cases rest with
    | nil => rfl
    | cons c rest => simp [optional, oneOf, hr c rfl]

theorem flag_spellFlag (c : Char) (on : Bool) {rest : List Char}
    (hr : ∀ d ∈ rest.head?, d ≠ c) : flag c (spellFlag c on ++ rest) = (on, rest) := by
  cases on with
  | true => simp [flag, spellFlag]
  | false =>
    cases rest with
    | nil => rfl
    | cons d rest => simp [flag, spellFlag, hr d rfl]

/-- Whether a width can start with a character. -/
def startsWidth (c : Char) : Bool :=
  c.isDigit || c == '{'

theorem zeroFlag_spellFlag {on : Bool} {rest : List Char}
    (hon : on = true → ∃ c text, rest = c :: text ∧ startsWidth c = true)
    (hoff : on = false → ∀ c ∈ rest.head?, c ≠ '0') :
    zeroFlag (spellFlag '0' on ++ rest) = (on, rest) := by
  cases on with
  | true =>
    obtain ⟨c, text, rfl, hc⟩ := hon rfl
    rw [startsWidth] at hc
    simp [spellFlag, zeroFlag, hc]
  | false =>
    cases rest with
    | nil => rfl
    | cons c rest =>
      have hc : c ≠ '0' := hoff rfl c rfl
      rw [spellFlag, if_neg Bool.false_ne_true, List.nil_append]
      unfold zeroFlag
      split
      · rename_i heq
        exact absurd (List.cons.inj heq).1 hc
      · rfl

theorem reference_spell {s : Selector} (h : (Count.ref s).WellFormed 0) (rest : List Char) :
    reference ('{' :: s.spell ++ '}' :: rest) = some (s, rest) := by
  match s, h with
  | .auto, _ =>
    have hn : optional natural ('}' :: rest) = (none, '}' :: rest) := by
      rw [optional, natural_eq_none (by simp)]
    rw [Selector.spell, List.cons_append, List.nil_append, reference]
    simp only [hn, Option.elim]
  | .index position, h =>
    have hn : optional natural (Digits.decimal position ++ '}' :: rest) =
        (some position, '}' :: rest) := by
      rw [optional, natural_decimal_append h (by simp)]
    rw [Selector.spell, List.cons_append, reference]
    simp only [hn, Option.elim]

/-- A count in front of something that is no digit is read as it was written. -/
theorem count_spell_append {c : Count} (h : c.WellFormed 0) {rest : List Char}
    (hr : ∀ d ∈ rest.head?, d.isDigit = false) : count (c.spell ++ rest) = some (c, rest) := by
  cases c with
  | literal n =>
    have hn : n < wordLimit := Nat.lt_of_le_of_lt h.2 (by decide)
    rw [Count.spell, count, natural_decimal_append hn hr]
  | ref s =>
    have hn : natural ('{' :: s.spell ++ '}' :: rest) = none := natural_eq_none (by simp)
    have hs : (Count.ref s).spell ++ rest = '{' :: s.spell ++ '}' :: rest := by
      simp [Count.spell]
    rw [hs, count, hn]
    simp only [reference_spell h, Option.map_some]

theorem count_eq_none {text : List Char} (h : ∀ c ∈ text.head?, startsWidth c = false) :
    count text = none := by
  have hd : ∀ c ∈ text.head?, c.isDigit = false ∧ c ≠ '{' := by
    intro c hc
    simpa [startsWidth] using h c hc
  rw [count, natural_eq_none fun c hc => (hd c hc).1]
  cases text with
  | nil => rfl
  | cons c text =>
    have hb : c ≠ '{' := (hd c rfl).2
    simp only [Option.map_eq_none_iff]
    unfold reference
    split
    · rename_i heq
      exact absurd (List.cons.inj heq).1 hb
    · rfl

theorem optional_count {w : Option Count} (hw : ∀ c ∈ w, c.WellFormed 0) {rest : List Char}
    (hr : ∀ c ∈ rest.head?, startsWidth c = false) :
    optional count (spellOption Count.spell w ++ rest) = (w, rest) := by
  cases w with
  | some c =>
    have hd : ∀ d ∈ rest.head?, d.isDigit = false := by
      intro d hd
      have h := hr d hd
      rw [startsWidth, Bool.or_eq_false_iff] at h
      exact h.1
    rw [spellOption, optional, count_spell_append (hw c rfl) hd]
  | none => rw [spellOption, List.nil_append, optional, count_eq_none hr]

theorem optional_precision {p : Option Count} (hp : ∀ c ∈ p, c.WellFormed 0) {rest : List Char}
    (hr : ∀ c ∈ rest.head?, c.isDigit = false ∧ c ≠ '.') :
    optional precision (spellOption (fun c => '.' :: Count.spell c) p ++ rest) = (p, rest) := by
  cases p with
  | some c =>
    rw [spellOption, optional, List.cons_append, precision,
      count_spell_append (hp c rfl) fun d hd => (hr d hd).1]
  | none =>
    rw [spellOption, List.nil_append, optional]
    cases rest with
    | nil => rfl
    | cons c rest =>
      have hc : c ≠ '.' := (hr c rfl).2
      have hnone : precision (c :: rest) = none := by
        unfold precision
        split
        · rename_i heq
          exact absurd (List.cons.inj heq).1 hc
        · rfl
      rw [hnone]

/-- A fill and an alignment are read back if what follows does not look like an alignment. Without
an alignment the second character matters too: the first could be its fill. -/
theorem optional_padding {align : Char → Option Align} {fill : Option Char} {a : Option Align}
    (hp : WellPadded fill a) (ha : ∀ x ∈ a, align x.char = some x) (rest : List Char)
    (hfirst : ∀ c ∈ rest.head?, align c = none)
    (hsecond : a = none → ∀ c ∈ rest.tail.head?, align c = none) :
    optional (padding align) (spellPadding fill a ++ rest) = (a.map (fill, ·), rest) := by
  have hone : ∀ text : List Char, (∀ c ∈ text.head?, align c = none) → oneOf align text = none := by
    intro text htext
    cases text with
    | nil => rfl
    | cons c text => simp [oneOf, htext c rfl]
  cases a with
  | some x =>
    have hx : oneOf align (x.char :: rest) = some (x, rest) := by simp [oneOf, ha x rfl]
    cases fill with
    | some f =>
      have hf : isFill f = true := by
        simpa [isFill] using hp.not_brace f rfl
      have hread : padding align (f :: x.char :: rest) = some ((some f, x), rest) := by
        rw [padding, orElse, filledAlign, hx]
        simp [hf]
      rw [optional]
      simp [spellPadding, hread]
    | none =>
      have hread : padding align (x.char :: rest) = some ((none, x), rest) := by
        rw [padding, orElse, filledAlign, hone rest hfirst, bareAlign, hx]
        rfl
      rw [optional]
      simp [spellPadding, hread]
  | none =>
    have hfill : fill = none := by
      rw [← Option.not_isSome_iff_eq_none]
      intro hf
      exact absurd (hp.align_of_fill hf) (by simp)
    have hread : padding align rest = none := by
      rw [padding, orElse, bareAlign, hone rest hfirst]
      cases rest with
      | nil => rfl
      | cons c rest =>
        rw [filledAlign, hone rest (hsecond rfl)]
        rfl
    rw [hfill, optional]
    simp [spellPadding, hread]

/-! ## The order of specifiers -/

/-- The place, in the fixed order of specifiers, of the part that a character can begin. -/
def slot (c : Char) : Nat :=
  if (Align.ofChar? c).isSome then 1
  else if (SignMode.ofChar? c).isSome then 2
  else if c = 'z' then 3
  else if c = '#' then 4
  else if c = '0' then 5
  else if startsWidth c then 6
  else if c = ',' ∨ c = '_' then 7
  else if c = '.' then 8
  else if c = 'L' then 9
  else 10

theorem ofChar?_eq_none_of_slot {c : Char} (h : 2 ≤ slot c) : Align.ofChar? c = none := by
  rw [← Option.not_isSome_iff_eq_none]
  intro hc
  rw [slot, if_pos hc] at h
  omega

theorem sign_eq_none_of_slot {c : Char} (h : 3 ≤ slot c) : SignMode.ofChar? c = none := by
  rw [← Option.not_isSome_iff_eq_none]
  intro hc
  unfold slot at h
  split_ifs at h
  · omega
  · omega

theorem ne_of_slot_lt {c d : Char} (h : slot d < slot c) : c ≠ d := by
  rintro rfl
  omega

theorem slot_le_of_startsWidth {c : Char} (h : startsWidth c = true) : slot c ≤ 6 := by
  unfold slot
  split_ifs <;> omega

theorem startsWidth_eq_false_of_slot {c : Char} (h : 7 ≤ slot c) : startsWidth c = false := by
  rw [← Bool.not_eq_true]
  intro hc
  have := slot_le_of_startsWidth hc
  omega

theorem isDigit_eq_false_of_slot {c : Char} (h : 7 ≤ slot c) : c.isDigit = false := by
  have hw := startsWidth_eq_false_of_slot h
  rw [startsWidth, Bool.or_eq_false_iff] at hw
  exact hw.1

theorem groupSeparator_eq_none_of_slot {c : Char} (h : 8 ≤ slot c) : groupSeparator c = none := by
  rw [groupSeparator, if_neg]
  rintro (rfl | rfl)
  · exact absurd h (by decide)
  · exact absurd h (by decide)

/-- The parts of a text that start no earlier than a place in the order. -/
def BeginsAt (place : Nat) (text : List Char) : Prop :=
  ∀ c ∈ text.head?, place ≤ slot c

theorem BeginsAt.mono {low high : Nat} (hle : low ≤ high) {text : List Char}
    (h : BeginsAt high text) : BeginsAt low text :=
  fun c hc => Nat.le_trans hle (h c hc)

theorem beginsAt_nil (place : Nat) : BeginsAt place [] := by
  intro c hc
  simp at hc

theorem BeginsAt.append {place : Nat} {front rest : List Char} (hf : BeginsAt place front)
    (hr : BeginsAt place rest) : BeginsAt place (front ++ rest) := by
  cases front with
  | nil => exact hr
  | cons c front => exact hf

theorem beginsAt_sign (sign : Option SignMode) : BeginsAt 2 (sign.map SignMode.char).toList := by
  rcases sign with _ | (_ | _ | _)
  · exact beginsAt_nil 2
  all_goals
    intro c hc
    obtain rfl := Option.some.inj hc
    decide

theorem beginsAt_spellFlag {place : Nat} {c : Char} (on : Bool) (hc : place ≤ slot c) :
    BeginsAt place (spellFlag c on) := by
  cases on with
  | true =>
    intro d hd
    obtain rfl := Option.some.inj hd
    exact hc
  | false => exact beginsAt_nil place

theorem exists_cons_decimal {n : Nat} (hn : n ≠ 0) :
    ∃ c text, Digits.decimal n = c :: text ∧ c.isDigit = true ∧ c ≠ '0' := by
  have hnil : Digits.ofNat 10 n ≠ [] := Digits.ofNat_ne_nil (by omega) n
  have hib : Digits.InBase 10 (Digits.ofNat 10 n) := Digits.inBase_ofNat (by omega) n
  have hne : (Digits.ofNat 10 n).head? ≠ some 0 := Digits.head_ofNat_ne_zero (by omega) hn
  obtain ⟨d, digits, hd⟩ := List.exists_cons_of_ne_nil hnil
  rw [hd] at hib hne
  have hlt : d < 10 := (Digits.inBase_cons.1 hib).1
  have hd0 : d ≠ 0 := by simpa using hne
  refine ⟨Digits.char d, Digits.chars digits, ?_, ?_⟩
  · rw [Digits.decimal, hd]
    rfl
  · have hall : ∀ d < 10, d ≠ 0 → (Digits.char d).isDigit = true ∧ Digits.char d ≠ '0' := by
      decide
    exact hall d hlt hd0

/-- A width starts with a digit other than zero, or with a brace. -/
theorem exists_cons_width {c : Count} (h : c.WellFormed 1) :
    ∃ first text, c.spell = first :: text ∧ startsWidth first = true ∧ first ≠ '0' := by
  cases c with
  | literal n =>
    obtain ⟨first, text, hn, hd, h0⟩ := exists_cons_decimal (Nat.one_le_iff_ne_zero.1 h.1)
    exact ⟨first, text, hn, by rw [startsWidth, hd, Bool.true_or], h0⟩
  | ref s => exact ⟨'{', s.spell ++ ['}'], rfl, rfl, by decide⟩

theorem slot_of_startsWidth {c : Char} (h : startsWidth c = true) (h0 : c ≠ '0') : slot c = 6 := by
  have hdigit : ∀ d : Char, startsWidth d = false → d ≠ c := by
    rintro d hd rfl
    rw [h] at hd
    exact absurd hd (by decide)
  have ha : Align.ofChar? c = none := by
    rw [← Option.not_isSome_iff_eq_none, Option.isSome_iff_exists]
    rintro ⟨a, ha⟩
    rw [Align.ofChar?_eq_some_iff] at ha
    exact hdigit a.char (by cases a <;> decide) ha.symm
  have hs : SignMode.ofChar? c = none := by
    rw [← Option.not_isSome_iff_eq_none, Option.isSome_iff_exists]
    rintro ⟨m, hm⟩
    rw [SignMode.ofChar?_eq_some_iff] at hm
    exact hdigit m.char (by cases m <;> decide) hm.symm
  have hz : c ≠ 'z' := (hdigit 'z' (by decide)).symm
  have halt : c ≠ '#' := (hdigit '#' (by decide)).symm
  simp [slot, ha, hs, hz, halt, h0, h]

theorem beginsAt_width {w : Option Count} (hw : ∀ c ∈ w, c.WellFormed 1) :
    BeginsAt 6 (spellOption Count.spell w) := by
  cases w with
  | none => exact beginsAt_nil 6
  | some c =>
    obtain ⟨first, text, hc, hf, h0⟩ := exists_cons_width (hw c rfl)
    intro d hd
    rw [spellOption, hc] at hd
    obtain rfl := Option.some.inj hd
    exact (slot_of_startsWidth hf h0).ge

theorem beginsAt_grouping {grouping : Option Char} (h : ∀ c ∈ grouping, c = ',' ∨ c = '_') :
    BeginsAt 7 grouping.toList := by
  cases grouping with
  | none => exact beginsAt_nil 7
  | some c =>
    intro d hd
    obtain rfl := Option.some.inj hd
    rcases h c rfl with rfl | rfl
    · decide
    · decide

theorem beginsAt_precision (p : Option Count) :
    BeginsAt 8 (spellOption (fun c => '.' :: Count.spell c) p) := by
  cases p with
  | none => exact beginsAt_nil 8
  | some c =>
    intro d hd
    obtain rfl := Option.some.inj hd
    decide

theorem beginsAt_type (type : TypeCode) : BeginsAt 10 type.char?.toList := by
  intro c hc
  rw [Option.mem_def, Option.head?_toList] at hc
  unfold TypeCode.char? at hc
  split at hc <;> cases hc <;> decide

/-! ## No specifier looks like an alignment -/

theorem two_le_slot_of_startsWidth {c : Char} (h : startsWidth c = true) : 2 ≤ slot c := by
  by_cases h0 : c = '0'
  · subst h0
    decide
  · rw [slot_of_startsWidth h h0]
    omega

theorem two_le_slot_of_mem_spell {least : Nat} {c : Count} (h : c.WellFormed least) {d : Char}
    (hd : d ∈ c.spell) : 2 ≤ slot d := by
  have hdigit : ∀ n, d ∈ Digits.decimal n → 2 ≤ slot d := by
    intro n hn
    exact two_le_slot_of_startsWidth (by rw [startsWidth, isDigit_of_mem_decimal hn, Bool.true_or])
  match c, h with
  | .literal n, _ => exact hdigit n hd
  | .ref .auto, _ =>
    simp only [Count.spell, Selector.spell, List.mem_append, List.mem_cons, List.not_mem_nil,
      or_false] at hd
    rcases hd with rfl | rfl
    · decide
    · decide
  | .ref (.index position), _ =>
    simp only [Count.spell, Selector.spell, List.mem_append, List.mem_cons, List.not_mem_nil,
      or_false] at hd
    rcases hd with (rfl | hd) | rfl
    · decide
    · exact hdigit position hd
    · decide

theorem two_le_slot_of_mem_spellOption {least : Nat} {w : Option Count}
    (hw : ∀ c ∈ w, c.WellFormed least) {d : Char} (hd : d ∈ spellOption Count.spell w) :
    2 ≤ slot d := by
  cases w with
  | none => simp [spellOption] at hd
  | some c => exact two_le_slot_of_mem_spell (hw c rfl) hd

theorem two_le_slot_of_mem_flag {c d : Char} {on : Bool} (hc : 2 ≤ slot c)
    (hd : d ∈ spellFlag c on) : 2 ≤ slot d := by
  cases on with
  | true =>
    rw [List.mem_singleton.1 hd]
    exact hc
  | false => simp [spellFlag] at hd

theorem two_le_slot_of_mem_toList {place : Nat} {o : Option Char} (hp : 2 ≤ place)
    (ho : BeginsAt place o.toList) {d : Char} (hd : d ∈ o.toList) : 2 ≤ slot d := by
  refine Nat.le_trans hp (ho d ?_)
  rw [Option.head?_toList]
  exact Option.mem_toList.1 hd

end Reader

/-- The text of an element behind its fill and alignment. -/
def Element.spellSpecifiers (element : Element Count) : List Char :=
  (element.sign.map SignMode.char).toList ++ (spellFlag 'z' element.positiveZero ++
    (spellFlag '#' element.alternate ++ (spellFlag '0' element.zeroPad ++
      (spellOption Count.spell element.width ++ (element.grouping.toList ++
        (spellOption (fun c => '.' :: Count.spell c) element.precision ++
          (spellFlag 'L' element.localized ++ element.type.char?.toList)))))))

theorem Element.spell_eq (element : Element Count) :
    element.spell = spellPadding element.fill element.align ++ element.spellSpecifiers := by
  simp [Element.spell, Element.spellSpecifiers]

namespace Reader

theorem two_le_slot_of_mem_spellSpecifiers {e : Element Count} (h : e.WellFormed) {d : Char}
    (hd : d ∈ e.spellSpecifiers) : 2 ≤ slot d := by
  simp only [Element.spellSpecifiers, List.mem_append] at hd
  rcases hd with hd | hd | hd | hd | hd | hd | hd | hd | hd
  · exact two_le_slot_of_mem_toList (Nat.le_refl 2) (beginsAt_sign e.sign) hd
  · exact two_le_slot_of_mem_flag (by decide) hd
  · exact two_le_slot_of_mem_flag (by decide) hd
  · exact two_le_slot_of_mem_flag (by decide) hd
  · exact two_le_slot_of_mem_spellOption h.width hd
  · exact two_le_slot_of_mem_toList (by omega) (beginsAt_grouping h.grouping) hd
  · cases hp : e.precision with
    | none =>
      rw [hp] at hd
      simp [spellOption] at hd
    | some c =>
      rw [hp, spellOption, List.mem_cons] at hd
      rcases hd with rfl | hd
      · decide
      · exact two_le_slot_of_mem_spell (h.precision c hp) hd
  · exact two_le_slot_of_mem_flag (by decide) hd
  · exact two_le_slot_of_mem_toList (by omega) (beginsAt_type e.type) hd

/-! ## Elements -/

theorem optional_type (type : TypeCode) :
    ((optional (oneOf TypeCode.ofChar?) type.char?.toList).1.getD .byKind,
      (optional (oneOf TypeCode.ofChar?) type.char?.toList).2) = (type, []) := by
  cases hc : type.char? with
  | none =>
    have hk : type = .byKind := by
      unfold TypeCode.char? at hc
      split at hc <;> first | rfl | simp at hc
    rw [hk]
    rfl
  | some c =>
    have hm : TypeCode.ofChar? c = some type := TypeCode.ofChar?_eq_some_iff.2 hc
    simp [optional, oneOf, hm]

theorem padding_fill {fill : Option Char} {a : Option Align} (hp : WellPadded fill a) :
    (a.map fun x => (fill, x)).bind (·.1) = fill := by
  cases a with
  | some x => rfl
  | none =>
    cases fill with
    | none => rfl
    | some f => exact absurd (hp.align_of_fill rfl) (by simp)

theorem padding_align (fill : Option Char) (a : Option Align) :
    (a.map fun x => (fill, x)).map (·.2) = a := by
  cases a <;> rfl

theorem groupSeparator_of_mem {c : Char} (h : c = ',' ∨ c = '_') : groupSeparator c = some c := by
  rw [groupSeparator, if_pos h]

theorem exists_cons_of_zeroPad {e : Element Count} (h : e.WellFormed) (rest : List Char)
    (hz : e.zeroPad = true) : ∃ c text, spellOption Count.spell e.width ++ rest = c :: text ∧
      startsWidth c = true := by
  obtain ⟨w, hw⟩ := Option.isSome_iff_exists.1 (h.width_of_zeroPad hz)
  obtain ⟨c, text, hc, hs, -⟩ := exists_cons_width (h.width w hw)
  exact ⟨c, text ++ rest, by rw [hw, spellOption, hc, List.cons_append], hs⟩

/-- An element that is written in its plain spelling is read back, and nothing is left. -/
theorem element_spell {e : Element Count} (h : e.WellFormed) : element e.spell = (e, []) := by
  have b10 := beginsAt_type e.type
  have b9 := (beginsAt_spellFlag e.localized (show 9 ≤ slot 'L' by decide)).append
    (b10.mono (by omega))
  have b8 := (beginsAt_precision e.precision).append (b9.mono (by omega))
  have b7 := (beginsAt_grouping h.grouping).append (b8.mono (by omega))
  have b6 := (beginsAt_width h.width).append (b7.mono (by omega))
  have b5 := (beginsAt_spellFlag e.zeroPad (show 5 ≤ slot '0' by decide)).append
    (b6.mono (by omega))
  have b4 := (beginsAt_spellFlag e.alternate (show 4 ≤ slot '#' by decide)).append
    (b5.mono (by omega))
  have b3 := (beginsAt_spellFlag e.positiveZero (show 3 ≤ slot 'z' by decide)).append
    (b4.mono (by omega))
  have b2 := (beginsAt_sign e.sign).append (b3.mono (by omega))
  -- Without an alignment nothing that is written can be taken for one, not even behind a fill.
  have hpad := optional_padding h.padded (fun a _ => Align.ofChar?_eq_some_iff.2 rfl)
    e.spellSpecifiers (fun c hc => ofChar?_eq_none_of_slot (b2 c hc))
    (fun _ c hc => ofChar?_eq_none_of_slot
      (two_le_slot_of_mem_spellSpecifiers h (List.mem_of_mem_tail (List.mem_of_mem_head? hc))))
  have hsign := optional_oneOf SignMode.char e.sign (fun m _ => SignMode.ofChar?_eq_some_iff.2 rfl)
    (fun c hc => sign_eq_none_of_slot (b3 c hc))
  have hz := flag_spellFlag 'z' e.positiveZero fun c hc => ne_of_slot_lt (b4 c hc)
  have halt := flag_spellFlag '#' e.alternate fun c hc => ne_of_slot_lt (b5 c hc)
  have hzero := zeroFlag_spellFlag (exists_cons_of_zeroPad h _)
    (fun _ c hc => ne_of_slot_lt (b6 c hc))
  have hwidth := optional_count (fun c hc => (h.width c hc).mono (Nat.zero_le 1))
    (fun c hc => startsWidth_eq_false_of_slot (b7 c hc))
  have hgroup := optional_oneOf id e.grouping (fun c hc => groupSeparator_of_mem (h.grouping c hc))
    (fun c hc => groupSeparator_eq_none_of_slot (b8 c hc))
  have hprec := optional_precision h.precision
    (fun c hc => ⟨isDigit_eq_false_of_slot (Nat.le_trans (by omega) (b9 c hc)),
      ne_of_slot_lt (Nat.lt_of_lt_of_le (by decide) (b9 c hc))⟩)
  have hlocal := flag_spellFlag 'L' e.localized fun c hc => ne_of_slot_lt (b10 c hc)
  have htype := Prod.mk.inj (optional_type e.type)
  rw [Option.map_id_fun, id_eq] at hgroup
  rw [Element.spell_eq, element, hpad]
  simp only [Element.spellSpecifiers, hsign, hz, halt, hzero, hwidth, hgroup, hprec, hlocal, htype]
  rw [padding_fill h.padded, padding_align]

/-! ## Layers -/

theorem optional_kind (kind : ContainerKind) (text : List Char) :
    ((optional (oneOf ContainerKind.ofChar?) (kind.char?.toList ++ ':' :: text)).1.getD .plain,
      (optional (oneOf ContainerKind.ofChar?) (kind.char?.toList ++ ':' :: text)).2) =
      (kind, ':' :: text) := by
  cases kind <;> rfl

theorem beginsAt_kind (kind : ContainerKind) (text : List Char) :
    BeginsAt 10 (kind.char?.toList ++ ':' :: text) := by
  intro c hc
  cases kind <;> (obtain rfl := Option.some.inj hc; decide)

theorem two_le_slot_of_mem_kind {kind : ContainerKind} {d : Char} (hd : d ∈ kind.char?.toList) :
    2 ≤ slot d := by
  cases kind with
  | plain => simp [ContainerKind.char?] at hd
  | brace => rw [List.mem_singleton.1 hd]; decide
  | tuple => rw [List.mem_singleton.1 hd]; decide
  | bare => rw [List.mem_singleton.1 hd]; decide
  | flat => rw [List.mem_singleton.1 hd]; decide

/-- Neither the text of a layer behind its padding nor what follows it looks like an alignment. -/
theorem no_align_behind_padding {layer : Layer Count} (h : layer.WellFormed) {text : List Char}
    (hs : layer.spell = [] → ∀ c ∈ text.head?, Align.ofChar? c = none) :
    let rest := spellOption Count.spell layer.width ++ (layer.kind.char?.toList ++ ':' :: text)
    (∀ c ∈ rest.head?, Align.ofChar? c = none) ∧
      (layer.align = none → ∀ c ∈ rest.tail.head?, Align.ofChar? c = none) := by
  intro rest
  have hbegin : BeginsAt 6 rest :=
    (beginsAt_width h.width).append ((beginsAt_kind layer.kind text).mono (by omega))
  refine ⟨fun c hc => ofChar?_eq_none_of_slot (Nat.le_trans (by omega) (hbegin c hc)), ?_⟩
  intro hnone c hc
  have hfill : layer.fill = none := by
    rw [← Option.not_isSome_iff_eq_none]
    intro hf
    exact absurd (h.padded.align_of_fill hf) (by simp [hnone])
  have hspell : layer.spell = spellOption Count.spell layer.width ++ layer.kind.char?.toList := by
    simp [Layer.spell, spellPadding, hfill, hnone]
  have hrest : rest = layer.spell ++ ':' :: text := by
    rw [hspell, List.append_assoc]
  rw [hrest] at hc
  cases hfront : layer.spell with
  | nil =>
    rw [hfront] at hc
    exact hs hfront c hc
  | cons first front =>
    rw [hfront, List.cons_append, List.tail_cons] at hc
    cases front with
    | nil =>
      obtain rfl := Option.some.inj hc
      decide
    | cons second front =>
      obtain rfl := Option.some.inj hc
      have hmem : second ∈ layer.spell := by simp [hfront]
      rw [hspell, List.mem_append] at hmem
      rcases hmem with hmem | hmem
      · exact ofChar?_eq_none_of_slot (two_le_slot_of_mem_spellOption h.width hmem)
      · exact ofChar?_eq_none_of_slot (two_le_slot_of_mem_kind hmem)

theorem containerAlign_char {a : Align} (h : a ≠ .signAware) : containerAlign a.char = some a := by
  cases a with
  | signAware => exact absurd rfl h
  | left => rfl
  | center => rfl
  | right => rfl

theorem containerAlign_eq_none {c : Char} (h : Align.ofChar? c = none) :
    containerAlign c = none := by
  rw [containerAlign, h, ite_self]

/-- The padding of a layer is read back by either rule for alignments. -/
theorem optional_padding_layer {align : Char → Option Align} {layer : Layer Count}
    (h : layer.WellFormed) (ha : ∀ x ∈ layer.align, align x.char = some x)
    (hnone : ∀ c, Align.ofChar? c = none → align c = none) {text : List Char}
    (hs : layer.spell = [] → ∀ c ∈ text.head?, Align.ofChar? c = none) :
    optional (padding align) (layer.spell ++ ':' :: text) =
      (layer.align.map (layer.fill, ·), spellOption Count.spell layer.width ++
        (layer.kind.char?.toList ++ ':' :: text)) := by
  obtain ⟨hfirst, hsecond⟩ := no_align_behind_padding h hs
  have hspell : layer.spell ++ ':' :: text = spellPadding layer.fill layer.align ++
      (spellOption Count.spell layer.width ++ (layer.kind.char?.toList ++ ':' :: text)) := by
    simp [Layer.spell]
  rw [hspell]
  exact optional_padding h.padded ha _ (fun c hc => hnone c (hfirst c hc))
    fun hn c hc => hnone c (hsecond hn c hc)

/-- A layer that is written in its plain spelling is read back up to the colon behind it. -/
theorem layer_spell_append {layer : Layer Count} (h : layer.WellFormed) {text : List Char}
    (hs : layer.spell = [] → ∀ c ∈ text.head?, Align.ofChar? c = none) :
    Reader.layer (layer.spell ++ ':' :: text) = (layer, ':' :: text) := by
  have hpad := optional_padding_layer h
    (fun a ha => containerAlign_char fun hsa => h.not_signAware (by rw [← hsa]; exact ha))
    (fun _ => containerAlign_eq_none) hs
  have hwidth := optional_count (fun c hc => (h.width c hc).mono (Nat.zero_le 1))
    (fun c hc => startsWidth_eq_false_of_slot
      (Nat.le_trans (by omega) (beginsAt_kind layer.kind text c hc)))
  have hkind := Prod.mk.inj (optional_kind layer.kind text)
  rw [Reader.layer, hpad]
  simp only [hwidth, hkind]
  rw [padding_fill h.padded, padding_align]

/-! ## Telling layers from the element -/

/-- A step leaves the colons of the text it reads. -/
def KeepsColon {α : Type} (step : Reader α) : Prop :=
  ∀ text a rest, step text = some (a, rest) → ':' ∈ text → ':' ∈ rest

theorem keepsColon_oneOf {α : Type} {meaning : Char → Option α} (h : meaning ':' = none) :
    KeepsColon (oneOf meaning) := by
  intro text a rest hstep hc
  cases text with
  | nil => simp at hc
  | cons c text =>
    obtain ⟨b, hb, hpair⟩ := Option.map_eq_some_iff.1 hstep
    obtain ⟨-, rfl⟩ := Prod.mk.inj hpair
    rcases List.mem_cons.1 hc with rfl | hc
    · rw [h] at hb
      simp at hb
    · exact hc

theorem colon_mem_dropWhile_isDigit {text : List Char} (hc : ':' ∈ text) :
    ':' ∈ text.dropWhile Char.isDigit := by
  rw [← List.takeWhile_append_dropWhile (p := Char.isDigit) (l := text), List.mem_append] at hc
  rcases hc with hc | hc
  · exact absurd (List.mem_takeWhile_imp hc) (by decide)
  · exact hc

theorem keepsColon_natural : KeepsColon natural := by
  intro text n rest hstep hc
  unfold natural at hstep
  simp only at hstep
  split at hstep
  · obtain ⟨-, rfl⟩ := Prod.mk.inj (Option.some.inj hstep)
    exact colon_mem_dropWhile_isDigit hc
  · simp at hstep

theorem colon_mem_optional {α : Type} {step : Reader α} (h : KeepsColon step) {text : List Char}
    (hc : ':' ∈ text) : ':' ∈ (optional step text).2 := by
  unfold optional
  split
  · rename_i a rest heq
    exact h text a rest heq hc
  · exact hc

theorem keepsColon_reference : KeepsColon reference := by
  intro text s rest hstep hc
  unfold reference at hstep
  split at hstep
  · rename_i inner
    have hmem : ':' ∈ (optional natural inner).2 :=
      colon_mem_optional keepsColon_natural (by simpa using hc)
    simp only at hstep
    split at hstep
    · rename_i rest' heq
      obtain ⟨-, rfl⟩ := Prod.mk.inj (Option.some.inj hstep)
      rw [heq] at hmem
      simpa using hmem
    · simp at hstep
  · simp at hstep

theorem keepsColon_count : KeepsColon count := by
  intro text c rest hstep hc
  unfold count at hstep
  split at hstep
  · rename_i n rest' heq
    obtain ⟨-, rfl⟩ := Prod.mk.inj (Option.some.inj hstep)
    exact keepsColon_natural text n rest' heq hc
  · obtain ⟨⟨s, r⟩, heq, hpair⟩ := Option.map_eq_some_iff.1 hstep
    obtain ⟨-, rfl⟩ := Prod.mk.inj hpair
    exact keepsColon_reference text s r heq hc

theorem keepsColon_precision : KeepsColon precision := by
  intro text c rest hstep hc
  unfold precision at hstep
  split at hstep
  · exact keepsColon_count _ c rest hstep (by simpa using hc)
  · simp at hstep

theorem colon_mem_flag {c : Char} (hne : c ≠ ':') {text : List Char} (hc : ':' ∈ text) :
    ':' ∈ (flag c text).2 := by
  cases text with
  | nil => simp at hc
  | cons d text =>
    by_cases hd : d = c
    · subst hd
      rcases List.mem_cons.1 hc with rfl | hc
      · exact absurd rfl hne
      · simpa [flag] using hc
    · simpa [flag, hd] using hc

theorem colon_mem_zeroFlag {text : List Char} (hc : ':' ∈ text) : ':' ∈ (zeroFlag text).2 := by
  unfold zeroFlag
  split
  · split
    · simpa using hc
    · exact hc
  · exact hc

/-- An element leaves the colons that stand behind its padding. -/
theorem colon_mem_element {text : List Char}
    (hc : ':' ∈ (optional (padding Align.ofChar?) text).2) : ':' ∈ (element text).2 := by
  unfold element
  have hsign := colon_mem_optional (keepsColon_oneOf (show SignMode.ofChar? ':' = none from rfl)) hc
  have hz := colon_mem_flag (show 'z' ≠ ':' by decide) hsign
  have halt := colon_mem_flag (show '#' ≠ ':' by decide) hz
  have hwidth := colon_mem_optional keepsColon_count (colon_mem_zeroFlag halt)
  have hgroup := colon_mem_optional
    (keepsColon_oneOf (show groupSeparator ':' = none from rfl)) hwidth
  have hlocal := colon_mem_flag (show 'L' ≠ ':' by decide)
    (colon_mem_optional keepsColon_precision hgroup)
  exact colon_mem_optional (keepsColon_oneOf (show TypeCode.ofChar? ':' = none from rfl)) hlocal

/-- A text is a sequence of segments only if no empty layer is followed by what looks like its
alignment: the colon that closes the layer would be the fill. -/
def Separated (segments : List (List Char)) : Prop :=
  segments.IsChain fun text next => text = [] → ∀ c ∈ next.head?, c ∉ ['<', '^', '>', '=']

end Reader

/-- The texts of the segments of a field, without the colons between them. -/
def Field.segments (field : Field) : List (List Char) :=
  field.layers.map Layer.spell ++ [field.element.spell]

/-- The text of a field with a colon behind the selector, also where none is needed. -/
def Field.canonical (field : Field) : List Char :=
  field.selector.spell ++ ':' :: spellPresentation field.layers field.element

namespace Reader

theorem ofChar?_eq_none_iff {c : Char} :
    Align.ofChar? c = none ↔ c ∉ ['<', '^', '>', '='] := by
  rw [← Option.not_isSome_iff_eq_none, Option.isSome_iff_exists]
  simp only [Align.ofChar?_eq_some_iff]
  refine not_congr ⟨?_, ?_⟩
  · rintro ⟨a, rfl⟩
    cases a <;> decide
  · intro h
    simp only [List.mem_cons, List.not_mem_nil, or_false] at h
    rcases h with rfl | rfl | rfl | rfl
    · exact ⟨.left, rfl⟩
    · exact ⟨.center, rfl⟩
    · exact ⟨.right, rfl⟩
    · exact ⟨.signAware, rfl⟩

/-- The first character behind the colon of a layer is that of the next segment, or another
colon. -/
theorem no_align_of_separated {text : List Char} {layers : List (Layer Count)}
    {e : Element Count} (h : Separated (text :: (layers.map Layer.spell ++ [e.spell]))) :
    text = [] → ∀ c ∈ (spellPresentation layers e).head?, Align.ofChar? c = none := by
  intro htext c hc
  cases layers with
  | nil =>
    rw [Separated, List.map_nil, List.nil_append, List.isChain_pair] at h
    exact ofChar?_eq_none_iff.2 (h htext c hc)
  | cons first layers =>
    rw [Separated, List.map_cons, List.cons_append, List.isChain_cons_cons] at h
    have hsplit : spellPresentation (first :: layers) e =
        first.spell ++ ':' :: spellPresentation layers e := by
      simp [spellPresentation]
    rw [hsplit] at hc
    cases hfirst : first.spell with
    | nil =>
      rw [hfirst] at hc
      obtain rfl := Option.some.inj hc
      rfl
    | cons d rest =>
      rw [hfirst] at hc
      refine ofChar?_eq_none_iff.2 (h.1 htext c ?_)
      rw [hfirst]
      exact hc

/-- Layers and element are read back from their plain spelling. -/
theorem presentation_spellPresentation {layers : List (Layer Count)} {e : Element Count}
    (hl : ∀ layer ∈ layers, layer.WellFormed) (he : e.WellFormed)
    (hs : Separated (layers.map Layer.spell ++ [e.spell])) :
    presentation (spellPresentation layers e) = .ok (layers, e) := by
  induction layers with
  | nil =>
    rw [spellPresentation, List.flatMap_nil, List.nil_append, presentation, element_spell he]
  | cons first layers ih =>
    have hfirst := hl first List.mem_cons_self
    have hsplit : spellPresentation (first :: layers) e =
        first.spell ++ ':' :: spellPresentation layers e := by
      simp [spellPresentation]
    have hclear := no_align_of_separated hs
    -- The colon of the layer is left over, so the segment is not taken for the element.
    have hcolon : ':' ∈ (element (first.spell ++ ':' :: spellPresentation layers e)).2 := by
      refine colon_mem_element ?_
      rw [optional_padding_layer hfirst (fun a _ => Align.ofChar?_eq_some_iff.2 rfl)
        (fun _ => id) hclear]
      simp
    have hread := layer_spell_append hfirst hclear
    have ih := ih (fun layer h => hl layer (List.mem_cons_of_mem _ h)) hs.tail
    rw [hsplit, presentation]
    split
    · rename_i heq
      rw [heq] at hcolon
      simp at hcolon
    · split
      · rename_i layer rest heq
        rw [hread] at heq
        obtain ⟨rfl, htail⟩ := Prod.mk.inj heq
        obtain ⟨-, rfl⟩ := List.cons.inj htail
        rw [ih]
        rfl
      · rename_i hno
        exact absurd hread (hno first _)

end Reader

/-! ## The whole field -/

theorem Field.read_canonical {field : Field} (h : field.WellFormed)
    (hs : Reader.Separated field.segments) :
    Field.read (String.ofList field.canonical) =
      .ok { field with raw := String.ofList field.canonical } := by
  have hsel := Reader.selector_spell_append h.selector
    (spellPresentation field.layers field.element)
  have hpres := Reader.presentation_spellPresentation h.layers h.element hs
  rw [Field.read, String.toList_ofList, Field.canonical, hsel]
  simp only [hpres]

/-- Reading and checking a well-formed field in its plain spelling gives it back. -/
theorem Field.parse_canonical {field : Field} (h : field.WellFormed)
    (hs : Reader.Separated field.segments) :
    Field.parse (String.ofList field.canonical) =
      .ok { field with raw := String.ofList field.canonical } := by
  have hcheck : Field.check { field with raw := String.ofList field.canonical } = .ok () :=
    Field.check_eq_ok ⟨h.selector, h.layers, h.element⟩
  rw [Field.parse, Field.read_canonical h hs]
  simp only [bind, Except.bind, hcheck]
  rfl

/-- A well-formed field in its plain spelling is read back as it was, unless a colon in it could be
taken for a fill. -/
theorem parseField_canonical {field : Field} (h : field.WellFormed)
    (hs : Reader.Separated field.segments) :
    parseField (String.ofList field.canonical) =
      .ok { field with raw := String.ofList field.canonical } := by
  rw [parseField, Field.parse_canonical h hs]
  rfl

/-- A field that is hard to cut: a layer with no text in front of one whose fill is a colon, and an
element whose fill is an alignment. -/
def crowdedField : Field where
  raw := ""
  selector := .index 0
  layers :=
    [{}, { fill := some ':', align := some .left, width := some (.literal 5), kind := .flat }]
  element :=
    { fill := some '>', align := some .signAware, sign := some .always, alternate := true,
      zeroPad := true, width := some (.literal 12), grouping := some '_',
      precision := some (.ref .auto), type := .exponent .lower }

theorem crowdedField_canonical :
    String.ofList crowdedField.canonical = "0:::<5s:>=+#012_.\x7b\x7de" := by
  cbv

theorem crowdedField_wellFormed : crowdedField.WellFormed where
  selector := show 0 < wordLimit by decide
  layers := by
    intro layer hl
    simp only [crowdedField, List.mem_cons, List.not_mem_nil, or_false] at hl
    rcases hl with rfl | rfl
    · exact ⟨⟨by simp, by simp⟩, by simp, by simp⟩
    · exact ⟨⟨by simp, by simp⟩, by simp, by simp [Count.WellFormed, maxCount]⟩
  element :=
    { padded := ⟨by simp [crowdedField], by simp [crowdedField]⟩
      width_of_zeroPad := by simp [crowdedField]
      width := by simp [crowdedField, Count.WellFormed, maxCount]
      precision := by simp [crowdedField, Count.WellFormed]
      grouping := by simp [crowdedField]
      one_grouping := by simp [crowdedField]
      admitted := by
        intro s hs
        cases s <;> simp [crowdedField, TypeCode.specifiers, Specifier.all] }

theorem parseField_crowdedField :
    crowdedField.WellFormed ∧ Reader.Separated crowdedField.segments ∧
      parseField "0:::<5s:>=+#012_.\x7b\x7de" =
        .ok { crowdedField with raw := "0:::<5s:>=+#012_.\x7b\x7de" } := by
  have hs : Reader.Separated crowdedField.segments := by
    simp [Reader.Separated, crowdedField, Field.segments, Layer.spell, Element.spell,
      spellPadding, spellOption, ContainerKind.char?, Align.char]
  have h := parseField_canonical crowdedField_wellFormed hs
  rw [crowdedField_canonical] at h
  exact ⟨crowdedField_wellFormed, hs, h⟩

end Stencil
