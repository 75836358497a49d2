import Stencil.Proofs.Render.ZeroFill

/-!
# Whole numbers can be read back

The codes `d`, `b`, `o` and `x` write every whole number with all its digits, whether it is given as
an integer or as a double, and refuse a double that is none. Read in the radix of its code, the text
is the number again.

* `Digits.read?` — the number of a text of digits in either case.
* `Element.readWhole` — the number in a text with spaces, sign, radix mark and separators.
* `Element.PresentsWhole` — the elements that leave fill and alignment to the flag `0`.
* `Element.WritesWhole` — a text that is read as a number, and has its sign and no needless zeros.
* `written_integer` — the parts of such a text.
* `formatWith_whole` — what is written for a whole number, and that anything else is refused.
-/

namespace Stencil

/-! ## Reading digits -/

namespace Digits

/-- The digit of a character, in either case. -/
def ofChar? (c : Char) : Option Nat :=
  "0123456789abcdef".toList.idxOf? c.toLower

/-- The number of a text of digits in a radix. -/
def read? (radix : Nat) (text : List Char) : Option Nat := do
  let digits ← text.mapM ofChar?
  if digits ≠ [] ∧ ∀ d ∈ digits, d < radix then some (value radix digits) else none

theorem ofChar?_char {d : Nat} (hd : d < 16) :
    ofChar? (char d) = some d ∧ ofChar? (char d).toUpper = some d := by
  have hall : ∀ d < 16, ofChar? (char d) = some d ∧ ofChar? (char d).toUpper = some d := by decide
  exact hall d hd

theorem mapM_ofChar? (letters : LetterCase) {digits : List Nat} (h : InBase 16 digits) :
    (letters.apply (chars digits)).mapM ofChar? = some digits := by
  induction digits with
  | nil => cases letters <;> rfl
  | cons d digits ih =>
    rw [inBase_cons] at h
    obtain ⟨hlower, hupper⟩ := ofChar?_char h.1
    have hrest := ih h.2
    cases letters <;>
      simp_all [LetterCase.apply, chars]

theorem head?_bind_ofChar? (letters : LetterCase) {d : Nat} (hd : d < 16) (digits : List Nat) :
    (letters.apply (chars (d :: digits))).head?.bind ofChar? = some d := by
  cases letters with
  | lower => exact (ofChar?_char hd).1
  | upper => exact (ofChar?_char hd).2

theorem chars_zeros (count : Nat) : chars (List.replicate count 0) = List.replicate count '0' := by
  rw [chars, List.map_replicate]
  rfl

theorem chars_zeros_append (count : Nat) (digits : List Nat) :
    chars (List.replicate count 0 ++ digits) = List.replicate count '0' ++ chars digits := by
  rw [chars, List.map_append, ← chars, chars_zeros]
  rfl

/-- Digits in either case are read as their number. -/
theorem read?_chars (letters : LetterCase) {radix : Nat} (hradix : radix ≤ 16) {digits : List Nat}
    (h : InBase radix digits) (hne : digits ≠ []) :
    read? radix (letters.apply (chars digits)) = some (value radix digits) := by
  rw [read?, mapM_ofChar? letters (h.mono hradix)]
  exact if_pos ⟨hne, h⟩

end Digits

/-! ## Peeling a text -/

/-- A text without the sign in front of it. -/
def dropSign : List Char → List Char
  | [] => []
  | c :: rest => if c = '-' ∨ c = '+' then rest else c :: rest

/-- A text without the mark of a radix in front of it, in either case. -/
def dropMark (letter : Char) : List Char → List Char
  | '0' :: c :: rest => if c.toLower = letter then rest else '0' :: c :: rest
  | text => text

/-- The letter in the radix mark of a code. -/
def TypeCode.markLetter? : TypeCode → Option Char
  | binary _ => some 'b'
  | octal => some 'o'
  | hex _ => some 'x'
  | _ => none

/-- Whether a character stands between groups. -/
def isSeparator (c : Char) : Bool :=
  c == ',' || c == '_'

/-- A text without the radix mark that the alternate form of an element puts in front. -/
def Element.unmark (element : Element Nat) (text : List Char) : List Char :=
  match element.type.markLetter? with
  | some letter => if element.alternate then dropMark letter text else text
  | none => text

/-- The number in a text of an element: what is left without spaces, sign, radix mark and
separators is read in the radix of the code. -/
def Element.readWhole (element : Element Nat) (text : List Char) : Option Nat :=
  let unmarked := element.unmark (dropSign (text.dropWhile (· == ' ')))
  Digits.read? (element.type.radix?.getD 10) (unmarked.filter fun c => !isSeparator c)

/-- Spaces and a sign are dropped from in front of anything else. -/
theorem dropSign_dropWhile (spaces : Nat) (negative : Bool) (mode : Option SignMode) {c : Char}
    (rest : List Char) (hspace : c ≠ ' ') (hsign : ¬(c = '-' ∨ c = '+')) :
    dropSign ((List.replicate spaces ' ' ++ (signText negative mode ++ c :: rest)).dropWhile
      (· == ' ')) = c :: rest := by
  have hspaces : ∀ d ∈ List.replicate spaces ' ', (d == ' ') = true := by
    intro d hd
    rw [List.eq_of_mem_replicate hd]
    rfl
  have hkept : (c :: rest).dropWhile (· == ' ') = c :: rest :=
    List.dropWhile_cons_of_neg (by simpa using hspace)
  have hnone : dropSign (c :: rest) = c :: rest := if_neg hsign
  rw [List.dropWhile_append_of_pos hspaces]
  unfold signText
  split_ifs
  · rfl
  · split
    · rfl
    · rw [List.singleton_append, List.dropWhile_cons_of_pos (by rfl), hkept, hnone]
    · rw [List.nil_append, hkept, hnone]

/-- A text without the letter has no mark to drop. -/
theorem dropMark_of_not_mem {letter : Char} {text : List Char}
    (h : ∀ c ∈ text, c.toLower ≠ letter) : dropMark letter text = text := by
  unfold dropMark
  split
  · rename_i c rest
    exact if_neg (h c (by simp))
  · rfl

/-! ## Characters in either case -/

/-- Only letters change their case. -/
theorem toUpper_eq_iff {c d : Char} (hd : d.isAlpha = false) : c.toUpper = d ↔ c = d := by
  have hfixed {c : Char} (hc : c.isAlpha = false) : c.toUpper = c := by
    refine Char.toUpper_eq_of_not_isLower ?_
    rw [Char.isAlpha, Bool.or_eq_false_iff] at hc
    simp [hc.2]
  constructor
  · rintro rfl
    rw [Char.isAlpha_toUpper_eq_isAlpha] at hd
    exact (hfixed hd).symm
  · rintro rfl
    exact hfixed hd

theorem isSeparator_toUpper (c : Char) : isSeparator c.toUpper = isSeparator c := by
  rw [Bool.eq_iff_iff]
  have hcomma := toUpper_eq_iff (c := c) (show ','.isAlpha = false by decide)
  have hlow := toUpper_eq_iff (c := c) (show '_'.isAlpha = false by decide)
  simp only [isSeparator, Bool.or_eq_true, beq_iff_eq, hcomma, hlow]

theorem LetterCase.apply_zeros (letters : LetterCase) (count : Nat) :
    letters.apply (List.replicate count '0') = List.replicate count '0' := by
  cases letters with
  | lower => rfl
  | upper => rw [LetterCase.apply, List.map_replicate]; rfl

theorem LetterCase.apply_signText (letters : LetterCase) (negative : Bool)
    (mode : Option SignMode) : letters.apply (signText negative mode) = signText negative mode := by
  unfold signText
  cases letters with
  | lower => rfl
  | upper =>
    split_ifs
    · rfl
    · split <;> rfl

theorem LetterCase.mem_apply_iff (letters : LetterCase) {c : Char} (hc : c.isAlpha = false)
    (text : List Char) : c ∈ letters.apply text ↔ c ∈ text := by
  cases letters with
  | lower => rfl
  | upper => simp [LetterCase.apply, toUpper_eq_iff hc]

theorem LetterCase.filter_apply (letters : LetterCase) (text : List Char) :
    (letters.apply text).filter (fun c => !isSeparator c) =
      letters.apply (text.filter fun c => !isSeparator c) := by
  cases letters with
  | lower => rfl
  | upper =>
    rw [LetterCase.apply, List.filter_map]
    congr 1
    exact List.filter_congr fun c _ => by rw [Function.comp_apply, isSeparator_toUpper]

/-! ## Digits with their separators -/

/-- A run of digits, in groups if there are any. -/
def grouped (grouping : Option Grouping) (run : List Char) : List Char :=
  match grouping with
  | none => run
  | some g => g.apply run

/-- Digits below sixteen in groups that the separators of numbers mark, in the letters of a case. -/
structure IsBody (letters : LetterCase) (digits : List Nat) (body : List Char) : Prop where
  filter : body.filter (fun c => !isSeparator c) = letters.apply (Digits.chars digits)
  head : body.head? = (letters.apply (Digits.chars digits)).head?
  mem : ∀ c ∈ body, isSeparator c = true ∨ (Digits.ofChar? c).isSome

theorem isSeparator_char {d : Nat} (hd : d < 16) : isSeparator (Digits.char d) = false := by
  have hall : ∀ d < 16, isSeparator (Digits.char d) = false := by decide
  exact hall d hd

section

variable {grouping : Option Grouping} {run : List Char}

theorem head?_grouped (grouping : Option Grouping) (run : List Char) :
    (grouped grouping run).head? = run.head? := by
  cases grouping with
  | none => rfl
  | some g => exact g.head?_apply run

theorem filter_grouped (hseparator : ∀ g ∈ grouping, isSeparator g.separator = true)
    (hrun : ∀ c ∈ run, isSeparator c = false) :
    (grouped grouping run).filter (fun c => !isSeparator c) = run := by
  cases grouping with
  | none => exact List.filter_eq_self.2 fun c hc => by simp [hrun c hc]
  | some g => exact g.filter_apply (by simp [hseparator g rfl]) fun c hc => by simp [hrun c hc]

theorem mem_grouped (hseparator : ∀ g ∈ grouping, isSeparator g.separator = true) {c : Char}
    (hc : c ∈ grouped grouping run) : isSeparator c = true ∨ c ∈ run := by
  cases grouping with
  | none => exact .inr hc
  | some g =>
    refine (g.eq_or_mem_of_mem_apply hc).imp_left ?_
    rintro rfl
    exact hseparator g rfl

end

theorem isBody_grouped (letters : LetterCase) {grouping : Option Grouping}
    (hseparator : ∀ g ∈ grouping, isSeparator g.separator = true) {digits : List Nat}
    (hin : Digits.InBase 16 digits) :
    IsBody letters digits (letters.apply (grouped grouping (Digits.chars digits))) := by
  have hpass : ∀ c ∈ Digits.chars digits, isSeparator c = false := by
    intro c hc
    obtain ⟨d, hd, rfl⟩ := List.mem_map.1 hc
    exact isSeparator_char (hin d hd)
  have hdigit : ∀ c ∈ Digits.chars digits,
      (Digits.ofChar? c).isSome ∧ (Digits.ofChar? c.toUpper).isSome := by
    intro c hc
    obtain ⟨d, hd, rfl⟩ := List.mem_map.1 hc
    rw [(Digits.ofChar?_char (hin d hd)).1, (Digits.ofChar?_char (hin d hd)).2]
    exact ⟨rfl, rfl⟩
  constructor
  case filter => rw [letters.filter_apply, filter_grouped hseparator hpass]
  case head =>
    have hhead := head?_grouped grouping (Digits.chars digits)
    cases letters with
    | lower => exact hhead
    | upper => rw [LetterCase.apply, List.head?_map, hhead, LetterCase.apply, List.head?_map]
  case mem =>
    intro c hc
    cases letters with
    | lower => exact (mem_grouped hseparator hc).imp_right fun hc => (hdigit c hc).1
    | upper =>
      obtain ⟨low, hlow, rfl⟩ := List.mem_map.1 hc
      rw [isSeparator_toUpper]
      exact (mem_grouped hseparator hlow).imp_right fun hc => (hdigit low hc).2

section

variable {letters : LetterCase} {digits : List Nat} {body : List Char}

/-- A body has no characters but digits and separators. -/
theorem IsBody.not_mem (h : IsBody letters digits body) {c : Char} (hc : isSeparator c = false)
    (hdigit : Digits.ofChar? c = none) : c ∉ body := by
  intro hmem
  rcases h.mem c hmem with hsep | hsome
  · rw [hc] at hsep
    exact Bool.false_ne_true hsep
  · rw [hdigit] at hsome
    exact Bool.false_ne_true hsome

/-- No character of a body is the letter of the octal mark. -/
theorem IsBody.toLower_ne (h : IsBody letters digits body) : ∀ c ∈ body, c.toLower ≠ 'o' := by
  intro c hc hletter
  rcases h.mem c hc with hsep | hsome
  · rw [isSeparator, Bool.or_eq_true, beq_iff_eq, beq_iff_eq] at hsep
    rcases hsep with rfl | rfl <;> exact absurd hletter (by decide)
  · rw [Digits.ofChar?, hletter] at hsome
    exact absurd hsome (by decide)

theorem IsBody.exists_cons (h : IsBody letters digits body) (hne : digits ≠ []) :
    ∃ c rest, body = c :: rest := by
  have hhead := h.head
  cases body with
  | nil =>
    have hnil := congrArg List.length (List.head?_eq_none_iff.1 hhead.symm)
    rw [letters.length_apply, Digits.chars, List.length_map] at hnil
    exact absurd (List.eq_nil_of_length_eq_zero hnil) hne
  | cons c rest => exact ⟨c, rest, rfl⟩

/-! ## Reading a text -/

/-- What is left behind the radix mark is the body, and a zero if that was the mark. -/
theorem unmark_radixMark (element : Element Nat) (isZero : Bool) (mark : OctalMark)
    (h : IsBody letters digits body) (hradix : element.type.radix?.isSome) :
    ∃ zeros, element.unmark (element.type.letters.apply (radixMark element isZero mark) ++ body) =
      List.replicate zeros '0' ++ body := by
  have hkept : dropMark 'o' body = body := dropMark_of_not_mem h.toLower_ne
  have hkept' : dropMark 'o' ('0' :: body) = '0' :: body := by
    refine dropMark_of_not_mem (List.forall_mem_cons.2 ⟨by decide, h.toLower_ne⟩)
  unfold Element.unmark radixMark
  cases htype : element.type with
  | decimal | localeInteger =>
    refine ⟨0, ?_⟩
    cases element.alternate <;> rfl
  | binary case | hex case =>
    refine ⟨0, ?_⟩
    cases element.alternate <;> cases case <;> rfl
  | octal =>
    cases element.alternate with
    | false => exact ⟨0, rfl⟩
    | true =>
      cases mark with
      | letter => exact ⟨0, rfl⟩
      | bareZero =>
        cases isZero with
        | true => exact ⟨0, hkept⟩
        | false => exact ⟨1, hkept'⟩
  | _ => simp [htype, TypeCode.radix?] at hradix

/-- Behind spaces and sign comes a digit, be it that of a radix mark. -/
theorem mark_append_body_eq_cons (element : Element Nat) (isZero : Bool) (mark : OctalMark)
    (h : IsBody letters digits body) (hne : digits ≠ []) :
    ∃ c rest, element.type.letters.apply (radixMark element isZero mark) ++ body = c :: rest ∧
      c ≠ ' ' ∧ ¬(c = '-' ∨ c = '+') := by
  have hmark : radixMark element isZero mark = [] ∨
      ∃ rest, radixMark element isZero mark = '0' :: rest := by
    unfold radixMark
    repeat' split
    all_goals simp
  rcases hmark with hmark | ⟨rest, hmark⟩
  · obtain ⟨c, rest, rfl⟩ := h.exists_cons hne
    have hother {d : Char} (hd : isSeparator d = false) (hdigit : Digits.ofChar? d = none) :
        c ≠ d := by
      rintro rfl
      exact h.not_mem hd hdigit List.mem_cons_self
    refine ⟨c, rest, ?_, hother (by decide) (by decide), ?_⟩
    · rw [hmark]
      cases element.type.letters <;> rfl
    · rintro (hminus | hplus)
      · exact hother (by decide) (by decide) hminus
      · exact hother (by decide) (by decide) hplus
  · refine ⟨'0', element.type.letters.apply rest ++ body, ?_, by decide, by decide⟩
    rw [hmark]
    cases element.type.letters <;> rfl

/-- A text of spaces, sign, radix mark and body is read as the number of its digits. -/
theorem readWhole_eq {element : Element Nat} {radix : Nat}
    (hradix : element.type.radix? = some radix) (hone : 1 < radix) (hle : radix ≤ 16)
    (h : IsBody element.type.letters digits body) (hin : Digits.InBase radix digits)
    (hne : digits ≠ []) (spaces : Nat) (negative isZero : Bool) (mark : OctalMark) :
    element.readWhole (List.replicate spaces ' ' ++ (signText negative element.sign ++
      (element.type.letters.apply (radixMark element isZero mark) ++ body))) =
      some (Digits.value radix digits) := by
  obtain ⟨zeros, hunmark⟩ := unmark_radixMark element isZero mark h (by simp [hradix])
  obtain ⟨c, rest, hcons, hspace, hsign⟩ := mark_append_body_eq_cons element isZero mark h hne
  have hpass : (List.replicate zeros '0').filter (fun c => !isSeparator c) =
      List.replicate zeros '0' := List.filter_eq_self.2 fun c hc => by
    rw [List.eq_of_mem_replicate hc]
    rfl
  have hrun := Digits.read?_chars element.type.letters hle
    (Digits.inBase_append.2 ⟨Digits.inBase_replicate_zero (by omega) zeros, hin⟩) (by simp [hne])
  rw [Digits.value_append, Digits.value_replicate_zero, Nat.zero_mul, Nat.zero_add,
    Digits.chars_zeros_append, LetterCase.apply_append, LetterCase.apply_zeros] at hrun
  rw [Element.readWhole, hcons, dropSign_dropWhile spaces negative element.sign rest hspace hsign,
    ← hcons, hunmark, hradix, Option.getD_some, List.filter_append, hpass, h.filter]
  exact hrun

end

/-! ## Written whole numbers -/

/-- The codes of whole numbers that do not take their separators from a locale. -/
def TypeCode.IsPlainInteger : TypeCode → Prop
  | decimal | binary _ | octal | hex _ => True
  | _ => False

/-- An element of a whole number that leaves fill and alignment to the flag `0`, and its
separators to no locale. -/
structure Element.PresentsWhole (element : Element Nat) : Prop where
  type : element.type.IsPlainInteger
  fill : element.fill = none
  align : element.align = none
  localized : element.localized = false
  grouping : ∀ c ∈ element.grouping, c = ',' ∨ c = '_'

section

variable {element : Element Nat}

theorem Element.PresentsWhole.exists_radix (h : element.PresentsWhole) :
    ∃ radix, element.type.radix? = some radix ∧ 1 < radix ∧ radix ≤ 16 := by
  have htype := h.type
  cases hcode : element.type with
  | decimal | binary _ | octal | hex _ => exact ⟨_, rfl, by decide, by decide⟩
  | _ => rw [hcode] at htype; exact htype.elim

/-- The separators of such an element are those of numbers. -/
theorem Element.PresentsWhole.isSeparator (h : element.PresentsWhole) (base : Nat)
    (locale : Locale) : ∀ g ∈ (Separators.resolve element base locale).grouping,
      Stencil.isSeparator g.separator = true := by
  have htype := h.type
  have hresolve :
      Separators.resolve element base locale = Separators.plain element.grouping base := by
    rw [Separators.resolve, if_neg]
    rintro (hcode | hlocalized)
    · rw [hcode] at htype
      exact htype
    · rw [h.localized] at hlocalized
      exact Bool.false_ne_true hlocalized
  intro g hg
  rw [hresolve, Separators.plain] at hg
  obtain ⟨c, hc, rfl⟩ := Option.map_eq_some_iff.1 hg
  rcases h.grouping c hc with rfl | rfl <;> rfl

/-- A whole number has nothing behind its digits. -/
theorem Element.PresentsWhole.tail_eq_nil (h : element.PresentsWhole) (radix : Nat) (v : Int)
    (options : Options) : (Numeral.integer radix v).tail .integer element options = [] := by
  have htype := h.type
  have hpercent : percentText element.type = [] := by
    refine if_neg fun hcode => ?_
    rw [hcode] at htype
    exact htype
  rw [Numeral.tail, tailText, hpercent, List.append_nil]
  simp [fractionText, exponentText, Numeral.integer]

/-- The parts of a whole number, before it is padded. -/
theorem Figure.written_integer_eq (h : element.PresentsWhole) (radix : Nat) (v : Int)
    (options : Options) :
    let letters := element.type.letters
    let lead := (Numeral.integer radix v).lead element options
    (Figure.finite (Numeral.integer radix v) .integer).written element options =
      Text.padParts (letters.apply lead)
        (letters.apply (wholeText (Numeral.integer radix v) element
          (Separators.resolve element radix options.locale).grouping lead.length))
        element.width element.numberFill element.numberAlign := by
  have htail := h.tail_eq_nil radix v options
  rw [Numeral.tail] at htail
  rw [Figure.written, Figure.parts]
  simp only [htail, List.append_nil, List.length_nil, Nat.add_zero]
  rfl

/-- The text in front of the digits: the sign, and the mark of the radix in the letters of the
code. -/
theorem Numeral.apply_lead_integer (element : Element Nat) (radix : Nat) (v : Int)
    (options : Options) :
    element.type.letters.apply ((Numeral.integer radix v).lead element options) =
      signText (v < 0) element.sign ++ element.type.letters.apply
        (radixMark element (Numeral.integer radix v).isZero options.octalMark) := by
  rw [Numeral.lead, LetterCase.apply_append, LetterCase.apply_signText]
  rfl

/-- Without the flag `0` a whole number is padded with spaces in front. -/
theorem Figure.written_integer_spaces (h : element.PresentsWhole) (hzero : element.zeroPad = false)
    (radix : Nat) (v : Int) (options : Options) :
    ∃ spaces, (Figure.finite (Numeral.integer radix v) .integer).written element options =
      List.replicate spaces ' ' ++
        (element.type.letters.apply ((Numeral.integer radix v).lead element options) ++
          element.type.letters.apply
            (grouped (Separators.resolve element radix options.locale).grouping
              (Digits.chars (Digits.ofNat radix v.natAbs)))) := by
  have hfill : element.numberFill = ' ' := by
    rw [Element.numberFill, h.fill, hzero]
    rfl
  have halign : element.numberAlign = .right := by
    rw [Element.numberAlign, h.align, hzero]
    rfl
  have hwhole (taken : Nat) : wholeText (Numeral.integer radix v) element
      (Separators.resolve element radix options.locale).grouping taken =
      grouped (Separators.resolve element radix options.locale).grouping
        (Digits.chars (Digits.ofNat radix v.natAbs)) := by
    unfold wholeText
    cases (Separators.resolve element radix options.locale).grouping with
    | none => rfl
    | some g => exact if_neg (by simp [hfill])
  have hright (lead body : List Char) : ∃ spaces,
      Text.padParts lead body element.width ' ' .right =
        List.replicate spaces ' ' ++ (lead ++ body) := ⟨_, List.append_assoc _ _ _⟩
  have hwritten := Figure.written_integer_eq h radix v options
  dsimp only at hwritten
  rw [hfill, halign, hwhole] at hwritten
  rw [hwritten]
  exact hright _ _

/-- With the flag `0` it is filled up with zeros behind its sign and the mark of the radix, and they
are part of the groups if there are any. -/
theorem Figure.written_integer_zeros (h : element.PresentsWhole) (hzero : element.zeroPad = true)
    (radix : Nat) (v : Int) (options : Options) :
    ∃ zeros, (Figure.finite (Numeral.integer radix v) .integer).written element options =
      element.type.letters.apply ((Numeral.integer radix v).lead element options) ++
        element.type.letters.apply
          (grouped (Separators.resolve element radix options.locale).grouping
            (List.replicate zeros '0' ++ Digits.chars (Digits.ofNat radix v.natAbs))) := by
  have hfill : element.numberFill = '0' := by
    rw [Element.numberFill, h.fill, hzero]
    rfl
  have halign : element.numberAlign = .signAware := by
    rw [Element.numberAlign, h.align, hzero]
    rfl
  cases hgroups : (Separators.resolve element radix options.locale).grouping with
  | none =>
    have hinside (lead body : List Char) : ∃ zeros,
        Text.padParts lead body element.width '0' .signAware =
          lead ++ (List.replicate zeros '0' ++ body) := ⟨_, List.append_assoc _ _ _⟩
    have hwritten := Figure.written_integer_eq h radix v options
    dsimp only at hwritten
    rw [hgroups, hfill, halign, wholeText] at hwritten
    obtain ⟨zeros, hzeros⟩ := hinside _ _
    refine ⟨zeros, hwritten.trans (hzeros.trans ?_)⟩
    rw [grouped, LetterCase.apply_append, LetterCase.apply_zeros]
    rfl
  | some g =>
    obtain ⟨zeros, -, hfilled⟩ :=
      Figure.written_zeroFilled (n := Numeral.integer radix v) .integer hgroups hfill halign
    refine ⟨zeros, hfilled.trans ?_⟩
    rw [h.tail_eq_nil, List.append_nil, LetterCase.apply_append]
    rfl

/-- A whole number is written as spaces, its sign, the mark of the radix, and its digits in groups,
behind zeros if the flag `0` is set. -/
theorem Figure.written_integer (h : element.PresentsWhole) (radix : Nat) (v : Int)
    (options : Options) :
    ∃ spaces zeros, (element.zeroPad = false → zeros = 0) ∧
      (Figure.finite (Numeral.integer radix v) .integer).written element options =
        List.replicate spaces ' ' ++ (signText (v < 0) element.sign ++
          (element.type.letters.apply
              (radixMark element (Numeral.integer radix v).isZero options.octalMark) ++
            element.type.letters.apply
              (grouped (Separators.resolve element radix options.locale).grouping
                (Digits.chars (List.replicate zeros 0 ++ Digits.ofNat radix v.natAbs))))) := by
  have hlead := Numeral.apply_lead_integer element radix v options
  cases hzero : element.zeroPad with
  | false =>
    obtain ⟨spaces, hwritten⟩ := Figure.written_integer_spaces h hzero radix v options
    refine ⟨spaces, 0, fun _ => rfl, ?_⟩
    rw [hwritten, hlead, List.replicate_zero, List.nil_append, List.append_assoc]
  | true =>
    obtain ⟨zeros, hwritten⟩ := Figure.written_integer_zeros h hzero radix v options
    refine ⟨0, zeros, nofun, ?_⟩
    rw [hwritten, hlead, List.append_assoc, Digits.chars_zeros_append]
    rfl

/-- A text of a whole number: it is read as the number without its sign, has a minus sign if the
number is negative, and no needless zeros behind the radix mark unless the flag `0` is set. -/
structure Element.WritesWhole (element : Element Nat) (v : Int) (mark : OctalMark)
    (text : List Char) : Prop where
  reads : element.readWhole text = some v.natAbs
  minus : '-' ∈ text ↔ v < 0
  leading : element.zeroPad = false → v ≠ 0 → ∃ spaces c rest, c ≠ '0' ∧
    text = List.replicate spaces ' ' ++ (signText (v < 0) element.sign ++
      (element.type.letters.apply (radixMark element false mark) ++ c :: rest))

theorem minus_mem_signText (negative : Bool) (mode : Option SignMode) :
    '-' ∈ signText negative mode ↔ negative = true := by
  unfold signText
  split_ifs with h
  · simp [h]
  · split <;> simp [h]

theorem minus_not_mem_radixMark (element : Element Nat) (isZero : Bool) (mark : OctalMark) :
    '-' ∉ radixMark element isZero mark := by
  unfold radixMark
  repeat' split
  all_goals simp

theorem Figure.writesWhole_integer (h : element.PresentsWhole) {radix : Nat}
    (hradix : element.type.radix? = some radix) (v : Int) (options : Options) :
    element.WritesWhole v options.octalMark
      ((Figure.finite (Numeral.integer radix v) .integer).written element options) := by
  obtain ⟨radix', hradix', hone, hle⟩ := h.exists_radix
  obtain rfl := Option.some.inj (hradix.symm.trans hradix')
  obtain ⟨spaces, zeros, hzeros, hwritten⟩ := Figure.written_integer h radix v options
  have hnat := Digits.inBase_ofNat hone v.natAbs
  have hin : Digits.InBase radix (List.replicate zeros 0 ++ Digits.ofNat radix v.natAbs) :=
    Digits.inBase_append.2 ⟨Digits.inBase_replicate_zero (by omega) zeros, hnat⟩
  have hne : List.replicate zeros 0 ++ Digits.ofNat radix v.natAbs ≠ [] :=
    List.append_ne_nil_of_right_ne_nil _ (Digits.ofNat_ne_nil hone _)
  have hbody := isBody_grouped element.type.letters (h.isSeparator radix options.locale)
    (hin.mono hle)
  rw [hwritten]
  constructor
  case reads =>
    rw [readWhole_eq hradix hone hle hbody hin hne, Digits.value_append,
      Digits.value_replicate_zero, Nat.zero_mul, Nat.zero_add, Digits.value_ofNat]
  case minus =>
    have hmark : '-' ∉ element.type.letters.apply
        (radixMark element (Numeral.integer radix v).isZero options.octalMark) := by
      rw [LetterCase.mem_apply_iff _ (by decide)]
      exact minus_not_mem_radixMark _ _ _
    rw [List.mem_append, List.mem_append, List.mem_append, minus_mem_signText, decide_eq_true_iff]
    simp [hmark, hbody.not_mem (c := '-') (by decide) (by decide)]
  case leading =>
    intro hpad hv
    obtain rfl := hzeros hpad
    obtain ⟨c, rest, hcons⟩ := hbody.exists_cons hne
    refine ⟨spaces, c, rest, ?_, ?_⟩
    · rintro rfl
      have hhead := hbody.head
      rw [hcons, List.replicate_zero, List.nil_append, List.head?_cons] at hhead
      have hfirst := Digits.head_ofNat_ne_zero hone (Int.natAbs_ne_zero.2 hv)
      cases hdigits : Digits.ofNat radix v.natAbs with
      | nil => exact Digits.ofNat_ne_nil hone _ hdigits
      | cons d rest' =>
        rw [hdigits] at hhead hfirst hnat
        have hread := congrArg (Option.bind · Digits.ofChar?) hhead
        rw [Digits.head?_bind_ofChar? _ (Nat.lt_of_lt_of_le (Digits.inBase_cons.1 hnat).1 hle)]
          at hread
        exact hfirst hread.symm
    · rw [hcons, Numeral.isZero_integer hone]
      simp [hv]

theorem Element.PresentsWhole.numberUnder? (h : element.PresentsWhole) {v : Value} {q : Quantity}
    (hv : v.quantity? = some q) : v.numberUnder? element = some q := by
  have htype := h.type
  have hchar := Value.singleChar?_of_quantity? hv
  unfold Value.numberUnder?
  cases hcode : element.type with
  | decimal | binary _ | octal | hex _ =>
    dsimp only
    rw [hchar]
    exact hv
  | _ => rw [hcode] at htype; exact htype.elim

/-- An integer code writes every whole number, given as an integer or as a double, so that the
number can be read back, and refuses a double that is none. -/
theorem formatWith_whole (h : element.PresentsWhole) (options : Options) :
    (∀ (v : Value) (q : Quantity) (i : Int), v.quantity? = some q → q.Equals i →
      ∃ text, element.WritesWhole i options.octalMark text ∧
        renderScalar v element options = .ok text ∧
        (element.asWritten.WellFormed →
          formatWith element.template [v] options = .ok (String.ofList text))) ∧
    ∀ x : Binary64, (∀ i, ¬(Quantity.float x).Equals i) →
      let fault := Fault.notAnInteger (String.ofList (Value.float x).display)
      renderScalar (.float x) element options = .error fault ∧
        (element.asWritten.WellFormed →
          formatWith element.template [.float x] options =
            .error (.inField element.field.raw fault)) := by
  obtain ⟨radix, hradix, hone, -⟩ := h.exists_radix
  have hrender {v : Value} {q : Quantity} (hv : v.quantity? = some q) :
      renderScalar v element options = renderQuantity q v element options :=
    renderScalar_of_numberUnder? (h.numberUnder? hv) options
  have hfigure (q : Quantity) : q.figure element = Figure.whole q radix := by
    rw [Quantity.figure, hradix]
  constructor
  · intro v q i hv hi
    have htext := hrender hv
    rw [renderQuantity, hfigure, Figure.whole_of_equals hi hone] at htext
    exact ⟨_, Figure.writesWhole_integer h hradix i options, htext, fun hwell =>
      formatWith_template hwell (isContainer_of_quantity? hv) htext⟩
  · intro x hx
    have hfault := hrender (v := .float x) rfl
    rw [renderQuantity, hfigure, Figure.whole_of_not_equals hx] at hfault
    refine ⟨hfault, fun hwell => ?_⟩
    rw [formatWith_template_eq hwell rfl, hfault]
    rfl

/-- The least integer of 128 bits, and a half. -/
theorem formatWith_whole_least :
    let element : Element Nat :=
      { zeroPad := true, alternate := true, width := some 48, grouping := some '_',
        type := .hex .upper }
    let least : Int := -2 ^ 127
    let half : Binary64 := ⟨0x3FE0000000000000⟩
    let fault := Fault.notAnInteger (String.ofList (Value.float half).display)
    element.PresentsWhole ∧ element.asWritten.WellFormed ∧
      (Value.int least).quantity? = some (.integer least) ∧
      (Quantity.integer least).Equals least ∧ (∀ i, ¬(Quantity.float half).Equals i) ∧
      (∃ text, element.WritesWhole least .letter text ∧
        formatWith element.template [.int least] {} = .ok (String.ofList text)) ∧
      formatWith element.template [.float half] {} = .error (.inField element.field.raw fault) := by
  intro element least half fault
  have h : element.PresentsWhole :=
    ⟨trivial, rfl, rfl, rfl, fun c hc => .inr (Option.some.inj hc).symm⟩
  have hwell : element.asWritten.WellFormed := by
    refine ⟨⟨nofun, nofun⟩, fun _ => rfl, ?_, nofun, h.grouping, nofun, ?_⟩
    · rintro _ ⟨⟩
      exact ⟨by decide, by decide⟩
    · intro s hs
      cases s <;> first | decide | exact absurd hs (by decide)
  have hhalf : ∀ i, ¬(Quantity.float half).Equals i := by
    have hrefused : (Quantity.float half).toInt = .error .fractional := by decide +kernel
    intro i hi
    have htoInt := (Quantity.toInt_eq_ok_iff _ i).2 hi
    rw [hrefused] at htoInt
    cases htoInt
  obtain ⟨hwhole, hnot⟩ := formatWith_whole h {}
  obtain ⟨text, hwrites, -, htext⟩ := hwhole (.int least) _ least rfl rfl
  exact ⟨h, hwell, rfl, rfl, hhalf, ⟨text, hwrites, htext hwell⟩, (hnot half hhalf).2 hwell⟩

end

end Stencil
