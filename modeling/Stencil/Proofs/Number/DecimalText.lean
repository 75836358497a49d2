import Stencil.Proofs.Number.Hexadecimal
import Stencil.Proofs.Number.Nearest

/-!
# Reading decimals

A decimal can be told from its text: the mark of the exponent and the point are no digits, so that
the text falls into the same parts again. A text is read as the double that is nearest to the
decimal in it.

* `Decimal.text_inj` — the parts of a decimal can be told from its text.
* `Binary64.ReadFrom` — a double is what a text is read as.
* `Binary64.ReadFrom.unique` — a text is read as one double only.
-/

namespace Stencil

namespace Decimal

/-! ## Parts of the text -/

/-- Characters of decimal digits are none of the others in the text of a decimal. -/
theorem not_mem_map_digitChar {digits : List Nat} (h : ∀ i ∈ digits, i < 10) {c : Char}
    (hc : c.isDigit = false) : c ∉ digits.map Nat.digitChar := by
  intro hmem
  obtain ⟨i, hi, rfl⟩ := List.mem_map.1 hmem
  have hall : ∀ i < 10, (Nat.digitChar i).isDigit = true := by decide
  rw [hall i (h i hi)] at hc
  cases hc

theorem map_digitChar_inj {first second : List Nat} (hf : ∀ i ∈ first, i < 10)
    (hs : ∀ i ∈ second, i < 10) (h : first.map Nat.digitChar = second.map Nat.digitChar) :
    first = second := by
  rw [← Hexadecimal.map_digitOf_digitChar fun i hi => Nat.lt_trans (hf i hi) (by decide), h,
    Hexadecimal.map_digitOf_digitChar fun i hi => Nat.lt_trans (hs i hi) (by decide)]

/-- The point and the digits behind it. -/
def fractionText : Option (List Nat) → List Char
  | some places => '.' :: places.map Nat.digitChar
  | none => []

/-- The text between sign and exponent. -/
def unsignedText (d : Decimal) : List Char :=
  d.whole.map Nat.digitChar ++ fractionText d.fraction

/-- The text in front of an exponent. -/
def mantissaText (d : Decimal) : List Char :=
  (if d.negative then ['-'] else []) ++ d.unsignedText

/-- The mark of an exponent, its sign and its digits. -/
def exponentPart (mark : Char) : Option Int → List Char
  | some e => exponentText mark e
  | none => []

theorem text_eq (d : Decimal) (mark : Char) :
    d.text mark = d.mantissaText ++ exponentPart mark d.exponent := by
  rw [text, mantissaText, unsignedText, ← List.append_assoc]
  cases d.fraction <;> cases d.exponent <;> rfl

variable {d e : Decimal}

theorem WellFormed.whole_lt (h : d.WellFormed) : ∀ i ∈ d.whole, i < 10 := fun i hi =>
  h.digits i (List.mem_append_left _ hi)

theorem WellFormed.places_lt (h : d.WellFormed) {places : List Nat}
    (hp : d.fraction = some places) : ∀ i ∈ places, i < 10 := fun i hi =>
  h.digits i (List.mem_append_right _ (by rwa [Decimal.places, hp]))

/-- Between sign and exponent there are digits, and the point. -/
theorem not_mem_unsignedText (h : d.WellFormed) {c : Char} (hc : c.isDigit = false)
    (hpoint : c ≠ '.') : c ∉ d.unsignedText := by
  rw [unsignedText, List.mem_append, not_or]
  refine ⟨not_mem_map_digitChar h.whole_lt hc, ?_⟩
  cases hfraction : d.fraction with
  | none => simp [fractionText]
  | some places =>
    rw [fractionText, List.mem_cons, not_or]
    exact ⟨hpoint, not_mem_map_digitChar (h.places_lt hfraction) hc⟩

theorem not_mem_mantissaText (h : d.WellFormed) : 'e' ∉ d.mantissaText := by
  rw [mantissaText, List.mem_append, not_or]
  refine ⟨?_, not_mem_unsignedText h (by decide) (by decide)⟩
  split_ifs <;> decide

/-- The digits on both sides of the point can be told from the text between sign and exponent. -/
theorem unsigned_inj (hd : d.WellFormed) (he : e.WellFormed)
    (h : d.unsignedText = e.unsignedText) : d.whole = e.whole ∧ d.fraction = e.fraction := by
  have hdpoint := not_mem_map_digitChar hd.whole_lt (show '.'.isDigit = false by decide)
  have hepoint := not_mem_map_digitChar he.whole_lt (show '.'.isDigit = false by decide)
  rw [unsignedText, unsignedText] at h
  cases hdf : d.fraction with
  | none =>
    rw [hdf, fractionText, List.append_nil] at h
    cases hef : e.fraction with
    | none =>
      rw [hef, fractionText, List.append_nil] at h
      exact ⟨map_digitChar_inj hd.whole_lt he.whole_lt h, rfl⟩
    | some places =>
      rw [h, hef] at hdpoint
      exact absurd (List.mem_append_right _ List.mem_cons_self) hdpoint
  | some places =>
    rw [hdf] at h
    cases hef : e.fraction with
    | none =>
      rw [hef, fractionText.eq_2, List.append_nil] at h
      rw [← h] at hepoint
      exact absurd (List.mem_append_right _ List.mem_cons_self) hepoint
    | some places' =>
      have hplaces := hd.places_lt hdf
      rw [hef, fractionText, fractionText] at h
      obtain ⟨hwhole, -, hfraction⟩ := (List.append_cons_inj_of_notMem hdpoint
        (not_mem_map_digitChar hplaces (by decide))).1 h
      exact ⟨map_digitChar_inj hd.whole_lt he.whole_lt hwhole,
        congrArg some (map_digitChar_inj hplaces (he.places_lt hef) hfraction)⟩

/-- Sign and digits can be told from the text in front of an exponent. -/
theorem mantissa_inj (hd : d.WellFormed) (he : e.WellFormed)
    (h : d.mantissaText = e.mantissaText) :
    d.negative = e.negative ∧ d.whole = e.whole ∧ d.fraction = e.fraction := by
  have hdminus := not_mem_unsignedText hd (show '-'.isDigit = false by decide) (by decide)
  have heminus := not_mem_unsignedText he (show '-'.isDigit = false by decide) (by decide)
  rw [mantissaText, mantissaText] at h
  cases hdn : d.negative <;> cases hen : e.negative <;>
    simp only [hdn, hen, if_true, if_false, List.nil_append, List.cons_append, Bool.false_eq_true]
      at h
  · exact ⟨rfl, unsigned_inj hd he h⟩
  · rw [h] at hdminus
    exact absurd List.mem_cons_self hdminus
  · rw [← h] at heminus
    exact absurd List.mem_cons_self heminus
  · exact ⟨rfl, unsigned_inj hd he (List.cons.inj h).2⟩

/-- The text starts with a sign exactly if the decimal has one. -/
theorem head?_text (h : d.WellFormed) {mark : Char} :
    (d.text mark).head? = some '-' ↔ d.negative = true := by
  obtain ⟨i, rest, hwhole⟩ : ∃ i rest, d.whole = i :: rest :=
    List.exists_cons_of_ne_nil (h.whole.elim (fun hzero => hzero ▸ List.cons_ne_nil _ _) And.left)
  have hdigit : Nat.digitChar i ≠ '-' := fun heq => not_mem_map_digitChar h.whole_lt
    (show '-'.isDigit = false by decide) (by rw [hwhole, ← heq]; exact List.mem_cons_self)
  rw [text, hwhole]
  cases d.negative <;> simp [hdigit]

theorem exponent_inj {n m : Int} (h : exponentText 'e' n = exponentText 'e' m) : n = m := by
  obtain ⟨hsign, hdigits⟩ := List.cons.inj (List.cons.inj h).2
  -- a zero in front does not change the number
  have hread (n : Nat) : Nat.ofDigitChars 10
      (if n < 10 then '0' :: Nat.toDigits 10 n else Nat.toDigits 10 n) 0 = n := by
    split_ifs
    · exact Nat.ofDigitChars_ten_toDigits
    · exact Nat.ofDigitChars_ten_toDigits
  have hsize : n.natAbs = m.natAbs := by
    rw [← hread n.natAbs, hdigits, hread]
  split_ifs at hsign <;> first | omega | exact absurd hsign (by decide)

/-- Behind its mark an exponent is a sign and digits. -/
theorem not_mem_tail_exponentText (mark : Char) (n : Int) : 'e' ∉ (exponentText mark n).tail := by
  have hdigits : 'e' ∉ Nat.toDigits 10 n.natAbs := fun h =>
    absurd (Nat.isDigit_of_mem_toDigits (by decide) (by decide) h) (by decide)
  simp only [exponentText, List.tail_cons, List.mem_cons, not_or]
  constructor
  · split_ifs <;> decide
  · split_ifs
    · rw [List.mem_cons, not_or]
      exact ⟨by decide, hdigits⟩
    · exact hdigits

/-- An exponent is marked, and the mark is found nowhere else. -/
theorem mem_text_iff (h : d.WellFormed) : 'e' ∈ d.text 'e' ↔ d.exponent.isSome = true := by
  rw [text_eq, List.mem_append, or_iff_right (not_mem_mantissaText h)]
  cases d.exponent <;> simp [exponentPart, exponentText]

/-- The parts of a decimal can be told from its text. -/
theorem text_inj (hd : d.WellFormed) (he : e.WellFormed) (h : d.text 'e' = e.text 'e') : d = e := by
  have hmark := mem_text_iff hd
  rw [h, mem_text_iff he] at hmark
  have hparts : d.mantissaText = e.mantissaText ∧ d.exponent = e.exponent := by
    rw [text_eq, text_eq] at h
    cases hdexp : d.exponent with
    | none =>
      cases heexp : e.exponent with
      | none =>
        rw [hdexp, heexp, exponentPart, List.append_nil, List.append_nil] at h
        exact ⟨h, rfl⟩
      | some m => simp [hdexp, heexp] at hmark
    | some n =>
      cases heexp : e.exponent with
      | none => simp [hdexp, heexp] at hmark
      | some m =>
        rw [hdexp, heexp] at h
        obtain ⟨hmantissa, -, -⟩ := (List.append_cons_inj_of_notMem (not_mem_mantissaText hd)
          (not_mem_tail_exponentText 'e' n)).1 h
        rw [hmantissa, List.append_cancel_left_eq] at h
        exact ⟨hmantissa, congrArg some (exponent_inj h)⟩
  obtain ⟨hnegative, hwhole, hfraction⟩ := mantissa_inj hd he hparts.1
  obtain ⟨negative, whole, fraction, exponent⟩ := d
  obtain rfl : negative = _ := hnegative
  obtain rfl : whole = _ := hwhole
  obtain rfl : fraction = _ := hfraction
  obtain rfl : exponent = _ := hparts.2
  rfl

end Decimal

/-! ## Doubles -/

/-- A double is what a text is read as: the text is that of a decimal, whose sign the double has,
and no double is nearer to it. -/
def Binary64.ReadFrom (x : Binary64) (text : List Char) : Prop :=
  ∃ d : Decimal, d.WellFormed ∧ d.text 'e' = text ∧ x.negative = d.negative ∧ x.Reads d.magnitude

/-- A text is read as one double only. -/
theorem Binary64.ReadFrom.unique {x y : Binary64} {text : List Char} (hx : x.ReadFrom text)
    (hy : y.ReadFrom text) : x = y := by
  obtain ⟨d, hd, rfl, hdneg, hdreads⟩ := hx
  obtain ⟨e, he, htext, heneg, hereads⟩ := hy
  obtain rfl := Decimal.text_inj he hd htext
  exact eq_of_magnitude_eq (hdneg.trans heneg.symm) (hdreads.magnitude_eq hereads)

end Stencil
