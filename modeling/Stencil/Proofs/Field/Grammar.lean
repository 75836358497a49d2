import Mathlib.Data.List.Basic
import Stencil.Proofs.Field.Reading

/-!
# What a field is read from

Every text that is read as a field spells that field. All specifiers stand in it once and in order,
and nothing else does: a spelling is free only in the zeros in front of its numbers, and in the
colon of a field that says nothing but its selector. Reading goes by steps that each take the front
of a text and leave the rest (`Reads`); an element or a layer is the concatenation of what its steps
have taken.

* `Selector.Spells`, `Count.Spells`, `Layer.Spells`, `Element.Spells`, `Field.Spells` — the texts
  that spell a part of a field, or the whole.
* `reads_natural`, `reads_count`, `reads_padding` — what the steps take.
* `reads_element`, `reads_layer`, `presentation_sound` — elements, layers, and all of them.
* `width_of_zeroPad` — an element that reaches the end has a width behind its flag `0`.
* `parseField_sound` — a field that is read and passes its checks is spelled by the text, and
  well-formed.
-/

namespace Stencil

/-! ## Spellings -/

/-- A number in decimal, behind any zeros. -/
def SpellsNumber (n : Nat) (text : List Char) : Prop :=
  ∃ zeros, text = List.replicate zeros '0' ++ Nat.toDigits 10 n

/-- The texts of a selector. -/
def Selector.Spells : Selector → List Char → Prop
  | .auto, text => text = []
  | .index position, text => SpellsNumber position text
  | .name key, text => text = key.toList

/-- The texts of a count. -/
def Count.Spells : Count → List Char → Prop
  | .literal n, text => SpellsNumber n text
  | .ref selector, text => ∃ inner, selector.Spells inner ∧ text = '{' :: inner ++ ['}']

/-- The texts of an optional part; one that is absent is left out. -/
def SpellsOption {α : Type} (spells : α → List Char → Prop) : Option α → List Char → Prop
  | some a, text => spells a text
  | none, text => text = []

/-- The texts of a precision. -/
def SpellsPrecision (c : Count) (text : List Char) : Prop :=
  ∃ digits, c.Spells digits ∧ text = '.' :: digits

/-- The texts of a layer, without the colon that closes it. -/
def Layer.Spells (layer : Layer Count) (text : List Char) : Prop :=
  ∃ width, SpellsOption Count.Spells layer.width width ∧
    text = spellPadding layer.fill layer.align ++ width ++ layer.kind.char?.toList

/-- The texts of an element: its specifiers in their order. -/
def Element.Spells (element : Element Count) (text : List Char) : Prop :=
  ∃ width precision, SpellsOption Count.Spells element.width width ∧
    SpellsOption SpellsPrecision element.precision precision ∧
    text = spellPadding element.fill element.align ++
      (element.sign.map SignMode.char).toList ++
      spellFlag 'z' element.positiveZero ++
      spellFlag '#' element.alternate ++
      spellFlag '0' element.zeroPad ++
      width ++
      element.grouping.toList ++
      precision ++
      spellFlag 'L' element.localized ++
      element.type.char?.toList

/-- The texts of layers and an element, each layer closed by a colon. -/
inductive SpellsPresentation : List (Layer Count) → Element Count → List Char → Prop where
  | element {element : Element Count} {text : List Char} (h : element.Spells text) :
      SpellsPresentation [] element text
  | layer {first : Layer Count} {layers : List (Layer Count)} {element : Element Count}
      {front rest : List Char} (hfirst : first.Spells front)
      (hrest : SpellsPresentation layers element rest) :
      SpellsPresentation (first :: layers) element (front ++ ':' :: rest)

/-- The texts of a field between its braces: a selector, and then nothing if the field says nothing
else, or a colon and its presentation. -/
def Field.Spells (field : Field) (text : List Char) : Prop :=
  ∃ front, field.selector.Spells front ∧
    ((text = front ∧ field.layers = [] ∧ field.element = {}) ∨
      ∃ rest, text = front ++ ':' :: rest ∧
        SpellsPresentation field.layers field.element rest)

/-! ## Parts that have been read -/

/-- A count that has been read: a reference is by order or position. -/
def Count.Readable (c : Count) : Prop :=
  ∀ selector, c = .ref selector → c.WellFormed 0

/-- A layer that has been read, before any checks. -/
structure Layer.Readable (layer : Layer Count) : Prop where
  padded : WellPadded layer.fill layer.align
  not_signAware : layer.align ≠ some .signAware
  width : ∀ w ∈ layer.width, w.Readable

/-- An element that has been read, before any checks. -/
structure Element.Readable (element : Element Count) : Prop where
  padded : WellPadded element.fill element.align
  width : ∀ w ∈ element.width, w.Readable
  precision : ∀ p ∈ element.precision, p.Readable
  grouping : ∀ c ∈ element.grouping, c = ',' ∨ c = '_'

namespace Reader

/-- A step takes a front of the text, of which something holds, and leaves the rest. -/
def Reads {α : Type} (taken : α → List Char → Prop) (text : List Char) (result : α × List Char) :
    Prop :=
  ∃ front, text = front ++ result.2 ∧ taken result.1 front

/-! ## Single characters -/

section Optional

variable {α : Type}

theorem reads_optional {step : Reader α} {taken : α → List Char → Prop}
    (h : ∀ text result, step text = some result → Reads taken text result) (text : List Char) :
    Reads (SpellsOption taken) text (optional step text) := by
  cases hstep : step text with
  | none =>
    rw [optional, hstep]
    exact ⟨[], rfl, rfl⟩
  | some result =>
    obtain ⟨front, hfront, htaken⟩ := h text result hstep
    rw [optional, hstep]
    exact ⟨front, hfront, htaken⟩

theorem reads_optional_oneOf {meaning : Char → Option α} {taken : Option α → List Char → Prop}
    (hnone : taken none []) (hsome : ∀ c a, meaning c = some a → taken (some a) [c])
    (text : List Char) : Reads taken text (optional (oneOf meaning) text) := by
  cases text with
  | nil => exact ⟨[], rfl, hnone⟩
  | cons c text =>
    cases hc : meaning c with
    | none =>
      rw [optional, oneOf, hc]
      exact ⟨[], rfl, hnone⟩
    | some a =>
      rw [optional, oneOf, hc]
      exact ⟨[c], rfl, hsome c a hc⟩

end Optional

theorem reads_flag (c : Char) (text : List Char) :
    Reads (fun on front => front = spellFlag c on) text (flag c text) := by
  cases text with
  | nil => exact ⟨[], rfl, rfl⟩
  | cons d text =>
    by_cases hd : d = c
    · rw [flag, if_pos hd]
      exact ⟨[d], rfl, by rw [hd]; rfl⟩
    · rw [flag, if_neg hd]
      exact ⟨[], rfl, rfl⟩

theorem reads_zeroFlag (text : List Char) :
    Reads (fun on front => front = spellFlag '0' on) text (zeroFlag text) := by
  unfold zeroFlag
  split
  · split
    · exact ⟨['0'], rfl, rfl⟩
    · exact ⟨[], rfl, rfl⟩
  · exact ⟨[], rfl, rfl⟩

/-- The flag `0` is taken only in front of what can start a width. -/
theorem startsWidth_of_zeroFlag {text : List Char} (h : (zeroFlag text).1 = true) :
    ∃ c rest, (zeroFlag text).2 = c :: rest ∧ startsWidth c = true := by
  unfold zeroFlag at h ⊢
  split at h
  · rename_i c rest
    split at h
    · rename_i hc
      simp only [if_pos hc]
      exact ⟨c, rest, rfl, hc⟩
    · simp at h
  · simp at h

theorem reads_sign (text : List Char) :
    Reads (fun (sign : Option SignMode) front => front = (sign.map SignMode.char).toList) text
      (optional (oneOf SignMode.ofChar?) text) := by
  refine reads_optional_oneOf rfl ?_ text
  intro c mode hc
  rw [SignMode.ofChar?_eq_some_iff.1 hc]
  rfl

theorem reads_grouping (text : List Char) :
    Reads (fun (grouping : Option Char) front =>
        front = grouping.toList ∧ ∀ c ∈ grouping, c = ',' ∨ c = '_') text
      (optional (oneOf groupSeparator) text) := by
  refine reads_optional_oneOf ⟨rfl, by simp⟩ ?_ text
  intro c d hc
  unfold groupSeparator at hc
  split at hc
  · rename_i hmem
    obtain rfl := Option.some.inj hc
    refine ⟨rfl, ?_⟩
    intro e he
    rwa [← Option.some.inj he]
  · simp at hc

theorem reads_type (text : List Char) :
    Reads (fun (type : Option TypeCode) front => front = (type.getD .byKind).char?.toList) text
      (optional (oneOf TypeCode.ofChar?) text) := by
  refine reads_optional_oneOf rfl ?_ text
  intro c code hc
  rw [Option.getD_some, TypeCode.ofChar?_eq_some_iff.1 hc]
  rfl

theorem reads_kind (text : List Char) :
    Reads (fun (kind : Option ContainerKind) front => front = (kind.getD .plain).char?.toList) text
      (optional (oneOf ContainerKind.ofChar?) text) := by
  refine reads_optional_oneOf rfl ?_ text
  intro c kind hc
  rw [Option.getD_some, ContainerKind.ofChar?_eq_some_iff.1 hc]
  rfl

/-! ## Numbers and names -/

theorem exists_digit_of_isDigit {c : Char} (h : c.isDigit = true) :
    c.toNat - '0'.toNat < 10 ∧ Nat.digitChar (c.toNat - '0'.toNat) = c := by
  obtain ⟨hlow, hhigh⟩ := Char.isDigit_iff_toNat.1 h
  have h0 : '0'.toNat = 48 := rfl
  have h9 : '9'.toNat = 57 := rfl
  rw [h0] at hlow ⊢
  rw [h9] at hhigh
  have hlt : c.toNat - 48 < 10 := by omega
  have htable : ∀ d < 10, Nat.digitChar d = Char.ofNat (48 + d) := by decide
  refine ⟨hlt, ?_⟩
  rw [htable _ hlt, Nat.add_sub_cancel' hlow, Char.ofNat_toNat]

/-- A run of digits spells the number it denotes. -/
theorem spellsNumber_numberOf {digits : List Char} (hne : digits ≠ [])
    (hdigits : ∀ c ∈ digits, c.isDigit = true) : SpellsNumber (numberOf digits) digits := by
  induction digits using List.reverseRecOn with
  | nil => exact absurd rfl hne
  | append_singleton front c ih =>
    obtain ⟨hlt, hchar⟩ := exists_digit_of_isDigit (hdigits c (by simp))
    have hvalue : numberOf (front ++ [c]) = 10 * numberOf front + (c.toNat - '0'.toNat) := by
      rw [numberOf, List.foldl_append]
      rfl
    have hlast : Nat.toDigits 10 (c.toNat - '0'.toNat) = [c] := by
      rw [Nat.toDigits_of_lt_base hlt, hchar]
    by_cases hfront : front = []
    · subst hfront
      refine ⟨0, ?_⟩
      rw [hvalue, numberOf, List.foldl_nil, Nat.mul_zero, Nat.zero_add, hlast]
      rfl
    obtain ⟨zeros, hzeros⟩ := ih hfront fun d hd => hdigits d (List.mem_append_left _ hd)
    by_cases hn : numberOf front = 0
    · -- The digits so far are all zeros, the last one of which was the number zero itself.
      refine ⟨zeros + 1, ?_⟩
      rw [hn, Nat.toDigits_zero] at hzeros
      rw [hvalue, hn, Nat.mul_zero, Nat.zero_add, hlast, hzeros, List.replicate_succ']
    · refine ⟨zeros, ?_⟩
      have hpos : 0 < numberOf front := Nat.pos_of_ne_zero hn
      rw [hvalue, ← Nat.toDigits_append_toDigits (by decide) hpos hlt, hlast,
        ← List.append_assoc, ← hzeros]

theorem reads_natural {text : List Char} {result : Nat × List Char}
    (h : natural text = some result) :
    Reads (fun n front => SpellsNumber n front ∧ n < wordLimit) text result := by
  unfold natural at h
  simp only at h
  split at h
  · rename_i hcond
    obtain rfl := Option.some.inj h
    refine ⟨text.takeWhile Char.isDigit, (List.takeWhile_append_dropWhile).symm, ?_, hcond.2⟩
    exact spellsNumber_numberOf hcond.1 fun _ => List.mem_takeWhile_imp
  · simp at h

theorem reads_name {text : List Char} {result : String × List Char} (h : name text = some result) :
    Reads (fun key front => front = key.toList ∧ IsIdentifier key) text result := by
  cases text with
  | nil => simp [name] at h
  | cons c rest =>
    simp only [name] at h
    split at h
    · rename_i hc
      obtain rfl := Option.some.inj h
      have hlist := String.toList_ofList (l := c :: rest.takeWhile continuesName)
      refine ⟨c :: rest.takeWhile continuesName, ?_, hlist.symm, c, _, hlist, ?_, ?_⟩
      · rw [List.cons_append, List.takeWhile_append_dropWhile]
      · simpa [startsName] using hc
      · intro d hd
        have hd := List.mem_takeWhile_imp hd
        simpa [continuesName] using hd
    · simp at h

theorem reads_selector (text : List Char) :
    Reads (fun s front => s.Spells front ∧ s.WellFormed) text (selector text) := by
  cases hn : natural text with
  | some result =>
    obtain ⟨front, hfront, hspells, hlt⟩ := reads_natural hn
    rw [selector, hn]
    exact ⟨front, hfront, hspells, hlt⟩
  | none =>
    cases hname : name text with
    | some result =>
      obtain ⟨front, hfront, hspells, hident⟩ := reads_name hname
      rw [selector, hn, hname]
      exact ⟨front, hfront, hspells, hident⟩
    | none =>
      rw [selector, hn, hname]
      exact ⟨[], rfl, rfl, trivial⟩

/-! ## Counts -/

theorem reads_reference {text : List Char} {result : Selector × List Char}
    (h : reference text = some result) :
    Reads (fun s front => (Count.ref s).Spells front ∧ (Count.ref s).WellFormed 0) text result := by
  unfold reference at h
  split at h
  · rename_i inner
    simp only at h
    split at h
    · rename_i rest hrest
      obtain rfl := Option.some.inj h
      obtain ⟨front, hfront, htaken⟩ := reads_optional (fun _ _ => reads_natural) inner
      rw [hrest] at hfront
      refine ⟨'{' :: front ++ ['}'], by simp [hfront], ?_⟩
      cases hposition : (optional natural inner).1 with
      | none =>
        rw [hposition] at htaken
        exact ⟨⟨front, htaken, rfl⟩, trivial⟩
      | some position =>
        rw [hposition] at htaken
        exact ⟨⟨front, htaken.1, rfl⟩, htaken.2⟩
    · simp at h
  · simp at h

theorem reads_count {text : List Char} {result : Count × List Char}
    (h : count text = some result) :
    Reads (fun c front => c.Spells front ∧ c.Readable) text result := by
  unfold count at h
  split at h
  · rename_i n rest hn
    obtain rfl := Option.some.inj h
    obtain ⟨front, hfront, hspells, -⟩ := reads_natural hn
    exact ⟨front, hfront, hspells, by simp [Count.Readable]⟩
  · obtain ⟨⟨s, rest⟩, hs, rfl⟩ := Option.map_eq_some_iff.1 h
    obtain ⟨front, hfront, hspells, hwell⟩ := reads_reference hs
    exact ⟨front, hfront, hspells, fun _ _ => hwell⟩

theorem reads_precision {text : List Char} {result : Count × List Char}
    (h : precision text = some result) :
    Reads (fun c front => SpellsPrecision c front ∧ c.Readable) text result := by
  unfold precision at h
  split at h
  · obtain ⟨front, hfront, hspells, hread⟩ := reads_count h
    exact ⟨'.' :: front, by rw [hfront]; rfl, ⟨front, hspells, rfl⟩, hread⟩
  · simp at h

/-- An optional part is spelled and, if it is there, has what every such part has. -/
theorem spellsOption_and {α : Type} {spells : α → List Char → Prop} {good : α → Prop}
    {o : Option α} {front : List Char}
    (h : SpellsOption (fun a text => spells a text ∧ good a) o front) :
    SpellsOption spells o front ∧ ∀ a ∈ o, good a := by
  cases o with
  | none => exact ⟨h, by simp⟩
  | some a =>
    refine ⟨h.1, ?_⟩
    intro b hb
    rw [← Option.some.inj hb]
    exact h.2

/-! ## Padding -/

section Padding

variable {align : Char → Option Align}

theorem oneOf_eq_some {α : Type} {meaning : Char → Option α} {text rest : List Char} {a : α}
    (h : oneOf meaning text = some (a, rest)) : ∃ c, text = c :: rest ∧ meaning c = some a := by
  cases text with
  | nil => simp [oneOf] at h
  | cons c text =>
    obtain ⟨b, hb, hpair⟩ := Option.map_eq_some_iff.1 h
    obtain ⟨rfl, rfl⟩ := Prod.mk.inj hpair
    exact ⟨c, rfl, hb⟩

theorem reads_padding (halign : ∀ c a, align c = some a → c = a.char) {text : List Char}
    {result : (Option Char × Align) × List Char} (h : padding align text = some result) :
    Reads (fun p front => front = spellPadding p.1 (some p.2) ∧ WellPadded p.1 (some p.2) ∧
      align p.2.char = some p.2) text result := by
  rcases Option.or_eq_some_iff.1 h with h | ⟨-, h⟩
  · unfold filledAlign at h
    split at h
    · simp at h
    · rename_i c text
      split at h
      · rename_i a rest ha
        obtain ⟨d, rfl, hd⟩ := oneOf_eq_some ha
        split at h
        · rename_i hfill
          obtain rfl := Option.some.inj h
          obtain rfl := halign d a hd
          refine ⟨[_, a.char], rfl, rfl, ⟨fun _ => rfl, ?_⟩, hd⟩
          intro e he
          obtain rfl := Option.some.inj he
          simpa [isFill] using hfill
        · simp at h
      · simp at h
  · unfold bareAlign at h
    split at h
    · rename_i a rest ha
      obtain rfl := Option.some.inj h
      obtain ⟨d, rfl, hd⟩ := oneOf_eq_some ha
      obtain rfl := halign d a hd
      exact ⟨[a.char], rfl, rfl, ⟨by simp, by simp⟩, hd⟩
    · simp at h

theorem reads_optional_padding (halign : ∀ c a, align c = some a → c = a.char)
    (text : List Char) :
    Reads (fun (p : Option (Option Char × Align)) front =>
        front = spellPadding (p.bind (·.1)) (p.map (·.2)) ∧
          WellPadded (p.bind (·.1)) (p.map (·.2)) ∧
          ∀ a ∈ p.map (·.2), align a.char = some a) text
      (optional (padding align) text) := by
  obtain ⟨front, hfront, htaken⟩ := reads_optional (fun _ _ => reads_padding halign) text
  refine ⟨front, hfront, ?_⟩
  cases hp : (optional (padding align) text).1 with
  | none =>
    rw [hp] at htaken
    exact ⟨htaken, ⟨by simp, by simp⟩, by simp⟩
  | some p =>
    rw [hp] at htaken
    obtain ⟨hspell, hwell, ha⟩ := htaken
    refine ⟨hspell, hwell, ?_⟩
    intro a hmem
    rwa [← Option.some.inj hmem]

theorem ofChar?_of_containerAlign {c : Char} {a : Align} (h : containerAlign c = some a) :
    Align.ofChar? c = some a ∧ c ≠ '=' := by
  unfold containerAlign at h
  split at h
  · simp at h
  · exact ⟨h, ‹_›⟩

end Padding

/-! ## Elements and layers -/

theorem append_trans {α : Type} {text middle rest front next : List α} (h : text = front ++ middle)
    (hmiddle : middle = next ++ rest) : text = front ++ next ++ rest := by
  rw [h, hmiddle, List.append_assoc]

/-- What is read as an element spells it. -/
theorem reads_element (text : List Char) :
    Reads (fun e front => e.Spells front ∧ e.Readable) text (element text) := by
  -- The texts that the steps leave, one after the other.
  let behindPadding := (optional (padding Align.ofChar?) text).2
  let behindSign := (optional (oneOf SignMode.ofChar?) behindPadding).2
  let behindZ := (flag 'z' behindSign).2
  let behindMark := (flag '#' behindZ).2
  let behindZero := (zeroFlag behindMark).2
  let behindWidth := (optional count behindZero).2
  let behindGroup := (optional (oneOf groupSeparator) behindWidth).2
  let behindPrecision := (optional precision behindGroup).2
  let behindLocal := (flag 'L' behindPrecision).2
  obtain ⟨pads, hpads, hspads, hpadded, -⟩ :=
    reads_optional_padding (fun _ _ => Align.ofChar?_eq_some_iff.1) text
  obtain ⟨sign, hsign, hssign⟩ := reads_sign behindPadding
  obtain ⟨z, hz, hsz⟩ := reads_flag 'z' behindSign
  obtain ⟨mark, hmark, hsmark⟩ := reads_flag '#' behindZ
  obtain ⟨zero, hzero, hszero⟩ := reads_zeroFlag behindMark
  obtain ⟨width, hwidth, hswidth⟩ := reads_optional (fun _ _ => reads_count) behindZero
  obtain ⟨group, hgroup, hsgroup, hseparator⟩ := reads_grouping behindWidth
  obtain ⟨prec, hprec, hsprec⟩ := reads_optional (fun _ _ => reads_precision) behindGroup
  obtain ⟨flagL, hlocal, hslocal⟩ := reads_flag 'L' behindPrecision
  obtain ⟨type, htype, hstype⟩ := reads_type behindLocal
  obtain ⟨hswidth, hrwidth⟩ := spellsOption_and hswidth
  obtain ⟨hsprec, hrprec⟩ := spellsOption_and hsprec
  refine ⟨pads ++ sign ++ z ++ mark ++ zero ++ width ++ group ++ prec ++ flagL ++ type, ?_,
    ⟨width, prec, hswidth, hsprec, ?_⟩, ⟨hpadded, hrwidth, hrprec, hseparator⟩⟩
  · have h := append_trans (append_trans (append_trans hpads hsign) hz) hmark
    have h := append_trans (append_trans (append_trans h hzero) hwidth) hgroup
    exact append_trans (append_trans (append_trans h hprec) hlocal) htype
  · rw [hspads, hssign, hsz, hsmark, hszero, hsgroup, hslocal, hstype]
    rfl

theorem optional_eq_of_none {α : Type} {step : Reader α} {text : List Char}
    (h : (optional step text).1 = none) : optional step text = (none, text) := by
  unfold optional at h ⊢
  split at h
  · simp at h
  · rfl

theorem optional_oneOf_eq_none {α : Type} {meaning : Char → Option α} {c : Char}
    (h : meaning c = none) (rest : List Char) :
    optional (oneOf meaning) (c :: rest) = (none, c :: rest) := by
  simp [optional, oneOf, h]

theorem ne_of_startsWidth {c d : Char} (hc : startsWidth c = true) (hd : startsWidth d = false) :
    c ≠ d := by
  rintro rfl
  rw [hc] at hd
  exact absurd hd (by decide)

theorem groupSeparator_of_startsWidth {c : Char} (h : startsWidth c = true) :
    groupSeparator c = none := by
  rw [groupSeparator, if_neg]
  rintro (hc | hc)
  · exact ne_of_startsWidth h (by decide) hc
  · exact ne_of_startsWidth h (by decide) hc

theorem type_of_startsWidth {c : Char} (h : startsWidth c = true) : TypeCode.ofChar? c = none := by
  rw [← Option.not_isSome_iff_eq_none, Option.isSome_iff_exists]
  rintro ⟨code, hcode⟩
  have hmem : c ∈ code.char? := TypeCode.ofChar?_eq_some_iff.1 hcode
  have hten := beginsAt_type code c (by rw [Option.head?_toList]; exact hmem)
  have hsix := slot_le_of_startsWidth h
  omega

/-- The steps behind the width take nothing that could start one. -/
theorem rest_of_startsWidth {c : Char} (h : startsWidth c = true) (rest : List Char) :
    (optional (oneOf TypeCode.ofChar?) (flag 'L' (optional precision
      (optional (oneOf groupSeparator) (c :: rest)).2).2).2).2 = c :: rest := by
  have hprecision : precision (c :: rest) = none := by
    unfold precision
    split
    · rename_i heq
      exact absurd (List.cons.inj heq).1 (ne_of_startsWidth h (by decide))
    · rfl
  have hlocal : flag 'L' (c :: rest) = (false, c :: rest) := by
    rw [flag, if_neg (ne_of_startsWidth h (by decide))]
  have hoptional : optional precision (c :: rest) = (none, c :: rest) := by
    rw [optional, hprecision]
  rw [optional_oneOf_eq_none (groupSeparator_of_startsWidth h), hoptional, hlocal,
    optional_oneOf_eq_none (type_of_startsWidth h)]

/-- Behind a flag `0` there is a width, or what could start one is left over. -/
theorem width_of_zeroPad {text : List Char} (hend : (element text).2 = [])
    (hz : (element text).1.zeroPad = true) : (element text).1.width.isSome := by
  obtain ⟨c, rest, hrest, hc⟩ := @startsWidth_of_zeroFlag _ hz
  by_contra hw
  have hcount : optional count (c :: rest) = (none, c :: rest) := by
    refine optional_eq_of_none ?_
    rw [← hrest]
    exact Option.not_isSome_iff_eq_none.1 hw
  have hleft : (element text).2 = (optional (oneOf TypeCode.ofChar?) (flag 'L' (optional precision
      (optional (oneOf groupSeparator) (optional count (c :: rest)).2).2).2).2).2 := by
    rw [← hrest]
    rfl
  rw [hleft, hcount, rest_of_startsWidth hc] at hend
  simp at hend

/-- What is read as a layer spells it. -/
theorem reads_layer (text : List Char) :
    Reads (fun l front => l.Spells front ∧ l.Readable) text (layer text) := by
  let behindPadding := (optional (padding containerAlign) text).2
  let behindWidth := (optional count behindPadding).2
  obtain ⟨pads, hpads, hspads, hpadded, halign⟩ := reads_optional_padding
    (fun _ _ h => Align.ofChar?_eq_some_iff.1 (ofChar?_of_containerAlign h).1) text
  obtain ⟨width, hwidth, hswidth⟩ := reads_optional (fun _ _ => reads_count) behindPadding
  obtain ⟨kind, hkind, hskind⟩ := reads_kind behindWidth
  obtain ⟨hswidth, hrwidth⟩ := spellsOption_and hswidth
  refine ⟨pads ++ width ++ kind, append_trans (append_trans hpads hwidth) hkind,
    ⟨width, hswidth, ?_⟩, hpadded, ?_, hrwidth⟩
  · rw [hspads, hskind]
    rfl
  · intro hsign
    exact (ofChar?_of_containerAlign (halign .signAware hsign)).2 rfl

/-- Layers and an element that are read up to the end of a text are spelled by it. -/
theorem presentation_sound {text : List Char} {layers : List (Layer Count)} {e : Element Count}
    (h : presentation text = .ok (layers, e)) :
    SpellsPresentation layers e text ∧ (∀ l ∈ layers, l.Readable) ∧ e.Readable ∧
      (e.zeroPad = true → e.width.isSome) := by
  fun_induction presentation text generalizing layers with
  | case1 text last hlast =>
    obtain ⟨rfl, rfl⟩ := Prod.mk.inj (Except.ok.inj h)
    have hend : (element text).2 = [] := by rw [hlast]
    obtain ⟨front, htext, hspells, hread⟩ := reads_element text
    rw [hend, List.append_nil] at htext
    have hwidth := width_of_zeroPad hend
    rw [hlast] at hspells hread hwidth
    subst htext
    exact ⟨.element hspells, by simp, hread, hwidth⟩
  | case2 text _ unused _ _ first rest hfirst ih =>
    cases hrest : presentation rest with
    | error left =>
      rw [hrest] at h
      simp [Except.map] at h
    | ok inner =>
      rw [hrest] at h
      obtain ⟨rfl, rfl⟩ := Prod.mk.inj (Except.ok.inj h)
      obtain ⟨hspells, hlayers, hlast⟩ := ih hrest
      obtain ⟨front, htext, hfspells, hfread⟩ := reads_layer text
      rw [hfirst] at htext hfspells hfread
      subst htext
      exact ⟨.layer hfspells hspells, List.forall_mem_cons.2 ⟨hfread, hlayers⟩, hlast⟩
  | case3 => simp at h

end Reader

/-! ## Checks -/

/-- A count that has been read and whose number is in bounds is well-formed. -/
theorem Count.Readable.wellFormed {least : Nat} {c : Count} (h : c.Readable)
    (hn : ∀ n, c = .literal n → least ≤ n ∧ n ≤ maxCount) : c.WellFormed least := by
  cases c with
  | literal n => exact hn n rfl
  | ref selector => cases selector <;> exact h _ rfl

theorem Element.admits_of_checkSpecifiers {κ : Type} {element : Element κ} {rules : TypeCode}
    (h : element.checkSpecifiers rules = .ok ()) {s : Specifier} (hs : element.uses s = true) :
    s ∈ rules.specifiers := by
  unfold checkSpecifiers at h
  split at h
  · simp at h
  · rename_i hnone
    have hall : s ∈ Specifier.all := by cases s <;> decide
    have hadmits := List.find?_eq_none.1 hnone s hall
    rw [← rules.admits_iff]
    simpa [hs] using hadmits

namespace Field

/-- What a field that passes its checks fulfils. -/
theorem of_check_eq_ok {field : Field} (h : field.check = .ok ()) :
    (.literal 0 ∉ field.widths) ∧ field.excessiveCount? = none ∧
      ¬ (field.element.grouping.isSome ∧ field.element.localized = true) ∧
      field.element.checkSpecifiers field.element.type = .ok () := by
  unfold check at h
  split at h
  · simp at h
  · rename_i hzero
    split at h
    · simp at h
    · rename_i hcount
      simp only at h
      split at h
      · simp at h
      · rename_i hgroup
        split at h
        · simp at h
        · exact ⟨hzero, hcount, by simpa using hgroup, h⟩

theorem literal_le_maxCount {field : Field} (h : field.excessiveCount? = none) {n : Nat}
    (hn : .literal n ∈ field.counts) : n ≤ maxCount := by
  have hmem : n ∈ field.counts.filterMap Count.literal? :=
    List.mem_filterMap.2 ⟨.literal n, hn, rfl⟩
  simpa using List.find?_eq_none.1 h n hmem

/-- A field that has been read and passes its checks is well-formed. -/
theorem wellFormed_of_check {field : Field} (hselector : field.selector.WellFormed)
    (hlayers : ∀ layer ∈ field.layers, layer.Readable) (helement : field.element.Readable)
    (hpad : field.element.zeroPad = true → field.element.width.isSome)
    (h : field.check = .ok ()) : field.WellFormed := by
  obtain ⟨hzero, hcount, hgroup, hspecifiers⟩ := of_check_eq_ok h
  have hwidth : ∀ w ∈ field.widths, w.Readable → w ∈ field.counts → w.WellFormed 1 := by
    intro w hw hread hmem
    refine hread.wellFormed ?_
    rintro n rfl
    refine ⟨Nat.one_le_iff_ne_zero.2 ?_, literal_le_maxCount hcount hmem⟩
    rintro rfl
    exact hzero hw
  refine ⟨hselector, ?_, helement.padded, hpad, ?_, ?_, helement.grouping, hgroup,
    fun s => Element.admits_of_checkSpecifiers hspecifiers⟩
  · intro layer hl
    obtain ⟨hpadded, halign, hread⟩ := hlayers layer hl
    refine ⟨hpadded, halign, ?_⟩
    intro w hw
    have hmem : w ∈ field.layers.filterMap (·.width) := List.mem_filterMap.2 ⟨layer, hl, hw⟩
    exact hwidth w (List.mem_append_right _ hmem) (hread w hw) (List.mem_append_right _ hmem)
  · intro w hw
    have hmem : w ∈ field.element.width.toList := Option.mem_toList.2 hw
    exact hwidth w (List.mem_append_left _ hmem) (helement.width w hw)
      (List.mem_append_left _ (List.mem_append_left _ hmem))
  · intro p hp
    refine (helement.precision p hp).wellFormed ?_
    rintro n rfl
    refine ⟨Nat.zero_le n, literal_le_maxCount hcount ?_⟩
    exact List.mem_append_left _ (List.mem_append_right _ (Option.mem_toList.2 hp))

/-! ## The whole field -/

/-- What is read as a field spells it, and its parts are readable. -/
theorem read_sound {raw : String} {field : Field} (h : read raw = .ok field) :
    field.raw = raw ∧ field.Spells raw.toList ∧ field.selector.WellFormed ∧
      (∀ layer ∈ field.layers, layer.Readable) ∧ field.element.Readable ∧
      (field.element.zeroPad = true → field.element.width.isSome) := by
  obtain ⟨front, hraw, hspells, hwell⟩ := Reader.reads_selector raw.toList
  unfold read at h
  split at h
  · rename_i s hs
    obtain rfl := Except.ok.inj h
    rw [hs] at hraw hspells hwell
    rw [List.append_nil] at hraw
    exact ⟨rfl, ⟨front, hspells, .inl ⟨hraw, rfl, rfl⟩⟩, hwell, by simp,
      ⟨⟨by simp, by simp⟩, by simp, by simp, by simp⟩, by simp⟩
  · rename_i s text hs
    rw [hs] at hraw hspells hwell
    split at h
    · rename_i layers e hpresentation
      obtain rfl := Except.ok.inj h
      obtain ⟨hpspells, hlayers, he, hpad⟩ := Reader.presentation_sound hpresentation
      exact ⟨rfl, ⟨front, hspells, .inr ⟨text, hraw, hpspells⟩⟩, hwell, hlayers, he, hpad⟩
    · simp at h
  · simp at h

theorem parse_eq_ok_iff {raw : String} {field : Field} :
    parse raw = .ok field ↔ read raw = .ok field ∧ field.check = .ok () := by
  rw [parse]
  cases hread : read raw with
  | error fault => simp [bind, Except.bind]
  | ok other =>
    cases hcheck : other.check with
    | error fault =>
      simp only [bind, Except.bind, hcheck, Except.ok.injEq, reduceCtorEq, false_iff, not_and]
      rintro rfl
      simp [hcheck]
    | ok =>
      simp only [bind, Except.bind, hcheck, pure, Except.pure, Except.ok.injEq]
      refine ⟨?_, And.left⟩
      rintro rfl
      exact ⟨rfl, hcheck⟩

/-- Nothing but well-formed fields pass the rules once they are read. -/
theorem wellFormed_of_parse {raw : String} {field : Field} (h : parse raw = .ok field) :
    field.WellFormed := by
  obtain ⟨hread, hcheck⟩ := parse_eq_ok_iff.1 h
  obtain ⟨-, -, hselector, hlayers, helement, hpad⟩ := read_sound hread
  exact wellFormed_of_check hselector hlayers helement hpad hcheck

end Field

theorem parseField_eq_ok_iff {raw : String} {field : Field} :
    parseField raw = .ok field ↔ Field.parse raw = .ok field := by
  rw [parseField]
  cases Field.parse raw <;> simp [Except.mapError]

/-- Reading takes every character for the part of the field that it spells, and gives nothing but
well-formed fields. -/
theorem parseField_sound {raw : String} {field : Field} (h : parseField raw = .ok field) :
    field.raw = raw ∧ field.Spells raw.toList ∧ field.WellFormed := by
  have hparse := parseField_eq_ok_iff.1 h
  obtain ⟨hraw, hspells, -⟩ := Field.read_sound (Field.parse_eq_ok_iff.1 hparse).1
  exact ⟨hraw, hspells, Field.wellFormed_of_parse hparse⟩

/-- A field whose text has a zero to spare in front of every number. -/
def paddedField : Field where
  raw := "007:::<05s:>=+#0012_.\x7b03\x7de"
  selector := .index 7
  layers :=
    [{}, { fill := some ':', align := some .left, width := some (.literal 5), kind := .flat }]
  element :=
    { fill := some '>', align := some .signAware, sign := some .always, alternate := true,
      zeroPad := true, width := some (.literal 12), grouping := some '_',
      precision := some (.ref (.index 3)), type := .exponent .lower }

theorem parseField_paddedField :
    parseField paddedField.raw = .ok paddedField ∧ paddedField.Spells paddedField.raw.toList ∧
      paddedField.WellFormed := by
  have h : parseField paddedField.raw = .ok paddedField := by
    decide +kernel
  exact ⟨h, (parseField_sound h).2⟩

end Stencil
