import Stencil.Proofs.Field.Oversized
import Stencil.Proofs.Render.Explicit
import Stencil.Proofs.Render.Faults

/-!
# Widths and precisions out of bounds

A width or precision above the limit is refused where it is met: as a number when its field is
checked, as a reference when its argument is looked up. Nothing else gives this fault, nor the one
of a reference to something that is not a number, so the two tell which argument a rendering has
come to. Numbers that do not fit a machine word are not numbers to either of them.

* `Alongside` — steps that move the cursor alike and fail alike.
* `Field.Selects` — the argument of a width or precision that a field comes to.
* `request_eq_error_iff` — a field fails at a count exactly if it selects an argument that is none.
* `renderFrom_eq_error_iff` — a template fails at the first field that fails.
* `of_parseField_eq_countTooLarge` — the numbers that a field is refused for.
* `count_out_of_bounds` — which fault it is, of a number and of an argument.
-/

namespace Stencil

variable {α β γ : Type}

/-! ## Faults of counts -/

/-- A result that is not such a fault. -/
def Uncounted (result : Except Fault α) : Prop :=
  ∀ fault, result = .error fault → ¬ fault.OfCount

theorem Fault.OfPick.not_ofCount {fault : Fault} (h : fault.OfPick) : ¬ fault.OfCount := by
  intro hcount
  rcases h with rfl | h
  · exact hcount
  · cases fault with
    | invalidReference _ | countTooLarge _ _ => exact h
    | _ => exact hcount

theorem Fault.OfValue.not_ofCount {fault : Fault} (h : fault.OfValue) : ¬ fault.OfCount := by
  intro hcount
  cases fault with
  | invalidReference _ | countTooLarge _ _ => exact h
  | _ => exact hcount

theorem pick_uncounted (args : List Value) (selector : Selector) (c : Cursor) :
    Uncounted (Picking.pick args selector c) :=
  fun fault h => (pick_faultsIn args selector c fault h).not_ofCount

theorem renderValue_uncounted (options : Options) (layers : List (Layer Nat))
    (element : Element Nat) (v : Value) : Uncounted (renderValue options layers element v) :=
  fun fault h => (renderValue_ofValue options layers element v fault h).not_ofCount

/-! ## Looking counts up -/

/-- The counts of a field in the order in which they are looked up: layers, width, precision. -/
def Field.lookups (field : Field) : List Count :=
  field.layers.flatMap (·.width.toList) ++
    (field.element.width.toList ++ field.element.precision.toList)

/-- A field that is served at a cursor comes to a width or precision that refers to an argument: its
value is found, and so is everything that is looked up before. -/
inductive Field.Selects (args : List Value) (field : Field) (c : Cursor) (w : Value) : Prop where
  | intro {v : Value} {d d' d'' : Cursor} {first second : List Count} {selector : Selector}
      {ns : List (Option Nat)} (value : Picking.pick args field.selector c = .ok (v, d))
      (order : field.lookups = first ++ .ref selector :: second)
      (found : first.mapM (fun count => Picking.pickCount args (some count)) d = .ok (ns, d'))
      (argument : Picking.pick args selector d' = .ok (w, d''))

/-- Two steps that move the cursor alike, or fail alike. -/
def Alongside (p : Picking α) (q : Picking β) : Prop :=
  ∀ c, (∃ fault, p c = .error fault ∧ q c = .error fault) ∨
    ∃ a b d, p c = .ok (a, d) ∧ q c = .ok (b, d)

namespace Alongside

theorem pure (a : α) (b : β) : Alongside (Pure.pure a) (Pure.pure b) :=
  fun c => .inr ⟨a, b, c, rfl, rfl⟩

theorem refl (p : Picking α) : Alongside p p := by
  intro c
  cases hp : p c with
  | error fault => exact .inl ⟨fault, rfl, rfl⟩
  | ok result => exact .inr ⟨result.1, result.1, result.2, rfl, rfl⟩

theorem bind {δ : Type} {p : Picking α} {q : Picking β} {f : α → Picking γ} {g : β → Picking δ}
    (h : Alongside p q) (hf : ∀ a b, Alongside (f a) (g b)) : Alongside (p >>= f) (q >>= g) := by
  intro c
  simp only [Bind.bind, StateT.bind]
  rcases h c with ⟨fault, hp, hq⟩ | ⟨a, b, d, hp, hq⟩
  · exact .inl ⟨fault, by rw [hp]; rfl, by rw [hq]; rfl⟩
  · rw [hp, hq]
    exact hf a b d

theorem map_left {p : Picking α} {q : Picking β} (h : Alongside p q) (f : α → γ) :
    Alongside (p >>= fun a => Pure.pure (f a)) q := by
  intro c
  simp only [Bind.bind, StateT.bind]
  rcases h c with ⟨fault, hp, hq⟩ | ⟨a, b, d, hp, hq⟩
  · exact .inl ⟨fault, by rw [hp]; rfl, hq⟩
  · exact .inr ⟨f a, b, d, by rw [hp]; rfl, hq⟩

theorem symm {p : Picking α} {q : Picking β} (h : Alongside p q) : Alongside q p := by
  intro c
  rcases h c with ⟨fault, hp, hq⟩ | ⟨a, b, d, hp, hq⟩
  · exact .inl ⟨fault, hq, hp⟩
  · exact .inr ⟨b, a, d, hq, hp⟩

theorem trans {p : Picking α} {q : Picking β} {r : Picking γ} (h : Alongside p q)
    (h' : Alongside q r) : Alongside p r := by
  intro c
  rcases h c with ⟨fault, hp, hq⟩ | ⟨a, b, d, hp, hq⟩ <;>
    rcases h' c with ⟨fault', hq', hr⟩ | ⟨b', g, d', hq', hr⟩ <;> rw [hq] at hq' <;> cases hq'
  · exact .inl ⟨fault, hp, hr⟩
  · exact .inr ⟨a, g, d, hp, hr⟩

theorem error_iff {p : Picking α} {q : Picking β} (h : Alongside p q) (c : Cursor)
    (fault : Fault) : p c = .error fault ↔ q c = .error fault := by
  rcases h c with ⟨found, hp, hq⟩ | ⟨a, b, d, hp, hq⟩
  · rw [hp, hq, Except.error.injEq, Except.error.injEq]
  · rw [hp, hq]
    simp

end Alongside

section Lookups

variable (args : List Value)

theorem alongside_option (o : Option Count) :
    Alongside (Picking.pickCount args o)
      (o.toList.mapM fun count => Picking.pickCount args (some count)) := by
  cases o with
  | none => exact .pure _ _
  | some count =>
    rw [Option.toList_some, List.mapM_cons, List.mapM_nil]
    exact ((Alongside.refl (Picking.pickCount args (some count))).map_left fun n => [n]).symm

theorem alongside_layers (layers : List (Layer Count)) :
    Alongside (layers.mapM (Picking.pickLayer args))
      ((layers.flatMap (·.width.toList)).mapM fun count =>
        Picking.pickCount args (some count)) := by
  induction layers with
  | nil => exact .pure _ _
  | cons layer rest ih =>
    have hlayer := (alongside_option args layer.width).map_left fun width =>
      ({ fill := layer.fill, align := layer.align, width, kind := layer.kind } : Layer Nat)
    rw [List.mapM_cons, List.flatMap_cons, List.mapM_append]
    exact hlayer.bind fun _ _ => ih.bind fun _ _ => .pure _ _

theorem alongside_element (element : Element Count) :
    Alongside (Picking.pickElement args element)
      ((element.width.toList ++ element.precision.toList).mapM fun count =>
        Picking.pickCount args (some count)) := by
  rw [List.mapM_append]
  refine (alongside_option args element.width).bind fun _ _ => ?_
  exact (alongside_option args element.precision).bind fun _ _ => .pure _ _

/-- A request looks its value up and then its counts one by one. -/
theorem alongside_request (field : Field) :
    Alongside (field.request args) (do
      let _ ← Picking.pick args field.selector
      field.lookups.mapM fun count => Picking.pickCount args (some count)) := by
  refine (Alongside.refl _).bind fun _ _ => ?_
  rw [Field.lookups, List.mapM_append]
  refine (alongside_layers args field.layers).bind fun _ _ => ?_
  exact (alongside_element args field.element).bind fun _ _ => .pure _ _

end Lookups

/-! ## The first step that fails -/

theorem mapM_eq_error {f : α → Picking β} {first second : List α} {x : α} {ns : List β}
    {c d : Cursor} {fault : Fault} (hfirst : first.mapM f c = .ok (ns, d))
    (hx : f x d = .error fault) : (first ++ x :: second).mapM f c = .error fault := by
  have hrest : (x :: second).mapM f d = .error fault := by
    rw [List.mapM_cons]
    simp only [Bind.bind, StateT.bind, hx]
    rfl
  rw [List.mapM_append]
  simp only [Bind.bind, StateT.bind, hfirst]
  simp only [Except.bind, hrest]

theorem exists_of_mapM_eq_error {f : α → Picking β} {xs : List α} {c : Cursor} {fault : Fault}
    (h : xs.mapM f c = .error fault) :
    ∃ first x second ns d, xs = first ++ x :: second ∧ first.mapM f c = .ok (ns, d) ∧
      f x d = .error fault := by
  induction xs generalizing c with
  | nil => cases h
  | cons x xs ih =>
    rw [List.mapM_cons] at h
    simp only [Bind.bind, StateT.bind] at h
    cases hx : f x c with
    | error found =>
      rw [hx] at h
      obtain rfl := Except.error.inj h
      exact ⟨[], x, xs, [], c, rfl, rfl, hx⟩
    | ok result =>
      obtain ⟨y, d⟩ := result
      rw [hx] at h
      cases hxs : xs.mapM f d with
      | ok rest =>
        simp only [Except.bind, hxs] at h
        cases h
      | error found =>
        simp only [Except.bind, hxs] at h
        obtain rfl := Except.error.inj h
        obtain ⟨first, z, second, ns, e, rfl, hfirst, hz⟩ := ih hxs
        refine ⟨x :: first, z, second, y :: ns, e, rfl, ?_, hz⟩
        rw [List.mapM_cons]
        simp only [Bind.bind, StateT.bind, hx]
        simp only [Except.bind, hfirst]
        rfl

section Selects

variable {args : List Value} {fault : Fault}

theorem exists_of_pickCount_eq_error (hfault : fault.OfCount) {count : Count} {d : Cursor}
    (h : Picking.pickCount args (some count) d = .error fault) :
    ∃ selector w d', count = .ref selector ∧ Picking.pick args selector d = .ok (w, d') ∧
      Picking.countOf w = .error fault := by
  cases count with
  | literal n => cases h
  | ref selector =>
    rw [pickCount_ref] at h
    cases hpick : Picking.pick args selector d with
    | error found =>
      rw [hpick] at h
      obtain rfl := Except.error.inj h
      exact absurd hfault (pick_uncounted args selector d _ hpick)
    | ok picked =>
      obtain ⟨w, d'⟩ := picked
      rw [hpick] at h
      refine ⟨selector, w, d', rfl, hpick, ?_⟩
      cases hcount : Picking.countOf w with
      | ok n =>
        simp only [Except.bind, hcount] at h
        cases h
      | error found =>
        simp only [Except.bind, hcount] at h
        obtain rfl := Except.error.inj h
        rfl

/-- Looking a field up fails at a count exactly if the field comes to a reference whose argument is
no count. -/
theorem request_eq_error_iff (hfault : fault.OfCount) (field : Field) (c : Cursor) :
    field.request args c = .error fault ↔
      ∃ w, field.Selects args c w ∧ Picking.countOf w = .error fault := by
  rw [(alongside_request args field).error_iff]
  simp only [Bind.bind, StateT.bind]
  constructor
  · intro h
    cases hvalue : Picking.pick args field.selector c with
    | error found =>
      rw [hvalue] at h
      obtain rfl := Except.error.inj h
      exact absurd hfault (pick_uncounted args field.selector c _ hvalue)
    | ok picked =>
      obtain ⟨v, d⟩ := picked
      rw [hvalue] at h
      obtain ⟨first, count, second, ns, d', horder, hfound, hcount⟩ := exists_of_mapM_eq_error h
      obtain ⟨selector, w, d'', rfl, hpick, hw⟩ := exists_of_pickCount_eq_error hfault hcount
      exact ⟨w, ⟨hvalue, horder, hfound, hpick⟩, hw⟩
  · rintro ⟨w, ⟨hvalue, horder, hfound, hpick⟩, hw⟩
    rw [hvalue, horder]
    refine mapM_eq_error hfound ?_
    rw [pickCount_ref, hpick]
    simp only [Except.bind, hw]
    rfl

/-- Nor does a field fail so when it is rendered: the value has faults of its own. -/
theorem render_eq_error_iff (hfault : fault.OfCount) (options : Options) (field : Field)
    (c : Cursor) :
    field.render options args c = .error fault ↔
      ∃ w, field.Selects args c w ∧ Picking.countOf w = .error fault := by
  rw [← request_eq_error_iff hfault, Field.render]
  simp only [Bind.bind, StateT.bind]
  cases field.request args c with
  | error found => simp only [Except.bind, Except.error.injEq]
  | ok result =>
    obtain ⟨request, d⟩ := result
    have hvalue : Uncounted
        ((liftM (renderValue options request.layers request.element request.value) :
          Picking (List Char)) d) :=
      FaultsIn.bind (renderValue_uncounted options _ _ _) fun _ => .ok _
    exact ⟨fun h => absurd hfault (hvalue fault h), fun h => by cases h⟩

end Selects

/-! ## The first field that fails -/

/-- Rendering a template comes to a field at a cursor: the segments in front of it render. -/
inductive Template.Reaches (options : Options) (args : List Value) (template : Template Field)
    (field : Field) (c : Cursor) : Prop where
  | intro {before after : Template Field} {text : List Char}
      (place : template = before ++ .field field :: after)
      (rendered : Renders options args {} before text c)

section Reaches

variable {options : Options} {args : List Value}

theorem renderFrom_eq_error_iff {template : Template Field} {c : Cursor} {e : FormatError} :
    renderFrom options args c template = .error e ↔
      ∃ before field after text d fault, template = before ++ .field field :: after ∧
        Renders options args c before text d ∧ field.render options args d = .error fault ∧
        e = .inField field.raw fault := by
  constructor
  · intro h
    induction template generalizing c with
    | nil => cases h
    | cons segment rest ih =>
      cases segment with
      | literal text =>
        rw [renderFrom] at h
        cases hrest : renderFrom options args c rest with
        | ok out =>
          rw [hrest] at h
          cases h
        | error found =>
          rw [hrest] at h
          obtain rfl := Except.error.inj h
          obtain ⟨before, field, after, out, d, fault, rfl, hbefore, hfield, rfl⟩ := ih hrest
          exact ⟨_, field, after, _, d, fault, rfl, .literal hbefore, hfield, rfl⟩
      | field field =>
        rw [renderFrom] at h
        cases hfield : field.render options args c with
        | error fault =>
          rw [hfield] at h
          obtain rfl := Except.error.inj h
          exact ⟨[], field, rest, [], c, fault, rfl, .nil c, hfield, rfl⟩
        | ok result =>
          obtain ⟨text, d⟩ := result
          rw [hfield] at h
          simp only [Except.mapError, Bind.bind, Except.bind] at h
          cases hrest : renderFrom options args d rest with
          | ok out =>
            rw [hrest] at h
            cases h
          | error found =>
            rw [hrest] at h
            obtain rfl := Except.error.inj h
            obtain ⟨before, other, after, out, d', fault, rfl, hbefore, hother, rfl⟩ := ih hrest
            exact ⟨_, other, after, _, d', fault, rfl, .field hfield hbefore, hother, rfl⟩
  · rintro ⟨before, field, after, text, d, fault, rfl, hbefore, hfield, rfl⟩
    rw [renderFrom_append hbefore, renderFrom, hfield]
    rfl

/-- A template fails at a width or precision exactly if rendering comes to a field that comes to a
reference whose argument is none. -/
theorem render_eq_count_error_iff {template : Template Field} {raw : String} {fault : Fault}
    (hfault : fault.OfCount) :
    template.render args options = .error (.inField raw fault) ↔
      ∃ field c w, template.Reaches options args field c ∧ field.raw = raw ∧
        field.Selects args c w ∧ Picking.countOf w = .error fault := by
  have hrender : template.render args options = .error (.inField raw fault) ↔
      renderFrom options args {} template = .error (.inField raw fault) := by
    rw [Template.render]
    cases renderFrom options args {} template <;> simp [Except.map]
  rw [hrender, renderFrom_eq_error_iff]
  constructor
  · rintro ⟨before, field, after, text, c, found, hplace, hbefore, hfield, he⟩
    obtain ⟨rfl, rfl⟩ := FormatError.inField.inj he
    obtain ⟨w, hselects, hw⟩ := (render_eq_error_iff hfault options field c).1 hfield
    exact ⟨field, c, w, ⟨hplace, hbefore⟩, rfl, hselects, hw⟩
  · rintro ⟨field, c, w, ⟨hplace, hbefore⟩, rfl, hselects, hw⟩
    exact ⟨_, field, _, _, c, fault, hplace, hbefore,
      (render_eq_error_iff hfault options field c).2 ⟨w, hselects, hw⟩, rfl⟩

end Reaches

/-! ## Out of bounds -/

theorem Value.word?_eq_some_iff {w : Value} {n : Nat} :
    w.word? = some n ↔ (w = .int n ∨ w = .big n) ∧ n < wordLimit := by
  cases w with
  | int v | big v =>
    simp only [word?, Option.ite_none_right_eq_some, Option.some.injEq, int.injEq, big.injEq,
      reduceCtorEq, or_false, false_or]
    constructor
    · rintro ⟨⟨hpos, hlt⟩, rfl⟩
      exact ⟨by omega, hlt⟩
    · rintro ⟨rfl, hlt⟩
      simpa using hlt
  | _ => simp [word?]

theorem countOf_eq_countTooLarge_iff {w : Value} {n limit : Nat} :
    Picking.countOf w = .error (.countTooLarge n limit) ↔
      w.word? = some n ∧ maxCount < n ∧ limit = maxCount := by
  rw [Picking.countOf]
  cases w.word? with
  | none => simp
  | some m =>
    by_cases hm : maxCount < m
    · simp only [if_pos hm, Except.error.injEq, Fault.countTooLarge.injEq, Option.some.injEq]
      constructor
      · rintro ⟨rfl, rfl⟩
        exact ⟨rfl, hm, rfl⟩
      · rintro ⟨rfl, -, rfl⟩
        exact ⟨rfl, rfl⟩
    · simp only [if_neg hm, reduceCtorEq, Option.some.injEq, false_iff, not_and]
      rintro rfl hlarge
      exact absurd hlarge hm

theorem countOf_eq_invalidReference_iff {w : Value} {observed : String} :
    Picking.countOf w = .error (.invalidReference observed) ↔
      w.word? = none ∧ observed = w.kind ++ " " ++ String.ofList w.display := by
  rw [Picking.countOf]
  cases w.word? with
  | none => simp [eq_comm]
  | some m => by_cases hm : maxCount < m <;> simp [hm]

/-! ## Numbers that are read -/

theorem Field.of_check_eq_countTooLarge {field : Field} {n limit : Nat}
    (h : field.check = .error (.countTooLarge n limit)) :
    limit = maxCount ∧ maxCount < n ∧ .literal n ∈ field.counts := by
  rw [check] at h
  split at h
  · cases h
  · split at h
    · rename_i m hm
      cases h
      obtain ⟨c, hc, hlit⟩ := List.mem_filterMap.1 (List.mem_of_find?_eq_some hm)
      cases c with
      | ref s => cases hlit
      | literal k =>
        obtain rfl := Option.some.inj hlit
        exact ⟨rfl, by simpa using List.find?_some hm, hc⟩
    · simp only at h
      split at h
      · cases h
      · split at h
        · cases h
        · rw [Element.checkSpecifiers] at h
          split at h <;> cases h

/-- A field is refused for a number above the limit only if that fits a machine word. -/
theorem of_parseField_eq_countTooLarge {raw : String} {n limit : Nat}
    (h : parseField raw = .error (.inField raw (.countTooLarge n limit))) :
    limit = maxCount ∧ maxCount < n ∧ n < wordLimit := by
  rw [parseField, Field.parse] at h
  cases hread : Field.read raw with
  | error fault =>
    rw [hread] at h
    obtain ⟨reason, rfl⟩ := Field.exists_malformed_of_read hread
    cases h
  | ok field =>
    rw [hread] at h
    cases hcheck : field.check with
    | ok _ =>
      simp only [bind, Except.bind, hcheck] at h
      cases h
    | error fault =>
      simp only [bind, Except.bind, hcheck] at h
      obtain ⟨-, rfl⟩ := FormatError.inField.inj (Except.error.inj h)
      obtain ⟨hlimit, hlarge, hmem⟩ := Field.of_check_eq_countTooLarge hcheck
      exact ⟨hlimit, hlarge, Field.lt_wordLimit_of_read hread hmem⟩

/-- What becomes of widths and precisions above the limit: those that fit a machine word are refused
for their size, and no others. A number is refused with the field it is written in, whatever
reference it stands for, and a rendering fails at the first reference that gives such a number.
Where a number behind a selector does not fit, the field is malformed. That a reference is invalid
is said of all arguments that are no whole numbers, that are negative or that do not fit a machine
word, and of no others. -/
theorem count_out_of_bounds (raw : String) :
    (∀ field position (run : DigitRun), parseField raw = .ok field →
      .ref (.index position) ∈ field.counts → maxCount < run.value →
      let written := String.ofList ((Filling.only position run).text raw.toList)
      parseField written = .error (.inField written (.countTooLarge run.value maxCount))) ∧
    (∀ spec, ':' :: spec <:+ raw.toList → ¬ WordSized spec →
      ∃ reason, parseField raw = .error (.inField raw (.malformed reason))) ∧
    (∀ n limit, parseField raw = .error (.inField raw (.countTooLarge n limit)) →
      limit = maxCount ∧ maxCount < n ∧ n < wordLimit) ∧
    ∀ (template : Template Field) (args : List Value) (options : Options),
      (∀ n limit : Nat,
        template.render args options = .error (.inField raw (.countTooLarge n limit)) ↔
          limit = maxCount ∧ maxCount < n ∧ n < wordLimit ∧ ∃ field c w,
            template.Reaches options args field c ∧ field.raw = raw ∧ field.Selects args c w ∧
              (w = .int n ∨ w = .big n)) ∧
      ∀ observed,
        template.render args options = .error (.inField raw (.invalidReference observed)) ↔
          ∃ field c w, template.Reaches options args field c ∧ field.raw = raw ∧
            field.Selects args c w ∧ observed = w.kind ++ " " ++ String.ofList w.display ∧
              ∀ n : Nat, w = .int n ∨ w = .big n → wordLimit ≤ n := by
  refine ⟨?_, fun _ => parseField_of_not_wordSized, fun _ _ => of_parseField_eq_countTooLarge,
    fun template args options => ⟨fun n limit => ?_, fun observed => ?_⟩⟩
  · intro field position run hparse hposition hlarge written
    have hwell := Field.wellFormed_of_parse (parseField_eq_ok_iff.1 hparse)
    obtain ⟨hread, -⟩ := Field.parse_eq_ok_iff.1 (parseField_eq_ok_iff.1 hparse)
    obtain ⟨zeroPad, hfilled, -⟩ := Reader.read_text (Filling.only position run) hread
    have hcheck := Filling.check_only hwell hposition hlarge zeroPad
    rw [parseField, Field.parse, hfilled]
    simp only [bind, Except.bind, hcheck]
    rfl
  · have hcount : (Fault.countTooLarge n limit).OfCount := trivial
    rw [render_eq_count_error_iff hcount]
    simp only [countOf_eq_countTooLarge_iff, Value.word?_eq_some_iff]
    constructor
    · rintro ⟨field, c, w, hreaches, hraw, hselects, ⟨hw, hlt⟩, hlarge, hlimit⟩
      exact ⟨hlimit, hlarge, hlt, field, c, w, hreaches, hraw, hselects, hw⟩
    · rintro ⟨hlimit, hlarge, hlt, field, c, w, hreaches, hraw, hselects, hw⟩
      exact ⟨field, c, w, hreaches, hraw, hselects, ⟨hw, hlt⟩, hlarge, hlimit⟩
  · have hcount : (Fault.invalidReference observed).OfCount := trivial
    have hnone : ∀ w : Value, w.word? = none ↔
        ∀ n : Nat, w = .int n ∨ w = .big n → wordLimit ≤ n := by
      intro w
      simp only [Option.eq_none_iff_forall_ne_some, ne_eq, Value.word?_eq_some_iff, not_and, not_lt]
    rw [render_eq_count_error_iff hcount]
    simp only [countOf_eq_invalidReference_iff, hnone]
    constructor
    · rintro ⟨field, c, w, hreaches, hraw, hselects, hw, hobserved⟩
      exact ⟨field, c, w, hreaches, hraw, hselects, hobserved, hw⟩
    · rintro ⟨field, c, w, hreaches, hraw, hselects, hobserved, hw⟩
      exact ⟨field, c, w, hreaches, hraw, hselects, hw, hobserved⟩

/-- A field with a width from the argument behind its value. -/
def widthField : Field where
  raw := ":\x7b\x7d"
  element := { width := some (.ref .auto) }

theorem widthField_selects (w : Value) : widthField.Selects [.int 1, w] {} w :=
  ⟨rfl, rfl, rfl, rfl⟩

/-- One above the limit, with zeros in front. -/
def largeRun : DigitRun where
  digits := ['0', '1', '0', '0', '0', '0', '1']
  ne_nil := by decide
  isDigit := by simp
  lt_wordLimit := by
    have hvalue : Reader.numberOf ['0', '1', '0', '0', '0', '0', '1'] = maxCount + 1 := by decide
    rw [hvalue]
    decide

/-- The width of a layer, a precision that does not fit a machine word, and an argument that is too
large or negative. -/
theorem count_out_of_bounds_width :
    parseField "0:*^0100001m:08.\x7b2\x7df" = .error
        (.inField "0:*^0100001m:08.\x7b2\x7df" (.countTooLarge 100001 maxCount)) ∧
      (∃ reason, parseField "0:*^8m:.018446744073709551616f" = .error
        (.inField "0:*^8m:.018446744073709551616f" (.malformed reason))) ∧
      Template.render [.literal "n", .field widthField] [.int 1, .big 100001] {} =
        .error (.inField ":\x7b\x7d" (.countTooLarge 100001 maxCount)) ∧
      Template.render [.literal "n", .field widthField] [.int 1, .int (-1)] {} =
        .error (.inField ":\x7b\x7d" (.invalidReference "integer -1")) := by
  have hparse : parseField "0:*^\x7b1\x7dm:08.\x7b2\x7df" = .ok {
      raw := "0:*^\x7b1\x7dm:08.\x7b2\x7df"
      selector := .index 0
      layers := [{
        fill := some '*', align := some .center, width := some (.ref (.index 1)), kind := .brace }]
      element := {
        zeroPad := true, width := some (.literal 8), precision := some (.ref (.index 2)),
        type := .fixed .lower } } := by
    decide +kernel
  have hwritten :
      String.ofList ((Filling.only 1 largeRun).text "0:*^\x7b1\x7dm:08.\x7b2\x7df".toList) =
        "0:*^0100001m:08.\x7b2\x7df" := by
    decide +kernel
  have hreaches : ∀ w, Template.Reaches {} [.int 1, w] [.literal "n", .field widthField] widthField
      {} := fun w => ⟨rfl, .literal (.nil {})⟩
  refine ⟨?_, ?_, ?_, ?_⟩
  · have h := (count_out_of_bounds _).1 _ 1 largeRun hparse (by decide) (by decide +kernel)
    have hvalue : largeRun.value = 100001 := by decide +kernel
    rwa [hwritten, hvalue] at h
  · refine (count_out_of_bounds _).2.1 "*^8m:.018446744073709551616f".toList ⟨['0'], rfl⟩ ?_
    intro h
    refine absurd (h "018446744073709551616".toList ⟨"*^8m:.".toList, ['f'], rfl⟩ ?_) ?_
    · simp
    · decide +kernel
  · refine (((count_out_of_bounds _).2.2.2 _ _ _).1 100001 maxCount).2
      ⟨rfl, by decide, by decide, ?_⟩
    exact ⟨widthField, {}, _, hreaches _, rfl, widthField_selects _, .inr rfl⟩
  · refine (((count_out_of_bounds _).2.2.2 _ _ _).2 "integer -1").2
      ⟨widthField, {}, _, hreaches _, rfl, widthField_selects _, by decide +kernel, ?_⟩
    rintro n (h | h)
    · have hn := Value.int.inj h
      omega
    · cases h

/-- A width that does not fit a machine word is above the limit too, and yet it is neither refused
as such where it is written nor where it is an argument. -/
theorem count_beyond_word :
    maxCount < 18446744073709551616 ∧
      parseField ":18446744073709551616" = .error (.inField ":18446744073709551616"
        (.malformed "unconsumed specifier text '18446744073709551616'")) ∧
      formatWith "\x7b:\x7b\x7d\x7d" [.int 1, .big 18446744073709551616] {} =
        .error (.inField ":\x7b\x7d" (.invalidReference "integer 18446744073709551616")) := by
  decide +kernel

end Stencil
