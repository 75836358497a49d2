import Mathlib.Data.List.Basic
import Stencil.Render.Template

/-!
# Automatic numbering

A template that leaves its positions out means the same as the one that spells them: the first
selector without a position is 0, the next one 1, and so on.

* `Template.numbered` — a template with its positions filled in.
* `Positionless` — selectors, counts, fields and templates that give no position themselves.
* `Relates` — steps that come out alike at related cursors.
* `Paired`, `Mirrors` — cursors that count the same arguments automatically and by position, and
  steps that cannot tell them apart.
* `render_numbered` — a positionless template renders as the numbered one does.
-/

namespace Stencil

/-! ## Filling positions in -/

/-- A selector without a position takes the next one. -/
def Selector.number : Selector → StateM Nat Selector
  | .auto => fun next => (.index next, next + 1)
  | selector => pure selector

/-- A count that refers to an argument takes its position from the selector. -/
def Count.number : Count → StateM Nat Count
  | .literal n => pure (.literal n)
  | .ref selector => return .ref (← selector.number)

/-- A layer with the position of its width. -/
def Layer.number (layer : Layer Count) : StateM Nat (Layer Count) := do
  let width ← layer.width.mapM Count.number
  return { layer with width }

/-- An element with the positions of its width and its precision, in this order. -/
def Element.number (element : Element Count) : StateM Nat (Element Count) := do
  let width ← element.width.mapM Count.number
  let precision ← element.precision.mapM Count.number
  return { element with width, precision }

/-- A field with all its positions: first its value, then the layers, then the element. -/
def Field.number (field : Field) : StateM Nat Field := do
  let selector ← field.selector.number
  let layers ← field.layers.mapM Layer.number
  let element ← field.element.number
  return { field with selector, layers, element }

/-- A segment with all its positions; text has none. -/
def Segment.number : Segment Field → StateM Nat (Segment Field)
  | .literal text => pure (.literal text)
  | .field content => return .field (← content.number)

/-- A template with its positions filled in from left to right. -/
def Template.numbered (template : Template Field) : Template Field :=
  ((template.mapM Segment.number).run 0).1

@[simp]
theorem Field.raw_number (field : Field) (k : Nat) : (field.number k).1.raw = field.raw := rfl

theorem Segment.number_literal (text : String) (k : Nat) :
    Segment.number (.literal text) k = (.literal text, k) := rfl

theorem Segment.number_field (field : Field) (k : Nat) :
    Segment.number (.field field) k = (.field (field.number k).1, (field.number k).2) := rfl

/-- Of a list the head is numbered first, and the tail goes on where the head has stopped. -/
theorem mapM_cons_apply {α β : Type} (f : α → StateM Nat β) (x : α) (xs : List α) (k : Nat) :
    (x :: xs).mapM f k = ((f x k).1 :: (xs.mapM f (f x k).2).1, (xs.mapM f (f x k).2).2) := by
  rw [List.mapM_cons]
  rfl

/-! ## Fields without positions -/

/-- A selector that does not give a position. -/
def Selector.Positionless : Selector → Prop
  | .index _ => False
  | .auto | .name _ => True

/-- A count that does not give the position of an argument. -/
def Count.Positionless : Count → Prop
  | .literal _ => True
  | .ref selector => selector.Positionless

/-- A field that gives no position, neither for its value nor for a width or precision. -/
structure Field.Positionless (field : Field) : Prop where
  selector : field.selector.Positionless
  layers : ∀ layer ∈ field.layers, ∀ count ∈ layer.width, count.Positionless
  width : ∀ count ∈ field.element.width, count.Positionless
  precision : ∀ count ∈ field.element.precision, count.Positionless

/-- A segment that gives no position; text never does. -/
def Segment.Positionless : Segment Field → Prop
  | .literal _ => True
  | .field content => content.Positionless

/-- A template that gives no position anywhere. -/
def Template.Positionless (template : Template Field) : Prop :=
  ∀ segment ∈ template, segment.Positionless

instance : DecidablePred Selector.Positionless
  | .index _ => inferInstanceAs (Decidable False)
  | .auto | .name _ => inferInstanceAs (Decidable True)

instance : DecidablePred Count.Positionless
  | .literal _ => inferInstanceAs (Decidable True)
  | .ref selector => inferInstanceAs (Decidable selector.Positionless)

instance (field : Field) : Decidable field.Positionless :=
  decidable_of_iff
    (field.selector.Positionless ∧
      (∀ layer ∈ field.layers, ∀ count ∈ layer.width, count.Positionless) ∧
      (∀ count ∈ field.element.width, count.Positionless) ∧
      ∀ count ∈ field.element.precision, count.Positionless)
    ⟨fun ⟨selector, layers, width, precision⟩ => ⟨selector, layers, width, precision⟩,
      fun ⟨selector, layers, width, precision⟩ => ⟨selector, layers, width, precision⟩⟩

instance : DecidablePred Segment.Positionless
  | .literal _ => inferInstanceAs (Decidable True)
  | .field content => inferInstanceAs (Decidable content.Positionless)

instance (template : Template Field) : Decidable (Template.Positionless template) :=
  inferInstanceAs (Decidable (∀ segment ∈ template, segment.Positionless))

/-! ## Paired cursors -/

/-- Two cursors that have picked the same arguments: one has counted `next` of them automatically,
the other one was told their positions. -/
structure Paired (next : Nat) (counting told : Cursor) : Prop where
  next : counting.next = next
  automatic : counting.numbering ≠ some .manual
  manual : told.numbering ≠ some .automatic

variable {α β : Type}

/-- Two steps that fail alike or give the same result at related cursors, and leave them related. -/
def Relates (before after : Cursor → Cursor → Prop) (p q : Picking α) : Prop :=
  ∀ c c', before c c' →
    (∃ fault, p c = .error fault ∧ q c' = .error fault) ∨
      ∃ a d d', p c = .ok (a, d) ∧ q c' = .ok (a, d') ∧ after d d'

namespace Relates

variable {before middle after : Cursor → Cursor → Prop}

theorem pure (a : α) : Relates before before (Pure.pure a) (Pure.pure a) :=
  fun c c' h => .inr ⟨a, c, c', rfl, rfl, h⟩

/-- A step that does not look at the cursor is related to itself. -/
theorem lift (x : Except Fault α) :
    Relates before before (liftM x : Picking α) (liftM x : Picking α) := by
  intro c c' h
  cases x with
  | error fault => exact .inl ⟨fault, rfl, rfl⟩
  | ok a => exact .inr ⟨a, c, c', rfl, rfl, h⟩

theorem bind {p q : Picking α} {f g : α → Picking β} (h : Relates before middle p q)
    (hf : ∀ a, Relates middle after (f a) (g a)) : Relates before after (p >>= f) (q >>= g) := by
  intro c c' hc
  simp only [Bind.bind, StateT.bind]
  rcases h c c' hc with ⟨fault, hp, hq⟩ | ⟨a, d, d', hp, hq, hd⟩
  · exact .inl ⟨fault, by rw [hp]; rfl, by rw [hq]; rfl⟩
  · rw [hp, hq]
    exact hf a d d' hd

end Relates

/-- Two steps that fail alike or give the same result at paired cursors, and leave them paired; the
first step counts from `k` to `k'`. -/
def Mirrors (k k' : Nat) (p q : Picking α) : Prop :=
  ∀ c c', Paired k c c' →
    (∃ fault, p c = .error fault ∧ q c' = .error fault) ∨
      ∃ a d d', p c = .ok (a, d) ∧ q c' = .ok (a, d') ∧ Paired k' d d'

namespace Mirrors

theorem pure (k : Nat) (a : α) : Mirrors k k (Pure.pure a) (Pure.pure a) :=
  Relates.pure a

theorem lift (k : Nat) (x : Except Fault α) :
    Mirrors k k (liftM x : Picking α) (liftM x : Picking α) :=
  Relates.lift x

theorem bind {k k' k'' : Nat} {p q : Picking α} {f g : α → Picking β} (h : Mirrors k k' p q)
    (hf : ∀ a, Mirrors k' k'' (f a) (g a)) : Mirrors k k'' (p >>= f) (q >>= g) :=
  Relates.bind h hf

end Mirrors

/-! ## Picking by number -/

section Picking

variable (args : List Value)

theorem pick_auto {c : Cursor} (h : c.numbering ≠ some .manual) :
    Picking.pick args .auto c = (Picking.positional args c.next).map fun v =>
      (v, { next := c.next + 1, numbering := some .automatic }) := by
  have henter : Picking.enter .automatic c = .ok ((), { c with numbering := some .automatic }) := by
    obtain ⟨next, _ | _ | _⟩ := c
    · rfl
    · rfl
    · exact absurd rfl h
  simp only [Picking.pick, Bind.bind, StateT.bind, henter]
  rfl

theorem pick_index (position : Nat) {c : Cursor} (h : c.numbering ≠ some .automatic) :
    Picking.pick args (.index position) c = (Picking.positional args position).map fun v =>
      (v, { c with numbering := some .manual }) := by
  have henter : Picking.enter .manual c = .ok ((), { c with numbering := some .manual }) := by
    obtain ⟨next, _ | _ | _⟩ := c
    · rfl
    · exact absurd rfl h
    · rfl
  simp only [Picking.pick, Bind.bind, StateT.bind, henter]
  rfl

/-- Taking the next argument is taking the argument at the position that is next. -/
theorem mirrors_auto (k : Nat) :
    Mirrors k (k + 1) (Picking.pick args .auto) (Picking.pick args (.index k)) := by
  intro c c' h
  rw [pick_auto args h.automatic, pick_index args k h.manual, h.next]
  cases Picking.positional args k with
  | error fault => exact .inl ⟨fault, rfl, rfl⟩
  | ok v => exact .inr ⟨v, _, _, rfl, rfl, ⟨rfl, by simp, by simp⟩⟩

theorem mirrors_pick (k : Nat) {selector : Selector} (h : selector.Positionless) :
    Mirrors k (selector.number k).2 (Picking.pick args selector)
      (Picking.pick args (selector.number k).1) := by
  cases selector with
  | auto => exact mirrors_auto args k
  | index position => exact h.elim
  | name key => exact Mirrors.lift k (Picking.named args key)

theorem mirrors_pickCount (k : Nat) {count : Option Count}
    (h : ∀ n ∈ count, n.Positionless) :
    Mirrors k (count.mapM Count.number k).2 (Picking.pickCount args count)
      (Picking.pickCount args (count.mapM Count.number k).1) := by
  cases count with
  | none => exact Mirrors.pure k none
  | some count =>
    cases count with
    | literal n => exact Mirrors.pure k (some n)
    | ref selector =>
      have hselector : selector.Positionless := h _ rfl
      refine (mirrors_pick args k hselector).bind fun v => ?_
      exact (Mirrors.lift _ (Picking.countOf v)).bind fun n => Mirrors.pure _ (some n)

theorem mirrors_pickLayer (k : Nat) {layer : Layer Count}
    (h : ∀ count ∈ layer.width, count.Positionless) :
    Mirrors k (layer.number k).2 (Picking.pickLayer args layer)
      (Picking.pickLayer args (layer.number k).1) :=
  (mirrors_pickCount args k h).bind fun _ => Mirrors.pure _ _

/-- The layers are looked up one after the other, and so their positions follow each other. -/
theorem mirrors_pickLayers (k : Nat) {layers : List (Layer Count)}
    (h : ∀ layer ∈ layers, ∀ count ∈ layer.width, count.Positionless) :
    Mirrors k (layers.mapM Layer.number k).2 (layers.mapM (Picking.pickLayer args))
      ((layers.mapM Layer.number k).1.mapM (Picking.pickLayer args)) := by
  induction layers generalizing k with
  | nil => exact Mirrors.pure k []
  | cons layer layers ih =>
    have hlayer := mirrors_pickLayer args k (h layer List.mem_cons_self)
    have hlayers := ih (layer.number k).2 fun l hl => h l (List.mem_cons_of_mem _ hl)
    rw [mapM_cons_apply, List.mapM_cons, List.mapM_cons]
    exact hlayer.bind fun l => hlayers.bind fun ls => Mirrors.pure _ (l :: ls)

theorem mirrors_pickElement (k : Nat) {element : Element Count}
    (hwidth : ∀ count ∈ element.width, count.Positionless)
    (hprecision : ∀ count ∈ element.precision, count.Positionless) :
    Mirrors k (element.number k).2 (Picking.pickElement args element)
      (Picking.pickElement args (element.number k).1) :=
  (mirrors_pickCount args k hwidth).bind fun _ =>
    (mirrors_pickCount args _ hprecision).bind fun _ => Mirrors.pure _ _

theorem mirrors_request (k : Nat) {field : Field} (h : field.Positionless) :
    Mirrors k (field.number k).2 (field.request args) ((field.number k).1.request args) :=
  (mirrors_pick args k h.selector).bind fun _ =>
    (mirrors_pickLayers args _ h.layers).bind fun _ =>
      (mirrors_pickElement args _ h.width h.precision).bind fun _ => Mirrors.pure _ _

theorem mirrors_render (options : Options) (k : Nat) {field : Field} (h : field.Positionless) :
    Mirrors k (field.number k).2 (field.render options args)
      ((field.number k).1.render options args) :=
  (mirrors_request args k h).bind fun _ => Mirrors.lift _ _

end Picking

/-! ## Rendering by number -/

/-- At paired cursors the segments that are left render alike, the numbering going on where the
counting cursor stands. -/
theorem renderFrom_number (options : Options) (args : List Value) {template : Template Field}
    (h : Template.Positionless template) {k : Nat} {c c' : Cursor} (hc : Paired k c c') :
    renderFrom options args c' (template.mapM Segment.number k).1 =
      renderFrom options args c template := by
  induction template generalizing k c c' with
  | nil => rfl
  | cons segment rest ih =>
    have hrest : Template.Positionless rest := fun s hs => h s (List.mem_cons_of_mem _ hs)
    rw [mapM_cons_apply]
    have hsegment := h segment List.mem_cons_self
    cases segment with
    | literal text =>
      have htail := ih hrest hc
      simp only [Segment.number_literal, renderFrom]
      rw [htail]
    | field field =>
      have hfield := mirrors_render args options k hsegment c c' hc
      simp only [Segment.number_field, renderFrom, Field.raw_number]
      rcases hfield with ⟨fault, hp, hq⟩ | ⟨text, d, d', hp, hq, hd⟩
      · rw [hp, hq]
        rfl
      · have htail := ih hrest hd
        rw [hp, hq]
        simp only [Except.mapError, Bind.bind, Except.bind]
        rw [htail]

/-- A template without positions renders as the one that has them filled in: the same text, or the
same failure of the same field. -/
theorem render_numbered {template : Template Field} (h : Template.Positionless template)
    (args : List Value) (options : Options) :
    Template.render (Template.numbered template) args options =
      Template.render template args options := by
  have hstart : Paired 0 {} {} := ⟨rfl, by simp, by simp⟩
  exact congrArg (Except.map String.ofList) (renderFrom_number options args h hstart)

/-- A value with its layer, width and precision taken from the arguments behind it, then something
by name, then one more argument. -/
def countsTemplate : Template Field :=
  [.field {
      raw := ":*<\x7b\x7d:\x7b\x7d.\x7b\x7df"
      layers := [{ fill := some '*', align := some .left, width := some (.ref .auto) }]
      element := {
        width := some (.ref .auto)
        precision := some (.ref .auto)
        type := .fixed .lower } },
    .literal " and ",
    .field { raw := "n", selector := .name "n" },
    .field { raw := "" }]

theorem render_numbered_counts :
    compile "\x7b:*<\x7b\x7d:\x7b\x7d.\x7b\x7df\x7d and \x7bn\x7d\x7b\x7d" =
        .ok countsTemplate ∧
      Template.Positionless countsTemplate ∧
      Template.numbered countsTemplate =
        [.field {
            raw := ":*<\x7b\x7d:\x7b\x7d.\x7b\x7df"
            selector := .index 0
            layers := [{ fill := some '*', align := some .left, width := some (.ref (.index 1)) }]
            element := {
              width := some (.ref (.index 2))
              precision := some (.ref (.index 3))
              type := .fixed .lower } },
          .literal " and ",
          .field { raw := "n", selector := .name "n" },
          .field { raw := "", selector := .index 4 }] ∧
      Template.render (Template.numbered countsTemplate)
        [.map [(.text "n", .int 7)], .int 14, .int 6, .int 2, .text "."] {} =
          .ok "\x7bn:   7.00\x7d*** and 7." := by
  have hpositionless : Template.Positionless countsTemplate := by decide
  refine ⟨by decide +kernel, hpositionless, rfl, (render_numbered hpositionless _ _).trans ?_⟩
  decide +kernel

end Stencil
