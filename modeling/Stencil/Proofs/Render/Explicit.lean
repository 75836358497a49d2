import Mathlib.Data.List.Forall2
import Stencil.Proofs.Render.Numbering
import Stencil.Proofs.Template.Scanning

/-!
# Templates that name their arguments

Where every selector gives a position or a name, it makes no difference what has been picked before:
a segment comes out the same at every cursor that has not counted automatically. So segments can be
taken out of their template and put into another one.

* `Renders` — the text of segments between two cursors, one segment after the other.
* `Template.Explicit` — no selector of the template leaves its argument to the order.
* `Settled`, `Agrees` — cursors that have not counted automatically, and steps that come out alike
  at any two of them.
* `agrees_render` — fields whose selectors and counts agree render alike.
* `renderFrom_agrees` — so do templates, segment by segment.
-/

namespace Stencil

/-! ## One segment after the other -/

/-- Segments render to a text and move the cursor, each from where the one before has left it. -/
inductive Renders (options : Options) (args : List Value) :
    Cursor → Template Field → List Char → Cursor → Prop where
  | nil (c : Cursor) : Renders options args c [] [] c
  | literal {c c' : Cursor} {text : String} {rest : Template Field} {out : List Char}
      (h : Renders options args c rest out c') :
      Renders options args c (.literal text :: rest) (text.toList ++ out) c'
  | field {c d c' : Cursor} {field : Field} {rest : Template Field} {text out : List Char}
      (hfield : field.render options args c = .ok (text, d))
      (h : Renders options args d rest out c') :
      Renders options args c (.field field :: rest) (text ++ out) c'

section Renders

variable {options : Options} {args : List Value}

/-- Behind segments that render, the others are rendered from the cursor that those have left. -/
theorem renderFrom_append {c c' : Cursor} {front : Template Field} {text : List Char}
    (h : Renders options args c front text c') (rest : Template Field) :
    renderFrom options args c (front ++ rest) =
      (renderFrom options args c' rest).map (text ++ ·) := by
  induction h with
  | nil c => cases hrest : renderFrom options args c rest <;> simp [hrest, Except.map]
  | literal _ ih =>
    rw [List.cons_append, renderFrom, ih]
    cases renderFrom options args _ rest <;> simp [Except.map, bind, Except.bind, pure, Except.pure]
  | field hfield _ ih =>
    rw [List.cons_append, renderFrom, hfield]
    simp only [Except.mapError, bind, Except.bind, ih]
    cases renderFrom options args _ rest <;> simp [Except.map, pure, Except.pure]

theorem exists_renders {c : Cursor} {template : Template Field} {text : List Char}
    (h : renderFrom options args c template = .ok text) :
    ∃ c', Renders options args c template text c' := by
  induction template generalizing c text with
  | nil =>
    obtain rfl := Except.ok.inj h
    exact ⟨c, .nil c⟩
  | cons segment rest ih =>
    cases segment with
    | literal front =>
      rw [renderFrom] at h
      obtain ⟨out, hout, h⟩ := bind_eq_ok h
      obtain rfl := Except.ok.inj h
      obtain ⟨c', hc'⟩ := ih hout
      exact ⟨c', .literal hc'⟩
    | field field =>
      rw [renderFrom] at h
      obtain ⟨⟨front, d⟩, hfront, h⟩ := bind_eq_ok h
      obtain ⟨out, hout, h⟩ := bind_eq_ok h
      obtain rfl := Except.ok.inj h
      obtain ⟨c', hc'⟩ := ih hout
      cases hfield : field.render options args c with
      | error fault =>
        rw [hfield] at hfront
        cases hfront
      | ok result =>
        rw [hfield] at hfront
        obtain rfl := Except.ok.inj hfront
        exact ⟨c', .field hfield hc'⟩

end Renders

/-! ## Explicit selectors -/

/-- The selector of a count that is taken from an argument. -/
def Count.selector? : Count → Option Selector
  | .literal _ => none
  | .ref selector => some selector

/-- The selectors of a field: that of its value, and those of its widths and its precision. -/
def Field.selectors (field : Field) : List Selector :=
  field.selector :: field.counts.filterMap Count.selector?

/-- The selectors of a segment; text has none. -/
def Segment.selectors : Segment Field → List Selector
  | .literal _ => []
  | .field content => content.selectors

/-- A template that leaves no argument to the order. -/
def Template.Explicit (template : Template Field) : Prop :=
  .auto ∉ template.flatMap Segment.selectors

instance (template : Template Field) : Decidable template.Explicit :=
  inferInstanceAs (Decidable (.auto ∉ template.flatMap Segment.selectors))

theorem Template.Explicit.selector_ne_auto {template : Template Field} (h : template.Explicit)
    {field : Field} (hfield : .field field ∈ template) : .auto ∉ field.selectors :=
  fun hauto => h (List.mem_flatMap.2 ⟨.field field, hfield, hauto⟩)

theorem mem_selectors_of_mem_counts {field : Field} {selector : Selector}
    (h : .ref selector ∈ field.counts) : selector ∈ field.selectors :=
  List.mem_cons_of_mem _ (List.mem_filterMap.2 ⟨.ref selector, h, rfl⟩)

/-! ## Steps that agree -/

/-- A cursor that has not counted automatically. -/
def Settled (c : Cursor) : Prop :=
  c.numbering ≠ some .automatic

/-- Two steps that come out alike at any settled cursors, and leave them settled. -/
def Agrees {α : Type} (p q : Picking α) : Prop :=
  Relates (fun c c' => Settled c ∧ Settled c') (fun c c' => Settled c ∧ Settled c') p q

section Agrees

variable (args : List Value)

theorem agrees_pick {selector : Selector} (h : selector ≠ .auto) :
    Agrees (Picking.pick args selector) (Picking.pick args selector) := by
  cases selector with
  | auto => exact absurd rfl h
  | index position =>
    intro c c' hc
    rw [pick_index args position hc.1, pick_index args position hc.2]
    cases Picking.positional args position with
    | error fault => exact .inl ⟨fault, rfl, rfl⟩
    | ok v => exact .inr ⟨v, _, _, rfl, rfl, ⟨by simp [Settled], by simp [Settled]⟩⟩
  | name key => exact Relates.lift (Picking.named args key)

/-- A reference is looked up by picking its argument and taking the number of that. -/
theorem pickCount_ref (selector : Selector) (c : Cursor) :
    Picking.pickCount args (some (.ref selector)) c =
      (Picking.pick args selector c).bind fun (v, d) =>
        (Picking.countOf v).map fun n => (some n, d) := by
  simp only [Picking.pickCount, Bind.bind, StateT.bind]
  cases Picking.pick args selector c with
  | error fault => rfl
  | ok picked =>
    obtain ⟨v, d⟩ := picked
    cases hcount : Picking.countOf v <;> simp only [Except.bind, hcount] <;> rfl

theorem agrees_pickCount {count : Option Count} (h : .ref .auto ∉ count) :
    Agrees (Picking.pickCount args count) (Picking.pickCount args count) := by
  cases count with
  | none => exact Relates.pure none
  | some count =>
    cases count with
    | literal n => exact Relates.pure (some n)
    | ref selector =>
      have hselector : selector ≠ .auto := fun hauto => h (by rw [hauto]; rfl)
      refine Relates.bind (agrees_pick args hselector) fun v => ?_
      exact Relates.bind (Relates.lift (Picking.countOf v)) fun n => Relates.pure (some n)

theorem agrees_pickLayers {layers layers' : List (Layer Count)}
    (h : List.Forall₂ (fun l l' => Agrees (Picking.pickLayer args l) (Picking.pickLayer args l'))
      layers layers') :
    Agrees (layers.mapM (Picking.pickLayer args)) (layers'.mapM (Picking.pickLayer args)) := by
  induction h with
  | nil => exact Relates.pure []
  | cons hlayer _ ih =>
    rw [List.mapM_cons, List.mapM_cons]
    exact Relates.bind hlayer fun l => Relates.bind ih fun ls => Relates.pure (l :: ls)

/-- Fields that agree in their selector, their layers and their element render alike. -/
theorem agrees_render (options : Options) {field field' : Field}
    (hselector : Agrees (Picking.pick args field.selector) (Picking.pick args field'.selector))
    (hlayers : List.Forall₂
      (fun l l' => Agrees (Picking.pickLayer args l) (Picking.pickLayer args l'))
      field.layers field'.layers)
    (helement : Agrees (Picking.pickElement args field.element)
      (Picking.pickElement args field'.element)) :
    Agrees (field.render options args) (field'.render options args) := by
  have hrequest : Agrees (field.request args) (field'.request args) := by
    refine Relates.bind hselector fun _ => ?_
    refine Relates.bind (agrees_pickLayers args hlayers) fun _ => ?_
    exact Relates.bind helement fun _ => Relates.pure _
  exact Relates.bind hrequest fun _ => Relates.lift _

theorem agrees_render_self (options : Options) {field : Field} (h : .auto ∉ field.selectors) :
    Agrees (field.render options args) (field.render options args) := by
  have hcounts : .ref .auto ∉ field.counts := fun hauto => h (mem_selectors_of_mem_counts hauto)
  simp only [Field.counts, List.mem_append, Option.mem_toList, not_or] at hcounts
  obtain ⟨⟨hwidth, hprecision⟩, hlayers⟩ := hcounts
  refine agrees_render args options (agrees_pick args fun hauto => h ?_) ?_ ?_
  · rw [← hauto]
    exact List.mem_cons_self
  · refine List.forall₂_same.2 fun layer hlayer => ?_
    refine Relates.bind (agrees_pickCount args fun hauto => hlayers ?_) fun _ => Relates.pure _
    exact List.mem_filterMap.2 ⟨layer, hlayer, hauto⟩
  · refine Relates.bind (agrees_pickCount args hwidth) fun _ => ?_
    exact Relates.bind (agrees_pickCount args hprecision) fun _ => Relates.pure _

end Agrees

/-! ## Templates that agree -/

/-- Segments that come out alike: the same text, or fields that agree. -/
def Segment.Agrees (options : Options) (args : List Value) : Segment Field → Segment Field → Prop
  | .literal text, .literal text' => text = text'
  | .field content, .field content' =>
    Stencil.Agrees (content.render options args) (content'.render options args)
  | _, _ => False

/-- The same text, or failures of the same kind. -/
def SameOutcome {α : Type} (x y : Except FormatError α) : Prop :=
  (∃ a, x = .ok a ∧ y = .ok a) ∨ ∃ e e', x = .error e ∧ y = .error e' ∧ e.kind = e'.kind

theorem SameOutcome.bind {α β : Type} {x y : Except FormatError α}
    {f g : α → Except FormatError β} (h : SameOutcome x y) (hf : ∀ a, SameOutcome (f a) (g a)) :
    SameOutcome (x >>= f) (y >>= g) := by
  rcases h with ⟨a, rfl, rfl⟩ | ⟨e, e', rfl, rfl, hkind⟩
  · exact hf a
  · exact .inr ⟨e, e', rfl, rfl, hkind⟩

/-- At settled cursors, segments that agree one by one render to the same text, or fail with the
same kind of failure. -/
theorem renderFrom_agrees {options : Options} {args : List Value}
    {template template' : Template Field}
    (h : List.Forall₂ (Segment.Agrees options args) template template') {c c' : Cursor}
    (hc : Settled c) (hc' : Settled c') :
    SameOutcome (renderFrom options args c template) (renderFrom options args c' template') := by
  induction h generalizing c c' with
  | nil => exact .inl ⟨[], rfl, rfl⟩
  | @cons segment segment' rest rest' hsegment _ ih =>
    cases segment with
    | literal text =>
      cases segment' with
      | literal text' =>
        obtain rfl : text = text' := hsegment
        rw [renderFrom, renderFrom]
        exact (ih hc hc').bind fun out => .inl ⟨text.toList ++ out, rfl, rfl⟩
      | field field' => exact False.elim hsegment
    | field field =>
      cases segment' with
      | literal text' => exact False.elim hsegment
      | field field' =>
        rw [renderFrom, renderFrom]
        rcases hsegment c c' ⟨hc, hc'⟩ with ⟨fault, hp, hq⟩ | ⟨text, d, d', hp, hq, hd, hd'⟩
        · rw [hp, hq]
          exact .inr ⟨_, _, rfl, rfl, rfl⟩
        · rw [hp, hq]
          exact (ih hd hd').bind fun out => .inl ⟨text ++ out, rfl, rfl⟩

/-- An explicit template renders alike at any two settled cursors. -/
theorem Template.Explicit.agrees {template : Template Field} (h : template.Explicit)
    (options : Options) (args : List Value) :
    List.Forall₂ (Segment.Agrees options args) template template := by
  refine List.forall₂_same.2 fun segment hsegment => ?_
  cases segment with
  | literal text => exact rfl
  | field field => exact agrees_render_self args options (h.selector_ne_auto hsegment)

/-- Explicit segments leave a settled cursor settled. -/
theorem Renders.settled {options : Options} {args : List Value} {c c' : Cursor}
    {template : Template Field} {text : List Char} (h : Renders options args c template text c')
    (hexplicit : template.Explicit) (hc : Settled c) : Settled c' := by
  induction h with
  | nil c => exact hc
  | literal _ ih => exact ih (fun hauto => hexplicit (List.mem_append_right _ hauto)) hc
  | field hfield _ ih =>
    refine ih (fun hauto => hexplicit (List.mem_append_right _ hauto)) ?_
    have hagrees := agrees_render_self args options (hexplicit.selector_ne_auto List.mem_cons_self)
    rcases hagrees _ _ ⟨hc, hc⟩ with ⟨fault, hp, -⟩ | ⟨_, _, _, hp, -, hd, -⟩
    · rw [hfield] at hp
      cases hp
    · rw [hfield] at hp
      cases hp
      exact hd

end Stencil
