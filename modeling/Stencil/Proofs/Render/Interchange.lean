import Stencil.Proofs.Checked.Width
import Stencil.Render.Container.Lemmas
import Stencil.Render.Template

/-!
# Integers of either width

A value keeps a whole number in machine width or as a number of any size. Nothing that is written
tells the two apart: not the text, and not the diagnostics either. Each width goes its own way to
digits, counts, code points and diagnostics, and each of these ends at the number that is kept.

* `Value.Alike` — values that are the same but for the widths of their integers.
* `Value.widen` — all integers of a value in the greater width; values are alike just if they are
  the same then.
* `display_widen`, `layOut_widen`, `request_widen` — what displays, lays out and picks values does
  not change when they are widened, nor do the widths and precisions that are picked.
* `render_interchange` — templates render alike arguments to the same result.
-/

namespace Stencil

namespace Value

/-! ## Alike values -/

mutual

/-- Two values that are the same but for the widths of integers, wherever in them these stand. -/
inductive Alike : Value → Value → Prop where
  | same (v : Value) : Alike v v
  | widened (n : Int) : Alike (int n) (big n)
  | narrowed (n : Int) : Alike (big n) (int n)
  | list {items items' : List Value} (h : ItemsAlike items items') :
      Alike (list items) (list items')
  | map {entries entries' : List (Value × Value)} (h : EntriesAlike entries entries') :
      Alike (map entries) (map entries')

/-- Items that are alike one by one. -/
inductive ItemsAlike : List Value → List Value → Prop where
  | nil : ItemsAlike [] []
  | cons {v w : Value} {items items' : List Value} (hv : Alike v w)
      (hrest : ItemsAlike items items') : ItemsAlike (v :: items) (w :: items')

/-- Entries that are alike one by one, in their keys and in what the keys hold. -/
inductive EntriesAlike : List (Value × Value) → List (Value × Value) → Prop where
  | nil : EntriesAlike [] []
  | cons {k k' v v' : Value} {entries entries' : List (Value × Value)} (hk : Alike k k')
      (hv : Alike v v') (hrest : EntriesAlike entries entries') :
      EntriesAlike ((k, v) :: entries) ((k', v') :: entries')

end

mutual

/-- The value with all its integers in the greater width. -/
def widen : Value → Value
  | int n => big n
  | list items => list (widenItems items)
  | map entries => map (widenEntries entries)
  | v => v

/-- The items of a list, each of them widened. -/
def widenItems : List Value → List Value
  | [] => []
  | v :: rest => widen v :: widenItems rest

/-- The entries of a mapping, widened in their keys and in what the keys hold. -/
def widenEntries : List (Value × Value) → List (Value × Value)
  | [] => []
  | (k, v) :: rest => (widen k, widen v) :: widenEntries rest

end

mutual

theorem Alike.widen_eq {v w : Value} : Alike v w → v.widen = w.widen
  | .same _ => rfl
  | .widened _ => rfl
  | .narrowed _ => rfl
  | .list h => by rw [widen, widen, h.widenItems_eq]
  | .map h => by rw [widen, widen, h.widenEntries_eq]

theorem ItemsAlike.widenItems_eq {items items' : List Value} :
    ItemsAlike items items' → widenItems items = widenItems items'
  | .nil => rfl
  | .cons hv hrest => by rw [widenItems, widenItems, hv.widen_eq, hrest.widenItems_eq]

theorem EntriesAlike.widenEntries_eq {entries entries' : List (Value × Value)} :
    EntriesAlike entries entries' → widenEntries entries = widenEntries entries'
  | .nil => rfl
  | .cons hk hv hrest => by
    rw [widenEntries, widenEntries, hk.widen_eq, hv.widen_eq, hrest.widenEntries_eq]

end

/-! ## What a value is -/

section

variable (v : Value)

@[simp] theorem kind_widen : v.widen.kind = v.kind := by cases v <;> rfl

@[simp] theorem isContainer_widen : v.widen.isContainer = v.isContainer := by cases v <;> rfl

@[simp] theorem text?_widen : v.widen.text? = v.text? := by cases v <;> rfl

@[simp] theorem singleChar?_widen : v.widen.singleChar? = v.singleChar? := by cases v <;> rfl

@[simp] theorem quantity?_widen : v.widen.quantity? = v.quantity? := by cases v <;> rfl

@[simp] theorem integer?_widen : v.widen.integer? = v.integer? := by
  rw [integer?, integer?, quantity?_widen]

@[simp] theorem word?_widen : v.widen.word? = v.word? := by cases v <;> rfl

end

mutual

theorem display_widen (v : Value) : v.widen.display = v.display := by
  cases v with
  | list items => rw [widen, display, display, displayItems_widenItems]
  | map entries => rw [widen, display, display, displayEntries_widenEntries]
  | int n => rfl
  | _ => rfl

theorem displayItems_widenItems (items : List Value) :
    displayItems (widenItems items) = displayItems items := by
  cases items with
  | nil => rfl
  | cons v rest =>
    rw [widenItems, displayItems, displayItems, display_widen v, displayItems_widenItems rest]

theorem displayEntries_widenEntries (entries : List (Value × Value)) :
    displayEntries (widenEntries entries) = displayEntries entries := by
  cases entries with
  | nil => rfl
  | cons entry rest =>
    obtain ⟨k, v⟩ := entry
    rw [widenEntries, displayEntries, displayEntries, display_widen k, display_widen v,
      displayEntries_widenEntries rest]

end

mutual

theorem depthUpTo_widen (limit : Nat) (v : Value) :
    v.widen.depthUpTo limit = v.depthUpTo limit := by
  cases v with
  | list items => rw [widen, depthUpTo, depthUpTo, itemsDepthUpTo_widenItems]
  | map entries => rw [widen, depthUpTo, depthUpTo, entriesDepthUpTo_widenEntries]
  | _ => rfl

theorem itemsDepthUpTo_widenItems (limit : Nat) (items : List Value) :
    itemsDepthUpTo limit (widenItems items) = itemsDepthUpTo limit items := by
  cases items with
  | nil => rfl
  | cons v rest =>
    rw [widenItems, itemsDepthUpTo, itemsDepthUpTo, isContainer_widen,
      depthUpTo_widen (limit - 1) v, itemsDepthUpTo_widenItems limit rest]

theorem entriesDepthUpTo_widenEntries (limit : Nat) (entries : List (Value × Value)) :
    entriesDepthUpTo limit (widenEntries entries) = entriesDepthUpTo limit entries := by
  cases entries with
  | nil => rfl
  | cons entry rest =>
    obtain ⟨k, v⟩ := entry
    rw [widenEntries, entriesDepthUpTo, entriesDepthUpTo, isContainer_widen,
      depthUpTo_widen (limit - 1) v, entriesDepthUpTo_widenEntries limit rest]

end

/-- A mapping holds the same under a name, but widened. -/
theorem get?_widen (v : Value) (name : String) :
    v.widen.get? name = (v.get? name).map widen := by
  cases v with
  | map entries =>
    rw [widen, get?, get?]
    induction entries with
    | nil => rfl
    | cons entry rest ih =>
      obtain ⟨k, item⟩ := entry
      rw [widenEntries, List.findSome?_cons, List.findSome?_cons]
      cases k with
      | text key =>
        rw [widen]
        by_cases hname : key = name
        · simp only [if_pos hname, Option.map_some]
        · simp only [if_neg hname, ih]
        all_goals simp
      | _ => simpa only [widen] using ih
  | _ => rfl

end Value

/-! ## Rendering a value -/

theorem renderQuantity_widen (q : Quantity) (v : Value) (element : Element Nat)
    (options : Options) :
    renderQuantity q v.widen element options = renderQuantity q v element options := by
  rw [renderQuantity, renderQuantity]
  cases q.figure element with
  | ok figure => rfl
  | error obstacle => cases obstacle <;> simp [Obstacle.fault, Value.display_widen]

theorem renderScalar_widen (v : Value) (element : Element Nat) (options : Options) :
    renderScalar v.widen element options = renderScalar v element options := by
  unfold renderScalar renderByKind renderCharacter renderNumber unsupported
  simp only [renderQuantity_widen, Value.text?_widen, Value.quantity?_widen,
    Value.singleChar?_widen, Value.integer?_widen, Value.kind_widen, Value.display_widen]

theorem Frame.of_widen (options : Options) (layers : List (Layer Nat)) (element : Element Nat)
    (v : Value) : Frame.of options layers element v.widen = Frame.of options layers element v := by
  rw [Frame.of, Frame.of, Value.depthUpTo_widen]

mutual

theorem layOut_widen (options : Options) (frame : Frame) (level : Nat) (v : Value) :
    v.widen.layOut options frame level = v.layOut options frame level := by
  cases v with
  | list items =>
    rw [Value.widen, Value.layOut_list, Value.layOut_list, layOutItems_widenItems]
  | map entries =>
    rw [Value.widen, Value.layOut_map, Value.layOut_map, layOutEntries_widenEntries]
  | int n =>
    rw [Value.widen, Value.layOut_scalar options frame level rfl,
      Value.layOut_scalar options frame level rfl]
    exact renderScalar_widen (.int n) _ options
  | _ => rfl

theorem layOutItems_widenItems (options : Options) (frame : Frame) (level : Nat)
    (items : List Value) :
    layOutItems options frame level (Value.widenItems items) =
      layOutItems options frame level items := by
  cases items with
  | nil => rfl
  | cons v rest =>
    rw [Value.widenItems, layOutItems_cons, layOutItems_cons, layOut_widen options frame level v,
      layOutItems_widenItems options frame level rest]

theorem layOutEntries_widenEntries (options : Options) (frame : Frame) (level : Nat)
    (kind : ContainerKind) (entries : List (Value × Value)) :
    layOutEntries options frame level kind (Value.widenEntries entries) =
      layOutEntries options frame level kind entries := by
  cases entries with
  | nil => rfl
  | cons entry rest =>
    obtain ⟨k, v⟩ := entry
    rw [Value.widenEntries, layOutEntries_cons, layOutEntries_cons, Frame.ofKey, Frame.ofKey,
      Frame.of_widen, layOut_widen options frame level v,
      layOutEntries_widenEntries options frame level kind rest]
    refine bind_congr fun own => ?_
    rw [layOut_widen options own 0 k]

end

theorem renderValue_widen (options : Options) (layers : List (Layer Nat)) (element : Element Nat)
    (v : Value) : renderValue options layers element v.widen =
      renderValue options layers element v := by
  rw [renderValue_eq, renderValue_eq, Frame.of_widen]
  exact bind_congr fun frame => layOut_widen options frame 0 v

/-! ## Picking arguments -/

namespace Picking

variable (args : List Value)

theorem positional_widen (index : Nat) :
    positional (args.map Value.widen) index = (positional args index).map Value.widen := by
  rw [positional, positional, List.getElem?_map, List.length_map]
  cases args[index]? <;> rfl

theorem named_widen (name : String) :
    named (args.map Value.widen) name = (named args name).map Value.widen := by
  rw [named, named]
  cases args with
  | nil => rfl
  | cons v rest =>
    rw [List.map_cons, List.head?_cons, List.head?_cons, Option.bind_some, Option.bind_some,
      Value.get?_widen]
    cases v.get? name <;> rfl

theorem lift_map {α β : Type} (f : α → β) (x : Except Fault α) :
    (liftM (x.map f) : Picking β) = (do let a ← (liftM x : Picking α); return f a) := by
  cases x <;> rfl

/-- The argument of a selector is the same, but widened, and the cursor moves as before. -/
theorem pick_widen (selector : Selector) :
    pick (args.map Value.widen) selector = (do let v ← pick args selector; return v.widen) := by
  cases selector with
  | auto =>
    rw [pick, pick]
    simp only [bind_assoc]
    refine bind_congr fun _ => bind_congr fun index => ?_
    rw [positional_widen]
    exact lift_map _ _
  | index index =>
    rw [pick, pick]
    simp only [bind_assoc]
    refine bind_congr fun _ => ?_
    rw [positional_widen]
    exact lift_map _ _
  | name name =>
    rw [pick, pick, named_widen]
    exact lift_map _ _

theorem countOf_widen (v : Value) : countOf v.widen = countOf v := by
  rw [countOf, countOf, Value.word?_widen, Value.kind_widen, Value.display_widen]

theorem pickCount_widen (count : Option Count) :
    pickCount (args.map Value.widen) count = pickCount args count := by
  cases count with
  | none => rfl
  | some count =>
    cases count with
    | literal n => rfl
    | ref selector =>
      rw [pickCount, pickCount, pick_widen, bind_assoc]
      refine bind_congr fun v => ?_
      rw [pure_bind, countOf_widen]

theorem pickLayer_widen (layer : Layer Count) :
    pickLayer (args.map Value.widen) layer = pickLayer args layer := by
  rw [pickLayer, pickLayer, pickCount_widen]

theorem pickElement_widen (element : Element Count) :
    pickElement (args.map Value.widen) element = pickElement args element := by
  rw [pickElement, pickElement, pickCount_widen, pickCount_widen]

end Picking

/-- A field looks up the same presentation, and its value widened. -/
theorem request_widen (args : List Value) (field : Field) :
    field.request (args.map Value.widen) =
      (do
        let request ← field.request args
        return { request with value := request.value.widen }) := by
  have hlayers : Picking.pickLayer (args.map Value.widen) = Picking.pickLayer args :=
    funext (Picking.pickLayer_widen args)
  rw [Field.request, Field.request, Picking.pick_widen, hlayers, Picking.pickElement_widen]
  simp only [bind_assoc, pure_bind]

theorem render_widen (options : Options) (args : List Value) (field : Field) :
    field.render options (args.map Value.widen) = field.render options args := by
  rw [Field.render, Field.render, request_widen]
  simp only [bind_assoc, pure_bind, renderValue_widen]

theorem renderFrom_widen (options : Options) (args : List Value) (cursor : Cursor)
    (template : Template Field) :
    renderFrom options (args.map Value.widen) cursor template =
      renderFrom options args cursor template := by
  induction template generalizing cursor with
  | nil => rfl
  | cons segment rest ih =>
    cases segment with
    | literal text => rw [renderFrom, renderFrom, ih]
    | field field =>
      rw [renderFrom, renderFrom, render_widen]
      refine bind_congr fun result => ?_
      obtain ⟨text, cursor⟩ := result
      dsimp only
      rw [ih]

/-- The arguments of a template can be widened without a trace. -/
theorem template_widen (template : Template Field) (args : List Value) (options : Options) :
    Template.render template (args.map Value.widen) options =
      Template.render template args options := by
  rw [Template.render, Template.render, renderFrom_widen]

theorem map_widen_eq {args args' : List Value} (h : List.Forall₂ Value.Alike args args') :
    args.map Value.widen = args'.map Value.widen := by
  induction h with
  | nil => rfl
  | cons hv _ ih => rw [List.map_cons, List.map_cons, hv.widen_eq, ih]

/-- Templates render arguments that differ in the widths of integers to the same result, be it a
text or an error, and what is asked of an integer has the same answer in either width. -/
theorem render_interchange :
    (∀ (template : Template Field) (args args' : List Value) (options : Options),
      List.Forall₂ Value.Alike args args' →
        Template.render template args options = Template.render template args' options) ∧
      ∀ i : Kept, i.Faithful := by
  refine ⟨fun template args args' options h => ?_, Kept.faithful⟩
  rw [← template_widen template args, map_widen_eq h, template_widen]

/-- Integers as an argument, as a key and beside a key, and the least of 128 bits. -/
theorem render_interchange_nested :
    let args : List Value := [.map [(.int 1, .list [.int 2, .big 3])], .int 4]
    let args' : List Value := [.map [(.big 1, .list [.int 2, .int 3])], .big 4]
    List.Forall₂ Value.Alike args args' ∧
      (∀ (template : Template Field) (options : Options),
        Template.render template args options = Template.render template args' options) ∧
      (Kept.narrow (BitVec.intMin 128)).Faithful := by
  intro args args'
  have h : List.Forall₂ Value.Alike args args' :=
    .cons (.map (.cons (.widened 1) (.list (.cons (.same _) (.cons (.narrowed 3) .nil))) .nil))
      (.cons (.widened 4) .nil)
  exact ⟨h, fun template options => render_interchange.1 template args args' options h,
    render_interchange.2 _⟩

end Stencil
