import Stencil.Proofs.Checked.Container
import Stencil.Proofs.Checked.Scanning
import Stencil.Proofs.Field.Grammar
import Stencil.Proofs.Render.Lawful
import Stencil.Proofs.Template.Compiling

/-!
# Templates that follow positions

Arguments that can be held are picked and rendered by positions as they are without them. The cursor
never counts further than the arguments, since a field that finds no argument ends the run.

* `Field.Limited`, `Template.Limited` — literal counts are within the limit.
* `Follows` — a checked step agrees with a plain one, up to the cursor.
* `follows_pick`, `follows_request` — the arguments of a field.
* `renderFrom_eq_ofResult`, `render_eq_ofResult`, `formatWith_eq_ofResult` — whole templates.
* `formatting_keeps_laws` — no law is broken, neither of the library nor of the machine.
-/

namespace Stencil

/-! ## Limited counts -/

/-- A count that is within the limit if it is written as a number. -/
def Count.Limited (count : Count) : Prop := ∀ n ∈ count.literal?, n ≤ maxCount

/-- A field whose literal counts are within the limit. -/
def Field.Limited (field : Field) : Prop := ∀ count ∈ field.counts, count.Limited

/-- A segment whose literal counts are within the limit; text has none. -/
def Segment.Limited : Segment Field → Prop
  | .literal _ => True
  | .field content => content.Limited

/-- A template whose literal counts are within the limit. -/
def Template.Limited (template : Template Field) : Prop := ∀ segment ∈ template, segment.Limited

instance : DecidablePred Count.Limited := fun count =>
  inferInstanceAs (Decidable (∀ n ∈ count.literal?, n ≤ maxCount))

instance : DecidablePred Field.Limited := fun field =>
  inferInstanceAs (Decidable (∀ count ∈ field.counts, count.Limited))

instance : DecidablePred Segment.Limited
  | .literal _ => inferInstanceAs (Decidable True)
  | .field content => inferInstanceAs (Decidable content.Limited)

instance (template : Template Field) : Decidable (Template.Limited template) :=
  inferInstanceAs (Decidable (∀ segment ∈ template, segment.Limited))

/-- What a field refers to can be held, and its counts are within the limit. -/
structure Request.Limited (request : Request) : Prop where
  value : request.value.Addressable
  layers : ∀ layer ∈ request.layers, layer.Limited
  element : request.element.Limited

/-- Fields that pass their checks have limited counts. -/
theorem Field.limited_of_parse {raw : String} {field : Field} (h : parseField raw = .ok field) :
    field.Limited := by
  obtain ⟨-, hcheck⟩ := Field.parse_eq_ok_iff.1 (parseField_eq_ok_iff.1 h)
  obtain ⟨-, hcount, -, -⟩ := Field.of_check_eq_ok hcheck
  intro count hmem n hn
  cases count with
  | literal m =>
    cases hn
    exact Field.literal_le_maxCount hcount hmem
  | ref selector => cases hn

theorem limited_of_compileTokens {tokens : List Token} {template : Template Field}
    (h : tokens.mapM compileToken = .ok template) : Template.Limited template := by
  intro segment hsegment
  cases segment with
  | literal text => trivial
  | field field =>
    obtain ⟨raw, hparse⟩ := exists_parseField_of_mapM h hsegment
    exact Field.limited_of_parse hparse

/-- Compiled templates have limited counts. -/
theorem limited_of_compile {template : String} {compiled : Template Field}
    (h : compile template = .ok compiled) : Template.Limited compiled := by
  obtain ⟨tokens, -, htokens⟩ := bind_eq_ok h
  exact limited_of_compileTokens htokens

/-! ## Cursors -/

theorem Picking.next_enter {numbering : Numbering} {cursor moved : Cursor}
    (h : Picking.enter numbering cursor = .ok ((), moved)) : moved.next = cursor.next := by
  rw [enter] at h
  split at h
  · cases h
    rfl
  · split_ifs at h
    cases h
    rfl

theorem Picking.mem_of_positional {args : List Value} {index : Nat} {v : Value}
    (h : Picking.positional args index = .ok v) : args[index]? = some v := by
  rw [positional] at h
  split at h
  · rename_i w hw
    cases h
    exact hw
  · cases h

namespace Checked

variable {α β : Type} {args : List Value}

/-- A checked step and a plain one that fail alike or give the same result and the same cursor, as
long as the cursor has counted no further than the arguments. The property holds of the result. -/
def Follows (args : List Value) (checked : Picking α) (plain : Stencil.Picking α)
    (Post : α → Prop) : Prop :=
  ∀ cursor : Cursor, cursor.next ≤ args.length →
    (∃ fault, plain cursor = .error fault ∧ checked cursor = .error (.refusal fault)) ∨
      ∃ a moved, plain cursor = .ok (a, moved) ∧ checked cursor = .ok (a, moved) ∧
        moved.next ≤ args.length ∧ Post a

namespace Follows

theorem pure {a : α} {Post : α → Prop} (h : Post a) :
    Follows args (Pure.pure a) (Pure.pure a) Post :=
  fun cursor hcursor => .inr ⟨a, cursor, rfl, rfl, hcursor, h⟩

/-- A step that does not look at the cursor. -/
theorem lift {x : Except Fault α} {Post : α → Prop} (h : ∀ a, x = .ok a → Post a) :
    Follows args (liftM (ofResult x) : Picking α) (liftM x : Stencil.Picking α) Post := by
  intro cursor hcursor
  cases x with
  | error fault => exact .inl ⟨fault, rfl, rfl⟩
  | ok a => exact .inr ⟨a, cursor, rfl, rfl, hcursor, h a rfl⟩

/-- A step without arithmetic that leaves the count where it is. -/
theorem ofPicking {step : Stencil.Picking α} {Post : α → Prop}
    (h : ∀ cursor a moved, step cursor = .ok (a, moved) → moved.next = cursor.next ∧ Post a) :
    Follows args (Checked.ofPicking step) step Post := by
  intro cursor hcursor
  rw [Checked.ofPicking]
  cases hstep : step cursor with
  | error fault => exact .inl ⟨fault, rfl, rfl⟩
  | ok result =>
    obtain ⟨a, moved⟩ := result
    obtain ⟨hnext, hpost⟩ := h cursor a moved hstep
    exact .inr ⟨a, moved, rfl, rfl, hnext ▸ hcursor, hpost⟩

theorem bind {p : Picking α} {q : Stencil.Picking α} {f : α → Picking β}
    {g : α → Stencil.Picking β} {Post : α → Prop} {Post' : β → Prop} (h : Follows args p q Post)
    (hf : ∀ a, Post a → Follows args (f a) (g a) Post') :
    Follows args (p >>= f) (q >>= g) Post' := by
  intro cursor hcursor
  simp only [Bind.bind, StateT.bind]
  rcases h cursor hcursor with ⟨fault, hq, hp⟩ | ⟨a, moved, hq, hp, hmoved, hpost⟩
  · exact .inl ⟨fault, by rw [hq]; rfl, by rw [hp]; rfl⟩
  · rw [hq, hp]
    exact hf a hpost moved hmoved

end Follows

/-! ## Picking -/

section Picking

variable (hlength : args.length < signedLimit) (hargs : ∀ v ∈ args, v.Addressable)

include hargs in
theorem addressable_of_positional {index : Nat} {v : Value}
    (h : Picking.positional args index = .ok v) : v.Addressable :=
  hargs v (List.mem_of_getElem? (Picking.mem_of_positional h))

include hargs in
theorem addressable_of_named {name : String} {v : Value}
    (h : Picking.named args name = .ok v) : v.Addressable := by
  rw [Picking.named] at h
  split at h
  · rename_i w hw
    cases h
    obtain ⟨first, hfirst, hget⟩ := Option.bind_eq_some_iff.1 hw
    exact (hargs first (List.mem_of_head? hfirst)).get? hget
  · cases h

include hlength hargs in
/-- Counting goes on only where there has been an argument. -/
theorem follows_auto : Follows args (pick args .auto) (Picking.pick args .auto)
    Value.Addressable := by
  obtain ⟨hword, hsigned, -⟩ := limits
  intro cursor hcursor
  cases henter : Picking.enter .automatic cursor with
  | error fault =>
    refine .inl ⟨fault, ?_, ?_⟩
    · simp only [Picking.pick, Bind.bind, StateT.bind, henter]
      rfl
    · simp only [pick, ofPicking, Bind.bind, StateT.bind, henter]
      rfl
  | ok result =>
    obtain ⟨⟨⟩, entered⟩ := result
    have hnext := Picking.next_enter henter
    have hplain : Picking.pick args .auto cursor = (Picking.positional args entered.next).map
        fun v => (v, { entered with next := entered.next + 1 }) := by
      simp only [Picking.pick, Bind.bind, StateT.bind, henter]
      rfl
    have hchecked : pick args .auto cursor = (ofResult (Picking.positional args entered.next)).map
        fun v => (v, { entered with next := entered.next + 1 }) := by
      have hadvance : advance entered =
          .ok (entered.next, { entered with next := entered.next + 1 }) := by
        rw [advance, sum_eq_ok (by omega)]
        rfl
      simp only [pick, ofPicking, Bind.bind, StateT.bind, henter, ofResult_ok, Except.bind, hadvance]
      rfl
    rw [hplain, hchecked]
    cases hv : Picking.positional args entered.next with
    | error fault => exact .inl ⟨fault, rfl, rfl⟩
    | ok v =>
      obtain ⟨hlt, -⟩ := List.getElem?_eq_some_iff.1 (Picking.mem_of_positional hv)
      exact .inr ⟨v, _, rfl, rfl, hlt, addressable_of_positional hargs hv⟩

include hlength hargs in
theorem follows_pick (selector : Selector) :
    Follows args (pick args selector) (Picking.pick args selector) Value.Addressable := by
  cases selector with
  | auto => exact follows_auto hlength hargs
  | index index =>
    refine Follows.ofPicking fun cursor v moved h => ?_
    obtain ⟨⟨⟨⟩, entered⟩, henter, h⟩ := bind_eq_ok h
    obtain ⟨w, hw, h⟩ := bind_eq_ok h
    cases h
    exact ⟨Picking.next_enter henter, addressable_of_positional hargs hw⟩
  | name name =>
    refine Follows.ofPicking fun cursor v moved h => ?_
    obtain ⟨w, hw, h⟩ := bind_eq_ok h
    cases h
    exact ⟨rfl, addressable_of_named hargs hw⟩

theorem countOf_le {v : Value} {n : Nat} (h : Picking.countOf v = .ok n) : n ≤ maxCount := by
  rw [Picking.countOf] at h
  split at h
  · split_ifs at h with hlarge
    cases h
    exact Nat.le_of_not_lt hlarge
  · cases h

include hlength hargs in
/-- A count is within the limit, whether it is written as a number or picked. -/
theorem follows_pickCount {count : Option Count} (h : ∀ c ∈ count, c.Limited) :
    Follows args (pickCount args count) (Picking.pickCount args count)
      fun n => ∀ m ∈ n, m ≤ maxCount := by
  cases count with
  | none => exact Follows.pure (by simp)
  | some count =>
    cases count with
    | literal n =>
      refine Follows.pure fun m hm => ?_
      cases hm
      exact h _ rfl n rfl
    | ref selector =>
      refine (follows_pick hlength hargs selector).bind fun v _ => ?_
      refine (Follows.lift fun n => countOf_le).bind fun n hn => ?_
      refine Follows.pure fun m hm => ?_
      cases hm
      exact hn

include hlength hargs in
theorem follows_pickLayer {layer : Layer Count} (h : ∀ c ∈ layer.width, c.Limited) :
    Follows args (pickLayer args layer) (Picking.pickLayer args layer) Layer.Limited :=
  (follows_pickCount hlength hargs h).bind fun _ hwidth => Follows.pure hwidth

include hlength hargs in
theorem follows_pickLayers {layers : List (Layer Count)}
    (h : ∀ layer ∈ layers, ∀ c ∈ layer.width, c.Limited) :
    Follows args (layers.mapM (pickLayer args)) (layers.mapM (Picking.pickLayer args))
      fun picked => ∀ layer ∈ picked, layer.Limited := by
  induction layers with
  | nil => exact Follows.pure (List.forall_mem_nil _)
  | cons layer layers ih =>
    rw [List.mapM_cons, List.mapM_cons]
    refine (follows_pickLayer hlength hargs (h layer List.mem_cons_self)).bind fun l hl => ?_
    refine (ih fun l hl => h l (List.mem_cons_of_mem _ hl)).bind fun ls hls => ?_
    exact Follows.pure (List.forall_mem_cons.2 ⟨hl, hls⟩)

include hlength hargs in
theorem follows_pickElement {element : Element Count} (hwidth : ∀ c ∈ element.width, c.Limited)
    (hprecision : ∀ c ∈ element.precision, c.Limited) :
    Follows args (pickElement args element) (Picking.pickElement args element) Element.Limited := by
  refine (follows_pickCount hlength hargs hwidth).bind fun w hw => ?_
  refine (follows_pickCount hlength hargs hprecision).bind fun p hp => ?_
  exact Follows.pure ⟨hw, hp⟩

include hlength hargs in
theorem follows_request {field : Field} (h : field.Limited) :
    Follows args (request args field) (field.request args) Request.Limited := by
  have hwidth : ∀ c ∈ field.element.width, c.Limited := fun c hc =>
    h c (List.mem_append_left _ (List.mem_append_left _ (Option.mem_toList.2 hc)))
  have hprecision : ∀ c ∈ field.element.precision, c.Limited := fun c hc =>
    h c (List.mem_append_left _ (List.mem_append_right _ (Option.mem_toList.2 hc)))
  have hlayers : ∀ layer ∈ field.layers, ∀ c ∈ layer.width, c.Limited := fun layer hl c hc =>
    h c (List.mem_append_right _ (List.mem_filterMap.2 ⟨layer, hl, hc⟩))
  refine (follows_pick hlength hargs field.selector).bind fun v hv => ?_
  refine (follows_pickLayers hlength hargs hlayers).bind fun layers hlimited => ?_
  refine (follows_pickElement hlength hargs hwidth hprecision).bind fun element helement => ?_
  exact Follows.pure ⟨hv, hlimited, helement⟩

/-! ## Rendering -/

include hlength hargs in
theorem follows_renderField (options : Options) {field : Field} (h : field.Limited) :
    Follows args (renderField options args field) (field.render options args) fun _ => True := by
  refine (follows_request hlength hargs h).bind fun request hrequest => ?_
  rw [renderValue_eq_ofResult options hrequest.layers hrequest.element hrequest.value]
  exact Follows.lift fun _ _ => trivial

include hlength hargs in
/-- The segments that are left come out as they do without positions. -/
theorem renderFrom_eq_ofResult (options : Options) {template : Template Field}
    (h : Template.Limited template) {cursor : Cursor} (hcursor : cursor.next ≤ args.length) :
    renderFrom options args cursor template =
      ofResult (Stencil.renderFrom options args cursor template) := by
  induction template generalizing cursor with
  | nil => rfl
  | cons segment rest ih =>
    obtain ⟨hsegment, hrest⟩ := List.forall_mem_cons.1 h
    cases segment with
    | literal text =>
      rw [renderFrom, Stencil.renderFrom, ih hrest hcursor]
      exact (ofResult_bind_pure _ _).symm
    | field field =>
      have hfield := follows_renderField hlength hargs options hsegment
      rw [renderFrom, Stencil.renderFrom]
      rcases hfield cursor hcursor with ⟨fault, hplain, hchecked⟩ |
        ⟨text, moved, hplain, hchecked, hmoved, -⟩
      · rw [hplain, hchecked]
        rfl
      · rw [hplain, hchecked, mapRefusal_ok, ok_bind]
        dsimp only
        rw [ih hrest hmoved]
        exact (ofResult_bind_pure _ _).symm

include hlength hargs in
/-- A compiled template comes out as it does without positions. -/
theorem render_eq_ofResult (options : Options) {template : Template Field}
    (h : Template.Limited template) :
    render template args options = ofResult (Template.render template args options) := by
  rw [render, Template.render, renderFrom_eq_ofResult hlength hargs options h (Nat.zero_le _)]
  exact (ofResult_map _ _).symm

include hlength hargs in
/-- A template comes out of its text as it does without positions. -/
theorem formatWith_eq_ofResult (options : Options) {template : String}
    (hroom : bytes template.toList < wordLimit) :
    formatWith template args options = ofResult (Stencil.formatWith template args options) := by
  rw [formatWith, Stencil.formatWith, compile_eq_ofResult hroom]
  cases hcompiled : Stencil.compile template with
  | error e => rfl
  | ok compiled => exact render_eq_ofResult hlength hargs options (limited_of_compile hcompiled)

end Picking

end Checked

/-! ## No law is broken -/

open Checked (signedLimit bytes ofResult limits ne_breach_of_eq_ofResult)

/-- **Nothing from outside breaks a law.** Whatever the template, the arguments and the options are,
no fault tells of a broken law of the library, be the template compiled from a text or put together
by hand. The run that checks every sum, difference, position and range comes to the same end without
a breach. Of the arguments and the text of the template this asks only what holds of anything in
memory: a signed word counts them, and there is room for the digits of the numbers. Of a template
that is put together by hand it asks that its literal counts are within the limit. -/
theorem formatting_keeps_laws (args : List Value) (options : Options) :
    (∀ template raw law : String,
      formatWith template args options ≠ .error (.inField raw (.internal law))) ∧
    (∀ (template : Template Field) (raw law : String),
      Template.render template args options ≠ .error (.inField raw (.internal law))) ∧
    (args.length < signedLimit → (∀ v ∈ args, v.Addressable) →
      (∀ template : String, bytes template.toList < signedLimit →
        Checked.formatWith template args options = ofResult (formatWith template args options) ∧
          ∀ law, Checked.formatWith template args options ≠ .error (.breach law)) ∧
      ∀ template : Template Field, Template.Limited template →
        Checked.render template args options = ofResult (Template.render template args options) ∧
          ∀ law, Checked.render template args options ≠ .error (.breach law)) := by
  refine ⟨fun template => formatWith_ne_internal template args options,
    fun template => render_ne_internal template args options, fun hlength hargs => ⟨?_, ?_⟩⟩
  · intro template hroom
    obtain ⟨hword, hsigned, -⟩ := limits
    have hbytes : bytes template.toList < wordLimit := by omega
    have hrun := Checked.formatWith_eq_ofResult hlength hargs options hbytes
    exact ⟨hrun, ne_breach_of_eq_ofResult hrun⟩
  · intro template hlimited
    have hrun := Checked.render_eq_ofResult hlength hargs options hlimited
    exact ⟨hrun, ne_breach_of_eq_ofResult hrun⟩

/-- A list of numbers at two depths, with a width and a precision behind it. -/
def nestedArgs : List Value :=
  [.list [.int 1234567, .list [.int (-5)]], .int 12, .int 98765, .int 3]

/-- A template that takes a width and a precision from the arguments. -/
def nestedTemplate : String := "\x7b:t:>\x7b\x7d,\x7d and \x7b:.\x7b\x7de\x7d"

theorem formatting_keeps_laws_nested :
    nestedArgs.length < signedLimit ∧ (∀ v ∈ nestedArgs, v.Addressable) ∧
      bytes nestedTemplate.toList < signedLimit ∧
      Checked.formatWith nestedTemplate nestedArgs {} =
        .ok "[1,234,567, [          -5]] and 9.877e+04" ∧
      Template.Limited [.field { raw := "", element := { precision := some (.literal 100000) } }] ∧
      ∀ law, Checked.render
        [.field { raw := "", element := { precision := some (.literal 100000) } }] nestedArgs {} ≠
          .error (.breach law) := by
  have hlength : nestedArgs.length < signedLimit := by decide
  have hargs : ∀ v ∈ nestedArgs, v.Addressable := by decide +kernel
  have hroom : bytes nestedTemplate.toList < signedLimit := by decide +kernel
  have hlimited : Template.Limited
      [.field { raw := "", element := { precision := some (.literal 100000) } }] := by decide
  obtain ⟨-, -, hruns⟩ := formatting_keeps_laws nestedArgs {}
  obtain ⟨hformat, hrender⟩ := hruns hlength hargs
  have htext : formatWith nestedTemplate nestedArgs {} =
      .ok "[1,234,567, [          -5]] and 9.877e+04" := by decide +kernel
  refine ⟨hlength, hargs, hroom, ?_, hlimited, (hrender _ hlimited).2⟩
  rw [(hformat _ hroom).1, htext]
  rfl

end Stencil
