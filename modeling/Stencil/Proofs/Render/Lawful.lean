import Stencil.Proofs.Render.Faults
import Stencil.Proofs.Render.Figures

/-!
# No law of the library is broken

Faults that tell of a law of the library are never met: a number that is presented has its figure, no
scalar is taken for a container, and reading, checking and picking have faults of their own.

* `Lawful` — a result that is not such a fault.
* `renderScalar_lawful`, `renderValue_lawful` — values.
* `request_lawful` — arguments.
* `parse_lawful`, `render_ne_internal`, `formatWith_ne_internal` — fields and templates.
-/

namespace Stencil

variable {α β : Type}

/-! ## Lawful results -/

/-- A result that does not tell of a broken law. -/
def Lawful (result : Except Fault α) : Prop := ∀ law, result ≠ .error (.internal law)

namespace Lawful

theorem ok (a : α) : Lawful (.ok a) := fun _ h => by cases h

theorem bind {result : Except Fault α} {f : α → Except Fault β} (h : Lawful result)
    (hf : ∀ a, Lawful (f a)) : Lawful (result >>= f) := by
  cases result with
  | error fault =>
    intro law heq
    cases heq
    exact h law rfl
  | ok a => exact hf a

end Lawful

/-! ## Scalars -/

theorem Element.checkSpecifiers_lawful {κ : Type} (element : Element κ) (rules : TypeCode) :
    Lawful (element.checkSpecifiers rules) :=
  fun _ => element.checkSpecifiers_faultsIn rules _

theorem Element.checkFor_lawful {κ : Type} (element : Element κ) (kind : ValueClass) :
    Lawful (element.checkFor kind) :=
  fun _ => element.checkFor_faultsIn kind _

section Scalar

variable {element : Element Nat} (v : Value) (options : Options)

theorem renderQuantity_lawful (q : Quantity) (htype : element.type.PresentsNumbers) :
    Lawful (renderQuantity q v element options) := by
  intro law h
  rw [renderQuantity] at h
  rcases q.figure_unbroken htype with ⟨figure, hfigure⟩ | hfractional
  · rw [hfigure] at h
    cases h
  · rw [hfractional] at h
    cases h

theorem renderNumber_lawful (htype : element.type.PresentsNumbers) :
    Lawful (renderNumber v element options) := by
  rw [renderNumber]
  split
  · exact renderQuantity_lawful v options _ htype
  · intro law h
    cases h

theorem renderCharacter_lawful (element : Element Nat) : Lawful (renderCharacter v element) := by
  intro law h
  rw [renderCharacter] at h
  split at h
  · cases h
  · split at h
    · split at h <;> cases h
    · cases h

theorem renderByKind_lawful (htype : element.type.PresentsNumbers) :
    Lawful (renderByKind v element options) := by
  rw [renderByKind]
  split
  · exact (element.checkFor_lawful _).bind fun _ => Lawful.ok _
  · split
    · exact (element.checkFor_lawful _).bind fun _ => renderQuantity_lawful v options _ htype
    · intro law h
      cases h

/-- The type codes whose numbers have no figure never come to a number. -/
theorem renderScalar_lawful (element : Element Nat) : Lawful (renderScalar v element options) := by
  unfold renderScalar
  cases htype : element.type with
  | text =>
    intro law h
    dsimp only at h
    split at h <;> cases h
  | character => exact renderCharacter_lawful v element
  | byKind => exact renderByKind_lawful v options (by rw [htype]; trivial)
  | decimal | localeInteger | octal | binary letters | hex letters =>
    have hnumbers : element.type.PresentsNumbers := by rw [htype]; trivial
    dsimp only
    split
    · exact renderQuantity_lawful v options _ hnumbers
    · exact renderNumber_lawful v options hnumbers
  | _ => exact renderNumber_lawful v options (by rw [htype]; trivial)

end Scalar

/-! ## Values -/

/-- A value is laid out as what it is at each level, whatever the presentation of its field. -/
theorem renderValue_lawful (options : Options) (layers : List (Layer Nat)) (element : Element Nat)
    (v : Value) : Lawful (renderValue options layers element v) := by
  have hconfines : options.Confines fun fault => ∀ law, fault ≠ .internal law := by
    refine ⟨fun v element fault h law hlaw => ?_, fun _ => nofun⟩
    rw [hlaw] at h
    exact renderScalar_lawful v options element law h
  exact fun law h => renderValue_faultsIn hconfines layers element v _ h law rfl

/-! ## Arguments -/

/-- A step that is lawful at every cursor. -/
def LawfulStep (step : Picking α) : Prop := ∀ cursor, Lawful (step cursor)

theorem request_lawful (args : List Value) (field : Field) : LawfulStep (field.request args) := by
  intro cursor law h
  rcases request_faultsIn args field cursor _ h with (hmixed | hargument) | hcount
  · cases hmixed
  · exact hargument
  · exact hcount

/-! ## Fields -/

theorem read_lawful (raw : String) : Lawful (Field.read raw) := by
  intro law h
  rw [Field.read] at h
  split at h
  · cases h
  · split at h <;> cases h
  · cases h

theorem check_lawful (field : Field) : Lawful field.check := by
  rw [Field.check]
  split_ifs
  · intro law h
    cases h
  · split
    · intro law h
      cases h
    · dsimp only
      split_ifs
      · intro law h
        cases h
      · intro law h
        cases h
      · exact field.element.checkSpecifiers_lawful _

theorem parse_lawful (raw : String) : Lawful (Field.parse raw) :=
  (read_lawful raw).bind fun field => (check_lawful field).bind fun _ => Lawful.ok field

/-! ## Templates -/

/-- A result that does not tell of a broken law in any field. -/
def LawfulText (result : Except FormatError α) : Prop :=
  ∀ raw law, result ≠ .error (.inField raw (.internal law))

namespace LawfulText

theorem ok (a : α) : LawfulText (.ok a) := fun _ _ h => by cases h

theorem inField {result : Except Fault α} (h : Lawful result) (raw : String) :
    LawfulText (result.mapError (.inField raw)) := by
  intro raw' law heq
  cases result with
  | error fault =>
    cases heq
    exact h law rfl
  | ok a => cases heq

theorem bind {result : Except FormatError α} {f : α → Except FormatError β} (h : LawfulText result)
    (hf : ∀ a, LawfulText (f a)) : LawfulText (result >>= f) := by
  cases result with
  | error e =>
    intro raw law heq
    cases heq
    exact h raw law rfl
  | ok a => exact hf a

theorem map {result : Except FormatError α} (h : LawfulText result) (f : α → β) :
    LawfulText (result.map f) := by
  cases result with
  | error e =>
    intro raw law heq
    cases heq
    exact h raw law rfl
  | ok a => exact ok (f a)

end LawfulText

theorem renderFrom_ne_internal (options : Options) (args : List Value) (template : Template Field)
    (cursor : Cursor) : LawfulText (renderFrom options args cursor template) := by
  induction template generalizing cursor with
  | nil => exact LawfulText.ok []
  | cons segment rest ih =>
    cases segment with
    | literal text =>
      rw [renderFrom]
      exact (ih cursor).bind fun _ => LawfulText.ok _
    | field field =>
      have hfield : Lawful (field.render options args cursor) :=
        (request_lawful args field cursor).bind fun request =>
          (renderValue_lawful options _ _ request.1.value).bind fun _ => Lawful.ok _
      rw [renderFrom]
      exact (LawfulText.inField hfield field.raw).bind fun result =>
        (ih result.2).bind fun _ => LawfulText.ok _

/-- No template breaks a law, whatever its counts are. -/
theorem render_ne_internal (template : Template Field) (args : List Value) (options : Options) :
    LawfulText (Template.render template args options) :=
  (renderFrom_ne_internal options args template {}).map String.ofList

theorem compileTokens_ne_internal (tokens : List Token) :
    LawfulText (tokens.mapM compileToken) := by
  induction tokens with
  | nil => exact LawfulText.ok []
  | cons token tokens ih =>
    have htoken : LawfulText (compileToken token) := by
      cases token with
      | literal text => exact LawfulText.ok _
      | field text => exact (LawfulText.inField (parse_lawful _) _).map _
    rw [List.mapM_cons]
    exact htoken.bind fun segment => ih.bind fun rest => LawfulText.ok (segment :: rest)

theorem formatWith_ne_internal (template : String) (args : List Value) (options : Options) :
    LawfulText (formatWith template args options) := by
  have htokens : LawfulText (tokenize template) := by
    intro raw law h
    rw [tokenize] at h
    cases hscan : Token.scan template.toList <;> rw [hscan] at h <;> cases h
  refine LawfulText.bind (htokens.bind fun tokens => ?_) fun compiled => ?_
  · exact compileTokens_ne_internal tokens
  · exact render_ne_internal compiled args options

end Stencil
