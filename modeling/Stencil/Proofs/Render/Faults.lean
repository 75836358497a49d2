import Stencil.Proofs.Render.Depth

/-!
# Where faults come from

Each step of rendering has faults of its own: picking an argument, taking its number for a width or
precision, and presenting a value. So a fault tells the step that has failed.

* `Fault.OfArgument`, `Fault.OfPick`, `Fault.OfCount`, `Fault.OfLookup` — the faults of a lookup.
* `Fault.OfRules`, `Fault.OfScalar`, `Fault.OfValue` — the faults of a value that is presented.
* `FaultsIn` — a result that has faults of one kind only.
* `pick_faultsIn`, `countOf_faultsIn`, `request_faultsIn` — looking a field up.
* `renderScalar_faultsIn` — a scalar is not nested too deep.
* `dress_faultsIn` — nor is what has been measured, but for its keys.
* `renderValue_faultsIn` — a value has the faults of its scalars, and is nested too deep.
* `renderValue_ofValue` — so it has no fault of a lookup.
-/

namespace Stencil

variable {α β : Type} {kind : Fault → Prop}

/-! ## Kinds of faults -/

/-- The faults of an argument that is not there. -/
def Fault.OfArgument : Fault → Prop
  | .indexOutOfRange _ _ | .unknownName _ => True
  | _ => False

/-- The faults of picking an argument. -/
def Fault.OfPick (fault : Fault) : Prop :=
  fault = .mixedNumbering ∨ fault.OfArgument

/-- The faults of a width or precision that is looked up. -/
def Fault.OfCount : Fault → Prop
  | .invalidReference _ | .countTooLarge _ _ => True
  | _ => False

/-- The faults of looking a field up. -/
def Fault.OfLookup (fault : Fault) : Prop :=
  fault.OfPick ∨ fault.OfCount

/-- The faults of an element that breaks the rules of its type code. -/
def Fault.OfRules : Fault → Prop
  | .specifierNotAllowed _ _ | .precisionOnInteger => True
  | _ => False

/-- The faults of a scalar that is presented. -/
def Fault.OfScalar : Fault → Prop
  | .specifierNotAllowed _ _ | .precisionOnInteger | .unsupportedType _ _ _ | .notAnInteger _
  | .invalidCodePoint _ | .internal _ => True
  | _ => False

/-- The faults of a value that is presented. -/
def Fault.OfValue : Fault → Prop
  | .specifierNotAllowed _ _ | .precisionOnInteger | .unsupportedType _ _ _ | .notAnInteger _
  | .invalidCodePoint _ | .nestingTooDeep _ | .internal _ => True
  | _ => False

theorem Fault.OfRules.ofScalar {fault : Fault} (h : fault.OfRules) : fault.OfScalar := by
  cases fault with
  | specifierNotAllowed _ _ | precisionOnInteger => trivial
  | _ => exact h.elim

theorem Fault.OfScalar.ofValue {fault : Fault} (h : fault.OfScalar) : fault.OfValue := by
  cases fault with
  | specifierNotAllowed _ _ | precisionOnInteger | unsupportedType _ _ _ | notAnInteger _
  | invalidCodePoint _ | internal _ => trivial
  | _ => exact h.elim

/-- A result that fails, if it does, with a fault of one kind. -/
def FaultsIn (kind : Fault → Prop) (result : Except Fault α) : Prop :=
  ∀ fault, result = .error fault → kind fault

namespace FaultsIn

theorem ok (a : α) : FaultsIn kind (.ok a) := fun _ h => by cases h

theorem error {fault : Fault} (h : kind fault) : FaultsIn kind (.error fault : Except Fault α) := by
  intro other hother
  obtain rfl := Except.error.inj hother
  exact h

theorem bind {result : Except Fault α} {f : α → Except Fault β} (h : FaultsIn kind result)
    (hf : ∀ a, FaultsIn kind (f a)) : FaultsIn kind (result >>= f) := by
  cases result with
  | error fault => exact error (h fault rfl)
  | ok a => exact hf a

theorem mono {result : Except Fault α} {kind' : Fault → Prop} (h : FaultsIn kind result)
    (himp : ∀ fault, kind fault → kind' fault) : FaultsIn kind' result :=
  fun fault hfault => himp fault (h fault hfault)

end FaultsIn

/-! ## Looking a field up -/

section Lookup

variable (args : List Value)

theorem enter_faultsIn (numbering : Numbering) (c : Cursor) :
    FaultsIn (· = .mixedNumbering) (Picking.enter numbering c) := by
  rw [Picking.enter]
  split
  · exact .ok _
  · split
    · exact .ok _
    · exact .error rfl

theorem positional_faultsIn (position : Nat) :
    FaultsIn Fault.OfArgument (Picking.positional args position) := by
  rw [Picking.positional]
  split
  · exact .ok _
  · exact .error trivial

theorem named_faultsIn (key : String) : FaultsIn Fault.OfArgument (Picking.named args key) := by
  rw [Picking.named]
  split
  · exact .ok _
  · exact .error trivial

theorem pick_faultsIn (selector : Selector) (c : Cursor) :
    FaultsIn Fault.OfPick (Picking.pick args selector c) := by
  have henter : ∀ numbering, FaultsIn Fault.OfPick (Picking.enter numbering c) :=
    fun numbering => (enter_faultsIn numbering c).mono fun _ => .inl
  have hpositional : ∀ position d,
      FaultsIn Fault.OfPick ((liftM (Picking.positional args position) : Picking Value) d) :=
    fun position d => ((positional_faultsIn args position).mono fun _ => .inr).bind fun _ => .ok _
  cases selector with
  | auto => exact (henter .automatic).bind fun d => hpositional _ _
  | index position => exact (henter .manual).bind fun d => hpositional position d.2
  | name key => exact ((named_faultsIn args key).mono fun _ => .inr).bind fun _ => .ok _

theorem countOf_faultsIn (v : Value) : FaultsIn Fault.OfCount (Picking.countOf v) := by
  rw [Picking.countOf]
  split
  · split
    · exact .error trivial
    · exact .ok _
  · exact .error trivial

theorem pickCount_faultsIn (count : Option Count) (c : Cursor) :
    FaultsIn Fault.OfLookup (Picking.pickCount args count c) := by
  cases count with
  | none => exact .ok _
  | some count =>
    cases count with
    | literal n => exact .ok _
    | ref selector =>
      refine ((pick_faultsIn args selector c).mono fun _ => .inl).bind fun picked => ?_
      refine FaultsIn.bind (FaultsIn.bind ?_ fun _ => .ok _) fun _ => .ok _
      exact (countOf_faultsIn picked.1).mono fun _ => .inr

theorem pickLayers_faultsIn (layers : List (Layer Count)) (c : Cursor) :
    FaultsIn Fault.OfLookup (layers.mapM (Picking.pickLayer args) c) := by
  induction layers generalizing c with
  | nil => exact .ok _
  | cons layer rest ih =>
    rw [List.mapM_cons]
    refine FaultsIn.bind ?_ fun picked => (ih picked.2).bind fun _ => .ok _
    exact (pickCount_faultsIn args layer.width c).bind fun _ => .ok _

theorem request_faultsIn (field : Field) (c : Cursor) :
    FaultsIn Fault.OfLookup (field.request args c) := by
  refine ((pick_faultsIn args field.selector c).mono fun _ => .inl).bind fun value => ?_
  refine (pickLayers_faultsIn args field.layers value.2).bind fun layers => ?_
  refine FaultsIn.bind ?_ fun _ => .ok _
  refine (pickCount_faultsIn args field.element.width layers.2).bind fun width => ?_
  exact (pickCount_faultsIn args field.element.precision width.2).bind fun _ => .ok _

end Lookup

/-! ## Presenting a scalar -/

theorem Element.checkSpecifiers_faultsIn {κ : Type} (element : Element κ) (rules : TypeCode) :
    FaultsIn Fault.OfRules (element.checkSpecifiers rules) := by
  rw [checkSpecifiers]
  split
  · exact .error trivial
  · exact .ok ()

theorem Element.checkFor_faultsIn {κ : Type} (element : Element κ) (cls : ValueClass) :
    FaultsIn Fault.OfRules (element.checkFor cls) := by
  cases cls with
  | text => exact element.checkSpecifiers_faultsIn .text
  | integer =>
    rw [checkFor]
    split
    · exact .error trivial
    · exact element.checkSpecifiers_faultsIn .decimal
  | float => exact .ok ()

section Scalar

variable (v : Value) (element : Element Nat) (options : Options)

theorem renderQuantity_faultsIn (q : Quantity) :
    FaultsIn Fault.OfScalar (renderQuantity q v element options) := by
  rw [renderQuantity]
  split
  · exact .ok _
  · rename_i obstacle _
    cases obstacle <;> exact .error trivial

theorem renderNumber_faultsIn : FaultsIn Fault.OfScalar (renderNumber v element options) := by
  rw [renderNumber]
  split
  · exact renderQuantity_faultsIn v element options _
  · exact .error trivial

theorem renderCharacter_faultsIn : FaultsIn Fault.OfScalar (renderCharacter v element) := by
  rw [renderCharacter]
  split
  · exact .ok _
  · split
    · split
      · exact .ok _
      · exact .error trivial
    · exact .error trivial

theorem renderByKind_faultsIn : FaultsIn Fault.OfScalar (renderByKind v element options) := by
  have hrules : ∀ cls, FaultsIn Fault.OfScalar (element.checkFor cls) :=
    fun cls => (element.checkFor_faultsIn cls).mono fun _ => Fault.OfRules.ofScalar
  rw [renderByKind]
  split
  · exact (hrules .text).bind fun _ => .ok _
  · split
    · refine (hrules _).bind fun _ => ?_
      exact renderQuantity_faultsIn v element options _
    · exact .error trivial

theorem renderScalar_faultsIn : FaultsIn Fault.OfScalar (renderScalar v element options) := by
  unfold renderScalar
  split
  · exact renderByKind_faultsIn v element options
  · split
    · exact .ok _
    · exact .error trivial
  · exact renderCharacter_faultsIn v element
  all_goals first
    | exact renderNumber_faultsIn v element options
    | split
      · exact renderQuantity_faultsIn v element options _
      · exact renderNumber_faultsIn v element options

end Scalar

/-! ## Presenting a value -/

/-- What stands as a key in a value, or in what it contains. -/
def Value.HasKey (v key : Value) : Prop :=
  ∃ entries w, v.Contains (.map entries) ∧ (key, w) ∈ entries

/-- A key of a value that is nested too deep fails with a fault of the kind. -/
def Options.AdmitsKeys (options : Options) (kind : Fault → Prop) (v : Value) : Prop :=
  ∀ key, v.HasKey key → options.maxDepth < key.depth → kind (.nestingTooDeep options.maxDepth)

namespace Options.AdmitsKeys

variable {options : Options} {entries : List (Value × Value)} {k v : Value}

theorem item {items : List Value} (h : options.AdmitsKeys kind (.list items)) (hv : v ∈ items) :
    options.AdmitsKeys kind v :=
  fun key ⟨entries, w, hmap, hkey⟩ => h key ⟨entries, w, .item hv hmap, hkey⟩

theorem value (h : options.AdmitsKeys kind (.map entries)) (hv : (k, v) ∈ entries) :
    options.AdmitsKeys kind v :=
  fun key ⟨entries, w, hmap, hkey⟩ => h key ⟨entries, w, .value hv hmap, hkey⟩

theorem key (h : options.AdmitsKeys kind (.map entries)) (hv : (k, v) ∈ entries) :
    options.AdmitsKeys kind k :=
  fun key ⟨entries, w, hmap, hkey⟩ => h key ⟨entries, w, .key hv hmap, hkey⟩

theorem own (h : options.AdmitsKeys kind (.map entries)) (hv : (k, v) ∈ entries)
    (hdeep : options.maxDepth < k.depth) : kind (.nestingTooDeep options.maxDepth) :=
  h k ⟨entries, v, .self _, hv⟩ hdeep

end Options.AdmitsKeys

section Values

variable {options : Options}

mutual

/-- A value that has been measured has the faults of its scalars; only keys are measured again. -/
theorem dress_faultsIn (h : ∀ v element, FaultsIn kind (renderScalar v element options))
    (element : Element Nat) (layers : List (Layer Nat)) (v : Value)
    (hkeys : options.AdmitsKeys kind v) : FaultsIn kind (v.dress options element layers) := by
  cases v with
  | list items =>
    rw [Value.dress]
    exact (dressItems_faultsIn h element _ items fun v hv => hkeys.item hv).bind fun _ => .ok _
  | map entries =>
    rw [Value.dress]
    refine (dressEntries_faultsIn h element _ _ entries fun key v hv => ?_).bind fun _ => .ok _
    exact ⟨hkeys.own hv, hkeys.key hv, hkeys.value hv⟩
  | _ =>
    simp only [Value.dress]
    exact h _ _

theorem dressItems_faultsIn (h : ∀ v element, FaultsIn kind (renderScalar v element options))
    (element : Element Nat) (layers : List (Layer Nat)) (items : List Value)
    (hkeys : ∀ v ∈ items, options.AdmitsKeys kind v) :
    FaultsIn kind (dressItems options element layers items) := by
  cases items with
  | nil => exact .ok []
  | cons v rest =>
    obtain ⟨hv, hrest⟩ := List.forall_mem_cons.1 hkeys
    rw [dressItems]
    refine (dress_faultsIn h element layers v hv).bind fun _ => ?_
    exact (dressItems_faultsIn h element layers rest hrest).bind fun _ => .ok _

theorem dressEntries_faultsIn (h : ∀ v element, FaultsIn kind (renderScalar v element options))
    (element : Element Nat) (layers : List (Layer Nat)) (braces : ContainerKind)
    (entries : List (Value × Value))
    (hkeys : ∀ key v, (key, v) ∈ entries →
      (options.maxDepth < key.depth → kind (.nestingTooDeep options.maxDepth)) ∧
        options.AdmitsKeys kind key ∧ options.AdmitsKeys kind v) :
    FaultsIn kind (dressEntries options element layers braces entries) := by
  cases entries with
  | nil => exact .ok []
  | cons entry rest =>
    obtain ⟨k, v⟩ := entry
    obtain ⟨hdeep, hkey, hvalue⟩ := hkeys k v List.mem_cons_self
    rw [dressEntries]
    split
    · exact .error (hdeep ‹_›)
    · refine (dress_faultsIn h {} _ k hkey).bind fun _ => ?_
      refine (dress_faultsIn h element layers v hvalue).bind fun _ => ?_
      refine (dressEntries_faultsIn h element layers braces rest fun key v hv => ?_).bind
        fun _ => .ok _
      exact hkeys key v (List.mem_cons_of_mem _ hv)

end

/-- Scalars have faults of one kind only, and so has a nesting that is too deep. -/
structure Options.Confines (options : Options) (kind : Fault → Prop) : Prop where
  scalar : ∀ v element, FaultsIn kind (renderScalar v element options)
  nesting : kind (.nestingTooDeep options.maxDepth)

/-- A value has the faults of its scalars, or is nested too deep. -/
theorem renderValue_faultsIn (h : options.Confines kind) (layers : List (Layer Nat))
    (element : Element Nat) (v : Value) :
    FaultsIn kind (renderValue options layers element v) := by
  rw [renderValue_eq_ite]
  split
  · exact .error h.nesting
  · exact dress_faultsIn h.scalar element _ v fun _ _ _ => h.nesting

end Values

theorem renderValue_ofValue (options : Options) (layers : List (Layer Nat)) (element : Element Nat)
    (v : Value) : FaultsIn Fault.OfValue (renderValue options layers element v) := by
  refine renderValue_faultsIn ⟨fun v element => ?_, trivial⟩ layers element v
  exact (renderScalar_faultsIn v element options).mono fun _ => Fault.OfScalar.ofValue

end Stencil
