import Stencil.Proofs.Render.Counts

/-!
# Mixed numbering

Arguments are taken in order or by position, and a template that does both fails where the second
kind first turns up. The cursor is all that is remembered of the selectors looked up so far, and it
is enough: it holds the one kind that is among them. All selectors count, those of layers that no
container uses as well as any others; names count for neither kind.

* `Mixed`, `Template.Mixed` — selectors of both kinds.
* `Field.visits`, `Template.visits` — selectors in the order in which they are looked up.
* `Cursor.Tracks` — a cursor that holds the kind of what has been looked up; `Cursor.Tracks.pick`
  for one selector, `Renders.tracks` for the segments of a template.
* `Template.MixesAt` — where selectors begin to be of both kinds.
* `render_mixed_numbering` — what becomes of a template that mixes and of one that does not.
-/

namespace Stencil

/-! ## Selectors of both kinds -/

/-- The numbering that a selector decides on; a name decides on none. -/
def Selector.numbering? : Selector → Option Numbering
  | .auto => some .automatic
  | .index _ => some .manual
  | .name _ => none

/-- Selectors that take the next argument are among those that give a position. -/
def Mixed (selectors : List Selector) : Prop :=
  .auto ∈ selectors ∧ ∃ position, .index position ∈ selectors

theorem mixed_iff {selectors : List Selector} :
    Mixed selectors ↔ ∀ kind, ∃ s ∈ selectors, s.numbering? = some kind := by
  constructor
  · rintro ⟨hauto, position, hindex⟩ kind
    cases kind with
    | automatic => exact ⟨.auto, hauto, rfl⟩
    | manual => exact ⟨.index position, hindex, rfl⟩
  · intro h
    constructor
    · obtain ⟨s, hs, hkind⟩ := h .automatic
      cases s with
      | auto => exact hs
      | index position => cases hkind
      | name key => cases hkind
    · obtain ⟨s, hs, hkind⟩ := h .manual
      cases s with
      | auto => cases hkind
      | index position => exact ⟨position, hs⟩
      | name key => cases hkind

theorem Mixed.mono {fewer more : List Selector} (h : Mixed fewer) (hsubset : fewer ⊆ more) :
    Mixed more :=
  ⟨hsubset h.1, h.2.imp fun _ hindex => hsubset hindex⟩

theorem Numbering.eq_or_eq {kind other : Numbering} (hne : other ≠ kind) (wanted : Numbering) :
    wanted = kind ∨ wanted = other := by
  cases wanted <;> cases kind <;> cases other <;> simp_all

/-- One selector more makes selectors mixed if one of the other kind is among them. -/
theorem mixed_concat_iff {selectors : List Selector} {s : Selector} :
    Mixed (selectors ++ [s]) ↔ Mixed selectors ∨ ∃ kind other, s.numbering? = some kind ∧
      other ≠ kind ∧ ∃ t ∈ selectors, t.numbering? = some other := by
  constructor
  · rintro ⟨hauto, position, hindex⟩
    cases s with
    | auto =>
      exact .inr ⟨.automatic, .manual, rfl, nofun, .index position, by simpa using hindex, rfl⟩
    | index last => exact .inr ⟨.manual, .automatic, rfl, nofun, .auto, by simpa using hauto, rfl⟩
    | name key => exact .inl ⟨by simpa using hauto, position, by simpa using hindex⟩
  · rintro (h | ⟨kind, other, hkind, hne, t, ht, hother⟩)
    · exact h.mono (List.subset_append_left _ _)
    · refine mixed_iff.2 fun wanted => ?_
      rcases Numbering.eq_or_eq hne wanted with rfl | rfl
      · exact ⟨s, by simp, hkind⟩
      · exact ⟨t, List.mem_append_left _ ht, hother⟩

/-- Selectors of both kinds become so at one of them. -/
theorem Mixed.exists_first {selectors : List Selector} (h : Mixed selectors) :
    ∃ first s second, selectors = first ++ s :: second ∧ ¬ Mixed first ∧ Mixed (first ++ [s]) := by
  induction selectors using List.reverseRecOn with
  | nil => cases h.1
  | append_singleton front last ih =>
    by_cases hfront : Mixed front
    · obtain ⟨first, s, second, rfl, hfirst, hmixed⟩ := ih hfront
      exact ⟨first, s, second ++ [last], by simp, hfirst, hmixed⟩
    · exact ⟨front, last, [], rfl, hfront, h⟩

/-! ## The order of evaluation -/

/-- The selectors of a field in the order in which they are looked up: that of its value, those of
the widths of its layers, and those of its own width and its precision. -/
def Field.visits (field : Field) : List Selector :=
  field.selector :: field.lookups.filterMap Count.selector?

/-- The selectors of a segment in this order; text has none. -/
def Segment.visits : Segment Field → List Selector
  | .literal _ => []
  | .field content => content.visits

/-- The selectors of a template, one field after the other. -/
def Template.visits (template : Template Field) : List Selector :=
  template.flatMap Segment.visits

/-- Selectors of both kinds are found in the fields of a template, their layers, widths and
precisions. -/
def Template.Mixed (template : Template Field) : Prop :=
  Stencil.Mixed (template.flatMap Segment.selectors)

theorem Field.mem_visits {field : Field} {s : Selector} :
    s ∈ field.visits ↔ s ∈ field.selectors := by
  have hcounts : ∀ count, count ∈ field.lookups ↔ count ∈ field.counts := by
    intro count
    simp only [lookups, counts, List.mem_append, List.mem_flatMap, List.mem_filterMap,
      Option.mem_toList]
    exact or_comm
  simp only [visits, selectors, List.mem_cons, List.mem_filterMap, hcounts]

theorem Template.mem_visits {template : Template Field} {s : Selector} :
    s ∈ template.visits ↔ s ∈ template.flatMap Segment.selectors := by
  have hsegment : ∀ segment : Segment Field, s ∈ segment.visits ↔ s ∈ segment.selectors := by
    intro segment
    cases segment with
    | literal text => exact Iff.rfl
    | field field => exact Field.mem_visits
  simp only [visits, List.mem_flatMap, hsegment]

theorem Template.mixed_iff_visits {template : Template Field} :
    template.Mixed ↔ Stencil.Mixed template.visits := by
  simp only [Template.Mixed, Stencil.Mixed, Template.mem_visits]

/-- A selector of a template is found in a field, behind those of the fields in front of it and
some of its own. -/
theorem Template.exists_field_of_visits {template : Template Field} {first second : List Selector}
    {s : Selector} (h : template.visits = first ++ s :: second) :
    ∃ before field after own rest, template = before ++ .field field :: after ∧
      field.visits = own ++ s :: rest ∧ first = Template.visits before ++ own := by
  induction template generalizing first with
  | nil => exact absurd h.symm (List.append_ne_nil_of_right_ne_nil _ (List.cons_ne_nil _ _))
  | cons segment tail ih =>
    rw [visits, List.flatMap_cons] at h
    rcases List.append_eq_append_iff.1 h with ⟨behind, rfl, htail⟩ | ⟨rest, hsegment, hrest⟩
    · obtain ⟨before, field, after, own, rest, rfl, hown, rfl⟩ := ih htail
      exact ⟨segment :: before, field, after, own, rest, rfl, hown, by simp [visits]⟩
    · cases rest with
      | nil =>
        -- the selector is the first one behind the segment
        obtain rfl : first = segment.visits := by simpa using hsegment.symm
        have htail : visits tail = [] ++ s :: second := hrest.symm
        obtain ⟨before, field, after, own, rest, rfl, hown, hfirst⟩ := ih htail
        obtain ⟨hbefore, rfl⟩ := List.append_eq_nil_iff.1 hfirst.symm
        refine ⟨segment :: before, field, after, [], rest, rfl, hown, ?_⟩
        rw [visits, List.flatMap_cons, ← visits, hbefore, List.append_nil, List.append_nil]
      | cons other rest =>
        obtain ⟨rfl, rfl⟩ := List.cons.inj hrest
        cases segment with
        | literal text =>
          exact absurd hsegment.symm (List.append_ne_nil_of_right_ne_nil _ (List.cons_ne_nil _ _))
        | field field => exact ⟨[], field, tail, first, rest, rfl, hsegment, rfl⟩

/-! ## What a cursor remembers -/

/-- A selector decides on the other numbering than the one in use. -/
def Cursor.Clashes (c : Cursor) (s : Selector) : Prop :=
  ∃ kind used, s.numbering? = some kind ∧ c.numbering = some used ∧ used ≠ kind

/-- A cursor holds the kind of the selectors that have been looked up, as far as they have one. -/
def Cursor.Tracks (c : Cursor) (seen : List Selector) : Prop :=
  ∀ kind, c.numbering = some kind ↔ ∃ s ∈ seen, s.numbering? = some kind

section Cursor

variable {args : List Value} {c d : Cursor} {seen : List Selector} {s : Selector} {v : Value}

variable (args) in
theorem pick_of_clashes (h : c.Clashes s) : Picking.pick args s c = .error .mixedNumbering := by
  obtain ⟨kind, used, hkind, hused, hne⟩ := h
  have henter : Picking.enter kind c = .error .mixedNumbering := by
    simp only [Picking.enter, hused, if_neg hne]
  cases s with
  | auto =>
    obtain rfl := Option.some.inj hkind
    simp only [Picking.pick, Bind.bind, StateT.bind, henter]
    rfl
  | index position =>
    obtain rfl := Option.some.inj hkind
    simp only [Picking.pick, Bind.bind, StateT.bind, henter]
    rfl
  | name key => cases hkind

variable (args) in
/-- Where a selector does not clash, its argument may still not be there; else its numbering is in
use from now on. -/
theorem pick_of_not_clashes (h : ¬ c.Clashes s) :
    (∃ fault, fault.OfArgument ∧ Picking.pick args s c = .error fault) ∨
      ∃ v d, d.numbering = s.numbering?.or c.numbering ∧ Picking.pick args s c = .ok (v, d) := by
  cases s with
  | auto =>
    rw [pick_auto args fun hmanual => h ⟨_, _, rfl, hmanual, nofun⟩]
    cases hv : Picking.positional args c.next with
    | error fault => exact .inl ⟨fault, positional_faultsIn args _ _ hv, rfl⟩
    | ok v => exact .inr ⟨v, _, rfl, rfl⟩
  | index position =>
    rw [pick_index args position fun hauto => h ⟨_, _, rfl, hauto, nofun⟩]
    cases hv : Picking.positional args position with
    | error fault => exact .inl ⟨fault, positional_faultsIn args _ _ hv, rfl⟩
    | ok v => exact .inr ⟨v, _, rfl, rfl⟩
  | name key =>
    cases hv : Picking.named args key with
    | error fault =>
      refine .inl ⟨fault, named_faultsIn args key _ hv, ?_⟩
      simp only [Picking.pick, hv]
      rfl
    | ok v =>
      refine .inr ⟨v, c, rfl, ?_⟩
      simp only [Picking.pick, hv]
      rfl

variable (args) in
theorem clashes_iff_pick : c.Clashes s ↔ Picking.pick args s c = .error .mixedNumbering := by
  refine ⟨pick_of_clashes args, fun h => ?_⟩
  by_contra hclash
  rcases pick_of_not_clashes args hclash with ⟨fault, hfault, hpick⟩ | ⟨v, d, -, hpick⟩
  · obtain rfl := Except.error.inj (hpick.symm.trans h)
    exact hfault
  · cases hpick.symm.trans h

namespace Cursor.Tracks

theorem start : Cursor.Tracks {} [] := by
  intro kind
  simp

theorem not_mixed (h : c.Tracks seen) : ¬ Mixed seen := by
  intro hmixed
  have hauto := (h .automatic).2 (mixed_iff.1 hmixed .automatic)
  have hmanual := (h .manual).2 (mixed_iff.1 hmixed .manual)
  cases hauto.symm.trans hmanual

/-- A selector clashes exactly if it makes what has been looked up mixed. -/
theorem clashes_iff (h : c.Tracks seen) : c.Clashes s ↔ Mixed (seen ++ [s]) := by
  rw [mixed_concat_iff, or_iff_right h.not_mixed]
  constructor
  · rintro ⟨kind, used, hkind, hused, hne⟩
    exact ⟨kind, used, hkind, hne, (h used).1 hused⟩
  · rintro ⟨kind, used, hkind, hne, hused⟩
    exact ⟨kind, used, hkind, (h used).2 hused, hne⟩

/-- A selector that is looked up is remembered. -/
theorem pick (h : c.Tracks seen) (hpick : Picking.pick args s c = .ok (v, d)) :
    d.Tracks (seen ++ [s]) := by
  have hclash : ¬ c.Clashes s := by
    intro hclash
    cases (pick_of_clashes args hclash).symm.trans hpick
  obtain ⟨fault, -, hfail⟩ | ⟨w, d', hnumbering, hok⟩ := pick_of_not_clashes args hclash
  · cases hfail.symm.trans hpick
  obtain ⟨-, rfl⟩ := Prod.mk.inj (Except.ok.inj (hok.symm.trans hpick))
  intro kind
  rw [hnumbering]
  cases hs : s.numbering? with
  | none => simp [hs, h kind]
  | some decided =>
    constructor
    · intro hdecided
      exact ⟨s, by simp, hs.trans hdecided⟩
    · rintro ⟨t, ht, htkind⟩
      rcases List.mem_append.1 ht with ht | ht
      · have hused := (h kind).2 ⟨t, ht, htkind⟩
        by_contra hne
        exact hclash ⟨decided, kind, hs, hused, fun heq => hne (congrArg some heq.symm)⟩
      · rw [List.mem_singleton.1 ht, hs] at htkind
        exact htkind

end Cursor.Tracks

end Cursor

/-! ## Looking a field up -/

/-- Looks the selectors of a field up one after the other: that of its value, and those of its
widths and its precision with their numbers. -/
def Picking.lookUp (args : List Value) : List Selector → Picking (List (Option Nat))
  | [] => return []
  | value :: counts => do
    let _ ← pick args value
    counts.mapM fun s => pickCount args (some (.ref s))

section LookUp

variable {args : List Value} {c d : Cursor} {seen : List Selector}

/-- Numbers that are written down have no part in this. -/
theorem alongside_references (counts : List Count) :
    Alongside (counts.mapM fun count => Picking.pickCount args (some count))
      ((counts.filterMap Count.selector?).mapM fun s =>
        Picking.pickCount args (some (.ref s))) := by
  induction counts with
  | nil => exact .pure _ _
  | cons count rest ih =>
    cases count with
    | literal n =>
      rw [List.mapM_cons]
      exact ih.map_left fun ns => some n :: ns
    | ref s =>
      have href : (Count.ref s).selector? = some s := rfl
      rw [List.mapM_cons, List.filterMap_cons_some href, List.mapM_cons]
      exact (Alongside.refl _).bind fun _ _ => ih.bind fun _ _ => .pure _ _

theorem alongside_lookUp (field : Field) :
    Alongside (field.request args) (Picking.lookUp args field.visits) :=
  (alongside_request args field).trans
    ((Alongside.refl _).bind fun _ _ => alongside_references field.lookups)

/-- A reference clashes where its selector does; its argument has no such fault. -/
theorem clashes_iff_pickCount {s : Selector} :
    c.Clashes s ↔ Picking.pickCount args (some (.ref s)) c = .error .mixedNumbering := by
  rw [clashes_iff_pick args, pickCount_ref]
  cases Picking.pick args s c with
  | error fault => simp only [Except.bind, Except.error.injEq]
  | ok picked =>
    cases hcount : Picking.countOf picked.1 with
    | ok n => simp [Except.bind, Except.map, hcount]
    | error fault =>
      have hfault := countOf_faultsIn picked.1 fault hcount
      simp only [Except.bind, Except.map, hcount, reduceCtorEq, Except.error.injEq, false_iff]
      rintro rfl
      exact hfault

namespace Cursor.Tracks

theorem pickCount {s : Selector} {n : Option Nat} (h : c.Tracks seen)
    (hcount : Picking.pickCount args (some (.ref s)) c = .ok (n, d)) : d.Tracks (seen ++ [s]) := by
  rw [pickCount_ref] at hcount
  obtain ⟨⟨v, d'⟩, hpick, hcount⟩ := bind_eq_ok hcount
  obtain ⟨m, -, heq⟩ := map_eq_ok hcount
  cases heq
  exact h.pick hpick

theorem pickCounts {refs : List Selector} {ns : List (Option Nat)} (h : c.Tracks seen)
    (hcounts : (refs.mapM fun s => Picking.pickCount args (some (.ref s))) c = .ok (ns, d)) :
    d.Tracks (seen ++ refs) := by
  induction refs generalizing c seen ns with
  | nil =>
    cases hcounts
    rwa [List.append_nil]
  | cons s rest ih =>
    rw [List.mapM_cons] at hcounts
    obtain ⟨⟨n, d'⟩, hcount, hcounts⟩ := bind_eq_ok hcounts
    obtain ⟨⟨ms, d''⟩, hrest, heq⟩ := bind_eq_ok hcounts
    cases heq
    rw [List.append_cons]
    exact ih (h.pickCount hcount) hrest

/-- Everything that is looked up is remembered. -/
theorem lookUp {visits : List Selector} {ns : List (Option Nat)} (h : c.Tracks seen)
    (hvisits : Picking.lookUp args visits c = .ok (ns, d)) : d.Tracks (seen ++ visits) := by
  cases visits with
  | nil =>
    cases hvisits
    rwa [List.append_nil]
  | cons value refs =>
    obtain ⟨⟨v, d'⟩, hpick, hrefs⟩ := bind_eq_ok hvisits
    rw [List.append_cons]
    exact (h.pick hpick).pickCounts hrefs

/-- If numberings are found mixed, they are. -/
theorem mixed_of_lookUp {visits : List Selector} (h : c.Tracks seen)
    (hvisits : Picking.lookUp args visits c = .error .mixedNumbering) : Mixed (seen ++ visits) := by
  cases visits with
  | nil => cases hvisits
  | cons value refs =>
    rw [List.append_cons]
    cases hpick : Picking.pick args value c with
    | error fault =>
      simp only [Picking.lookUp, Bind.bind, StateT.bind, hpick] at hvisits
      obtain rfl := Except.error.inj hvisits
      exact (h.clashes_iff.1 ((clashes_iff_pick args).2 hpick)).mono (List.subset_append_left _ _)
    | ok picked =>
      obtain ⟨v, d⟩ := picked
      simp only [Picking.lookUp, Bind.bind, StateT.bind, hpick] at hvisits
      obtain ⟨front, s, back, ns, d', rfl, hfront, hs⟩ := exists_of_mapM_eq_error hvisits
      have htracks := (h.pick hpick).pickCounts hfront
      have hmixed := htracks.clashes_iff.1 (clashes_iff_pickCount.2 hs)
      have horder : seen ++ [value] ++ (front ++ s :: back) =
          seen ++ [value] ++ front ++ [s] ++ back := by simp
      rw [horder]
      exact hmixed.mono (List.subset_append_left _ _)

end Cursor.Tracks

theorem lookUp_of_clashes {first : List Selector} {s : Selector} {ns : List (Option Nat)}
    (hfirst : Picking.lookUp args first c = .ok (ns, d)) (h : d.Clashes s)
    (second : List Selector) :
    Picking.lookUp args (first ++ s :: second) c = .error .mixedNumbering := by
  cases first with
  | nil =>
    cases hfirst
    simp only [List.nil_append, Picking.lookUp, Bind.bind, StateT.bind, pick_of_clashes args h]
    rfl
  | cons value refs =>
    obtain ⟨⟨v, d'⟩, hpick, hrefs⟩ := bind_eq_ok hfirst
    simp only [List.cons_append, Picking.lookUp, Bind.bind, StateT.bind, hpick]
    exact mapM_eq_error hrefs (clashes_iff_pickCount.1 h)

theorem lookUp_append_of_error {first : List Selector} {fault : Fault}
    (h : Picking.lookUp args first c = .error fault) (second : List Selector) :
    Picking.lookUp args (first ++ second) c = .error fault := by
  cases first with
  | nil => cases h
  | cons value refs =>
    simp only [List.cons_append, Picking.lookUp, List.mapM_append, Bind.bind, StateT.bind] at h ⊢
    cases hpick : Picking.pick args value c with
    | error found => rwa [hpick] at h
    | ok picked =>
      rw [hpick] at h
      simp only [Except.bind] at h ⊢
      rw [h]

end LookUp

/-! ## Templates -/

section Templates

variable {options : Options} {args : List Value} {c d : Cursor} {seen : List Selector}

/-- A field that cannot be looked up is not rendered. -/
theorem Field.render_of_lookUp_error {field : Field} {fault : Fault}
    (h : Picking.lookUp args field.visits c = .error fault) :
    field.render options args c = .error fault := by
  have hrequest := ((alongside_lookUp field).error_iff c fault).2 h
  simp only [Field.render, Bind.bind, StateT.bind, hrequest]
  rfl

theorem Field.lookUp_of_render_mixed {field : Field}
    (h : field.render options args c = .error .mixedNumbering) :
    Picking.lookUp args field.visits c = .error .mixedNumbering := by
  rw [← (alongside_lookUp field).error_iff]
  simp only [Field.render, Bind.bind, StateT.bind] at h
  cases hrequest : field.request args c with
  | error fault =>
    rw [hrequest] at h
    obtain rfl := Except.error.inj h
    rfl
  | ok result =>
    obtain ⟨request, d⟩ := result
    rw [hrequest] at h
    have hvalue : FaultsIn Fault.OfValue
        ((liftM (renderValue options request.layers request.element request.value) :
          Picking (List Char)) d) :=
      (renderValue_ofValue options _ _ _).bind fun _ => .ok _
    exact (hvalue _ h).elim

theorem Cursor.Tracks.render {field : Field} {text : List Char} (h : c.Tracks seen)
    (hfield : field.render options args c = .ok (text, d)) : d.Tracks (seen ++ field.visits) := by
  obtain ⟨⟨request, d'⟩, hrequest, hvalue⟩ := bind_eq_ok hfield
  obtain ⟨out, -, heq⟩ := bind_eq_ok hvalue
  cases heq
  rcases alongside_lookUp field c with ⟨fault, hp, -⟩ | ⟨_, ns, _, hp, hq⟩
  · cases hrequest.symm.trans hp
  · cases hrequest.symm.trans hp
    exact h.lookUp hq

/-- The cursor behind segments that render holds the kind of all their selectors. -/
theorem Renders.tracks {template : Template Field} {text : List Char}
    (h : Renders options args c template text d) (hc : c.Tracks seen) :
    d.Tracks (seen ++ template.visits) := by
  induction h generalizing seen with
  | nil c => rwa [Template.visits, List.flatMap_nil, List.append_nil]
  | literal _ ih => exact ih hc
  | field hfield _ ih =>
    rw [Template.visits, List.flatMap_cons, ← List.append_assoc]
    exact ih (hc.render hfield)

/-- If a template fails for mixed numbering, it has mixed numbering. -/
theorem mixed_of_renderFrom {template : Template Field} {raw : String} (hc : c.Tracks seen)
    (h : renderFrom options args c template = .error (.inField raw .mixedNumbering)) :
    Mixed (seen ++ template.visits) := by
  obtain ⟨before, field, after, text, d, fault, rfl, hbefore, hfield, he⟩ :=
    renderFrom_eq_error_iff.1 h
  obtain ⟨rfl, rfl⟩ := FormatError.inField.inj he
  have hmixed := (hbefore.tracks hc).mixed_of_lookUp (Field.lookUp_of_render_mixed hfield)
  have horder : seen ++ Template.visits (before ++ .field field :: after) =
      seen ++ before.visits ++ field.visits ++ Template.visits after := by
    simp [Template.visits, Segment.visits]
  rw [horder]
  exact hmixed.mono (List.subset_append_left _ _)

/-- A field that fails behind segments that render is what the template fails at. -/
theorem Renders.field_error {before : Template Field} {field : Field} {text : List Char}
    {fault : Fault} (h : Renders options args c before text d)
    (hfield : field.render options args d = .error fault) (after : Template Field) :
    renderFrom options args c (before ++ .field field :: after) =
      .error (.inField field.raw fault) :=
  renderFrom_eq_error_iff.2 ⟨before, field, after, text, d, fault, rfl, h, hfield, rfl⟩

theorem renderFrom_append_of_error {before : Template Field} {e : FormatError}
    (h : renderFrom options args c before = .error e) (rest : Template Field) :
    renderFrom options args c (before ++ rest) = .error e := by
  obtain ⟨front, field, back, text, d, fault, rfl, hfront, hfield, rfl⟩ :=
    renderFrom_eq_error_iff.1 h
  exact renderFrom_eq_error_iff.2 ⟨front, field, back ++ rest, text, d, fault, by simp, hfront,
    hfield, rfl⟩

theorem render_eq_error_iff_renderFrom {template : Template Field} {e : FormatError} :
    template.render args options = .error e ↔ renderFrom options args {} template = .error e := by
  rw [Template.render]
  cases renderFrom options args {} template <;> simp [Except.map]

end Templates

/-- Selectors begin to be of both kinds in a field of a template: behind the segments `before` and
the selectors `first` of the field itself, which are of one kind at most. -/
inductive Template.MixesAt (template before : Template Field) (field : Field)
    (first : List Selector) : Prop where
  | intro {after : Template Field} {selector : Selector} {second : List Selector}
      (place : template = before ++ .field field :: after)
      (order : field.visits = first ++ selector :: second)
      (single : ¬ Stencil.Mixed (before.visits ++ first))
      (both : Stencil.Mixed (before.visits ++ first ++ [selector]))

theorem Template.exists_mixesAt {template : Template Field} (h : template.Mixed) :
    ∃ before field first, template.MixesAt before field first := by
  obtain ⟨first, s, second, horder, hsingle, hboth⟩ := (mixed_iff_visits.1 h).exists_first
  obtain ⟨before, field, after, own, rest, hplace, hown, rfl⟩ := exists_field_of_visits horder
  exact ⟨before, field, own, hplace, hown, hsingle, hboth⟩

/-- Automatic and manual numbering do not mix. A template that renders has no selectors of both
kinds, be it in its fields, their layers, widths or precisions, and one without them does not fail
for it. One that has them fails, and there is a place where they begin to be of both kinds: the
failure is that of the segments in front of it, or that of the selectors that its field looks up
before; and where neither fails, it is mixed numbering in this field. -/
theorem render_mixed_numbering (template : Template Field) (args : List Value)
    (options : Options) :
    (∀ text, template.render args options = .ok text → ¬ template.Mixed) ∧
    (¬ template.Mixed →
      ∀ raw, template.render args options ≠ .error (.inField raw .mixedNumbering)) ∧
    (template.Mixed → ∃ before field first, template.MixesAt before field first) ∧
    ∀ before field first, template.MixesAt before field first →
      (∃ e, (∀ raw, e ≠ .inField raw .mixedNumbering) ∧
        before.render args options = .error e ∧ template.render args options = .error e) ∨
      ∃ text c, Renders options args {} before text c ∧
        ((∃ fault, fault ≠ .mixedNumbering ∧ Picking.lookUp args first c = .error fault ∧
            template.render args options = .error (.inField field.raw fault)) ∨
          ∃ ns d, Picking.lookUp args first c = .ok (ns, d) ∧
            template.render args options = .error (.inField field.raw .mixedNumbering)) := by
  refine ⟨fun text h hmixed => ?_, fun hsingle raw h => hsingle ?_, Template.exists_mixesAt, ?_⟩
  · obtain ⟨out, hout, -⟩ := map_eq_ok h
    obtain ⟨d, hrenders⟩ := exists_renders hout
    exact (hrenders.tracks Cursor.Tracks.start).not_mixed (Template.mixed_iff_visits.1 hmixed)
  · rw [render_eq_error_iff_renderFrom] at h
    exact Template.mixed_iff_visits.2 (mixed_of_renderFrom Cursor.Tracks.start h)
  · rintro before field first @⟨after, selector, second, rfl, horder, hsingle, hboth⟩
    simp only [render_eq_error_iff_renderFrom]
    cases hbefore : renderFrom options args {} before with
    | error e =>
      refine .inl ⟨e, fun raw he => hsingle ?_, rfl, renderFrom_append_of_error hbefore _⟩
      have hmixed := mixed_of_renderFrom Cursor.Tracks.start (he ▸ hbefore)
      exact hmixed.mono (List.subset_append_left _ _)
    | ok text =>
      obtain ⟨c, hrenders⟩ := exists_renders hbefore
      have htracks : c.Tracks before.visits := hrenders.tracks Cursor.Tracks.start
      refine .inr ⟨text, c, hrenders, ?_⟩
      cases hfirst : Picking.lookUp args first c with
      | error fault =>
        have hvisits := lookUp_append_of_error hfirst (selector :: second)
        rw [← horder] at hvisits
        refine .inl ⟨fault, fun hfault => hsingle ?_, rfl, ?_⟩
        · exact htracks.mixed_of_lookUp (hfault ▸ hfirst)
        · exact hrenders.field_error (Field.render_of_lookUp_error hvisits) after
      | ok result =>
        obtain ⟨ns, d⟩ := result
        -- the cursor has only one kind so far, so it is this selector that clashes with it
        have hclash := (htracks.lookUp hfirst).clashes_iff.2 hboth
        have hvisits := lookUp_of_clashes hfirst hclash second
        rw [← horder] at hvisits
        refine .inr ⟨ns, d, rfl, ?_⟩
        exact hrenders.field_error (Field.render_of_lookUp_error hvisits) after

/-- A number by position, with a layer that it has no use for. -/
def layeredField (raw : String) (width : Selector) : Field where
  raw
  selector := .index 0
  layers := [{ fill := some '*', align := some .center, width := some (.ref width), kind := .brace }]
  element := { type := .decimal }

/-- The width of the layer is not used, and yet it makes the numbering mixed. -/
theorem render_mixed_numbering_layer :
    let mixing : Template Field := [.field (layeredField "0:*^\x7b\x7dm:d" .auto)]
    let told : Template Field := [.field (layeredField "0:*^\x7b1\x7dm:d" (.index 1))]
    compile "\x7b0:*^\x7b\x7dm:d\x7d" = .ok mixing ∧
      compile "\x7b0:*^\x7b1\x7dm:d\x7d" = .ok told ∧
      told.render [.int 7, .int 4] {} = .ok "7" ∧ ¬ told.Mixed ∧
      (∀ raw, told.render [.int 7] {} ≠ .error (.inField raw .mixedNumbering)) ∧
      mixing.Mixed ∧ (∃ before field first, mixing.MixesAt before field first) ∧
      mixing.render [.int 7, .int 4] {} =
        .error (.inField "0:*^\x7b\x7dm:d" .mixedNumbering) := by
  intro mixing told
  have htext : told.render [.int 7, .int 4] {} = .ok "7" := by decide +kernel
  have htold : ¬ told.Mixed := (render_mixed_numbering told _ _).1 _ htext
  have hmixing : mixing.Mixed := ⟨by decide, 0, by decide⟩
  refine ⟨by decide +kernel, by decide +kernel, htext, htold,
    (render_mixed_numbering told [.int 7] {}).2.1 htold, hmixing,
    (render_mixed_numbering mixing [] {}).2.2.1 hmixing, ?_⟩
  have hplace : mixing.MixesAt [] (layeredField "0:*^\x7b\x7dm:d" .auto) [.index 0] := by
    refine ⟨rfl, rfl, ?_, by decide, 0, by decide⟩
    rintro ⟨hauto, -⟩
    exact absurd hauto (by decide)
  rcases (render_mixed_numbering mixing [.int 7, .int 4] {}).2.2.2 _ _ _ hplace with
    ⟨e, -, hbefore, -⟩ | ⟨text, c, hrenders, ⟨fault, -, hfirst, -⟩ | ⟨_, _, -, hrender⟩⟩
  · cases hbefore
  · cases hrenders
    cases hfirst
  · exact hrender

end Stencil
