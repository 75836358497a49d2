import Stencil.Cache.Call
import Stencil.Proofs.Cache.Indexes

/-!
# Caches that do not show

Whatever was asked for before, a call answers as it would if nothing were kept: the same structure,
text or failure, though perhaps another copy of it.

* `Content`, `Reply.content` — what a reply says, apart from which copy of a structure it is.
* `Call.uncached` — what a call answers where nothing is kept.
* `Faithful` — everything that is kept is what reading its key would give.
* `perform_transparent` — after any history of calls, each call answers as it would without caches.
-/

namespace Stencil

/-! ## Content -/

/-- What a reply says, apart from which copy of a structure it is. -/
inductive Content where
  | template (result : Except FormatError (Template Field))
  | field (result : Except FormatError Field)
  | text (result : Except FormatError String)
  | done

/-- The content of a reply. -/
def Reply.content : Reply → Content
  | template result => .template (result.map fun shared => Store.unshare shared.content)
  | field result => .field (result.map Shared.content)
  | text result => .text result
  | done => .done

/-- What a call answers where nothing is kept. -/
def Call.uncached : Call → Content
  | compile template => .template (Stencil.compile template)
  | field raw => .field (parseField raw)
  | format template args => .text (Stencil.format template args)
  | formatWith template args options => .text (Stencil.formatWith template args options)
  | render template args options => .text (Template.render template args options)
  | clear => .done

namespace Store

/-! ## What is kept -/

/-- Everything that is kept is what reading its key gives. -/
structure Faithful (store : Store) : Prop where
  fields : ∀ raw shared, store.fields.find? raw = some shared →
    parseField raw = .ok shared.content
  templates : ∀ template shared, store.templates.find? template = some shared →
    Stencil.compile template = .ok (unshare shared.content)

theorem faithful_clear (store : Store) : store.clear.Faithful :=
  ⟨fun raw _ h => absurd h (by simp [Store.clear]),
    fun template _ h => absurd h (by simp [Store.clear])⟩

theorem faithful_empty : Faithful {} :=
  faithful_clear {}

variable {store : Store}

/-! ## Fields -/

theorem fields_get_faithful (h : store.Faithful) (raw key : String) (shared : Shared Field)
    (hfind : (store.fields.get raw).2.find? key = some shared) :
    parseField key = .ok shared.content := by
  rw [Recency.find?_get] at hfind
  exact h.fields key shared hfind

/-- A field is what its text gives, and what is kept stays faithful. -/
theorem field_faithful (h : store.Faithful) (raw : String) :
    (store.field raw).1.map Shared.content = parseField raw ∧ (store.field raw).2.Faithful := by
  have hlooked := fields_get_faithful h raw
  rw [field]
  split
  · rename_i shared fields hget
    have hfound := Recency.find?_of_get (congrArg Prod.fst hget)
    rw [hget] at hlooked
    exact ⟨(h.fields raw shared hfound).symm, hlooked, h.templates⟩
  · rename_i fields hget
    rw [hget] at hlooked
    split
    · rename_i content hparse
      refine ⟨hparse.symm, ?_, h.templates⟩
      intro key shared hfind
      rcases Recency.find?_set hfind with ⟨rfl, rfl⟩ | hkept
      · exact hparse
      · exact hlooked key shared hkept
    · rename_i e hparse
      exact ⟨hparse.symm, hlooked, h.templates⟩

/-! ## Templates -/

/-- Segments are read in order up to the first failure, with the caches or without. -/
theorem segments_faithful (h : store.Faithful) (tokens : List Token) :
    (store.segments tokens).1.map unshare = tokens.mapM compileToken ∧
      (store.segments tokens).2.Faithful := by
  induction tokens generalizing store with
  | nil => exact ⟨rfl, h⟩
  | cons token rest ih =>
    rw [List.mapM_cons]
    cases token with
    | literal text =>
      obtain ⟨hrest, hkept⟩ := ih h
      refine ⟨?_, hkept⟩
      rw [segments, ← hrest, compileToken]
      rcases store.segments rest with ⟨result, next⟩
      cases result <;> rfl
    | field text =>
      obtain ⟨hfield, hnext⟩ := field_faithful h (String.ofList text)
      rw [segments, compileToken, ← hfield]
      split
      · rename_i shared next heq
        rw [heq] at hnext ⊢
        obtain ⟨hrest, hkept⟩ := ih hnext
        refine ⟨?_, hkept⟩
        rw [← hrest]
        rcases next.segments rest with ⟨result, last⟩
        cases result <;> rfl
      · rename_i e next heq
        rw [heq] at hnext ⊢
        exact ⟨rfl, hnext⟩

/-- A compiled template is what its text gives, and what is kept stays faithful. -/
theorem compile_faithful (h : store.Faithful) (template : String) :
    (store.compile template).1.map (fun shared => unshare shared.content) =
        Stencil.compile template ∧
      (store.compile template).2.Faithful := by
  rw [compile]
  split
  · rename_i shared templates hget
    have hfound := Recency.find?_of_get (congrArg Prod.fst hget)
    refine ⟨(h.templates template shared hfound).symm, h.fields, ?_⟩
    intro key other hfind
    have hsame := Recency.find?_get store.templates template key
    rw [hget] at hsame
    exact h.templates key other (hsame ▸ hfind)
  · rename_i templates hget
    have hlooked : Faithful { store with templates } := by
      refine ⟨h.fields, fun key other hfind => ?_⟩
      have hsame := Recency.find?_get store.templates template key
      rw [hget] at hsame
      exact h.templates key other (hsame ▸ hfind)
    rw [Stencil.compile]
    dsimp only
    cases htokens : tokenize template with
    | error e => exact ⟨rfl, hlooked⟩
    | ok tokens =>
      obtain ⟨hsegments, hkept⟩ := segments_faithful hlooked tokens
      dsimp only
      split
      · rename_i e next heq
        rw [heq] at hsegments hkept
        exact ⟨hsegments, hkept⟩
      · rename_i content next heq
        rw [heq] at hsegments hkept
        refine ⟨hsegments, hkept.fields, ?_⟩
        intro key other hfind
        rcases Recency.find?_set hfind with ⟨rfl, rfl⟩ | hbefore
        · rw [Stencil.compile, htokens]
          exact hsegments.symm
        · exact hkept.templates key other hbefore

/-- A formatted text is what its template gives. -/
theorem formatWith_faithful (h : store.Faithful) (template : String) (args : List Value)
    (options : Options) :
    (store.formatWith template args options).1 = Stencil.formatWith template args options ∧
      (store.formatWith template args options).2.Faithful := by
  obtain ⟨hcompile, hkept⟩ := compile_faithful h template
  rw [formatWith, Stencil.formatWith, ← hcompile]
  split
  · rename_i shared next heq
    rw [heq] at hkept ⊢
    exact ⟨rfl, hkept⟩
  · rename_i e next heq
    rw [heq] at hkept ⊢
    exact ⟨rfl, hkept⟩

/-! ## Calls -/

/-- A call answers as it would without caches, and what is kept stays faithful. -/
theorem perform_faithful (h : store.Faithful) (call : Call) :
    (store.perform call).1.content = call.uncached ∧ (store.perform call).2.Faithful := by
  cases call with
  | compile template =>
    obtain ⟨hcompile, hkept⟩ := compile_faithful h template
    exact ⟨congrArg Content.template hcompile, hkept⟩
  | field raw =>
    obtain ⟨hfield, hkept⟩ := field_faithful h raw
    exact ⟨congrArg Content.field hfield, hkept⟩
  | format template args =>
    obtain ⟨htext, hkept⟩ := formatWith_faithful h template args {}
    exact ⟨congrArg Content.text htext, hkept⟩
  | formatWith template args options =>
    obtain ⟨htext, hkept⟩ := formatWith_faithful h template args options
    exact ⟨congrArg Content.text htext, hkept⟩
  | render template args options => exact ⟨rfl, h⟩
  | clear => exact ⟨rfl, faithful_clear store⟩

theorem after_faithful (h : store.Faithful) (calls : List Call) :
    (store.after calls).Faithful := by
  induction calls generalizing store with
  | nil => exact h
  | cons call rest ih => exact ih (perform_faithful h call).2

/-- After any history of calls, everything that is kept is what reading its key gives, and each call
answers as it does where nothing is kept: as on an empty store, and as without caches. So no call,
whether it fails or not, changes what a later one answers. -/
theorem perform_transparent (history : List Call) (call : Call) :
    let store := Store.after {} history
    (store.perform call).1.content = (perform {} call).1.content ∧
      (store.perform call).1.content = call.uncached ∧
      (∀ raw shared, store.fields.find? raw = some shared →
        parseField raw = .ok shared.content) ∧
      (∀ template shared, store.templates.find? template = some shared →
        Stencil.compile template = .ok (unshare shared.content)) ∧
      ∀ before : Call, ((store.perform before).2.perform call).1.content =
        (store.perform call).1.content := by
  intro store
  have hkept : store.Faithful := after_faithful faithful_empty history
  obtain ⟨hcall, -⟩ := perform_faithful hkept call
  obtain ⟨hempty, -⟩ := perform_faithful faithful_empty call
  refine ⟨hcall.trans hempty.symm, hcall, hkept.fields, hkept.templates, ?_⟩
  intro before
  obtain ⟨hlater, -⟩ := perform_faithful (perform_faithful hkept before).2 call
  exact hlater.trans hcall.symm

end Store

end Stencil
