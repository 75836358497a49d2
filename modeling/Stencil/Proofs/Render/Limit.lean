import Stencil.Proofs.Checked.Container
import Stencil.Proofs.Render.Faults

/-!
# The nesting limit where keys are scalars

A value is measured before anything of it is rendered, and not further than two levels past the
limit. Where no key is a container nothing else is measured, so the limit is exact: a value that
exceeds it is refused at once, and one that keeps it is laid out by its true depth and is refused
for its nesting at no level.

* `Value.ScalarKeys` — values whose keys are scalars.
* `Value.ScalarKeys.admitsKeys` — no key of such a value exceeds a limit.
* `renderValue_nestingTooDeep` — when a value exceeds the limit, and what is known otherwise.
-/

namespace Stencil

/-- No key of a value is a container. -/
def Value.ScalarKeys (v : Value) : Prop :=
  ∀ key, v.HasKey key → key.isContainer = false

/-- A fault that does not tell of a nesting that is too deep. -/
def Fault.NotOfNesting (fault : Fault) : Prop :=
  ∀ limit, fault ≠ .nestingTooDeep limit

theorem Fault.OfScalar.notOfNesting {fault : Fault} (h : fault.OfScalar) : fault.NotOfNesting := by
  rintro limit rfl
  exact h

namespace Value

variable {v w : Value} {k : Nat}

theorem depth_of_isContainer (h : v.isContainer = false) : v.depth = 0 := by
  cases v with
  | list items => cases h
  | map entries => cases h
  | _ => rfl

/-- What a value holds at a level is contained in it. -/
theorem Holds.contains (h : v.Holds k w) : v.Contains w := by
  induction h with
  | here v => exact .self v
  | item hv _ ih => exact .item hv ih
  | entry hv _ ih => exact .value hv ih

theorem Contains.trans {u : Value} (h : v.Contains w) (hw : w.Contains u) : v.Contains u := by
  induction h with
  | self v => exact hw
  | item hv _ ih => exact .item hv (ih hw)
  | value hv _ ih => exact .value hv (ih hw)
  | key hv _ ih => exact .key hv (ih hw)

theorem ScalarKeys.of_contains (h : v.ScalarKeys) (hw : v.Contains w) : w.ScalarKeys :=
  fun key ⟨entries, item, hmap, hkey⟩ => h key ⟨entries, item, hw.trans hmap, hkey⟩

/-- A scalar has no keys. -/
theorem ScalarKeys.scalar (h : v.isContainer = false) : v.ScalarKeys := by
  rintro key ⟨entries, w, hmap, -⟩
  cases hmap <;> cases h

theorem ScalarKeys.list {items : List Value} (h : ∀ v ∈ items, v.ScalarKeys) :
    (list items).ScalarKeys := by
  rintro key ⟨entries, w, hmap, hkey⟩
  cases hmap with
  | item hv hmap => exact h _ hv key ⟨entries, w, hmap, hkey⟩

theorem ScalarKeys.map {entries : List (Value × Value)}
    (h : ∀ key v, (key, v) ∈ entries → key.isContainer = false ∧ v.ScalarKeys) :
    (map entries).ScalarKeys := by
  rintro key ⟨entries', w, hmap, hkey⟩
  cases hmap with
  | self => exact (h key w hkey).1
  | value hv hmap => exact (h _ _ hv).2 key ⟨entries', w, hmap, hkey⟩
  | key hv hmap => exact scalar (h _ _ hv).1 key ⟨entries', w, hmap, hkey⟩

theorem ScalarKeys.admitsKeys (h : v.ScalarKeys) (options : Options) (kind : Fault → Prop) :
    options.AdmitsKeys kind v := by
  intro key hkey hdeep
  rw [depth_of_isContainer (h key hkey)] at hdeep
  exact absurd hdeep (Nat.not_lt_zero _)

/-- Where keys are scalars, a value that has been measured is refused for its nesting at no
level. -/
theorem ScalarKeys.layOut_faultsIn (h : v.ScalarKeys) (hw : v.Holds k w) (options : Options)
    (layers : List (Layer Nat)) (element : Element Nat) :
    FaultsIn Fault.NotOfNesting (w.layOut options (v.frame layers element) k) := by
  rw [layOut_eq_dress options (v.frame layers element) k w hw.add_depth_le]
  refine dress_faultsIn (fun v element => ?_) _ _ w
    ((h.of_contains hw.contains).admitsKeys options _)
  exact (renderScalar_faultsIn v element options).mono fun _ => Fault.OfScalar.notOfNesting

end Value

/-- Where keys are scalars, the measure of a value is its depth cut off two levels past the limit,
and it is counted without leaving the words of the machine. A value is refused for its nesting
exactly if its depth exceeds the limit, before anything of it is laid out. Otherwise the depth that
its layers are matched with is its own, and nothing in it is refused for its nesting at any
level. -/
theorem renderValue_nestingTooDeep {v : Value} (hv : v.ScalarKeys) (options : Options)
    (layers : List (Layer Nat)) (element : Element Nat) :
    v.depthUpTo options.maxDepth = min v.depth (options.maxDepth + 2) ∧
      (v.depth < wordLimit → (Checked.depthUpTo options.maxDepth v : Checked Fault Nat) =
        .ok (min v.depth (options.maxDepth + 2))) ∧
      ((∃ limit, renderValue options layers element v = .error (.nestingTooDeep limit)) ↔
        options.maxDepth < v.depth) ∧
      (options.maxDepth < v.depth →
        Frame.of options layers element v = .error (.nestingTooDeep options.maxDepth)) ∧
      (v.depth ≤ options.maxDepth →
        Frame.of options layers element v = .ok { layers, element, depth := v.depth } ∧
          ∀ k w, v.Holds k w → ∀ limit,
            w.layOut options { layers, element, depth := v.depth } k ≠
              .error (.nestingTooDeep limit)) := by
  have hmeasure := v.depthUpTo_eq_min options.maxDepth
  have hlaidOut : ∀ k w, v.Holds k w → ∀ limit,
      w.layOut options (v.frame layers element) k ≠ .error (.nestingTooDeep limit) :=
    fun k w hw limit h => hv.layOut_faultsIn hw options layers element _ h limit rfl
  have hframe := Frame.of_eq options layers element v
  refine ⟨hmeasure, fun hword => ?_, ⟨?_, fun hdeep => ?_⟩, fun hdeep => ?_, fun hkept => ?_⟩
  · rw [Checked.depthUpTo_eq_ok options.maxDepth v hword, hmeasure]
  · rintro ⟨limit, h⟩
    by_contra hkept
    rw [if_neg hkept] at hframe
    rw [renderValue_eq, hframe] at h
    exact hlaidOut 0 v (.here v) limit h
  · rw [if_pos hdeep] at hframe
    exact ⟨options.maxDepth, by rw [renderValue_eq, hframe]; rfl⟩
  · rw [hframe, if_pos hdeep]
  · rw [hframe, if_neg (Nat.not_lt_of_le hkept)]
    exact ⟨rfl, hlaidOut⟩

/-- A mapping with a list inside a list beside a scalar. -/
def layeredValue : Value :=
  .map [(.text "a", .list [.int 1, .list []]), (.int 2, .text "b")]

theorem renderValue_nestingTooDeep_layered :
    layeredValue.ScalarKeys ∧ layeredValue.depth < wordLimit ∧
      Options.maxDepth { maxDepth := 2 } < layeredValue.depth ∧
      Frame.of { maxDepth := 2 } [] {} layeredValue = .error (.nestingTooDeep 2) ∧
      layeredValue.depth ≤ Options.maxDepth { maxDepth := wordLimit - 1 } ∧
      layeredValue.depthUpTo (wordLimit - 1) = min layeredValue.depth (wordLimit - 1 + 2) ∧
      Frame.of { maxDepth := wordLimit - 1 } [] {} layeredValue =
        .ok { layers := [], element := {}, depth := layeredValue.depth } := by
  have hkeys : layeredValue.ScalarKeys := by
    refine .map fun key v hv => ?_
    simp only [List.mem_cons, List.not_mem_nil, or_false, Prod.mk.injEq] at hv
    rcases hv with ⟨rfl, rfl⟩ | ⟨rfl, rfl⟩
    · refine ⟨rfl, .list fun v hv => ?_⟩
      simp only [List.mem_cons, List.not_mem_nil, or_false] at hv
      rcases hv with rfl | rfl
      · exact .scalar rfl
      · exact .list nofun
    · exact ⟨rfl, .scalar rfl⟩
  have hdepth : layeredValue.depth = 3 := rfl
  have hword : wordLimit = 18446744073709551616 := rfl
  obtain ⟨-, -, -, hrefused, -⟩ := renderValue_nestingTooDeep hkeys { maxDepth := 2 } [] {}
  obtain ⟨hmeasure, -, -, -, hkept⟩ :=
    renderValue_nestingTooDeep hkeys { maxDepth := wordLimit - 1 } [] {}
  have hdeep : Options.maxDepth { maxDepth := 2 } < layeredValue.depth := by decide
  have hfits : layeredValue.depth ≤ Options.maxDepth { maxDepth := wordLimit - 1 } := by
    rw [hdepth]
    dsimp only
    omega
  exact ⟨hkeys, by omega, hdeep, hrefused hdeep, hfits, hmeasure, (hkept hfits).1⟩

end Stencil
