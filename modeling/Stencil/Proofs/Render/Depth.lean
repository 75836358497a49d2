import Stencil.Proofs.Render.Levels
import Stencil.Proofs.Template.Scanning
import Stencil.Render.Template

/-!
# What the nesting limit bounds

The limit is compared with the depth of a value before the value is laid out. That depth goes
through items of lists and values of entries; a key is a value of its own, and its depth is compared
with the limit anew. So the limit holds for each stretch of containers between two keys, and a chain
of containers grows by one more stretch with every key that it goes through.

* `Value.Chain` — containers inside each other, through items, values and keys.
* `Value.Contains` — what stands anywhere in a value, keys included.
* `depth_le_of_layOut` — where a value is laid out, everything in it keeps the limit by itself.
* `renderValue_chain` — what that means for chains, and that keys let them grow past every bound.
-/

namespace Stencil

namespace Value

/-! ## Chains of containers -/

/-- A chain of containers that starts at a value; each one is an item, a value or a key of the one
before. It goes through so many keys and has so many containers. -/
inductive Chain : Value → Nat → Nat → Prop where
  | single {v : Value} (h : v.isContainer = true) : Chain v 0 1
  | item {items : List Value} {w : Value} {keys length : Nat} (hw : w ∈ items)
      (h : Chain w keys length) : Chain (list items) keys (length + 1)
  | value {entries : List (Value × Value)} {key w : Value} {keys length : Nat}
      (hw : (key, w) ∈ entries) (h : Chain w keys length) : Chain (map entries) keys (length + 1)
  | key {entries : List (Value × Value)} {key w : Value} {keys length : Nat}
      (hw : (key, w) ∈ entries) (h : Chain key keys length) :
      Chain (map entries) (keys + 1) (length + 1)

/-- What stands in a value: the value itself, and what stands in its items, values and keys. -/
inductive Contains : Value → Value → Prop where
  | self (v : Value) : Contains v v
  | item {items : List Value} {v w : Value} (hv : v ∈ items) (h : Contains v w) :
      Contains (list items) w
  | value {entries : List (Value × Value)} {key v w : Value} (hv : (key, v) ∈ entries)
      (h : Contains v w) : Contains (map entries) w
  | key {entries : List (Value × Value)} {key v w : Value} (hv : (key, v) ∈ entries)
      (h : Contains key w) : Contains (map entries) w

/-- If everything in a value keeps a limit by itself, a chain is no longer than the depth of the
value and one more stretch for each key. -/
theorem Chain.length_le {limit : Nat} {v : Value} {keys length : Nat} (hc : v.Chain keys length)
    (h : ∀ w, v.Contains w → w.depth ≤ limit) : length ≤ v.depth + keys * limit := by
  induction hc with
  | single hcontainer =>
    have hpos := depth_pos hcontainer
    omega
  | item hw _ ih =>
    have hlength := ih fun u hu => h u (.item hw hu)
    have hitem := depth_le_itemsDepth hw
    simp only [depth]
    omega
  | value hw _ ih =>
    have hlength := ih fun u hu => h u (.value hw hu)
    have hvalue := depth_le_entriesDepth hw
    simp only [depth]
    omega
  | @key entries key w keys length hw _ ih =>
    -- the stretch that starts at the key is within the limit, and the mapping is one container more
    have hlength := ih fun u hu => h u (.key hw hu)
    have hkey := h key (.key hw (.self key))
    have hsplit : (keys + 1) * limit = keys * limit + limit := Nat.succ_mul keys limit
    simp only [depth]
    omega

/-- A chain that goes through no key counts in the depth. -/
theorem Chain.length_le_depth {v : Value} {length : Nat} (h : v.Chain 0 length) :
    length ≤ v.depth := by
  generalize hkeys : 0 = keys at h
  induction h with
  | single hcontainer => exact depth_pos hcontainer
  | item hw _ ih =>
    have hlength := ih hkeys
    have hitem := depth_le_itemsDepth hw
    simp only [depth]
    omega
  | value hw _ ih =>
    have hlength := ih hkeys
    have hvalue := depth_le_entriesDepth hw
    simp only [depth]
    omega
  | key hw _ ih => cases hkeys

end Value

/-! ## Laying out -/

theorem exists_layOut_of_mem_items {options : Options} {frame : Frame} {level : Nat}
    {items : List Value} {parts : List (List Char)}
    (h : layOutItems options frame level items = .ok parts) {v : Value} (hv : v ∈ items) :
    ∃ text, v.layOut options frame level = .ok text := by
  induction items generalizing parts with
  | nil => cases hv
  | cons w rest ih =>
    rw [layOutItems_cons] at h
    obtain ⟨part, hpart, h⟩ := bind_eq_ok h
    obtain ⟨more, hmore, -⟩ := bind_eq_ok h
    rcases List.mem_cons.1 hv with rfl | hv
    · exact ⟨part, hpart⟩
    · exact ih hmore hv

theorem exists_layOut_of_mem_entries {options : Options} {frame : Frame} {level : Nat}
    {kind : ContainerKind} {entries : List (Value × Value)} {parts : List (List Char)}
    (h : layOutEntries options frame level kind entries = .ok parts) {key v : Value}
    (hv : (key, v) ∈ entries) :
    (∃ own, Frame.ofKey options key = .ok own ∧ ∃ text, key.layOut options own 0 = .ok text) ∧
      ∃ text, v.layOut options frame level = .ok text := by
  induction entries generalizing parts with
  | nil => cases hv
  | cons entry rest ih =>
    obtain ⟨k, w⟩ := entry
    rw [layOutEntries_cons] at h
    obtain ⟨own, hown, h⟩ := bind_eq_ok h
    obtain ⟨text, htext, h⟩ := bind_eq_ok h
    obtain ⟨item, hitem, h⟩ := bind_eq_ok h
    obtain ⟨more, hmore, -⟩ := bind_eq_ok h
    rcases List.mem_cons.1 hv with hv | hv
    · cases hv
      exact ⟨⟨own, hown, text, htext⟩, item, hitem⟩
    · exact ih hmore hv

theorem depth_le_of_frame {options : Options} {layers : List (Layer Nat)} {element : Element Nat}
    {v : Value} {frame : Frame} (h : Frame.of options layers element v = .ok frame) :
    v.depth ≤ options.maxDepth := by
  rw [Frame.of_eq] at h
  split at h
  · cases h
  · omega

/-- Where a value within the limit is laid out, everything in it is within the limit by itself: the
items and values because the value is, each key because it has passed the same comparison. -/
theorem depth_le_of_layOut {options : Options} {v w : Value} (hw : v.Contains w) {frame : Frame}
    {level : Nat} (hdepth : v.depth ≤ options.maxDepth)
    (h : ∃ text, v.layOut options frame level = .ok text) : w.depth ≤ options.maxDepth := by
  induction hw generalizing frame level with
  | self v => exact hdepth
  | item hv _ ih =>
    obtain ⟨text, h⟩ := h
    rw [Value.layOut_list] at h
    obtain ⟨parts, hparts, -⟩ := bind_eq_ok h
    have hitem := Value.depth_le_itemsDepth hv
    rw [Value.depth] at hdepth
    exact ih (by omega) (exists_layOut_of_mem_items hparts hv)
  | value hv _ ih =>
    obtain ⟨text, h⟩ := h
    rw [Value.layOut_map] at h
    obtain ⟨parts, hparts, -⟩ := bind_eq_ok h
    have hvalue := Value.depth_le_entriesDepth hv
    rw [Value.depth] at hdepth
    exact ih (by omega) (exists_layOut_of_mem_entries hparts hv).2
  | key hv _ ih =>
    obtain ⟨text, h⟩ := h
    rw [Value.layOut_map] at h
    obtain ⟨parts, hparts, -⟩ := bind_eq_ok h
    obtain ⟨own, hown, hkey⟩ := (exists_layOut_of_mem_entries hparts hv).1
    exact ih (depth_le_of_frame hown) hkey

theorem depth_le_of_renderValue {options : Options} {layers : List (Layer Nat)}
    {element : Element Nat} {v w : Value} {text : List Char}
    (h : renderValue options layers element v = .ok text) (hw : v.Contains w) :
    w.depth ≤ options.maxDepth := by
  rw [renderValue_eq] at h
  obtain ⟨frame, hframe, h⟩ := bind_eq_ok h
  exact depth_le_of_layOut hw (depth_le_of_frame hframe) ⟨text, h⟩

/-! ## Keys inside keys -/

/-- Mappings inside each other, each the only key of the next one. -/
def keyNest : Nat → Value
  | 0 => .map []
  | n + 1 => .map [(keyNest n, .text "")]

theorem keyNest_chain (n : Nat) : (keyNest n).Chain n (n + 1) := by
  induction n with
  | zero => exact .single rfl
  | succ n ih => exact .key (List.mem_singleton.2 rfl) ih

theorem keyNest_depth (n : Nat) : (keyNest n).depth = 1 := by
  cases n <;> rfl

theorem exists_renderValue_keyNest {options : Options} (h : 1 ≤ options.maxDepth) (n : Nat) :
    ∃ text, renderValue options [] {} (keyNest n) = .ok text := by
  induction n with
  | zero =>
    rw [renderValue_eq, Frame.of_eq, if_neg (by rw [keyNest_depth]; omega)]
    exact ⟨_, rfl⟩
  | succ n ih =>
    obtain ⟨key, hkey⟩ := ih
    rw [renderValue_eq, Frame.of_eq, if_neg (by rw [keyNest_depth]; omega)] at hkey ⊢
    have hown : Frame.ofKey options (keyNest n) = .ok ((keyNest n).frame [] {}) := by
      rw [Frame.ofKey, Frame.of_eq, if_neg (by rw [keyNest_depth]; omega)]
    simp only [bind, Except.bind] at hkey ⊢
    rw [keyNest, Value.layOut_map, layOutEntries_cons, hown]
    simp only [bind, Except.bind, hkey]
    exact ⟨_, rfl⟩

/-! ## Chains that are rendered -/

/-- Where a value is rendered, each chain of containers in it has at most as many as the limit
between two keys, and so at most `keys + 1` times as many in all. A chain without keys that is
longer fails for its depth. But every limit other than zero lets chains through keys grow past any
bound. -/
theorem renderValue_chain (options : Options) :
    (∀ layers element v text, renderValue options layers element v = .ok text →
      (∀ w, v.Contains w → ∀ length, w.Chain 0 length → length ≤ options.maxDepth) ∧
        ∀ keys length, v.Chain keys length → length ≤ (keys + 1) * options.maxDepth) ∧
    (∀ layers element v length, v.Chain 0 length → options.maxDepth < length →
      renderValue options layers element v = .error (.nestingTooDeep options.maxDepth)) ∧
    ∀ n, 1 ≤ options.maxDepth → ∃ v : Value, v.Chain n (n + 1) ∧
      ∃ text, renderValue options [] {} v = .ok text := by
  refine ⟨?_, ?_, ?_⟩
  · intro layers element v text h
    have hlimit : ∀ w, v.Contains w → w.depth ≤ options.maxDepth :=
      fun w hw => depth_le_of_renderValue h hw
    refine ⟨fun w hw length hc => Nat.le_trans hc.length_le_depth (hlimit w hw), ?_⟩
    intro keys length hc
    have hlength := hc.length_le hlimit
    have hself := hlimit v (.self v)
    have hsplit : (keys + 1) * options.maxDepth = keys * options.maxDepth + options.maxDepth :=
      Nat.succ_mul keys options.maxDepth
    omega
  · intro layers element v length hc hlong
    have hdepth := hc.length_le_depth
    rw [renderValue_eq, Frame.of_eq, if_pos (by omega)]
    rfl
  · intro n hlimit
    exact ⟨keyNest n, keyNest_chain n, exists_renderValue_keyNest hlimit n⟩

/-- A mapping whose key is as deep as two levels allow, so that a chain has three containers. -/
def keyedValue : Value :=
  .map [(.list [.list [.int 4]], .list [.int 5])]

/-- Three lists inside each other. -/
def threeLists : Value :=
  .list [.list [.list []]]

theorem renderValue_chain_keyed :
    renderValue { maxDepth := 2 } [] {} keyedValue = .ok "\x7b[[4]]: [5]\x7d".toList ∧
      keyedValue.Chain 1 3 ∧ 3 ≤ (1 + 1) * 2 ∧ threeLists.Chain 0 3 ∧
      renderValue { maxDepth := 2 } [] {} threeLists = .error (.nestingTooDeep 2) := by
  have hrender : renderValue { maxDepth := 2 } [] {} keyedValue =
      .ok "\x7b[[4]]: [5]\x7d".toList := by
    decide +kernel
  have hkeyed : keyedValue.Chain 1 3 :=
    .key (List.mem_singleton.2 rfl) (.item (List.mem_singleton.2 rfl) (.single rfl))
  have hthree : threeLists.Chain 0 3 :=
    .item (List.mem_singleton.2 rfl) (.item (List.mem_singleton.2 rfl) (.single rfl))
  obtain ⟨hbound, hdeep, -⟩ := renderValue_chain { maxDepth := 2 }
  exact ⟨hrender, hkeyed, (hbound _ _ _ _ hrender).2 1 3 hkeyed, hthree,
    hdeep _ _ _ 3 hthree (by decide)⟩

/-- With a limit of one a mapping with a list as its key is formatted, and that is a chain of
two. -/
theorem formatWith_list_key :
    (Value.map [(.list [.int 1], .int 2)]).Chain 1 2 ∧ Options.maxDepth { maxDepth := 1 } < 2 ∧
      formatWith "\x7b\x7d" [.map [(.list [.int 1], .int 2)]] { maxDepth := 1 } =
        .ok "\x7b[1]: 2\x7d" := by
  refine ⟨.key (List.mem_singleton.2 rfl) (.single rfl), Nat.one_lt_two, ?_⟩
  decide +kernel

end Stencil
