import Stencil.Value

/-!
# Nesting of containers

* `Value.depth` — how many containers lie inside each other, through items and values of entries.
* `Value.depthUpTo` — the same, but not counted further than two levels past a limit.
-/

namespace Stencil.Value

mutual

/-- The number of containers inside each other, the value itself included; keys do not count. -/
def depth : Value → Nat
  | list items => 1 + itemsDepth items
  | map entries => 1 + entriesDepth entries
  | _ => 0

/-- The greatest depth among the items of a list. -/
def itemsDepth : List Value → Nat
  | [] => 0
  | v :: rest => max (depth v) (itemsDepth rest)

/-- The greatest depth among the values of entries. -/
def entriesDepth : List (Value × Value) → Nat
  | [] => 0
  | (_, v) :: rest => max (depth v) (entriesDepth rest)

end

mutual

/-- The depth of a value, looking at most `limit + 1` levels below it. -/
def depthUpTo (limit : Nat) : Value → Nat
  | list items => 1 + itemsDepthUpTo limit items
  | map entries => 1 + entriesDepthUpTo limit entries
  | _ => 0

/-- The greatest depth among the items of a list, looking at most `limit` levels below them. -/
def itemsDepthUpTo (limit : Nat) : List Value → Nat
  | [] => 0
  | v :: rest =>
    let here := if limit = 0 then v.isContainer.toNat else depthUpTo (limit - 1) v
    max here (itemsDepthUpTo limit rest)

/-- The greatest depth among the values of entries, looking at most `limit` levels below them. -/
def entriesDepthUpTo (limit : Nat) : List (Value × Value) → Nat
  | [] => 0
  | (_, v) :: rest =>
    let here := if limit = 0 then v.isContainer.toNat else depthUpTo (limit - 1) v
    max here (entriesDepthUpTo limit rest)

end

end Stencil.Value
