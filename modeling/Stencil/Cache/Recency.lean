/-!
# A bounded cache by recency

The cache keeps the entries that were used last. Looking up a stored key and storing a key both make
it the most recent; when there are more entries than the capacity, the least recent goes. Keys
above a length in bytes pass the cache by.

A clock gives every use a tick of its own. Two indexes are kept in step: by key, the value with the
tick of its last use; and by tick, the key that was used then, so that the least recent key is the
first of them.

* `Stamped` — a value with the tick of its last use.
* `Uses` — the index by tick.
* `Recency` — the cache.
* `get`, `set`, `clear` — the operations.
* `contains`, `size`, `isEmpty` — what is stored.
-/

namespace Stencil

/-- A value with the tick of its last use. -/
structure Stamped (α : Type) where
  value : α
  tick : Nat
  deriving Repr

/-- The keys by the tick of their last use, earliest first. -/
abbrev Uses := List (Nat × String)

namespace Uses

/-- The uses with one more; it replaces a use of the same tick. -/
def insert (tick : Nat) (key : String) : Uses → Uses
  | [] => [(tick, key)]
  | use :: later =>
    if tick < use.1 then (tick, key) :: use :: later
    else if tick = use.1 then (tick, key) :: later
    else use :: insert tick key later

/-- The uses of all other ticks. -/
def erase (tick : Nat) (uses : Uses) : Uses :=
  uses.filter (·.1 != tick)

end Uses

/-- A cache of bounded size. -/
structure Recency (α : Type) where
  capacity : Nat
  /-- Keys with more bytes are neither stored nor looked up. -/
  maxKeyBytes : Option Nat := none
  /-- What is stored, by key. -/
  entries : List (String × Stamped α) := []
  /-- The stored keys, by the tick of their last use. -/
  uses : Uses := []
  clock : Nat := 0

namespace Recency

variable {α : Type}

/-- Whether a key is too long for the cache. -/
def bypasses (cache : Recency α) (key : String) : Bool :=
  cache.maxKeyBytes.any (· < key.utf8ByteSize)

/-- The entry of a key. -/
def entry? (cache : Recency α) (key : String) : Option (Stamped α) :=
  cache.entries.lookup key

/-- What is stored under a key. -/
def find? (cache : Recency α) (key : String) : Option α :=
  (cache.entry? key).map Stamped.value

/-- The entries of all other keys. -/
def without (cache : Recency α) (key : String) : List (String × Stamped α) :=
  cache.entries.filter (·.1 != key)

/-- The uses of all other keys, if the indexes are in step. -/
def usesWithout (cache : Recency α) (key : String) : Uses :=
  match cache.entry? key with
  | some old => cache.uses.erase old.tick
  | none => cache.uses

/-- The cache one tick later. -/
def advance (cache : Recency α) : Recency α :=
  { cache with clock := cache.clock + 1 }

/-- The cache with a value under a key, used at the tick of the clock. -/
def stamp (cache : Recency α) (key : String) (value : α) : Recency α :=
  { cache with
    entries := (key, ⟨value, cache.clock⟩) :: cache.without key
    uses := (cache.usesWithout key).insert cache.clock key }

/-- The cache with the given uses, the least recent of them dropped with their entries as long as
there are more entries than the capacity. -/
def evictFrom (cache : Recency α) : Uses → Recency α
  | [] => { cache with uses := [] }
  | use :: later =>
    if cache.capacity < cache.entries.length then
      evictFrom { cache with entries := cache.without use.2 } later
    else { cache with uses := use :: later }

/-- The cache without the entries that are too many. -/
def evict (cache : Recency α) : Recency α :=
  cache.evictFrom cache.uses

/-- The value of a key, which becomes the most recent; a key that is not stored takes nothing but a
tick of the clock. -/
def get (cache : Recency α) (key : String) : Option α × Recency α :=
  if cache.bypasses key then (none, cache)
  else
    match cache.find? key with
    | some value => (some value, cache.advance.stamp key value)
    | none => (none, cache.advance)

/-- The cache with a value under a key, which becomes the most recent. -/
def set (cache : Recency α) (key : String) (value : α) : Recency α :=
  if cache.capacity = 0 ∨ cache.bypasses key then cache
  else (cache.advance.stamp key value).evict

/-- Whether a key is stored; this is not a use. -/
def contains (cache : Recency α) (key : String) : Bool :=
  (cache.find? key).isSome

/-- The number of stored keys. -/
def size (cache : Recency α) : Nat :=
  cache.entries.length

/-- Whether nothing is stored. -/
def isEmpty (cache : Recency α) : Bool :=
  cache.entries.isEmpty

/-- The cache without entries; the clock goes on. -/
def clear (cache : Recency α) : Recency α :=
  { cache with entries := [], uses := [] }

end Recency

end Stencil
