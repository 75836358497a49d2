import Mathlib.Data.List.Dedup
import Mathlib.Data.List.Pairwise
import Stencil.Cache.Recency

/-!
# The two indexes of a cache

The index by key and the index by tick hold the same entries, so a cache is described by its keys in
the order of their last use and by the value of each.

* `find?_stamp`, `find?_get`, `find?_set` — what an operation changes of what is stored.
* `InStep` — both indexes hold the same entries, each key and each tick once.
* `InStep.order_stamp`, `InStep.order_evict` — a use brings its key to the front, and what is too
  much falls off the end.
* `Tracks` — a cache holds the first of a list of keys, as many as it has room for; `get_hit`,
  `get_miss`, `set` and `clear` say what each operation does to the list.
-/

namespace Stencil

/-! ## Uses -/

namespace Uses

/-- A tick behind all others goes to the end. -/
theorem insert_eq_append {uses : Uses} {tick : Nat} (key : String)
    (h : ∀ use ∈ uses, use.1 < tick) : uses.insert tick key = uses ++ [(tick, key)] := by
  induction uses with
  | nil => rfl
  | cons use later ih =>
    have huse := h use List.mem_cons_self
    have hlater := ih fun u hu => h u (List.mem_cons_of_mem _ hu)
    rw [insert, if_neg (by omega), if_neg (by omega), hlater, List.cons_append]

end Uses

namespace Recency

variable {α : Type} {cache : Recency α}

/-! ## Looking up -/

theorem lookup_filter_ne {β : Type} (entries : List (String × β)) {key other : String}
    (h : other ≠ key) : (entries.filter (·.1 != key)).lookup other = entries.lookup other := by
  induction entries with
  | nil => rfl
  | cons entry rest ih =>
    obtain ⟨k, v⟩ := entry
    by_cases hk : k = key
    · have hother : (other == k) = false := by simpa [hk] using h
      rw [List.filter_cons_of_neg (by simpa using hk), ih, List.lookup_cons, hother]
    · rw [List.filter_cons_of_pos (by simpa using hk), List.lookup_cons, List.lookup_cons, ih]

theorem lookup_filter_self {β : Type} (entries : List (String × β)) (key : String) :
    (entries.filter (·.1 != key)).lookup key = none := by
  rw [List.lookup_eq_none_iff]
  intro entry hentry
  have hne := bne_iff_ne.1 (List.mem_filter.1 hentry).2
  rw [bne_iff_ne]
  exact hne.symm

/-- A use changes what is stored under its key only. -/
theorem find?_stamp (cache : Recency α) (key other : String) (value : α) :
    (cache.stamp key value).find? other = if other = key then some value else cache.find? other := by
  rw [find?, find?, entry?, stamp, List.lookup_cons]
  split_ifs with h
  · simp [h]
  · have hother : (other == key) = false := by simpa using h
    simp only [hother, without, lookup_filter_ne _ h]
    rfl

@[simp]
theorem find?_advance (cache : Recency α) (key : String) :
    cache.advance.find? key = cache.find? key :=
  rfl

@[simp]
theorem find?_clear (cache : Recency α) (key : String) : cache.clear.find? key = none :=
  rfl

/-- What a lookup finds is stored. -/
theorem find?_of_get {cache : Recency α} {key : String} {value : α}
    (h : (cache.get key).1 = some value) : cache.find? key = some value := by
  rw [get] at h
  split_ifs at h
  split at h
  · rename_i found hfound
    rw [hfound]
    exact h
  · exact absurd h (by simp)

/-- Looking a key up changes nothing of what is stored. -/
theorem find?_get (cache : Recency α) (key other : String) :
    (cache.get key).2.find? other = cache.find? other := by
  rw [get]
  split_ifs
  · rfl
  · split
    · rename_i value hvalue
      rw [find?_stamp, find?_advance]
      split_ifs with h
      · rw [h, hvalue]
      · rfl
    · rfl

/-- What is left after dropping entries was stored before. -/
theorem find?_evictFrom {uses : Uses} {key : String} {value : α}
    (h : (cache.evictFrom uses).find? key = some value) : cache.find? key = some value := by
  induction uses generalizing cache with
  | nil => exact h
  | cons use later ih =>
    rw [evictFrom] at h
    split_ifs at h
    · have hrest := ih h
      rw [find?, entry?] at hrest
      by_cases hkey : key = use.2
      · rw [hkey] at hrest
        simp only [without, lookup_filter_self] at hrest
        exact absurd hrest (by simp)
      · simp only [without, lookup_filter_ne _ hkey] at hrest
        exact hrest
    · exact h

/-- Storing a key leaves what is stored under others, if it leaves them at all. -/
theorem find?_set {key other : String} {value found : α}
    (h : (cache.set key value).find? other = some found) :
    other = key ∧ found = value ∨ cache.find? other = some found := by
  rw [set] at h
  split_ifs at h
  · exact Or.inr h
  · have hstamp := find?_evictFrom h
    rw [find?_stamp, find?_advance] at hstamp
    split_ifs at hstamp with hkey
    · exact Or.inl ⟨hkey, (Option.some.inj hstamp).symm⟩
    · exact Or.inr hstamp

/-! ## Indexes in step -/

/-- An entry as the index by tick holds it. -/
def useOf (entry : String × Stamped α) : Nat × String :=
  (entry.2.tick, entry.1)

/-- Both indexes hold the same entries, each key once and in the order of the ticks, none of which
the clock has yet to reach. -/
structure InStep (cache : Recency α) : Prop where
  perm : cache.uses.Perm (cache.entries.map useOf)
  keys : (cache.entries.map Prod.fst).Nodup
  sorted : cache.uses.Pairwise (·.1 < ·.1)
  le_clock : ∀ use ∈ cache.uses, use.1 ≤ cache.clock

/-- The stored keys, the most recent first. -/
def order (cache : Recency α) : List String :=
  (cache.uses.map Prod.snd).reverse

namespace InStep

theorem length_uses (h : cache.InStep) : cache.uses.length = cache.entries.length := by
  rw [h.perm.length_eq, List.length_map]

theorem ticks (h : cache.InStep) : (cache.uses.map Prod.fst).Nodup :=
  List.pairwise_map.2 (h.sorted.imp Nat.ne_of_lt)

theorem perm_keys (h : cache.InStep) :
    (cache.uses.map Prod.snd).Perm (cache.entries.map Prod.fst) := by
  have hkeys := h.perm.map Prod.snd
  rwa [List.map_map] at hkeys

theorem nodup_uses (h : cache.InStep) : (cache.uses.map Prod.snd).Nodup :=
  h.perm_keys.nodup_iff.2 h.keys

theorem length_order (h : cache.InStep) : cache.order.length = cache.size := by
  rw [order, List.length_reverse, List.length_map, h.length_uses, size]

theorem mem_order_iff (h : cache.InStep) (key : String) :
    key ∈ cache.order ↔ cache.contains key = true := by
  rw [order, List.mem_reverse, h.perm_keys.mem_iff, contains, find?, Option.isSome_map, entry?,
    List.lookup_isSome_iff, List.mem_map]
  refine exists_congr fun entry => and_congr_right fun _ => ?_
  rw [eq_comm, beq_iff_eq]

theorem mem_uses_of_entry? (h : cache.InStep) {key : String} {entry : Stamped α}
    (hentry : cache.entry? key = some entry) : (entry.tick, key) ∈ cache.uses := by
  obtain ⟨before, after, hsplit, -⟩ := List.lookup_eq_some_iff.1 hentry
  rw [h.perm.mem_iff, hsplit]
  exact List.mem_map.2 ⟨(key, entry), by simp, rfl⟩

/-- The uses of other keys are what is left without the tick of a key. -/
theorem usesWithout_eq (h : cache.InStep) (key : String) :
    cache.usesWithout key = cache.uses.filter (·.2 != key) := by
  rw [usesWithout]
  split
  · rename_i old hold
    have hmem := h.mem_uses_of_entry? hold
    refine List.filter_congr fun use huse => ?_
    rw [Bool.eq_iff_iff, bne_iff_ne, bne_iff_ne, not_iff_not]
    constructor
    · intro htick
      rw [List.inj_on_of_nodup_map h.ticks huse hmem htick]
    · intro hkey
      rw [List.inj_on_of_nodup_map h.nodup_uses huse hmem hkey]
  · rename_i hnone
    symm
    refine List.filter_eq_self.2 fun use huse => ?_
    rw [bne_iff_ne]
    rintro rfl
    have hcontains : cache.contains use.2 = true :=
      (h.mem_order_iff use.2).1 (List.mem_reverse.2 (List.mem_map_of_mem huse))
    rw [contains, find?, hnone] at hcontains
    simp at hcontains

/-! ## Operations -/

theorem filter_perm (h : cache.InStep) (key : String) :
    (cache.uses.filter (·.2 != key)).Perm ((cache.without key).map useOf) := by
  have hfilter := h.perm.filter (·.2 != key)
  rwa [List.filter_map] at hfilter

theorem advance (h : cache.InStep) : cache.advance.InStep :=
  ⟨h.perm, h.keys, h.sorted, fun use huse => Nat.le_succ_of_le (h.le_clock use huse)⟩

/-- A use at a tick behind all others. -/
theorem uses_stamp (h : cache.InStep) (hclock : ∀ use ∈ cache.uses, use.1 < cache.clock)
    (key : String) (value : α) :
    (cache.stamp key value).uses = cache.uses.filter (·.2 != key) ++ [(cache.clock, key)] := by
  rw [Recency.stamp, h.usesWithout_eq]
  exact Uses.insert_eq_append key fun use huse => hclock use (List.mem_of_mem_filter huse)

theorem stamp (h : cache.InStep) (hclock : ∀ use ∈ cache.uses, use.1 < cache.clock)
    (key : String) (value : α) : (cache.stamp key value).InStep := by
  have huses := h.uses_stamp hclock key value
  refine ⟨?_, ?_, ?_, ?_⟩
  · rw [huses]
    exact (List.perm_append_singleton _ _).trans ((h.filter_perm key).cons _)
  · refine List.nodup_cons.2 ⟨?_, h.keys.sublist (List.filter_sublist.map _)⟩
    rintro hmem
    obtain ⟨entry, hentry, hkey⟩ := List.mem_map.1 hmem
    have hne := (List.mem_filter.1 hentry).2
    simp [hkey] at hne
  · rw [huses, List.pairwise_append]
    refine ⟨h.sorted.sublist List.filter_sublist, List.pairwise_singleton _ _, ?_⟩
    intro use huse last hlast
    rw [List.mem_singleton.1 hlast]
    exact hclock use (List.mem_of_mem_filter huse)
  · rw [huses]
    intro use huse
    rcases List.mem_append.1 huse with huse | huse
    · exact h.le_clock use (List.mem_of_mem_filter huse)
    · rw [List.mem_singleton.1 huse]
      exact Nat.le_refl _

/-- Only the latest uses are left, as many as there is room for. -/
theorem evictFrom (cache : Recency α) {uses : Uses} (h : InStep { cache with uses := uses }) :
    (cache.evictFrom uses).InStep ∧
      (cache.evictFrom uses).uses = uses.drop (uses.length - cache.capacity) := by
  induction uses generalizing cache with
  | nil => exact ⟨h, List.drop_nil.symm⟩
  | cons use later ih =>
    have hlength := h.length_uses
    rw [Recency.evictFrom]
    simp only [List.length_cons] at hlength ⊢
    split_ifs with hfull
    · have hkeys := (List.nodup_cons.1 h.nodup_uses).1
      have hlater : later.filter (·.2 != use.2) = later := by
        refine List.filter_eq_self.2 fun u hu => bne_iff_ne.2 ?_
        intro heq
        exact hkeys (heq ▸ List.mem_map_of_mem hu)
      have hperm := h.filter_perm use.2
      rw [List.filter_cons_of_neg (by simp), hlater] at hperm
      obtain ⟨hrest, huses⟩ := ih { cache with entries := cache.without use.2 }
        ⟨hperm, h.keys.sublist (List.filter_sublist.map _), (List.pairwise_cons.1 h.sorted).2,
          fun u hu => h.le_clock u (List.mem_cons_of_mem _ hu)⟩
      refine ⟨hrest, huses.trans ?_⟩
      have hdrop : later.length + 1 - cache.capacity = later.length - cache.capacity + 1 := by
        omega
      rw [hdrop, List.drop_succ_cons]
    · have hall : later.length + 1 - cache.capacity = 0 := by omega
      rw [hall, List.drop_zero]
      exact ⟨h, rfl⟩

theorem evict (h : cache.InStep) : cache.evict.InStep :=
  (evictFrom cache h).1

theorem clear (cache : Recency α) : cache.clear.InStep :=
  ⟨List.Perm.nil, List.nodup_nil, List.Pairwise.nil, fun _ huse => absurd huse List.not_mem_nil⟩

/-! ## Order -/

/-- A use brings its key to the front. -/
theorem order_stamp (h : cache.InStep) (hclock : ∀ use ∈ cache.uses, use.1 < cache.clock)
    (key : String) (value : α) :
    (cache.stamp key value).order = key :: cache.order.filter (· != key) := by
  rw [order, h.uses_stamp hclock, List.map_append, List.reverse_append, order, List.filter_reverse,
    List.filter_map]
  rfl

/-- What is too much falls off the end. -/
theorem order_evict (h : cache.InStep) :
    cache.evict.order = cache.order.take cache.capacity := by
  have huses := (evictFrom cache h).2
  rw [order, Recency.evict, huses, order, List.take_reverse, List.length_map, List.map_drop]

/-- The clock that is one tick ahead is behind all uses. -/
theorem lt_clock_advance (h : cache.InStep) :
    ∀ use ∈ cache.advance.uses, use.1 < cache.advance.clock :=
  fun use huse => Nat.lt_succ_of_le (h.le_clock use huse)

end InStep

/-! ## Settings -/

@[simp]
theorem capacity_evictFrom (cache : Recency α) (uses : Uses) :
    (cache.evictFrom uses).capacity = cache.capacity := by
  induction uses generalizing cache with
  | nil => rfl
  | cons use later ih =>
    rw [evictFrom]
    split_ifs
    · exact ih _
    · rfl

@[simp]
theorem maxKeyBytes_evictFrom (cache : Recency α) (uses : Uses) :
    (cache.evictFrom uses).maxKeyBytes = cache.maxKeyBytes := by
  induction uses generalizing cache with
  | nil => rfl
  | cons use later ih =>
    rw [evictFrom]
    split_ifs
    · exact ih _
    · rfl

theorem clock_evictFrom (cache : Recency α) (uses : Uses) :
    (cache.evictFrom uses).clock = cache.clock := by
  induction uses generalizing cache with
  | nil => rfl
  | cons use later ih =>
    rw [evictFrom]
    split_ifs
    · exact ih _
    · rfl

theorem capacity_get (cache : Recency α) (key : String) :
    (cache.get key).2.capacity = cache.capacity := by
  rw [get]
  split_ifs
  · rfl
  · split <;> rfl

theorem maxKeyBytes_get (cache : Recency α) (key : String) :
    (cache.get key).2.maxKeyBytes = cache.maxKeyBytes := by
  rw [get]
  split_ifs
  · rfl
  · split <;> rfl

theorem capacity_set (cache : Recency α) (key : String) (value : α) :
    (cache.set key value).capacity = cache.capacity := by
  rw [set]
  split_ifs
  · rfl
  · exact capacity_evictFrom _ _

theorem maxKeyBytes_set (cache : Recency α) (key : String) (value : α) :
    (cache.set key value).maxKeyBytes = cache.maxKeyBytes := by
  rw [set]
  split_ifs
  · rfl
  · exact maxKeyBytes_evictFrom _ _

/-- An operation takes one tick of the clock at most. -/
theorem clock_get_le (cache : Recency α) (key : String) :
    (cache.get key).2.clock ≤ cache.clock + 1 := by
  rw [get]
  split_ifs
  · exact Nat.le_succ _
  · split <;> exact Nat.le_refl _

theorem clock_set_le (cache : Recency α) (key : String) (value : α) :
    (cache.set key value).clock ≤ cache.clock + 1 := by
  rw [set]
  split_ifs
  · exact Nat.le_succ _
  · rw [evict, clock_evictFrom]
    exact Nat.le_refl _

/-! ## Keys in order of use -/

theorem take_filter_take {keys : List String} (h : keys.Nodup) (key : String) (n : Nat) :
    ((keys.take (n + 1)).filter (· != key)).take n = (keys.filter (· != key)).take n := by
  induction keys generalizing n with
  | nil => rfl
  | cons k rest ih =>
    obtain ⟨hk, hrest⟩ := List.nodup_cons.1 h
    rw [List.take_succ_cons]
    by_cases hkey : k = key
    · have hall : rest.filter (· != key) = rest := by
        refine List.filter_eq_self.2 fun k' hk' => bne_iff_ne.2 ?_
        rintro rfl
        exact hk (hkey ▸ hk')
      have htake : (rest.take n).filter (· != key) = rest.take n := by
        refine List.filter_eq_self.2 fun k' hk' => bne_iff_ne.2 ?_
        rintro rfl
        exact hk (hkey ▸ List.mem_of_mem_take hk')
      rw [List.filter_cons_of_neg (by simpa using hkey), List.filter_cons_of_neg (by simpa using hkey),
        hall, htake, List.take_take, Nat.min_self]
    · rw [List.filter_cons_of_pos (by simpa using hkey), List.filter_cons_of_pos (by simpa using hkey)]
      cases n with
      | zero => rfl
      | succ n => rw [List.take_succ_cons, List.take_succ_cons, ih hrest]

/-- A key brought to the front of the first keys is brought to the front of all. -/
theorem take_front {keys : List String} (h : keys.Nodup) (key : String) (n : Nat) :
    (key :: (keys.take n).filter (· != key)).take n = (key :: keys.filter (· != key)).take n := by
  cases n with
  | zero => rfl
  | succ n => rw [List.take_succ_cons, List.take_succ_cons, take_filter_take h]

theorem nodup_front {keys : List String} (h : keys.Nodup) (key : String) :
    (key :: keys.filter (· != key)).Nodup :=
  List.nodup_cons.2 ⟨fun hmem => by simpa using (List.mem_filter.1 hmem).2, h.filter _⟩

theorem eraseDups_filter (p : String → Bool) :
    ∀ keys : List String, (keys.filter p).eraseDups = keys.eraseDups.filter p
  | [] => rfl
  | key :: rest => by
    have hrest := eraseDups_filter p (rest.filter fun k => !k == key)
    rw [List.eraseDups_cons]
    by_cases hp : p key = true
    · rw [List.filter_cons_of_pos hp, List.filter_cons_of_pos hp, List.eraseDups_cons, ← hrest,
        List.filter_comm]
    · have hsame : (rest.filter fun k => !k == key).filter p = rest.filter p := by
        rw [List.filter_filter]
        refine List.filter_congr fun k _ => ?_
        by_cases hk : k = key
        · simp [hk, hp]
        · simp [hk]
      rw [List.filter_cons_of_neg hp, List.filter_cons_of_neg hp, ← hrest, hsame]
termination_by keys => keys.length
decreasing_by
  rw [List.length_cons]
  exact Nat.lt_succ_of_le (List.length_filter_le _ _)

/-- A key in front of others stays, and goes wherever it comes again. -/
theorem eraseDups_cons (key : String) (keys : List String) :
    (key :: keys).eraseDups = key :: keys.eraseDups.filter (· != key) := by
  rw [List.eraseDups_cons]
  exact congrArg (key :: ·) (eraseDups_filter _ keys)

theorem nodup_eraseDups (keys : List String) : keys.eraseDups.Nodup := by
  induction keys with
  | nil => exact List.nodup_nil
  | cons key rest ih =>
    rw [eraseDups_cons]
    exact nodup_front ih key

/-- The cache holds the first of these keys, as many as it has room for, each with its value. -/
structure Tracks (cache : Recency α) (keys : List String) (value : String → Option α) : Prop where
  inStep : cache.InStep
  nodup : keys.Nodup
  fits : ∀ key ∈ keys, cache.bypasses key = false
  order_eq : cache.order = keys.take cache.capacity
  find?_eq : ∀ key ∈ cache.order, cache.find? key = value key

namespace Tracks

variable {keys : List String} {value : String → Option α}

theorem contains_iff (h : cache.Tracks keys value) (key : String) :
    cache.contains key = true ↔ key ∈ keys.take cache.capacity := by
  rw [← h.inStep.mem_order_iff, h.order_eq]

/-- What the cache holds under a key. -/
theorem find?_eq_ite (h : cache.Tracks keys value) (key : String) :
    cache.find? key = if key ∈ keys.take cache.capacity then value key else none := by
  split_ifs with hkey
  · exact h.find?_eq key (by rwa [h.order_eq])
  · rw [← h.contains_iff, contains, Bool.not_eq_true, Option.isSome_eq_false_iff] at hkey
    exact Option.isNone_iff_eq_none.1 hkey

theorem fits_of_find? (h : cache.Tracks keys value) {key : String} {found : α}
    (hfound : cache.find? key = some found) : cache.bypasses key = false := by
  have hkey := (h.contains_iff key).1 (by rw [contains, hfound]; rfl)
  exact h.fits key (List.mem_of_mem_take hkey)

theorem clear (cache : Recency α) (value : String → Option α) : cache.clear.Tracks [] value :=
  ⟨InStep.clear cache, List.nodup_nil, fun _ hkey => absurd hkey List.not_mem_nil,
    by rw [List.take_nil]; rfl, fun _ hkey => absurd hkey List.not_mem_nil⟩

theorem fits_front (h : cache.Tracks keys value) {key : String}
    (hfits : cache.bypasses key = false) :
    ∀ k ∈ key :: keys.filter (· != key), cache.bypasses k = false := by
  intro k hk
  rcases List.mem_cons.1 hk with rfl | hk
  · exact hfits
  · exact h.fits k (List.mem_of_mem_filter hk)

theorem advance (h : cache.Tracks keys value) : cache.advance.Tracks keys value :=
  ⟨h.inStep.advance, h.nodup, h.fits, h.order_eq, h.find?_eq⟩

/-- A key that is not stored is looked up in vain, and nothing moves. -/
theorem get_miss (h : cache.Tracks keys value) {key : String} (hnone : cache.find? key = none) :
    (cache.get key).1 = none ∧ (cache.get key).2.Tracks keys value := by
  rw [Recency.get]
  split_ifs
  · exact ⟨rfl, h⟩
  · rw [hnone]
    exact ⟨rfl, h.advance⟩

/-- A key that is stored comes to the front. -/
theorem get_hit (h : cache.Tracks keys value) {key : String} {found : α}
    (hfound : cache.find? key = some found) :
    (cache.get key).1 = some found ∧
      (cache.get key).2.Tracks (key :: keys.filter (· != key)) value := by
  have hfits := h.fits_of_find? hfound
  have hclock := h.inStep.lt_clock_advance
  have hmem := (h.contains_iff key).1 (by rw [contains, hfound]; rfl)
  rw [Recency.get, if_neg (by simp [hfits]), hfound]
  refine ⟨rfl, h.inStep.advance.stamp hclock key found, nodup_front h.nodup key,
    h.fits_front hfits, ?_, ?_⟩
  · have hlength : (key :: (keys.take cache.capacity).filter (· != key)).length ≤ cache.capacity := by
      have herase := (h.nodup.sublist (List.take_sublist cache.capacity keys)).erase_eq_filter key
      have hlen := List.length_erase_add_one hmem
      rw [herase, List.length_take] at hlen
      rw [List.length_cons, hlen]
      exact Nat.min_le_left _ _
    rw [h.inStep.advance.order_stamp hclock]
    show key :: cache.order.filter (· != key) =
      (key :: keys.filter (· != key)).take cache.capacity
    rw [h.order_eq, ← take_front h.nodup, List.take_of_length_le hlength]
  · intro k hk
    rw [h.inStep.advance.order_stamp hclock] at hk
    rw [find?_stamp, find?_advance]
    split_ifs with hkey
    · rw [hkey, ← hfound, h.find?_eq key (by rwa [h.order_eq])]
    · rcases List.mem_cons.1 hk with hk | hk
      · exact absurd hk hkey
      · exact h.find?_eq k (List.mem_of_mem_filter hk)

/-- A key that is set comes to the front with its new value. -/
theorem set (h : cache.Tracks keys value) {key : String} (hfits : cache.bypasses key = false)
    (new : α) :
    (cache.set key new).Tracks (key :: keys.filter (· != key))
      (Function.update value key (some new)) := by
  have hclock := h.inStep.lt_clock_advance
  have hstamp := h.inStep.advance.stamp hclock key new
  have hnodup := nodup_front h.nodup key
  by_cases hroom : cache.capacity = 0
  · have hsame : cache.set key new = cache := if_pos (Or.inl hroom)
    have hempty : cache.order = [] := by rw [h.order_eq, hroom, List.take_zero]
    rw [hsame]
    refine ⟨h.inStep, hnodup, h.fits_front hfits, by rw [hempty, hroom, List.take_zero], ?_⟩
    intro k hk
    rw [hempty] at hk
    exact absurd hk List.not_mem_nil
  · have hset : cache.set key new = (cache.advance.stamp key new).evict :=
      if_neg (by simp [hroom, hfits])
    have horder := hstamp.order_evict
    rw [h.inStep.advance.order_stamp hclock] at horder
    rw [hset]
    refine ⟨hstamp.evict, hnodup, ?_, ?_, ?_⟩
    · intro k hk
      rw [bypasses, evict, maxKeyBytes_evictFrom]
      exact h.fits_front hfits k hk
    · rw [horder, evict, capacity_evictFrom]
      show (key :: cache.order.filter (· != key)).take cache.capacity = _
      rw [h.order_eq, take_front h.nodup]
      rfl
    · intro k hk
      have hstored := (hstamp.evict.mem_order_iff k).1 hk
      obtain ⟨found, hfound⟩ := Option.isSome_iff_exists.1 hstored
      rw [horder] at hk
      have hbefore := find?_evictFrom hfound
      rw [find?_stamp, find?_advance] at hbefore
      rw [hfound, Function.update_apply]
      split_ifs at hbefore ⊢ with hkey
      · exact hbefore.symm
      · rcases List.mem_cons.1 (List.mem_of_mem_take hk) with hk | hk
        · exact absurd hk hkey
        · rw [← hbefore]
          exact h.find?_eq k (List.mem_of_mem_filter hk)

/-- A key that is too long is not stored, whatever its value would be. -/
theorem set_long (h : cache.Tracks keys value) {key : String} (hlong : cache.bypasses key = true)
    (new : α) :
    (cache.set key new).Tracks keys (Function.update value key (some new)) := by
  have hsame : cache.set key new = cache := if_pos (Or.inr hlong)
  rw [hsame]
  refine ⟨h.inStep, h.nodup, h.fits, h.order_eq, fun k hk => ?_⟩
  have hne : k ≠ key := by
    rintro rfl
    have hshort := h.fits k (List.mem_of_mem_take (h.order_eq ▸ hk))
    rw [hlong] at hshort
    exact absurd hshort (by simp)
  rw [Function.update_of_ne hne]
  exact h.find?_eq k hk

end Tracks

end Recency

end Stencil
