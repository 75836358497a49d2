import Mathlib.Data.Finset.Card
import Mathlib.Data.List.Induction
import Stencil.Cache.Call
import Stencil.Proofs.Cache.Indexes

/-!
# Which calls share a structure

A structure is used again as long as its key is among the last that were used. Whether it is can be
told from the calls alone: by how many other keys have been used since.

* `Visit` — one use of a cache: a structure under its key, or the loss of them all.
* `templateVisits`, `fieldVisits`, `visits` — the uses that a call makes of either cache, and those
  of a history.
* `StillKept` — the distance that a key can stand back and still be there.
* `FollowsDistance` — in a list of uses, each gives the structure of the last use of its key if that
  is still kept, and else one that was never seen.
* `sharing_follows_distance` — the uses that any history makes of both caches are such lists.
-/

namespace Stencil

/-! ## Visits -/

/-- One use of a cache, as far as it shows: a structure under its key, or the loss of them all. -/
inductive Visit (α : Type) where
  | use (key : String) (shared : Shared α)
  | clear

namespace Visit

variable {α : Type}

/-- The use that a lookup makes of a cache, which is none if there is no such structure. -/
def ofResult (key : String) : Except FormatError (Shared α) → List (Visit α)
  | .ok shared => [use key shared]
  | .error _ => []

/-- The structure of a use. -/
def shared? : Visit α → Option (Shared α)
  | use _ shared => some shared
  | clear => none

/-- The key of a use, unless it is too long to be kept. -/
def keptKey? : Visit α → Option String
  | use key _ => if key.utf8ByteSize ≤ maxKeptBytes then some key else none
  | clear => none

end Visit

namespace Store

/-- The fields that are looked up for a list of tokens: in order, up to the first that fails. -/
def readVisits (store : Store) : List Token → List (Visit Field)
  | [] => []
  | .literal _ :: rest => store.readVisits rest
  | .field text :: rest =>
    Visit.ofResult (String.ofList text) (store.field (String.ofList text)).1 ++
      match store.field (String.ofList text) with
      | (.ok _, next) => next.readVisits rest
      | (.error _, _) => []

/-- The fields that are looked up to compile a template: none if it is kept, or if it cannot be cut
into tokens. -/
def compileVisits (store : Store) (template : String) : List (Visit Field) :=
  if store.templates.contains template then []
  else
    match tokenize template with
    | .ok tokens => store.readVisits tokens
    | .error _ => []

/-- The use that a call makes of the templates. -/
def templateVisits (store : Store) : Call → List (Visit (Template (Shared Field)))
  | .compile template | .format template _ | .formatWith template _ _ =>
    Visit.ofResult template (store.compile template).1
  | .field _ | .render _ _ _ => []
  | .clear => [.clear]

/-- The uses that a call makes of the fields. -/
def fieldVisits (store : Store) : Call → List (Visit Field)
  | .compile template | .format template _ | .formatWith template _ _ =>
    store.compileVisits template
  | .field raw => Visit.ofResult raw (store.field raw).1
  | .render _ _ _ => []
  | .clear => [.clear]

/-- The uses that a history of calls makes, in order. -/
def visits {α : Type} (ofCall : Store → Call → List (Visit α)) (store : Store) :
    List Call → List (Visit α)
  | [] => []
  | call :: rest => ofCall store call ++ visits ofCall (store.perform call).2 rest

end Store

/-! ## Distance -/

section Distance

variable {α : Type}

/-- The keys of these uses, each once, without those that are too long to be kept. -/
def distinctKeys (since : List (Visit α)) : Finset String :=
  (since.filterMap Visit.keptKey?).toFinset

/-- Whether a key is still kept after these uses of other keys: it is not too long, nothing was
cleared, and the uses are of fewer than `limit` keys. -/
def StillKept (limit : Nat) (key : String) (since : List (Visit α)) : Prop :=
  key.utf8ByteSize ≤ maxKeptBytes ∧ .clear ∉ since ∧ (distinctKeys since).card < limit

/-- The last use of a key, with what came before and after it. -/
structure LastUse (earlier : List (Visit α)) (key : String) (before : List (Visit α))
    (previous : Shared α) (since : List (Visit α)) : Prop where
  split : earlier = before ++ .use key previous :: since
  last : ∀ shared, .use key shared ∉ since

/-- The structure that a use gives, by the uses before it: the one of the last use of the key if and
only if that is still kept, and otherwise none that has been seen before. -/
structure ByDistance (limit : Nat) (earlier : List (Visit α)) (key : String)
    (shared : Shared α) : Prop where
  same_iff : ∀ before previous since, LastUse earlier key before previous since →
    (shared = previous ↔ StillKept limit key since)
  isNew : (∀ before previous since, LastUse earlier key before previous since →
    ¬ StillKept limit key since) → ∀ k other, .use k other ∈ earlier → other.serial ≠ shared.serial

/-- Every use gives a structure by its distance from the last use of its key. -/
def FollowsDistance (limit : Nat) (visits : List (Visit α)) : Prop :=
  ∀ earlier key shared later, visits = earlier ++ .use key shared :: later →
    ByDistance limit earlier key shared

theorem followsDistance_append_singleton {limit : Nat} {visits : List (Visit α)} {visit : Visit α}
    (h : FollowsDistance limit visits)
    (hvisit : ∀ key shared, visit = .use key shared → ByDistance limit visits key shared) :
    FollowsDistance limit (visits ++ [visit]) := by
  intro earlier key shared later heq
  rcases List.eq_nil_or_concat later with rfl | ⟨later, last, rfl⟩
  · obtain ⟨hvisits, hlast⟩ := List.append_inj' heq rfl
    rw [← hvisits]
    exact hvisit key shared (List.cons.inj hlast).1
  · rw [List.concat_eq_append, ← List.cons_append, ← List.append_assoc] at heq
    exact h earlier key shared later (List.append_inj' heq rfl).1

/-! ## Keys by recency -/

/-- The keys that are used since the last clear and not too long to be kept, for uses of which the
latest comes first. -/
def recentKeys : List (Visit α) → List String
  | [] => []
  | .use key _ :: earlier =>
    if key.utf8ByteSize ≤ maxKeptBytes then key :: recentKeys earlier else recentKeys earlier
  | .clear :: _ => []

/-- The structure of the last use of a key, for uses of which the latest comes first. -/
def lastShared (key : String) : List (Visit α) → Option (Shared α)
  | [] => none
  | .use k shared :: earlier => if k = key then some shared else lastShared key earlier
  | .clear :: earlier => lastShared key earlier

theorem recentKeys_eq_filterMap {uses : List (Visit α)} (h : .clear ∉ uses) :
    recentKeys uses = uses.filterMap Visit.keptKey? := by
  induction uses with
  | nil => rfl
  | cons use rest ih =>
    have hrest := ih fun hmem => h (List.mem_cons_of_mem _ hmem)
    cases use with
    | use key shared =>
      rw [recentKeys, List.filterMap_cons, Visit.keptKey?, hrest]
      split_ifs <;> rfl
    | clear => exact absurd List.mem_cons_self h

theorem recentKeys_append {late : List (Visit α)} (h : .clear ∉ late) (early : List (Visit α)) :
    recentKeys (late ++ early) = recentKeys late ++ recentKeys early := by
  induction late with
  | nil => rfl
  | cons use rest ih =>
    have hrest := ih fun hmem => h (List.mem_cons_of_mem _ hmem)
    cases use with
    | use key shared =>
      rw [List.cons_append, recentKeys, recentKeys, hrest]
      split_ifs <;> rfl
    | clear => exact absurd List.mem_cons_self h

/-- Nothing counts that was used before a clear. -/
theorem recentKeys_append_of_clear {late : List (Visit α)} (h : .clear ∈ late)
    (early : List (Visit α)) : recentKeys (late ++ early) = recentKeys late := by
  induction late with
  | nil => exact absurd h List.not_mem_nil
  | cons use rest ih =>
    cases use with
    | use key shared =>
      have hrest := ih ((List.mem_cons.1 h).resolve_left (by simp))
      rw [List.cons_append, recentKeys, recentKeys, hrest]
    | clear => rfl

theorem use_of_mem_recentKeys {key : String} {uses : List (Visit α)} (h : key ∈ recentKeys uses) :
    (∃ shared, .use key shared ∈ uses) ∧ key.utf8ByteSize ≤ maxKeptBytes := by
  induction uses with
  | nil => exact absurd h List.not_mem_nil
  | cons use rest ih =>
    cases use with
    | use k shared =>
      rw [recentKeys] at h
      split_ifs at h with hfits
      · rcases List.mem_cons.1 h with rfl | h
        · exact ⟨⟨shared, List.mem_cons_self⟩, hfits⟩
        · obtain ⟨⟨other, hother⟩, hkey⟩ := ih h
          exact ⟨⟨other, List.mem_cons_of_mem _ hother⟩, hkey⟩
      · obtain ⟨⟨other, hother⟩, hkey⟩ := ih h
        exact ⟨⟨other, List.mem_cons_of_mem _ hother⟩, hkey⟩
    | clear => exact absurd h List.not_mem_nil

theorem lastShared_append {key : String} {late : List (Visit α)}
    (h : ∀ shared, .use key shared ∉ late) (early : List (Visit α)) :
    lastShared key (late ++ early) = lastShared key early := by
  induction late with
  | nil => rfl
  | cons use rest ih =>
    have hrest := ih fun shared hmem => h shared (List.mem_cons_of_mem _ hmem)
    cases use with
    | use k shared =>
      have hne : k ≠ key := by
        rintro rfl
        exact h shared List.mem_cons_self
      rw [List.cons_append, lastShared, if_neg hne, hrest]
    | clear => rw [List.cons_append, lastShared, hrest]

theorem LastUse.lastShared_eq {earlier before since : List (Visit α)} {key : String}
    {previous : Shared α} (h : LastUse earlier key before previous since) :
    lastShared key earlier.reverse = some previous := by
  have hlast : ∀ shared, .use key shared ∉ since.reverse :=
    fun shared hmem => h.last shared (List.mem_reverse.1 hmem)
  rw [h.split, List.reverse_append, List.reverse_cons, List.append_assoc, lastShared_append hlast,
    List.singleton_append, lastShared, if_pos rfl]

/-- A key that has been used has been used last at some time. -/
theorem exists_lastUse {earlier : List (Visit α)} {key : String}
    (h : ∃ shared, .use key shared ∈ earlier) :
    ∃ before previous since, LastUse earlier key before previous since := by
  induction earlier using List.reverseRecOn with
  | nil => exact absurd h (by simp)
  | append_singleton earlier visit ih =>
    by_cases hvisit : ∃ shared, visit = .use key shared
    · obtain ⟨shared, rfl⟩ := hvisit
      exact ⟨earlier, shared, [], rfl, fun _ => List.not_mem_nil⟩
    · obtain ⟨shared, hmem⟩ := h
      rcases List.mem_append.1 hmem with hmem | hmem
      · obtain ⟨before, previous, since, hsplit, hlast⟩ := ih ⟨shared, hmem⟩
        refine ⟨before, previous, since ++ [visit], ?_, ?_⟩
        · rw [hsplit, List.append_assoc, List.cons_append]
        · intro other hother
          rcases List.mem_append.1 hother with hother | hother
          · exact hlast other hother
          · exact hvisit ⟨other, (List.mem_singleton.1 hother).symm⟩
      · exact absurd ⟨shared, (List.mem_singleton.1 hmem).symm⟩ hvisit

theorem exists_lastUse_of_mem {earlier : List (Visit α)} {key : String} {n : Nat}
    (h : key ∈ (recentKeys earlier.reverse).eraseDups.take n) :
    ∃ before previous since, LastUse earlier key before previous since := by
  obtain ⟨⟨shared, huse⟩, -⟩ :=
    use_of_mem_recentKeys (List.mem_eraseDups.1 (List.mem_of_mem_take h))
  exact exists_lastUse ⟨shared, List.mem_reverse.1 huse⟩

/-- A key is among the first of the keys that are left if fewer others come before it. -/
theorem mem_take_eraseDups_iff {front back : List String} {key : String} (h : key ∉ front)
    (n : Nat) :
    key ∈ ((front ++ key :: back).eraseDups).take n ↔ front.eraseDups.length < n := by
  have hfront : key ∉ front.eraseDups := fun hmem => h (List.mem_eraseDups.1 hmem)
  have hcons : (key :: back).removeAll front =
      key :: back.filter fun k => !front.elem k := by
    rw [List.removeAll, List.filter_cons_of_pos (by simpa using h)]
  rw [List.eraseDups_append, hcons, List.eraseDups_cons, List.take_append, List.mem_append,
    or_iff_right fun hmem => hfront (List.mem_of_mem_take hmem)]
  constructor
  · intro hmem
    by_contra hle
    rw [Nat.sub_eq_zero_of_le (Nat.le_of_not_lt hle), List.take_zero] at hmem
    exact absurd hmem List.not_mem_nil
  · intro hlt
    obtain ⟨room, hroom⟩ := Nat.exists_eq_succ_of_ne_zero (Nat.sub_ne_zero_of_lt hlt)
    rw [hroom, List.take_succ_cons]
    exact List.mem_cons_self

/-- A key is among the most recent if its last use is still kept. -/
theorem LastUse.mem_recent_iff {earlier before since : List (Visit α)} {key : String}
    {previous : Shared α} (h : LastUse earlier key before previous since) (limit : Nat) :
    key ∈ (recentKeys earlier.reverse).eraseDups.take limit ↔ StillKept limit key since := by
  have hunused : key ∉ recentKeys since.reverse := by
    intro hmem
    obtain ⟨⟨shared, huse⟩, -⟩ := use_of_mem_recentKeys hmem
    exact h.last shared (List.mem_reverse.1 huse)
  have hsplit : earlier.reverse = since.reverse ++ .use key previous :: before.reverse := by
    rw [h.split, List.reverse_append, List.reverse_cons, List.append_assoc, List.singleton_append]
  by_cases hclear : .clear ∈ since
  · rw [hsplit, recentKeys_append_of_clear (List.mem_reverse.2 hclear)]
    constructor
    · intro hmem
      exact absurd (List.mem_eraseDups.1 (List.mem_of_mem_take hmem)) hunused
    · intro hkept
      exact absurd hclear hkept.2.1
  · have hnoclear : .clear ∉ since.reverse := fun hmem => hclear (List.mem_reverse.1 hmem)
    by_cases hfits : key.utf8ByteSize ≤ maxKeptBytes
    · have hcount : (recentKeys since.reverse).eraseDups.length = (distinctKeys since).card := by
        rw [← List.toFinset_card_of_nodup (Recency.nodup_eraseDups _), distinctKeys,
          recentKeys_eq_filterMap hnoclear]
        congr 1
        ext k
        simp
      rw [hsplit, recentKeys_append hnoclear, recentKeys, if_pos hfits,
        mem_take_eraseDups_iff hunused, hcount, StillKept, and_iff_right hfits,
        and_iff_right hclear]
    · constructor
      · intro hmem
        exact absurd (use_of_mem_recentKeys (List.mem_eraseDups.1 (List.mem_of_mem_take hmem))).2
          hfits
      · intro hkept
        exact absurd hkept.1 hfits

/-! ## One cache -/

/-- A cache is what these uses leave, and the structures among them have numbers below `next`. -/
structure LeftBy (limit : Nat) (cache : Recency (Shared α)) (visits : List (Visit α))
    (next : Nat) : Prop where
  capacity : cache.capacity = limit
  maxKeyBytes : cache.maxKeyBytes = some maxKeptBytes
  tracks : cache.Tracks (recentKeys visits.reverse).eraseDups (lastShared · visits.reverse)
  serial_lt : ∀ key shared, .use key shared ∈ visits → shared.serial < next
  follows : FollowsDistance limit visits

theorem recentKeys_use (key : String) (shared : Shared α) (visits : List (Visit α)) :
    recentKeys (visits ++ [Visit.use key shared]).reverse =
      if key.utf8ByteSize ≤ maxKeptBytes then key :: recentKeys visits.reverse
      else recentKeys visits.reverse := by
  rw [List.reverse_append, List.reverse_singleton, List.singleton_append, recentKeys]

theorem lastShared_use (key : String) (shared : Shared α) (visits : List (Visit α)) :
    (lastShared · (visits ++ [Visit.use key shared]).reverse) =
      Function.update (lastShared · visits.reverse) key (some shared) := by
  funext k
  rw [List.reverse_append, List.reverse_singleton, List.singleton_append, lastShared,
    Function.update_apply]
  simp only [eq_comm]

namespace LeftBy

variable {limit next : Nat} {cache : Recency (Shared α)} {visits : List (Visit α)} {key : String}
  {shared : Shared α}

theorem bypasses_eq_false_iff (h : LeftBy limit cache visits next) :
    cache.bypasses key = false ↔ key.utf8ByteSize ≤ maxKeptBytes := by
  rw [Recency.bypasses, h.maxKeyBytes]
  simp

theorem mono (h : LeftBy limit cache visits next) {next' : Nat} (hle : next ≤ next') :
    LeftBy limit cache visits next' :=
  ⟨h.capacity, h.maxKeyBytes, h.tracks,
    fun k s hmem => Nat.lt_of_lt_of_le (h.serial_lt k s hmem) hle, h.follows⟩

theorem find?_eq (h : LeftBy limit cache visits next) (key : String) :
    cache.find? key =
      if key ∈ (recentKeys visits.reverse).eraseDups.take limit then lastShared key visits.reverse
      else none := by
  rw [h.tracks.find?_eq_ite, h.capacity]

/-- A structure that is found is the one of the last use, which is still kept. -/
theorem byDistance_of_hit (h : LeftBy limit cache visits next)
    (hfind : cache.find? key = some shared) : ByDistance limit visits key shared := by
  rw [h.find?_eq] at hfind
  split_ifs at hfind with hrecent
  refine ⟨?_, ?_⟩
  · intro before previous since hlast
    have hsame := hlast.lastShared_eq
    rw [hfind] at hsame
    exact iff_of_true (Option.some.inj hsame) ((hlast.mem_recent_iff limit).1 hrecent)
  · intro hgone
    obtain ⟨before, previous, since, hlast⟩ := exists_lastUse_of_mem hrecent
    exact absurd ((hlast.mem_recent_iff limit).1 hrecent) (hgone before previous since hlast)

/-- Where nothing is found, the last use is not kept any more, and a structure with a number of its
own is new. -/
theorem byDistance_of_miss (h : LeftBy limit cache visits next) (hfind : cache.find? key = none)
    (hserial : next ≤ shared.serial) : ByDistance limit visits key shared := by
  refine ⟨?_, ?_⟩
  · intro before previous since hlast
    refine iff_of_false ?_ ?_
    · rintro rfl
      have hlt := h.serial_lt key shared (by rw [hlast.split]; simp)
      omega
    · intro hkept
      rw [h.find?_eq, if_pos ((hlast.mem_recent_iff limit).2 hkept), hlast.lastShared_eq] at hfind
      exact absurd hfind (by simp)
  · intro _ k other hmem
    have hlt := h.serial_lt k other hmem
    omega

theorem follows_use (h : LeftBy limit cache visits next)
    (hshared : ByDistance limit visits key shared) :
    FollowsDistance limit (visits ++ [.use key shared]) := by
  refine followsDistance_append_singleton h.follows ?_
  rintro k s heq
  cases heq
  exact hshared

/-- A lookup in vain changes nothing that shows. -/
theorem get_miss (h : LeftBy limit cache visits next) (hfind : cache.find? key = none) :
    (cache.get key).1 = none ∧ LeftBy limit (cache.get key).2 visits next := by
  obtain ⟨hnone, htracks⟩ := h.tracks.get_miss hfind
  exact ⟨hnone, (Recency.capacity_get cache key).trans h.capacity,
    (Recency.maxKeyBytes_get cache key).trans h.maxKeyBytes, htracks, h.serial_lt, h.follows⟩

/-- A lookup that finds a structure uses it. -/
theorem get_hit (h : LeftBy limit cache visits next) (hfind : cache.find? key = some shared) :
    (cache.get key).1 = some shared ∧
      LeftBy limit (cache.get key).2 (visits ++ [.use key shared]) next := by
  obtain ⟨hsome, htracks⟩ := h.tracks.get_hit hfind
  have hfits := h.bypasses_eq_false_iff.1 (h.tracks.fits_of_find? hfind)
  have hlast := hfind
  rw [h.find?_eq] at hlast
  split_ifs at hlast with hrecent
  refine ⟨hsome, (Recency.capacity_get cache key).trans h.capacity,
    (Recency.maxKeyBytes_get cache key).trans h.maxKeyBytes, ?_, ?_,
    h.follows_use (h.byDistance_of_hit hfind)⟩
  · rw [recentKeys_use, if_pos hfits, Recency.eraseDups_cons, lastShared_use, ← hlast,
      Function.update_eq_self]
    exact htracks
  · intro k s hmem
    rcases List.mem_append.1 hmem with hmem | hmem
    · exact h.serial_lt k s hmem
    · cases List.mem_singleton.1 hmem
      obtain ⟨before, previous, since, huse⟩ := exists_lastUse_of_mem hrecent
      have hsame := huse.lastShared_eq
      rw [hlast] at hsame
      cases hsame
      exact h.serial_lt key shared (by rw [huse.split]; simp)

/-- A structure that is stored under a key that was looked up in vain is used there. -/
theorem set (h : LeftBy limit cache visits next) (hfind : cache.find? key = none)
    (shared : Shared α) (hserial : next ≤ shared.serial) :
    LeftBy limit (cache.set key shared) (visits ++ [.use key shared]) (shared.serial + 1) := by
  refine ⟨(Recency.capacity_set cache key shared).trans h.capacity,
    (Recency.maxKeyBytes_set cache key shared).trans h.maxKeyBytes, ?_, ?_,
    h.follows_use (h.byDistance_of_miss hfind hserial)⟩
  · rw [recentKeys_use, lastShared_use]
    split_ifs with hfits
    · rw [Recency.eraseDups_cons]
      exact h.tracks.set (h.bypasses_eq_false_iff.2 hfits) shared
    · have hlong : cache.bypasses key = true := by
        rwa [← h.bypasses_eq_false_iff, Bool.not_eq_false] at hfits
      exact h.tracks.set_long hlong shared
  · intro k s hmem
    rcases List.mem_append.1 hmem with hmem | hmem
    · have hlt := h.serial_lt k s hmem
      omega
    · cases List.mem_singleton.1 hmem
      omega

theorem clear (h : LeftBy limit cache visits next) :
    LeftBy limit cache.clear (visits ++ [.clear]) next := by
  refine ⟨h.capacity, h.maxKeyBytes, ?_, ?_, ?_⟩
  · rw [List.reverse_append, List.reverse_singleton, List.singleton_append, recentKeys]
    exact Recency.Tracks.clear cache _
  · intro k s hmem
    exact h.serial_lt k s ((List.mem_append.1 hmem).resolve_right (by simp))
  · exact followsDistance_append_singleton h.follows (by simp)

theorem empty (limit next : Nat) : LeftBy limit
    ({ capacity := limit, maxKeyBytes := some maxKeptBytes } : Recency (Shared α)) [] next :=
  ⟨rfl, rfl, Recency.Tracks.clear { capacity := limit, maxKeyBytes := some maxKeptBytes } _,
    fun _ _ hmem => absurd hmem List.not_mem_nil, fun _ _ _ _ heq => absurd heq (by simp)⟩

/-- A key is stored if its last use is still kept. -/
theorem contains_iff (h : LeftBy limit cache visits next) (key : String) :
    cache.contains key = true ↔
      ∃ before previous since, LastUse visits key before previous since ∧
        StillKept limit key since := by
  rw [h.tracks.contains_iff, h.capacity]
  constructor
  · intro hrecent
    obtain ⟨before, previous, since, hlast⟩ := exists_lastUse_of_mem hrecent
    exact ⟨before, previous, since, hlast, (hlast.mem_recent_iff limit).1 hrecent⟩
  · rintro ⟨before, previous, since, hlast, hkept⟩
    exact (hlast.mem_recent_iff limit).2 hkept

end LeftBy

end Distance

/-! ## Both caches -/

/-- The field of a segment. -/
def Segment.field? {φ : Type} : Segment φ → Option φ
  | literal _ => none
  | field content => some content

namespace Store

/-- Both caches are what these uses of them leave. -/
structure ComesFrom (store : Store) (ofTemplates : List (Visit (Template (Shared Field))))
    (ofFields : List (Visit Field)) : Prop where
  templates : LeftBy templateCapacity store.templates ofTemplates store.nextSerial
  fields : LeftBy fieldCapacity store.fields ofFields store.nextSerial

theorem comesFrom_empty : ComesFrom {} [] [] :=
  ⟨LeftBy.empty _ _, LeftBy.empty _ _⟩

theorem templates_field (store : Store) (raw : String) :
    (store.field raw).2.templates = store.templates := by
  rw [field]
  split
  · rfl
  · split <;> rfl

/-- Fields do not depend on the templates that are kept. -/
theorem field_templates (store : Store) (templates : Recency (Shared (Template (Shared Field))))
    (raw : String) :
    { store with templates }.field raw =
      ((store.field raw).1, { (store.field raw).2 with templates }) := by
  rw [field, field]
  dsimp only
  split
  · rfl
  · split <;> rfl

theorem readVisits_templates (store : Store)
    (templates : Recency (Shared (Template (Shared Field)))) (tokens : List Token) :
    { store with templates }.readVisits tokens = store.readVisits tokens := by
  induction tokens generalizing store with
  | nil => rfl
  | cons token rest ih =>
    cases token with
    | literal text => exact ih store
    | field text =>
      rw [readVisits, readVisits, field_templates]
      rcases store.field (String.ofList text) with ⟨e | shared, next⟩
      · rfl
      · exact congrArg (Visit.ofResult _ _ ++ ·) (ih next)

theorem templates_segments (store : Store) (tokens : List Token) :
    (store.segments tokens).2.templates = store.templates := by
  induction tokens generalizing store with
  | nil => rfl
  | cons token rest ih =>
    cases token with
    | literal text => exact ih store
    | field text =>
      have hfield := templates_field store (String.ofList text)
      rw [segments]
      split
      · rename_i shared next heq
        rw [heq] at hfield
        exact (ih next).trans hfield
      · rename_i e next heq
        rw [heq] at hfield
        exact hfield

variable {store : Store} {ofTemplates : List (Visit (Template (Shared Field)))}
  {ofFields : List (Visit Field)}

/-- A field is used if there is one, whether it is kept or read anew. -/
theorem comesFrom_field (h : store.ComesFrom ofTemplates ofFields) (raw : String) :
    (store.field raw).2.ComesFrom ofTemplates
      (ofFields ++ Visit.ofResult raw (store.field raw).1) := by
  rw [field]
  cases hfind : store.fields.find? raw with
  | some shared =>
    obtain ⟨hget, hleft⟩ := h.fields.get_hit hfind
    split
    · rename_i found fields heq
      rw [heq] at hget hleft
      cases hget
      exact ⟨h.templates, hleft⟩
    · rename_i fields heq
      rw [heq] at hget
      exact absurd hget (by simp)
  | none =>
    obtain ⟨hget, hleft⟩ := h.fields.get_miss hfind
    have hstill : (store.fields.get raw).2.find? raw = none := by
      rw [Recency.find?_get, hfind]
    split
    · rename_i found fields heq
      rw [heq] at hget
      exact absurd hget (by simp)
    · rename_i fields heq
      rw [heq] at hleft hstill
      split
      · rename_i content hparse
        exact ⟨h.templates.mono (Nat.le_succ _),
          hleft.set hstill ⟨store.nextSerial, content⟩ (Nat.le_refl _)⟩
      · rw [Visit.ofResult, List.append_nil]
        exact ⟨h.templates, hleft⟩

/-- Segments use their fields in order, up to the first that fails. -/
theorem comesFrom_segments (h : store.ComesFrom ofTemplates ofFields) (tokens : List Token) :
    (store.segments tokens).2.ComesFrom ofTemplates (ofFields ++ store.readVisits tokens) := by
  induction tokens generalizing store ofFields with
  | nil =>
    rw [segments, readVisits, List.append_nil]
    exact h
  | cons token rest ih =>
    cases token with
    | literal text => exact ih h
    | field text =>
      have hfield := comesFrom_field h (String.ofList text)
      rw [segments, readVisits, ← List.append_assoc]
      split
      · rename_i shared next heq
        rw [heq] at hfield ⊢
        exact ih hfield
      · rename_i e next heq
        rw [heq] at hfield ⊢
        rw [List.append_nil]
        exact hfield

/-- The fields of segments are those that were used for them. -/
theorem fields_segments {tokens : List Token} {content : Template (Shared Field)}
    (h : (store.segments tokens).1 = .ok content) :
    content.filterMap Segment.field? = (store.readVisits tokens).filterMap Visit.shared? := by
  induction tokens generalizing store content with
  | nil =>
    cases h
    rfl
  | cons token rest ih =>
    cases token with
    | literal text =>
      rw [segments] at h
      rcases hrest : (store.segments rest).1 with e | tail
      · simp [hrest, Except.map] at h
      · simp only [hrest, Except.map, Except.ok.injEq] at h
        rw [← h, readVisits, List.filterMap_cons_none rfl]
        exact ih hrest
    | field text =>
      rw [segments] at h
      rw [readVisits]
      rcases hfield : store.field (String.ofList text) with ⟨e | shared, next⟩
      · simp [hfield] at h
      · simp only [hfield] at h
        rcases hrest : (next.segments rest).1 with e | tail
        · simp [hrest, Except.map] at h
        · simp only [hrest, Except.map, Except.ok.injEq] at h
          rw [← h, List.filterMap_append]
          exact congrArg (shared :: ·) (ih hrest)

/-- A template that compiles is used, and if it was not kept, so are its fields. -/
theorem comesFrom_compile (h : store.ComesFrom ofTemplates ofFields) (template : String) :
    (store.compile template).2.ComesFrom
      (ofTemplates ++ Visit.ofResult template (store.compile template).1)
      (ofFields ++ store.compileVisits template) := by
  rw [compile, compileVisits, Recency.contains]
  cases hfind : store.templates.find? template with
  | some shared =>
    obtain ⟨hget, hleft⟩ := h.templates.get_hit hfind
    split
    · rename_i found templates heq
      rw [heq] at hget hleft
      cases hget
      rw [Option.isSome_some, if_pos rfl, List.append_nil]
      exact ⟨hleft, h.fields⟩
    · rename_i templates heq
      rw [heq] at hget
      exact absurd hget (by simp)
  | none =>
    obtain ⟨hget, hleft⟩ := h.templates.get_miss hfind
    have hstill : (store.templates.get template).2.find? template = none := by
      rw [Recency.find?_get, hfind]
    rw [Option.isSome_none, if_neg Bool.false_ne_true]
    split
    · rename_i found templates heq
      rw [heq] at hget
      exact absurd hget (by simp)
    · rename_i templates heq
      rw [heq] at hleft hstill
      have hlooked : ComesFrom { store with templates } ofTemplates ofFields := ⟨hleft, h.fields⟩
      cases htokens : tokenize template with
      | error e =>
        dsimp only
        rw [Visit.ofResult, List.append_nil, List.append_nil]
        exact hlooked
      | ok tokens =>
        have hused := comesFrom_segments hlooked tokens
        have hsame := templates_segments { store with templates } tokens
        rw [readVisits_templates] at hused
        dsimp only
        split
        · rename_i e next heq
          rw [heq] at hused
          rw [Visit.ofResult, List.append_nil]
          exact hused
        · rename_i content next heq
          rw [heq] at hused hsame
          have hmissed : next.templates.find? template = none := hsame ▸ hstill
          exact ⟨hused.templates.set hmissed ⟨next.nextSerial, content⟩ (Nat.le_refl _),
            hused.fields.mono (Nat.le_succ _)⟩

/-- The fields of a template that was not kept are those that were used for it. -/
theorem fields_compile {template : String} {shared : Shared (Template (Shared Field))}
    (hmiss : store.templates.contains template = false)
    (h : (store.compile template).1 = .ok shared) :
    shared.content.filterMap Segment.field? =
      (store.compileVisits template).filterMap Visit.shared? := by
  have hfind : store.templates.find? template = none := by
    rwa [Recency.contains, Option.isSome_eq_false_iff, Option.isNone_iff_eq_none] at hmiss
  rw [compileVisits, hmiss, if_neg Bool.false_ne_true]
  rw [compile] at h
  split at h
  · rename_i found templates hget
    have hfound := Recency.find?_of_get (congrArg Prod.fst hget)
    rw [hfind] at hfound
    exact absurd hfound (by simp)
  · rename_i templates hget
    cases htokens : tokenize template with
    | error e =>
      rw [htokens] at h
      exact absurd h (by simp)
    | ok tokens =>
      rw [htokens] at h
      dsimp only at h ⊢
      split at h
      · exact absurd h (by simp)
      · rename_i content next heq
        cases h
        rw [← readVisits_templates store templates]
        exact fields_segments (congrArg Prod.fst heq)

/-- The text of a template uses what compiling it uses. -/
theorem store_formatWith (store : Store) (template : String) (args : List Value)
    (options : Options) :
    (store.formatWith template args options).2 = (store.compile template).2 := by
  rw [formatWith]
  split <;> rename_i heq <;> rw [heq]

/-! ## Calls -/

/-- One call leaves both caches as its uses do. -/
theorem comesFrom_perform (h : store.ComesFrom ofTemplates ofFields) (call : Call) :
    (store.perform call).2.ComesFrom (ofTemplates ++ store.templateVisits call)
      (ofFields ++ store.fieldVisits call) := by
  cases call with
  | compile template => exact comesFrom_compile h template
  | field raw =>
    rw [templateVisits, List.append_nil]
    exact comesFrom_field h raw
  | format template args =>
    rw [perform, store_formatWith]
    exact comesFrom_compile h template
  | formatWith template args options =>
    rw [perform, store_formatWith]
    exact comesFrom_compile h template
  | render template args options =>
    rw [templateVisits, fieldVisits, List.append_nil, List.append_nil]
    exact h
  | clear => exact ⟨h.templates.clear, h.fields.clear⟩

/-- A history of calls leaves both caches as its uses do. -/
theorem comesFrom_after (h : store.ComesFrom ofTemplates ofFields) (calls : List Call) :
    (store.after calls).ComesFrom (ofTemplates ++ visits templateVisits store calls)
      (ofFields ++ visits fieldVisits store calls) := by
  induction calls generalizing store ofTemplates ofFields with
  | nil =>
    rw [visits, visits, List.append_nil, List.append_nil]
    exact h
  | cons call rest ih =>
    have hrest := ih (comesFrom_perform h call)
    rw [List.append_assoc, List.append_assoc] at hrest
    exact hrest

/-- In any history of calls, every use of a template or of a field gives the structure of the last
use of its key if that is still kept, and a new one otherwise. A template that is still kept is
compiled without any use of its fields; else its fields are those that compiling it uses. -/
theorem sharing_follows_distance (calls : List Call) :
    let store := Store.after {} calls
    let ofTemplates := visits templateVisits {} calls
    FollowsDistance templateCapacity ofTemplates ∧
      FollowsDistance fieldCapacity (visits fieldVisits {} calls) ∧
      (∀ template, store.templates.contains template = true ↔
        ∃ before previous since, LastUse ofTemplates template before previous since ∧
          StillKept templateCapacity template since) ∧
      ∀ template shared, store.templates.contains template = false →
        (store.compile template).1 = .ok shared →
          shared.content.filterMap Segment.field? =
            (store.compileVisits template).filterMap Visit.shared? := by
  intro store ofTemplates
  have hleft : store.ComesFrom ofTemplates (visits fieldVisits {} calls) :=
    comesFrom_after comesFrom_empty calls
  exact ⟨hleft.templates.follows, hleft.fields.follows, hleft.templates.contains_iff,
    fun _ _ => fields_compile⟩

end Store

end Stencil
