import Mathlib.Data.List.Induction
import Stencil.Proofs.Cache.Indexes

/-!
# The most recent keys

What a cache holds is told by the operations alone, without ticks or indexes: the keys that were
touched last, as many as there is room for.

* `Op`, `Answer`, `perform`, `run` — operations on a cache, and their log.
* `touched` — the keys that a log touches since the cache was cleared, the latest first.
* `latest` — the value that a log gave to a key last.
* `run_exact` — a cache holds exactly the most recent of the touched keys, each with its latest
  value.
-/

namespace Stencil

namespace Recency

variable {α : Type}

/-! ## Operations and their log -/

/-- An operation on a cache. -/
inductive Op (α : Type) where
  | get (key : String)
  | set (key : String) (value : α)
  | contains (key : String)
  | clear

/-- What an operation answers. -/
inductive Answer (α : Type) where
  | found (value : Option α)
  | present (stored : Bool)
  | done

/-- The answer of an operation, and the cache it leaves. -/
def perform (cache : Recency α) : Op α → Answer α × Recency α
  | .get key => (.found (cache.get key).1, (cache.get key).2)
  | .set key value => (.done, cache.set key value)
  | .contains key => (.present (cache.contains key), cache)
  | .clear => (.done, cache.clear)

/-- The operations with their answers, the latest first, and the cache they leave. -/
def run (cache : Recency α) (ops : List (Op α)) : List (Op α × Answer α) × Recency α :=
  ops.foldl
    (fun (log, cache) op => ((op, (cache.perform op).1) :: log, (cache.perform op).2)) ([], cache)

/-- Whether a key is short enough for a cache with this limit, if there is one. -/
def Fits (maxKeyBytes : Option Nat) (key : String) : Prop :=
  ∀ most ∈ maxKeyBytes, key.utf8ByteSize ≤ most

instance (maxKeyBytes : Option Nat) (key : String) : Decidable (Fits maxKeyBytes key) := by
  unfold Fits
  infer_instance

/-- The keys that a log touches since the cache was cleared last, the latest first. A key is touched
when it is set, unless it is too long, and when it is looked up and found. -/
def touched (maxKeyBytes : Option Nat) : List (Op α × Answer α) → List String
  | [] => []
  | (.get key, .found (some _)) :: earlier => key :: touched maxKeyBytes earlier
  | (.set key _, _) :: earlier =>
    if Fits maxKeyBytes key then key :: touched maxKeyBytes earlier
    else touched maxKeyBytes earlier
  | (.clear, _) :: _ => []
  | _ :: earlier => touched maxKeyBytes earlier

/-- The value that a key was set to last. -/
def latest (key : String) : List (Op α × Answer α) → Option α
  | [] => none
  | (.set k value, _) :: earlier => if k = key then some value else latest key earlier
  | _ :: earlier => latest key earlier

/-! ## One operation -/

theorem bypasses_eq_false_iff {cache : Recency α} {key : String} :
    cache.bypasses key = false ↔ Fits cache.maxKeyBytes key := by
  rw [bypasses, Fits]
  cases cache.maxKeyBytes <;> simp

theorem capacity_perform (cache : Recency α) (op : Op α) :
    (cache.perform op).2.capacity = cache.capacity := by
  cases op with
  | get key => exact capacity_get cache key
  | set key value => exact capacity_set cache key value
  | contains key => rfl
  | clear => rfl

theorem maxKeyBytes_perform (cache : Recency α) (op : Op α) :
    (cache.perform op).2.maxKeyBytes = cache.maxKeyBytes := by
  cases op with
  | get key => exact maxKeyBytes_get cache key
  | set key value => exact maxKeyBytes_set cache key value
  | contains key => rfl
  | clear => rfl

theorem clock_perform_le (cache : Recency α) (op : Op α) :
    (cache.perform op).2.clock ≤ cache.clock + 1 := by
  cases op with
  | get key => exact clock_get_le cache key
  | set key value => exact clock_set_le cache key value
  | contains key => exact Nat.le_succ _
  | clear => exact Nat.le_succ _

/-- A cache follows a log if it holds the most recent of the touched keys, each with its latest
value. -/
def Follows (cache : Recency α) (log : List (Op α × Answer α)) : Prop :=
  cache.Tracks (touched cache.maxKeyBytes log).eraseDups (latest · log)

theorem latest_set (key : String) (value : α) (answer : Answer α)
    (log : List (Op α × Answer α)) :
    (latest · ((.set key value, answer) :: log)) =
      Function.update (latest · log) key (some value) := by
  funext k
  rw [latest, Function.update_apply]
  simp only [eq_comm]

/-- One more operation is followed. -/
theorem Follows.perform {cache : Recency α} {log : List (Op α × Answer α)} (h : cache.Follows log)
    (op : Op α) : (cache.perform op).2.Follows ((op, (cache.perform op).1) :: log) := by
  rw [Follows, maxKeyBytes_perform]
  cases op with
  | get key =>
    cases hfind : cache.find? key with
    | none =>
      obtain ⟨hanswer, hnext⟩ := Tracks.get_miss h hfind
      simp only [Recency.perform, hanswer]
      exact hnext
    | some value =>
      obtain ⟨hanswer, hnext⟩ := Tracks.get_hit h hfind
      simp only [Recency.perform, hanswer, touched, eraseDups_cons]
      exact hnext
  | set key value =>
    rw [latest_set, touched]
    split_ifs with hfits
    · rw [eraseDups_cons]
      exact Tracks.set h (bypasses_eq_false_iff.2 hfits) value
    · have hlong : cache.bypasses key = true := by
        rwa [← bypasses_eq_false_iff, Bool.not_eq_false] at hfits
      exact Tracks.set_long h hlong value
  | contains key => exact h
  | clear => exact Tracks.clear cache _

/-! ## Whole runs -/

theorem run_append_singleton (cache : Recency α) (ops : List (Op α)) (op : Op α) :
    cache.run (ops ++ [op]) =
      ((op, ((cache.run ops).2.perform op).1) :: (cache.run ops).1,
        ((cache.run ops).2.perform op).2) := by
  rw [run, List.foldl_append]
  rfl

/-- What is said of a fresh cache and its empty log, and goes on with each operation, is said of
every run. -/
theorem run_spec (capacity : Nat) (maxKeyBytes : Option Nat) (ops : List (Op α)) :
    (run { capacity, maxKeyBytes } ops).2.capacity = capacity ∧
      (run { capacity, maxKeyBytes } ops).2.maxKeyBytes = maxKeyBytes ∧
      (run { capacity, maxKeyBytes } ops).2.clock ≤ ops.length ∧
      (run { capacity, maxKeyBytes } ops).2.Follows (run { capacity, maxKeyBytes } ops).1 := by
  induction ops using List.reverseRecOn with
  | nil => exact ⟨rfl, rfl, Nat.le_refl _, Tracks.clear { capacity, maxKeyBytes } _⟩
  | append_singleton ops op ih =>
    obtain ⟨hcapacity, hmax, hclock, hfollows⟩ := ih
    rw [run_append_singleton]
    refine ⟨(capacity_perform _ op).trans hcapacity, (maxKeyBytes_perform _ op).trans hmax, ?_,
      hfollows.perform op⟩
    rw [List.length_append, List.length_singleton]
    exact Nat.le_trans (clock_perform_le _ op) (Nat.succ_le_succ hclock)

/-- After any operations on a fresh cache, the stored keys are exactly the most recent of those
touched since it was cleared, as many as the capacity allows. A lookup finds the latest value of such
a key and nothing under any other; a key that has just been set is there. No operation takes more
than one tick of the clock. -/
theorem run_exact (capacity : Nat) (maxKeyBytes : Option Nat) (ops : List (Op α)) :
    let log := (run { capacity, maxKeyBytes } ops).1
    let cache := (run { capacity, maxKeyBytes } ops).2
    let recent := (touched maxKeyBytes log).eraseDups.take capacity
    (∀ key, cache.contains key = true ↔ key ∈ recent) ∧
      (∀ key, (cache.get key).1 = if key ∈ recent then latest key log else none) ∧
      cache.size = recent.length ∧ cache.size ≤ capacity ∧
      (∀ key value, 0 < capacity → Fits maxKeyBytes key →
        (cache.set key value).find? key = some value) ∧
      cache.clock ≤ ops.length := by
  intro log cache recent
  obtain ⟨hcapacity, hmax, hclock, hfollows⟩ := run_spec capacity maxKeyBytes ops
  have htracks : cache.Tracks (touched cache.maxKeyBytes log).eraseDups (latest · log) := hfollows
  have hrecent : (touched cache.maxKeyBytes log).eraseDups.take cache.capacity = recent := by
    rw [hmax, hcapacity]
  have hsize : cache.size = recent.length := by
    rw [← htracks.inStep.length_order, htracks.order_eq, hrecent]
  refine ⟨?_, ?_, hsize, ?_, ?_, hclock⟩
  · intro key
    rw [htracks.contains_iff, hrecent]
  · intro key
    have hfind := htracks.find?_eq_ite key
    rw [hrecent] at hfind
    rw [← hfind]
    cases hstored : cache.find? key with
    | none => exact (htracks.get_miss hstored).1
    | some value => exact (htracks.get_hit hstored).1
  · rw [hsize, List.length_take]
    exact Nat.min_le_left _ _
  · intro key value hroom hfits
    have hset := htracks.set (bypasses_eq_false_iff.2 (by rwa [hmax])) value
    rw [hset.find?_eq_ite, capacity_set, hcapacity, Function.update_self, if_pos]
    obtain ⟨room, rfl⟩ := Nat.exists_eq_succ_of_ne_zero (Nat.ne_of_gt hroom)
    exact List.mem_cons_self

end Recency

end Stencil
