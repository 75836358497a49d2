import Mathlib.Data.List.Basic
import Stencil.Checked.Machine

/-!
# Steps that keep their laws

For each checked step the condition under which it keeps its law, and what it then gives.

* `spaceLimit` — more than a machine with 64-bit addresses can hold.
* `ofResult_bind`, `mapRefusal_ofResult` — runs without breaches, put together.
* `sum_eq_ok`, `difference_eq_ok`, `signed_eq_ok`, `item_eq_ok`, `span_append` and the like — the
  steps.
* `sum_bind_eq_ok`, `signed_bind_eq_ok`, `span_bind_eq_ok` and the like — what a run with a result
  has got from its first step.
-/

namespace Stencil.Checked

variable {ε ε' α β : Type}

/-- No machine with 64-bit addresses holds as many bytes. -/
def spaceLimit : Nat := Nat.pow 2 58

/-- Words reach far beyond what can be held. -/
theorem limits : wordLimit = 64 * spaceLimit ∧ signedLimit = 32 * spaceLimit ∧
    10 * maxCount < spaceLimit ∧ maxCount = 100000 := by
  decide

/-! ## Runs without breaches -/

@[simp]
theorem ofResult_ok (a : α) : ofResult (.ok a : Except ε α) = .ok a := rfl

@[simp]
theorem ofResult_error (e : ε) : ofResult (.error e : Except ε α) = .error (.refusal e) := rfl

@[simp]
theorem ok_bind (a : α) (f : α → Checked ε β) : (.ok a >>= f : Checked ε β) = f a := rfl

theorem ofResult_bind (result : Except ε α) (f : α → Except ε β) :
    ofResult (result >>= f) = ofResult result >>= fun a => ofResult (f a) := by
  cases result <;> rfl

theorem ofResult_bind_pure (result : Except ε α) (f : α → β) :
    ofResult (result >>= fun a => pure (f a)) = ofResult result >>= fun a => pure (f a) := by
  cases result <;> rfl

theorem ofResult_map (f : α → β) (result : Except ε α) :
    ofResult (result.map f) = ofResult result >>= fun a => pure (f a) := by
  cases result <;> rfl

theorem mapRefusal_ofResult (f : ε → ε') (result : Except ε α) :
    mapRefusal f (ofResult result) = ofResult (result.mapError f) := by
  cases result <;> rfl

@[simp]
theorem mapRefusal_ok (f : ε → ε') (a : α) : mapRefusal f (.ok a : Checked ε α) = .ok a := rfl

/-- A run that has the result of a plain one breaks no law. -/
theorem ne_breach_of_eq_ofResult {run : Checked ε α} {result : Except ε α}
    (h : run = ofResult result) (law : Breach) : run ≠ .error (.breach law) := by
  rw [h]
  cases result <;> simp

/-! ## Words -/

theorem sum_eq_ok {a b : Nat} (h : a + b < wordLimit) : (sum a b : Checked ε Nat) = .ok (a + b) := by
  rw [sum, if_neg (by omega)]

/-- Nothing is added to a word. -/
theorem sum_zero (n : Nat) : (sum 0 n : Checked ε Nat) = .ok n := by
  rw [sum, if_neg (by omega), Nat.zero_add]

theorem difference_eq_ok {a b : Nat} (h : b ≤ a) :
    (difference a b : Checked ε Nat) = .ok (a - b) :=
  if_pos h

theorem signed_eq_ok {v : Int} (h : v.natAbs < signedLimit) :
    (signed v : Checked ε Int) = .ok v := by
  refine if_pos ⟨?_, ?_⟩ <;> omega

theorem unsigned_eq_ok {v : Int} (h : 0 ≤ v) : (unsigned v : Checked ε Nat) = .ok v.toNat :=
  if_pos h

/-! ## Lists -/

theorem item_eq_ok {xs : List α} {i : Nat} {x : α} (h : xs[i]? = some x) :
    (item xs i : Checked ε α) = .ok x := by
  rw [item, h]

/-- The entry behind a front part. -/
theorem item_append (front : List α) (x : α) (back : List α) :
    (item (front ++ x :: back) front.length : Checked ε α) = .ok x :=
  item_eq_ok (by simp)

/-- The range between a front part and a back part. -/
theorem span_append (front middle back : List α) :
    (span (front ++ middle ++ back) front.length (front.length + middle.length) :
      Checked ε (List α)) = .ok middle := by
  rw [span, if_pos (by simp only [List.length_append]; omega), ← List.length_append,
    List.take_left, List.drop_left]

theorem span_front (front back : List α) :
    (span (front ++ back) 0 front.length : Checked ε (List α)) = .ok front := by
  have h := span_append (ε := ε) [] front back
  rwa [List.nil_append, List.length_nil, Nat.zero_add] at h

theorem span_back (front back : List α) :
    (span (front ++ back) front.length (front ++ back).length : Checked ε (List α)) = .ok back := by
  have h := span_append (ε := ε) front back []
  rwa [List.append_nil, ← List.length_append] at h

/-! ## Runs with a result -/

/-- A run that has a result has kept the law of its first step. -/
theorem ite_bind_eq_ok {p : Prop} [Decidable p] {a : α} {stop : Stop ε} {f : α → Checked ε β}
    {b : β} (h : (if p then (.ok a : Checked ε α) else .error stop) >>= f = .ok b) :
    p ∧ f a = .ok b := by
  split at h
  · exact ⟨‹p›, h⟩
  · cases h

theorem sum_bind_eq_ok {m n : Nat} {f : Nat → Checked ε β} {b : β}
    (h : sum m n >>= f = .ok b) : f (m + n) = .ok b := by
  rw [sum] at h
  split at h
  · cases h
  · exact h

theorem difference_bind_eq_ok {m n : Nat} {f : Nat → Checked ε β} {b : β}
    (h : difference m n >>= f = .ok b) : n ≤ m ∧ f (m - n) = .ok b :=
  ite_bind_eq_ok h

theorem signed_bind_eq_ok {v : Int} {f : Int → Checked ε β} {b : β}
    (h : signed v >>= f = .ok b) : f v = .ok b :=
  (ite_bind_eq_ok h).2

theorem unsigned_bind_eq_ok {v : Int} {f : Nat → Checked ε β} {b : β}
    (h : unsigned v >>= f = .ok b) : 0 ≤ v ∧ f v.toNat = .ok b :=
  ite_bind_eq_ok h

theorem item_bind_eq_ok {xs : List α} {i : Nat} {f : α → Checked ε β} {b : β}
    (h : item xs i >>= f = .ok b) : ∃ x, xs[i]? = some x ∧ f x = .ok b := by
  rw [item] at h
  split at h
  · exact ⟨_, ‹_›, h⟩
  · cases h

theorem span_bind_eq_ok {xs : List α} {start stop : Nat} {f : List α → Checked ε β} {b : β}
    (h : span xs start stop >>= f = .ok b) :
    start ≤ stop ∧ stop ≤ xs.length ∧ f ((xs.take stop).drop start) = .ok b := by
  obtain ⟨⟨hstart, hstop⟩, h⟩ := ite_bind_eq_ok h
  exact ⟨hstart, hstop, h⟩

/-! ## Texts -/

@[simp]
theorem bytes_nil : bytes [] = 0 := rfl

@[simp]
theorem bytes_cons (c : Char) (text : List Char) : bytes (c :: text) = c.utf8Size + bytes text := rfl

@[simp]
theorem bytes_append (front back : List Char) :
    bytes (front ++ back) = bytes front + bytes back := by
  induction front with
  | nil => rw [List.nil_append, bytes_nil, Nat.zero_add]
  | cons c front ih => rw [List.cons_append, bytes_cons, bytes_cons, ih, Nat.add_assoc]

theorem behind_cons (c : Char) (text : List Char) (offset : Nat) :
    (behind (c.utf8Size + offset) (c :: text) : Checked ε (List Char)) = behind offset text := by
  have hsize := c.utf8Size_pos
  obtain ⟨more, hmore⟩ : ∃ more, c.utf8Size + offset = more + 1 :=
    ⟨c.utf8Size + offset - 1, by omega⟩
  rw [hmore, behind, if_pos (by omega), ← hmore, Nat.add_sub_cancel_left]

theorem upTo_cons (c : Char) (text : List Char) (offset : Nat) :
    (upTo (c.utf8Size + offset) (c :: text) : Checked ε (List Char)) =
      (upTo offset text).map (c :: ·) := by
  have hsize := c.utf8Size_pos
  obtain ⟨more, hmore⟩ : ∃ more, c.utf8Size + offset = more + 1 :=
    ⟨c.utf8Size + offset - 1, by omega⟩
  rw [hmore, upTo, if_pos (by omega), ← hmore, Nat.add_sub_cancel_left]

/-- Behind the bytes of a front part comes the back part. -/
theorem behind_append (front back : List Char) :
    (behind (bytes front) (front ++ back) : Checked ε (List Char)) = .ok back := by
  induction front with
  | nil =>
    rw [bytes_nil, List.nil_append]
    cases back <;> rfl
  | cons c front ih => rw [bytes_cons, List.cons_append, behind_cons, ih]

theorem upTo_append (front back : List Char) :
    (upTo (bytes front) (front ++ back) : Checked ε (List Char)) = .ok front := by
  induction front with
  | nil =>
    rw [bytes_nil, List.nil_append]
    cases back <;> rfl
  | cons c front ih =>
    rw [bytes_cons, List.cons_append, upTo_cons, ih]
    rfl

theorem between_append (front middle back : List Char) :
    (between (bytes front) (bytes front + bytes middle) (front ++ middle ++ back) :
      Checked ε (List Char)) = .ok middle := by
  rw [between, ← bytes_append, upTo_append]
  exact behind_append front middle

end Stencil.Checked
