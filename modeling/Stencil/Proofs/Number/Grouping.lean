import Mathlib
import Stencil.Number.Grouping

/-!
# Digits in groups

The groups of a run are cut from the right, so that a digit more in front changes only the leftmost
group: it grows by that digit, or it is full and the digit begins a group of its own. All that is
said of grouped text is an induction on this.

* `groupSizesAfter_succ` — the sizes of the groups of one digit more.
* `flatten_pieces`, `map_length_pieces` — the groups make up the run, and have the sizes asked for.
* `apply_cons` — grouped text with one digit more in front.
* `length_apply`, `head?_apply` — how long grouped text is, and that it begins with a digit.
* `filter_apply` — what is left of it without separators.
* `filled`, `filled_succ` — grouped text behind zeros, zero by zero.
* `isLeast_fillCount` — the zeros that are added are the fewest that reach the width.
-/

namespace Stencil.Grouping

/-! ## Sizes of the groups -/

theorem evenSizes_of_lt {size count : Nat} (hpos : size ≠ 0) (hlt : size < count) :
    evenSizes size count = size :: evenSizes size (count - size) := by
  have hfull : (count - 1) / size = (count - size - 1) / size + 1 := by
    have hsplit : count - 1 = count - size - 1 + size := by omega
    rw [hsplit, Nat.add_div_right _ (Nat.pos_of_ne_zero hpos)]
  rw [evenSizes, evenSizes, if_neg hpos, if_neg hpos]
  dsimp only
  have hrest : count - ((count - size - 1) / size + 1) * size =
      count - size - (count - size - 1) / size * size := by
    rw [Nat.succ_mul]
    omega
  rw [hfull, hrest, List.replicate_succ, List.cons_append]

theorem evenSizes_of_le {size count : Nat} (h : size = 0 ∨ count ≤ size) :
    evenSizes size count = [count] := by
  rw [evenSizes]
  split_ifs with hzero
  · rfl
  · have hfull : (count - 1) / size = 0 := Nat.div_eq_of_lt (by omega)
    dsimp only
    rw [hfull, Nat.zero_mul, Nat.sub_zero]
    rfl

/-- Each group takes the next size, or the last one again. -/
theorem groupSizesAfter_eq (last : Nat) (sizes : List Nat) (count : Nat) :
    groupSizesAfter last sizes count =
      if sizes.headD last = 0 ∨ count ≤ sizes.headD last then [count]
      else sizes.headD last ::
        groupSizesAfter (sizes.headD last) sizes.tail (count - sizes.headD last) := by
  cases sizes with
  | nil =>
    rw [groupSizesAfter, List.headD_nil]
    split_ifs with h
    · exact evenSizes_of_le h
    · exact evenSizes_of_lt (by omega) (by omega)
  | cons size sizes => rfl

/-- The sizes of the groups add up to the digits. -/
theorem sum_groupSizesAfter (last : Nat) (sizes : List Nat) (count : Nat) :
    (groupSizesAfter last sizes count).sum = count := by
  induction count using Nat.strong_induction_on generalizing last sizes with
  | _ count ih =>
    rw [groupSizesAfter_eq]
    split_ifs with h
    · exact List.sum_singleton
    · rw [List.sum_cons, ih _ (by omega)]
      omega

theorem length_groupSizesAfter_le (last : Nat) (sizes : List Nat) (count : Nat) :
    (groupSizesAfter last sizes count).length ≤ count + 1 := by
  induction count using Nat.strong_induction_on generalizing last sizes with
  | _ count ih =>
    rw [groupSizesAfter_eq]
    split_ifs with h
    · exact Nat.le_add_left 1 count
    · have hrest := ih (count - sizes.headD last) (by omega) (sizes.headD last) sizes.tail
      rw [List.length_cons]
      omega

/-- With one digit more the leftmost group grows, or it is full and a group of one digit begins. -/
theorem groupSizesAfter_succ (last : Nat) (sizes : List Nat) (count : Nat) :
    ∃ front size, groupSizesAfter last sizes count = front ++ [size] ∧
      (groupSizesAfter last sizes (count + 1) = front ++ [size + 1] ∨
        groupSizesAfter last sizes (count + 1) = front ++ [size, 1]) := by
  induction count using Nat.strong_induction_on generalizing last sizes with
  | _ count ih =>
    rw [groupSizesAfter_eq last sizes count, groupSizesAfter_eq last sizes (count + 1)]
    by_cases hgrow : sizes.headD last = 0 ∨ count + 1 ≤ sizes.headD last
    · rw [if_pos (by omega), if_pos hgrow]
      exact ⟨[], count, rfl, .inl rfl⟩
    · rw [if_neg hgrow]
      by_cases hfull : count = sizes.headD last
      · rw [if_pos (.inr hfull.le), hfull, Nat.add_sub_cancel_left, groupSizesAfter_eq,
          if_pos (by omega)]
        exact ⟨[], _, rfl, .inr rfl⟩
      · obtain ⟨front, size, hcount, hsucc⟩ :=
          ih (count - sizes.headD last) (by omega) (sizes.headD last) sizes.tail
        rw [← Nat.sub_add_comm (by omega)] at hsucc
        rw [if_neg (by omega), hcount]
        refine ⟨sizes.headD last :: front, size, rfl, hsucc.imp ?_ ?_⟩ <;>
        · intro h
          rw [h, List.cons_append]

/-! ## Groups of a run -/

theorem cut_append (front rest : List Nat) (run : List Char) (done : List (List Char)) :
    cut (front ++ rest) run done = cut rest (run.drop front.sum) (cut front run done) := by
  induction front generalizing run done with
  | nil => rfl
  | cons size front ih =>
    rw [List.cons_append, cut, ih, cut, List.sum_cons, List.drop_drop]

/-- What lies behind the digits that are cut off does not matter. -/
theorem cut_append_run {sizes : List Nat} {run : List Char} (h : sizes.sum ≤ run.length)
    (more : List Char) (done : List (List Char)) :
    cut sizes (run ++ more) done = cut sizes run done := by
  induction sizes generalizing run done with
  | nil => rfl
  | cons size sizes ih =>
    rw [List.sum_cons] at h
    have hlength : sizes.sum ≤ (run.drop size).length := by
      rw [List.length_drop]
      omega
    rw [cut, cut, List.take_append_of_le_length (by omega),
      List.drop_append_of_le_length (by omega), ih hlength]

theorem flatten_cut (sizes : List Nat) (run : List Char) (done : List (List Char))
    (h : sizes.sum = run.length) :
    (cut sizes run done).flatten = run.reverse ++ done.flatten := by
  induction sizes generalizing run done with
  | nil =>
    rw [List.sum_nil] at h
    rw [cut, List.eq_nil_of_length_eq_zero h.symm]
    rfl
  | cons size sizes ih =>
    rw [List.sum_cons] at h
    rw [cut, ih _ _ (by rw [List.length_drop]; omega), List.flatten_cons, ← List.append_assoc,
      ← List.reverse_append, List.take_append_drop]

theorem map_length_cut (sizes : List Nat) (run : List Char) (done : List (List Char))
    (h : sizes.sum ≤ run.length) :
    (cut sizes run done).map List.length = sizes.reverse ++ done.map List.length := by
  induction sizes generalizing run done with
  | nil => rfl
  | cons size sizes ih =>
    rw [List.sum_cons] at h
    rw [cut, ih _ _ (by rw [List.length_drop]; omega), List.map_cons, List.length_reverse,
      List.length_take_of_le (by omega), List.reverse_cons, List.append_assoc,
      List.singleton_append]

section

variable (g : Grouping)

/-- The groups of a run make up the run. -/
theorem flatten_pieces (run : List Char) : (g.pieces run).flatten = run := by
  rw [pieces, flatten_cut _ _ _ (by rw [groupSizes, sum_groupSizesAfter, List.length_reverse]),
    List.reverse_reverse, List.flatten_nil, List.append_nil]

/-- The groups of a run have the sizes asked for, the first of them at the right. -/
theorem map_length_pieces (run : List Char) :
    (g.pieces run).map List.length = (g.groupSizes run.length).reverse := by
  rw [pieces, map_length_cut, List.map_nil, List.append_nil]
  rw [groupSizes, sum_groupSizesAfter, List.length_reverse]

/-- A digit in front of a run joins its leftmost group, or makes one of its own. -/
theorem pieces_cons (d : Char) (run : List Char) :
    ∃ piece rest, g.pieces run = piece :: rest ∧
      (g.pieces (d :: run) = (d :: piece) :: rest ∧
          g.separators (run.length + 1) = g.separators run.length ∨
        g.pieces (d :: run) = [d] :: piece :: rest ∧
          g.separators (run.length + 1) = g.separators run.length + 1) := by
  obtain ⟨front, size, hcount, hsucc⟩ := groupSizesAfter_succ 0 g.sizes run.length
  have hsum := sum_groupSizesAfter 0 g.sizes run.length
  have hgroups := g.length_groupSizes run.length
  have hgroups' := g.length_groupSizes (run.length + 1)
  rw [groupSizes] at hgroups hgroups'
  rw [hcount, List.sum_append, List.sum_singleton] at hsum
  rw [hcount, List.length_append, List.length_singleton] at hgroups
  have hfront : front.sum ≤ run.reverse.length := by
    rw [List.length_reverse]
    omega
  have hleft : (run.reverse.drop front.sum).length = size := by
    rw [List.length_drop, List.length_reverse]
    omega
  have hcut := cut_append_run hfront [d] []
  have hdrop : (run.reverse ++ [d]).drop front.sum = run.reverse.drop front.sum ++ [d] :=
    List.drop_append_of_le_length hfront
  refine ⟨(run.reverse.drop front.sum).reverse, cut front run.reverse [], ?_, ?_⟩
  · rw [pieces, groupSizes, hcount, cut_append, cut, cut, List.take_of_length_le hleft.le]
  · rw [pieces, groupSizes, List.length_cons, List.reverse_cons]
    rcases hsucc with hsucc | hsucc
    · left
      rw [hsucc, List.length_append, List.length_singleton] at hgroups'
      rw [hsucc, cut_append, hcut, hdrop, cut, cut, List.take_of_length_le (by simp; omega),
        List.reverse_append, List.reverse_singleton, List.singleton_append]
      exact ⟨rfl, by omega⟩
    · right
      rw [hsucc, List.length_append, List.length_cons, List.length_singleton] at hgroups'
      rw [hsucc, cut_append, hcut, hdrop, cut, List.take_left' hleft, List.drop_left' hleft, cut,
        cut]
      exact ⟨rfl, by omega⟩

/-! ## Grouped text -/

@[simp] theorem apply_nil : g.apply [] = [] := by
  have hsizes : g.groupSizes 0 = [0] := by
    rw [groupSizes, groupSizesAfter_eq, if_pos (.inr (Nat.zero_le _))]
  rw [apply, pieces, List.length_nil, hsizes]
  rfl

/-- A digit in front of a run stands before its text, behind a separator of its own if the number
of digits asks for one more. -/
theorem apply_cons (d : Char) (run : List Char) :
    g.apply (d :: run) =
      if g.separators (run.length + 1) = g.separators run.length then d :: g.apply run
      else d :: g.separator :: g.apply run := by
  obtain ⟨piece, rest, hrun, ⟨hcons, hsame⟩ | ⟨hcons, hmore⟩⟩ := g.pieces_cons d run
  · rw [if_pos hsame, apply, apply, hrun, hcons]
    cases rest <;> simp [List.intercalate]
  · rw [if_neg (by omega), apply, apply, hrun, hcons]
    simp [List.intercalate]

/-- A digit more needs one separator more, or none. -/
theorem separators_succ (count : Nat) :
    g.separators (count + 1) = g.separators count ∨
      g.separators (count + 1) = g.separators count + 1 := by
  obtain ⟨piece, rest, -, h⟩ := g.pieces_cons '0' (List.replicate count '0')
  rw [List.length_replicate] at h
  exact h.imp And.right And.right

theorem separators_zero : g.separators 0 = 0 := by
  have h := g.length_groupSizes 0
  rw [groupSizes, groupSizesAfter_eq, if_pos (.inr (Nat.zero_le _)), List.length_singleton] at h
  omega

/-- Grouped text is as long as is said of its digits. -/
theorem length_apply (run : List Char) : (g.apply run).length = g.groupedLength run.length := by
  induction run with
  | nil => rw [apply_nil, List.length_nil, groupedLength, separators_zero]
  | cons d run ih =>
    rw [groupedLength] at ih
    rw [apply_cons, groupedLength, List.length_cons]
    split_ifs with hsame
    · rw [List.length_cons, ih]
      omega
    · have hmore := g.separators_succ run.length
      rw [List.length_cons, List.length_cons, ih]
      omega

/-- Grouped text begins with a digit, not with a separator. -/
theorem head?_apply (run : List Char) : (g.apply run).head? = run.head? := by
  cases run with
  | nil => rw [apply_nil]
  | cons d run =>
    rw [apply_cons]
    split_ifs <;> rfl

/-- A test that the digits pass and the separator does not leaves the run of grouped text. -/
theorem filter_apply {p : Char → Bool} {run : List Char} (hseparator : p g.separator = false)
    (hrun : ∀ d ∈ run, p d = true) : (g.apply run).filter p = run := by
  induction run with
  | nil => rw [apply_nil, List.filter_nil]
  | cons d run ih =>
    rw [List.forall_mem_cons] at hrun
    have hrest := ih hrun.2
    rw [apply_cons]
    split_ifs
    · rw [List.filter_cons_of_pos hrun.1, hrest]
    · rw [List.filter_cons_of_pos hrun.1, List.filter_cons_of_neg (by simp [hseparator]), hrest]

/-- Grouped text has no characters but digits and separators. -/
theorem eq_or_mem_of_mem_apply {run : List Char} {c : Char} (h : c ∈ g.apply run) :
    c = g.separator ∨ c ∈ run := by
  induction run with
  | nil => simp at h
  | cons d run ih =>
    rw [apply_cons] at h
    rw [List.mem_cons]
    split_ifs at h
    · rcases List.mem_cons.1 h with h | h
      · exact .inr (.inl h)
      · exact (ih h).imp_right .inr
    · rcases List.mem_cons.1 h with h | h
      · exact .inr (.inl h)
      · rcases List.mem_cons.1 h with h | h
        · exact .inl h
        · exact (ih h).imp_right .inr

theorem groupedLength_strictMono : StrictMono g.groupedLength := by
  refine strictMono_nat_of_lt_succ fun count => ?_
  have hmore := g.separators_succ count
  rw [groupedLength, groupedLength]
  omega

/-- There is at most one separator for every digit. -/
theorem length_apply_le (digits : List Char) : (g.apply digits).length ≤ 2 * digits.length + 1 := by
  have hgroups := length_groupSizesAfter_le 0 g.sizes digits.length
  have hlength := length_groupSizesAfter 0 g.sizes digits.length
  rw [length_apply, groupedLength, separators]
  omega

/-! ## Zeros in front -/

theorem fillCount_le (width count : Nat) :
    count ≤ g.fillCount width count ∧ g.fillCount width count ≤ max width count := by
  fun_induction g.fillCount width count with
  | case1 count h => exact ⟨Nat.le_refl count, Nat.le_max_right width count⟩
  | case2 count h ih =>
    rw [groupedLength] at h
    omega

theorem length_zeroFill_le (digits : List Char) (width : Nat) :
    (g.zeroFill digits width).length ≤ 2 * max width digits.length + 1 := by
  obtain ⟨hlow, hhigh⟩ := g.fillCount_le width digits.length
  have happly := g.length_apply_le
    (List.replicate (g.fillCount width digits.length - digits.length) '0' ++ digits)
  rw [List.length_append, List.length_replicate] at happly
  rw [zeroFill]
  omega

/-- The count that is found is the least, from the given one on, whose text reaches the width. -/
theorem isLeast_fillCount (width count : Nat) :
    IsLeast {n | count ≤ n ∧ width ≤ g.groupedLength n} (g.fillCount width count) := by
  fun_induction g.fillCount width count with
  | case1 count h => exact ⟨⟨Nat.le_refl count, h⟩, fun n hn => hn.1⟩
  | case2 count h ih =>
    obtain ⟨⟨hle, hreach⟩, hleast⟩ := ih
    refine ⟨⟨by omega, hreach⟩, fun n ⟨hn, hwidth⟩ => hleast ⟨?_, hwidth⟩⟩
    -- the count itself does not reach the width
    have hne : n ≠ count := fun heq => h (heq ▸ hwidth)
    omega

/-- A run behind the given number of zeros, in groups. -/
def filled (digits : List Char) (zeros : Nat) : List Char :=
  g.apply (List.replicate zeros '0' ++ digits)

variable {g} {digits : List Char}

theorem length_filled (zeros : Nat) :
    (g.filled digits zeros).length = g.groupedLength (zeros + digits.length) := by
  rw [filled, length_apply, List.length_append, List.length_replicate]

theorem length_filled_strictMono (g : Grouping) (digits : List Char) :
    StrictMono fun zeros => (g.filled digits zeros).length := by
  intro n m hlt
  simp only [length_filled]
  exact g.groupedLength_strictMono (by omega)

/-- One zero more stands before the text, or before a separator. -/
theorem filled_succ (g : Grouping) (digits : List Char) (zeros : Nat) :
    g.filled digits (zeros + 1) = '0' :: g.filled digits zeros ∨
      g.filled digits (zeros + 1) = '0' :: g.separator :: g.filled digits zeros := by
  rw [filled, List.replicate_succ, List.cons_append, apply_cons, filled]
  split_ifs
  · exact .inl rfl
  · exact .inr rfl

/-- Filling with zeros adds the fewest whose text reaches the width. -/
theorem exists_zeroFill (g : Grouping) (digits : List Char) (width : Nat) :
    ∃ zeros, g.zeroFill digits width = g.filled digits zeros ∧
      IsLeast {n | width ≤ (g.filled digits n).length} zeros := by
  obtain ⟨⟨hle, hreach⟩, hleast⟩ := g.isLeast_fillCount width digits.length
  refine ⟨g.fillCount width digits.length - digits.length, rfl, ?_, ?_⟩
  · rw [Set.mem_ofPred_eq, length_filled, Nat.sub_add_cancel hle]
    exact hreach
  · intro n hn
    rw [Set.mem_ofPred_eq, length_filled] at hn
    have := hleast ⟨Nat.le_add_left digits.length n, hn⟩
    omega

/-- The fewest zeros that reach a width reach it exactly, unless a run of that width would begin
with a separator, and then the text is longer by the digit before it. -/
theorem length_of_isLeast {zeros width : Nat} (hpos : 0 < zeros)
    (h : IsLeast {n | width ≤ (g.filled digits n).length} zeros) :
    ((g.filled digits zeros).length = width ∨ (g.filled digits zeros).length = width + 1) ∧
      ((g.filled digits zeros).length = width + 1 ↔
        ∃ n, g.filled digits (n + 1) = '0' :: g.separator :: g.filled digits n ∧
          (g.separator :: g.filled digits n).length = width) := by
  obtain ⟨before, rfl⟩ := Nat.exists_eq_succ_of_ne_zero hpos.ne'
  obtain ⟨hreach, hleast⟩ := h
  rw [Set.mem_ofPred_eq] at hreach
  have hshort : (g.filled digits before).length < width := by
    by_contra hlong
    exact Nat.not_succ_le_self before (hleast (Nat.le_of_not_lt hlong))
  constructor
  · rcases g.filled_succ digits before with hsucc | hsucc <;>
    · rw [hsucc] at hreach ⊢
      simp only [List.length_cons] at hreach ⊢
      omega
  · constructor
    · intro hlong
      refine ⟨before, ?_⟩
      rcases g.filled_succ digits before with hsucc | hsucc
      · rw [hsucc, List.length_cons] at hlong
        omega
      · rw [hsucc, List.length_cons] at hlong
        exact ⟨hsucc, by omega⟩
    · rintro ⟨n, hsucc, hlength⟩
      have hn : (g.filled digits n).length < width := by
        rw [← hlength, List.length_cons]
        exact Nat.lt_succ_self _
      have hlong : (g.filled digits (n + 1)).length = width + 1 := by
        rw [hsucc, List.length_cons, hlength]
      -- the fewest zeros are more than `n`, and `n + 1` of them are enough
      have hle : before + 1 ≤ n + 1 := hleast (by rw [Set.mem_ofPred_eq, hlong]; omega)
      have hlt : n < before + 1 :=
        (g.length_filled_strictMono digits).lt_iff_lt.1 (lt_of_lt_of_le hn hreach)
      obtain rfl : n = before := by omega
      exact hlong

example : (Grouping.mk ',' [3]).zeroFill "1234".toList 8 = "0,001,234".toList := by cbv

end

end Stencil.Grouping
