import Stencil.Proofs.Checked.Written

/-!
# The groups of a run

Counted from the right, every group takes the next size of the list, and the last size repeats. Only
the leftmost group may have fewer digits, and it takes all that are left where a zero ends the
cutting. This leaves one way to cut a run, and it is the one that grouped text is joined from.

* `sizeAt` — the size that is asked for at a place, counted from the right.
* `Asked` — sizes of groups as they are asked for, and the one list of them for a count of digits.
* `IsCut` — the pieces of a run that are asked for.
* `apply_isCut` — they are the groups that are joined, whatever the sizes are.
-/

namespace Stencil.Grouping

/-! ## Sizes -/

/-- The size at a place of a list whose last entry repeats; before there is any entry it is
`last`. -/
def sizeAfter (last : Nat) (sizes : List Nat) (i : Nat) : Nat :=
  sizes.getD (min i (sizes.length - 1)) last

/-- The size that is asked for at a place, the rightmost group being at place 0. Zero asks for all
digits that are left, and so does a list without sizes. -/
def sizeAt (g : Grouping) (i : Nat) : Nat :=
  sizeAfter 0 g.sizes i

theorem sizeAfter_zero (last : Nat) (sizes : List Nat) :
    sizeAfter last sizes 0 = sizes.headD last := by
  cases sizes <;> rfl

/-- Behind the first place the sizes are those of the rest, after the first one. -/
theorem sizeAfter_succ (last : Nat) (sizes : List Nat) (i : Nat) :
    sizeAfter last sizes (i + 1) = sizeAfter (sizes.headD last) sizes.tail i := by
  cases sizes with
  | nil => rfl
  | cons size rest =>
    cases rest with
    | nil => simp [sizeAfter]
    | cons next rest => simp [sizeAfter, Nat.succ_min_succ]

/-- Sizes of groups, the rightmost first: none is zero, and each is the one asked for, but for the
last one, which may be less, and may be anything where zero is asked for. -/
def Asked (size : Nat → Nat) (groups : List Nat) : Prop :=
  ∀ i n, groups[i]? = some n →
    0 < n ∧ (n = size i ∨ i + 1 = groups.length ∧ (size i = 0 ∨ n ≤ size i))

theorem asked_singleton {size : Nat → Nat} {n : Nat} :
    Asked size [n] ↔ 0 < n ∧ (size 0 = 0 ∨ n ≤ size 0) := by
  constructor
  · intro h
    obtain ⟨hpos, hsize⟩ := h 0 n rfl
    exact ⟨hpos, hsize.elim (fun heq => .inr heq.le) And.right⟩
  · rintro ⟨hpos, hsize⟩ i m hm
    obtain ⟨hlt, rfl⟩ := List.getElem?_eq_some_iff.1 hm
    obtain rfl := Nat.lt_one_iff.1 hlt
    exact ⟨hpos, .inr ⟨rfl, hsize⟩⟩

theorem asked_cons_cons {size : Nat → Nat} {n m : Nat} {rest : List Nat} :
    Asked size (n :: m :: rest) ↔
      0 < n ∧ n = size 0 ∧ Asked (fun i => size (i + 1)) (m :: rest) := by
  constructor
  · intro h
    obtain ⟨hpos, hsize⟩ := h 0 n rfl
    refine ⟨hpos, hsize.resolve_right fun hlast => by simp at hlast, fun i k hk => ?_⟩
    obtain ⟨hpos, hsize⟩ := h (i + 1) k hk
    exact ⟨hpos, hsize.imp_right fun hlast => ⟨by simpa using hlast.1, hlast.2⟩⟩
  · rintro ⟨hpos, hsize, hrest⟩ i k hk
    cases i with
    | zero =>
      obtain rfl := Option.some.inj hk
      exact ⟨hpos, .inl hsize⟩
    | succ i =>
      obtain ⟨hpos, hsize⟩ := hrest i k hk
      exact ⟨hpos, hsize.imp_right fun hlast => ⟨by simpa using hlast.1, hlast.2⟩⟩

/-- The sizes that are asked for and add up to a count are those that the count is cut into. -/
theorem asked_iff {last : Nat} {sizes groups : List Nat} {count : Nat} (hpos : 0 < count) :
    Asked (sizeAfter last sizes) groups ∧ groups.sum = count ↔
      groups = groupSizesAfter last sizes count := by
  induction groups generalizing last sizes count with
  | nil =>
    have hlength := length_groupSizesAfter last sizes count
    constructor
    · rintro ⟨-, hsum⟩
      exact absurd hsum hpos.ne
    · intro hnil
      rw [← hnil, List.length_nil] at hlength
      omega
  | cons n rest ih =>
    rw [groupSizesAfter_eq, ← sizeAfter_zero]
    cases rest with
    | nil =>
      rw [asked_singleton, List.sum_singleton]
      constructor
      · rintro ⟨⟨-, hsize⟩, rfl⟩
        rw [if_pos hsize]
      · intro hgroups
        split_ifs at hgroups with hend
        · obtain rfl := List.singleton_inj.1 hgroups
          exact ⟨⟨hpos, hend⟩, rfl⟩
        · -- behind a full group there is another one
          have hlength := length_groupSizesAfter (sizeAfter last sizes 0) sizes.tail
            (count - sizeAfter last sizes 0)
          rw [← (List.cons_eq_cons.1 hgroups).2, List.length_nil] at hlength
          omega
    | cons m rest =>
      rw [asked_cons_cons, List.sum_cons]
      simp only [sizeAfter_succ]
      rw [← sizeAfter_zero]
      constructor
      · rintro ⟨⟨hn, hsize, hrest⟩, hsum⟩
        have hleft : 0 < (m :: rest).sum := by
          have hm := (hrest 0 m rfl).1
          rw [List.sum_cons]
          omega
        rw [if_neg (by omega), ← (ih (by omega)).1 ⟨hrest, by omega⟩, hsize]
      · intro hgroups
        split_ifs at hgroups with hend
        · cases hgroups
        · obtain ⟨hn, hrest⟩ := List.cons_eq_cons.1 hgroups
          obtain ⟨hasked, hsum⟩ := (ih (by omega)).2 hrest
          exact ⟨⟨by omega, hn, hasked⟩, by omega⟩

/-! ## Pieces -/

/-- The pieces of a run that the sizes ask for. A piece where zero is asked for would be empty, were
it not the leftmost one; so it is that one, and has all digits that are left. -/
structure IsCut (g : Grouping) (digits : List Char) (pieces : List (List Char)) : Prop where
  flatten : pieces.flatten = digits
  ne_nil : ∀ piece ∈ pieces, piece ≠ []
  /-- Counted from the right, a piece has the size of its place, but for the leftmost one. -/
  size : ∀ i piece, pieces.reverse[i]? = some piece →
    piece.length = g.sizeAt i ∨
      i + 1 = pieces.length ∧ (g.sizeAt i = 0 ∨ piece.length ≤ g.sizeAt i)

/-- Pieces are those asked for exactly if their sizes are. -/
theorem isCut_iff {g : Grouping} {digits : List Char} {pieces : List (List Char)} :
    g.IsCut digits pieces ↔
      pieces.flatten = digits ∧ Asked g.sizeAt (pieces.map List.length).reverse := by
  have hplace (i n : Nat) : (pieces.map List.length).reverse[i]? = some n ↔
      ∃ piece : List Char, pieces.reverse[i]? = some piece ∧ piece.length = n := by
    rw [← List.map_reverse, List.getElem?_map, Option.map_eq_some_iff]
  have hcount : (pieces.map List.length).reverse.length = pieces.length := by simp
  constructor
  · rintro ⟨hflatten, hne, hsize⟩
    refine ⟨hflatten, fun i n hn => ?_⟩
    obtain ⟨piece, hpiece, rfl⟩ := (hplace i n).1 hn
    have hmem : piece ∈ pieces := List.mem_reverse.1 (List.mem_of_getElem? hpiece)
    rw [hcount]
    exact ⟨List.length_pos_iff.2 (hne piece hmem), hsize i piece hpiece⟩
  · rintro ⟨hflatten, hasked⟩
    rw [Asked, hcount] at hasked
    refine ⟨hflatten, fun piece hmem => ?_, fun i piece hpiece => ?_⟩
    · obtain ⟨i, hi⟩ := List.mem_iff_getElem?.1 (List.mem_reverse.2 hmem)
      exact List.length_pos_iff.1 (hasked i _ ((hplace i _).2 ⟨piece, hi, rfl⟩)).1
    · exact (hasked i _ ((hplace i _).2 ⟨piece, hpiece, rfl⟩)).2

/-- Whatever the sizes are, there is one way to cut a run into the groups that are asked for. The
run with separators is these groups joined, and as long as is said of its digits. Cutting by
positions stays inside the run and comes to an end. -/
theorem apply_isCut (g : Grouping) {digits : List Char} (h : digits ≠ []) :
    (∀ pieces, g.IsCut digits pieces ↔ pieces = g.pieces digits) ∧
      g.apply digits = List.intercalate [g.separator] (g.pieces digits) ∧
      g.groupedLength digits.length = (g.apply digits).length ∧
      (Checked.applyGroups g digits : Checked Empty (List Char)) = .ok (g.apply digits) ∧
      (2 * digits.length + 1 < wordLimit →
        (Checked.groupedLength g digits.length : Checked Empty Nat) =
          .ok (g.apply digits).length) := by
  have hlength := g.length_apply digits
  refine ⟨fun pieces => ?_, rfl, hlength.symm, Checked.applyGroups_eq_ok g digits, fun hroom => ?_⟩
  · have hpos : 0 < digits.length := List.length_pos_iff.2 h
    have hsizes := g.map_length_pieces digits
    rw [isCut_iff, List.eq_iff_flatten_eq, g.flatten_pieces, hsizes, List.reverse_eq_iff.symm]
    refine and_congr_right fun hflatten => ?_
    have hsum : (pieces.map List.length).reverse.sum = digits.length := by
      rw [List.sum_reverse, ← List.length_flatten, hflatten]
    rw [groupSizes, ← asked_iff hpos]
    exact ⟨fun hasked => ⟨hasked, hsum⟩, And.left⟩
  · rw [Checked.groupedLength_eq_ok g hroom, hlength]

/-- A zero behind the first size, and more digits than that size. -/
theorem apply_isCut_ended :
    let g : Grouping := { separator := '.', sizes := [3, 0] }
    let digits := "123456789".toList
    digits ≠ [] ∧ g.IsCut digits ["123456".toList, "789".toList] ∧
      g.apply digits = "123456.789".toList ∧ g.groupedLength digits.length = 10 := by
  intro g digits
  have h : digits ≠ [] := by decide
  obtain ⟨hcut, happly, hlength, -, -⟩ := apply_isCut g h
  have hpieces : g.pieces digits = ["123456".toList, "789".toList] := by decide
  rw [hpieces] at happly
  exact ⟨h, (hcut _).2 hpieces.symm, happly, hlength.trans (congrArg List.length happly)⟩

end Stencil.Grouping
