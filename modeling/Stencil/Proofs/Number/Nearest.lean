import Mathlib
import Stencil.Number.Shortest
import Stencil.Proofs.Number.Binary64

/-!
# The double that a number is read as

A number is read as the double that is nearest to it; of two that are equally near, as the one with
an even significand. The numbers that are read as one double form an interval around it, whose ends
lie halfway to its neighbours.

* `Reads` — a double is what a number is read as.
* `exists_of_canonical` — every significand over every scale is that of a double.
* `next_le`, `le_previous` — there is no double between a double and its neighbours.
* `Covers`, `reads_iff_covers` — the interval of the numbers that are read as a double.
* `Reads.magnitude_eq` — a number is read as one double only, up to the sign.
-/

namespace Stencil.Binary64

/-! ## Reading a number -/

/-- From here on numbers are read as infinity: halfway from the greatest double to the next power
of two. -/
def overflowLimit : ℚ := 2 ^ 1024 - 2 ^ 970

/-- A double, regardless of its sign, is what a number is read as: no other double is nearer, and
one that is equally near only if the significand is even. -/
structure Reads (x : Binary64) (r : ℚ) : Prop where
  finite : x.isFinite = true
  lt_limit : r < overflowLimit
  nearest : ∀ y : Binary64, y.isFinite = true → |x.magnitude - r| ≤ |y.magnitude - r|
  even : ∀ y : Binary64, y.isFinite = true → y.magnitude ≠ x.magnitude →
    |y.magnitude - r| = |x.magnitude - r| → 2 ∣ x.significand

/-! ## Which is nearer -/

section

variable {a b r : ℚ}

theorem abs_sub_le_iff_le_half (h : a < b) : |a - r| ≤ |b - r| ↔ r ≤ (a + b) / 2 := by
  rcases abs_cases (a - r) with ⟨ha, ha'⟩ | ⟨ha, ha'⟩ <;>
    rcases abs_cases (b - r) with ⟨hb, hb'⟩ | ⟨hb, hb'⟩ <;> rw [ha, hb] <;>
    constructor <;> intro h' <;> linarith

theorem abs_sub_le_iff_half_le (h : a < b) : |b - r| ≤ |a - r| ↔ (a + b) / 2 ≤ r := by
  rcases abs_cases (a - r) with ⟨ha, ha'⟩ | ⟨ha, ha'⟩ <;>
    rcases abs_cases (b - r) with ⟨hb, hb'⟩ | ⟨hb, hb'⟩ <;> rw [ha, hb] <;>
    constructor <;> intro h' <;> linarith

end

/-! ## All doubles -/

theorem scale_le_of_isFinite {x : Binary64} (h : x.isFinite = true) : x.scale ≤ 971 := by
  have hlt : x.storedExponent < 2048 := Nat.mod_lt _ (by decide)
  rw [isFinite, bne_iff_ne] at h
  unfold scale
  split_ifs <;> omega

/-- Every significand over every scale is that of a double. -/
theorem exists_of_canonical {m : Nat} {e : Int} (h : Canonical m e) (he : e ≤ 971) :
    ∃ x : Binary64, x.isFinite = true ∧ x.significand = m ∧ x.scale = e := by
  obtain ⟨hlt, hleast, hlead⟩ := h
  -- the fields that are stored, and the bits that hold them
  have hpack (exponent fraction : Nat) (hexponent : exponent < 2047)
      (hfraction : fraction < 2 ^ 52) :
      ∃ x : Binary64, x.storedExponent = exponent ∧ x.storedFraction = fraction := by
    have hbits : exponent * 2 ^ 52 + fraction < 2 ^ 64 := by omega
    refine ⟨⟨UInt64.ofNat (exponent * 2 ^ 52 + fraction)⟩, ?_, ?_⟩
    · simp only [storedExponent, UInt64.toNat_ofNat', Nat.pow_eq]
      omega
    · simp only [storedFraction, UInt64.toNat_ofNat', Nat.pow_eq]
      omega
  by_cases hsub : m < 2 ^ 52
  · obtain ⟨x, hexponent, hfraction⟩ := hpack 0 m (by omega) hsub
    refine ⟨x, ?_, ?_, ?_⟩
    · simp [isFinite, hexponent]
    · rw [significand, if_pos hexponent, hfraction]
    · rw [scale, if_pos hexponent]
      omega
  · obtain ⟨x, hexponent, hfraction⟩ :=
      hpack (e + 1075).toNat (m - 2 ^ 52) (by omega) (by omega)
    have hne : x.storedExponent ≠ 0 := by omega
    refine ⟨x, ?_, ?_, ?_⟩
    · simp only [isFinite, bne_iff_ne]
      omega
    · rw [significand, if_neg hne, hfraction, Nat.pow_eq]
      omega
    · rw [scale, if_neg hne]
      omega

/-! ## Neighbours -/

/-- The gap below a double is half as wide if the significand is the least over its scale. -/
theorem narrowBelow_iff (x : Binary64) :
    x.narrowBelow = true ↔ x.significand = 2 ^ 52 ∧ -1074 < x.scale := by
  have hf : x.storedFraction < 2 ^ 52 := Nat.mod_lt _ (by decide)
  simp only [narrowBelow, Bool.and_eq_true, beq_iff_eq, decide_eq_true_iff, significand, scale,
    Nat.pow_eq]
  split_ifs <;> omega

/-- How far it is to the double below, in units of the last place. -/
def gapBelow (x : Binary64) : ℚ :=
  if x.narrowBelow then 1 / 2 else 1

/-- The double above, or the power of two that would follow the greatest one. -/
def next (x : Binary64) : ℚ :=
  (x.significand + 1) * 2 ^ x.scale

/-- The double below one that is not zero. -/
def previous (x : Binary64) : ℚ :=
  (x.significand - x.gapBelow) * 2 ^ x.scale

theorem scale_pos (x : Binary64) : (0 : ℚ) < 2 ^ x.scale :=
  zpow_pos two_pos _

theorem magnitude_lt_next (x : Binary64) : x.magnitude < x.next := by
  rw [magnitude_eq, next]
  exact mul_lt_mul_of_pos_right (lt_add_one _) x.scale_pos

theorem gapBelow_pos (x : Binary64) : 0 < x.gapBelow := by
  unfold gapBelow
  split_ifs <;> norm_num

theorem previous_lt_magnitude (x : Binary64) : x.previous < x.magnitude := by
  rw [magnitude_eq, previous]
  exact mul_lt_mul_of_pos_right (sub_lt_self _ x.gapBelow_pos) x.scale_pos

/-- Over a scale that is not greater, a number is a whole count of units. -/
theorem exists_count {m : Nat} {e e' : Int} (h : e ≤ e') :
    ∃ count : Nat, (m : ℚ) * 2 ^ e' = count * 2 ^ e := by
  obtain ⟨k, rfl⟩ := Int.le.dest h
  refine ⟨m * 2 ^ k, ?_⟩
  rw [zpow_add₀ two_ne_zero, zpow_natCast]
  push_cast
  ring

/-- Over a smaller scale no double comes near the least one over the greater scale. -/
theorem mul_scale_le {m : Nat} {e e' : Int} (hm : m < 2 ^ 53) (h : e' < e) :
    (m : ℚ) * 2 ^ e' ≤ (2 ^ 52 - 1 / 2) * 2 ^ e := by
  have hm' : (m : ℚ) ≤ 2 ^ 53 - 1 := le_sub_iff_add_le.2 (by exact_mod_cast hm)
  have hscale : (2 : ℚ) ^ e' ≤ 2 ^ (e - 1) := zpow_le_zpow_right₀ one_le_two (by omega)
  calc (m : ℚ) * 2 ^ e' ≤ (2 ^ 53 - 1) * 2 ^ (e - 1) :=
        mul_le_mul hm' hscale (zpow_nonneg zero_le_two _) (by norm_num)
    _ = (2 ^ 52 - 1 / 2) * 2 ^ e := by
      rw [zpow_sub_one₀ two_ne_zero]
      ring

/-- No double lies between a double and the next. -/
theorem next_le {x y : Binary64} (h : x.magnitude < y.magnitude) : x.next ≤ y.magnitude := by
  have hpos := x.scale_pos
  rw [magnitude_eq, magnitude_eq] at h
  rw [next, magnitude_eq]
  rcases le_or_gt x.scale y.scale with hle | hlt
  · obtain ⟨count, hcount⟩ := exists_count (m := y.significand) hle
    rw [hcount] at h ⊢
    have hsucc : x.significand + 1 ≤ count := by exact_mod_cast lt_of_mul_lt_mul_right h hpos.le
    refine mul_le_mul_of_nonneg_right ?_ hpos.le
    exact_mod_cast hsucc
  · have hsmall := mul_scale_le y.canonical.lt hlt
    have hlead := x.canonical.le_of_lt (lt_of_le_of_lt y.canonical.least_le hlt)
    have hlead' : (2 : ℚ) ^ 52 ≤ x.significand := by exact_mod_cast hlead
    nlinarith

/-- No double lies between a double and the previous one. -/
theorem le_previous {x y : Binary64} (h : y.magnitude < x.magnitude) :
    y.magnitude ≤ x.previous := by
  have hpos := x.scale_pos
  rw [magnitude_eq, magnitude_eq] at h
  rw [previous, magnitude_eq]
  rcases le_or_gt x.scale y.scale with hle | hlt
  · obtain ⟨count, hcount⟩ := exists_count (m := y.significand) hle
    rw [hcount] at h ⊢
    have hsucc : count + 1 ≤ x.significand := by exact_mod_cast lt_of_mul_lt_mul_right h hpos.le
    have hsucc' : (count : ℚ) + 1 ≤ x.significand := by exact_mod_cast hsucc
    refine mul_le_mul_of_nonneg_right ?_ hpos.le
    unfold gapBelow
    split_ifs <;> linarith
  · have hsmall := mul_scale_le y.canonical.lt hlt
    have hscale := lt_of_le_of_lt y.canonical.least_le hlt
    have hlead := x.canonical.le_of_lt hscale
    refine hsmall.trans (mul_le_mul_of_nonneg_right ?_ hpos.le)
    unfold gapBelow
    split_ifs with hnarrow
    · rw [((narrowBelow_iff x).1 hnarrow).1]
      norm_num
    · have hne : x.significand ≠ 2 ^ 52 := fun heq => hnarrow ((narrowBelow_iff x).2 ⟨heq, hscale⟩)
      have hlead' : (2 : ℚ) ^ 52 + 1 ≤ x.significand := by
        have : 2 ^ 52 + 1 ≤ x.significand := by omega
        exact_mod_cast this
      linarith

/-- The next number is a double, unless it is the power of two above all doubles. -/
theorem exists_next {x : Binary64} (hx : x.isFinite = true)
    (h : x.significand + 1 < 2 ^ 53 ∨ x.scale < 971) :
    ∃ y : Binary64, y.isFinite = true ∧ y.magnitude = x.next := by
  have hcanonical := x.canonical
  have hlt := hcanonical.lt
  by_cases hfull : x.significand + 1 < 2 ^ 53
  · have hlead := hcanonical.le_of_lt
    obtain ⟨y, hy, hm, he⟩ := exists_of_canonical (m := x.significand + 1) (e := x.scale)
      ⟨hfull, hcanonical.least_le, fun hscale => by have := hlead hscale; omega⟩
      (scale_le_of_isFinite hx)
    exact ⟨y, hy, by rw [magnitude_eq, hm, he, next, Nat.cast_succ]⟩
  · obtain ⟨y, hy, hm, he⟩ := exists_of_canonical (m := 2 ^ 52) (e := x.scale + 1)
      ⟨by norm_num, by have := hcanonical.least_le; omega, fun _ => le_refl _⟩ (by omega)
    refine ⟨y, hy, ?_⟩
    have hm' : (x.significand : ℚ) + 1 = 2 ^ 53 := by
      have : x.significand + 1 = 2 ^ 53 := by omega
      exact_mod_cast this
    rw [magnitude_eq, hm, he, next, hm', zpow_add_one₀ two_ne_zero]
    push_cast
    ring

/-- The previous number of a double other than zero is a double. -/
theorem exists_previous {x : Binary64} (hx : x.isFinite = true) (h : x.significand ≠ 0) :
    ∃ y : Binary64, y.isFinite = true ∧ y.magnitude = x.previous := by
  have hcanonical := x.canonical
  have hlt := hcanonical.lt
  have hscale := scale_le_of_isFinite hx
  by_cases hnarrow : x.narrowBelow = true
  · obtain ⟨hlead, hleast⟩ := (narrowBelow_iff x).1 hnarrow
    obtain ⟨y, hy, hm, he⟩ := exists_of_canonical (m := 2 ^ 53 - 1) (e := x.scale - 1)
      ⟨by norm_num, by omega, fun _ => by norm_num⟩ (by omega)
    refine ⟨y, hy, ?_⟩
    rw [magnitude_eq, hm, he, previous, gapBelow, if_pos hnarrow, hlead,
      zpow_sub_one₀ two_ne_zero]
    norm_num
    ring
  · have hlead : -1074 < x.scale → 2 ^ 52 < x.significand := fun hleast =>
      lt_of_le_of_ne (hcanonical.le_of_lt hleast)
        fun heq => hnarrow ((narrowBelow_iff x).2 ⟨heq.symm, hleast⟩)
    obtain ⟨y, hy, hm, he⟩ := exists_of_canonical (m := x.significand - 1) (e := x.scale)
      ⟨by omega, hcanonical.least_le, fun hleast => by have := hlead hleast; omega⟩ hscale
    refine ⟨y, hy, ?_⟩
    rw [magnitude_eq, hm, he, previous, gapBelow, if_neg hnarrow, Nat.cast_pred (by omega)]

/-! ## The interval -/

/-- The lower end of the numbers that are read as a double. -/
def lowEnd (x : Binary64) : ℚ :=
  x.lowQuarters * 2 ^ (x.scale - 2)

/-- The upper end of the numbers that are read as a double. -/
def highEnd (x : Binary64) : ℚ :=
  x.highQuarters * 2 ^ (x.scale - 2)

/-- A number lies in the interval of a double, which has its ends if the significand is even. -/
def Covers (x : Binary64) (r : ℚ) : Prop :=
  if x.significand % 2 = 0 then x.lowEnd ≤ r ∧ r ≤ x.highEnd else x.lowEnd < r ∧ r < x.highEnd

theorem quarter_scale (x : Binary64) : (2 : ℚ) ^ (x.scale - 2) = 2 ^ x.scale / 4 := by
  rw [zpow_sub₀ two_ne_zero]
  norm_num

/-- The upper end is halfway to the next double. -/
theorem highEnd_eq (x : Binary64) : x.highEnd = (x.magnitude + x.next) / 2 := by
  rw [highEnd, highQuarters, quarters, quarter_scale, magnitude_eq, next]
  push_cast
  ring

/-- The lower end is halfway to the previous double. -/
theorem lowEnd_eq {x : Binary64} (h : x.significand ≠ 0) :
    x.lowEnd = (x.previous + x.magnitude) / 2 := by
  have hquarters : (x.lowQuarters : ℚ) = 4 * x.significand - 2 * x.gapBelow := by
    unfold lowQuarters quarters gapBelow
    split_ifs
    · rw [Nat.cast_sub (by omega)]
      push_cast
      ring
    · rw [Nat.cast_sub (by omega)]
      push_cast
      ring
  rw [lowEnd, hquarters, quarter_scale, magnitude_eq, previous]
  ring

theorem lowEnd_of_zero {x : Binary64} (h : x.significand = 0) : x.lowEnd = 0 := by
  rw [lowEnd, lowQuarters, quarters, h]
  simp

theorem magnitude_lt_highEnd (x : Binary64) : x.magnitude < x.highEnd := by
  have := x.magnitude_lt_next
  rw [highEnd_eq]
  linarith

theorem overflowLimit_eq : overflowLimit = (2 ^ 53 - 1 / 2) * 2 ^ (971 : ℤ) := by
  have hlarge : (2 : ℚ) ^ 1024 = 2 ^ 54 * 2 ^ 970 := by rw [← pow_add]
  have hsmall : (2 : ℚ) ^ (971 : ℤ) = 2 * 2 ^ 970 := by rw [← pow_succ']; rfl
  rw [overflowLimit, hlarge, hsmall]
  generalize (2 : ℚ) ^ 970 = p
  ring

theorem highEnd_eq_mul (x : Binary64) : x.highEnd = (x.significand + 1 / 2) * 2 ^ x.scale := by
  rw [highEnd_eq, magnitude_eq, next]
  ring

/-- The interval of the greatest double ends where infinity begins. -/
theorem highEnd_le_overflowLimit {x : Binary64} (hx : x.isFinite = true) :
    x.highEnd ≤ overflowLimit ∧ (x.significand % 2 = 0 → x.highEnd < overflowLimit) := by
  have hlt := x.canonical.lt
  have hscale : (2 : ℚ) ^ x.scale ≤ 2 ^ (971 : ℤ) :=
    zpow_le_zpow_right₀ one_le_two (scale_le_of_isFinite hx)
  have htop : (0 : ℚ) < 2 ^ (971 : ℤ) := zpow_pos two_pos _
  -- as many significands fit below a bound as below the limit, counted over the greatest scale
  have hbound (bound : ℚ) (h : (x.significand : ℚ) + 1 / 2 ≤ bound) :
      x.highEnd ≤ bound * 2 ^ (971 : ℤ) := by
    rw [highEnd_eq_mul]
    have hnonneg : (0 : ℚ) ≤ x.significand + 1 / 2 :=
      add_nonneg (Nat.cast_nonneg _) one_half_pos.le
    exact mul_le_mul h hscale x.scale_pos.le (hnonneg.trans h)
  rw [overflowLimit_eq]
  constructor
  · refine hbound _ ?_
    have hm : (x.significand : ℚ) + 1 ≤ 2 ^ 53 := by exact_mod_cast hlt
    linarith
  · intro heven
    have hm : (x.significand : ℚ) + 2 ≤ 2 ^ 53 := by
      have : x.significand + 2 ≤ 2 ^ 53 := by omega
      exact_mod_cast this
    refine lt_of_le_of_lt (hbound (2 ^ 53 - 3 / 2) (by linarith)) ?_
    exact mul_lt_mul_of_pos_right (by norm_num) htop

namespace Reads

variable {x y : Binary64} {r : ℚ}

/-- A number that is read as a double does not lie above its interval. -/
theorem le_highEnd (h : x.Reads r) : r ≤ x.highEnd ∧ (x.significand % 2 = 1 → r < x.highEnd) := by
  by_cases htop : x.significand + 1 < 2 ^ 53 ∨ x.scale < 971
  · obtain ⟨y, hy, hnext⟩ := exists_next h.finite htop
    have hlt := x.magnitude_lt_next
    have hle : r ≤ x.highEnd := by
      have hnearest := h.nearest y hy
      rw [hnext, abs_sub_le_iff_le_half hlt] at hnearest
      rwa [highEnd_eq]
    refine ⟨hle, fun hodd => lt_of_le_of_ne hle fun heq => ?_⟩
    have htie : |y.magnitude - r| = |x.magnitude - r| := by
      refine le_antisymm ?_ (h.nearest y hy)
      rw [hnext, abs_sub_le_iff_half_le hlt, ← highEnd_eq, heq]
    have heven := h.even y hy (by rw [hnext]; exact hlt.ne') htie
    omega
  · -- above the greatest double there is nothing but infinity
    have hlt := x.canonical.lt
    have hscale := scale_le_of_isFinite h.finite
    have hm : (x.significand : ℚ) + 1 = 2 ^ 53 := by
      have : x.significand + 1 = 2 ^ 53 := by omega
      exact_mod_cast this
    have he : x.scale = 971 := by omega
    have hlimit : x.highEnd = overflowLimit := by
      rw [highEnd_eq_mul, overflowLimit_eq, he]
      congr 1
      linarith
    rw [hlimit]
    exact ⟨h.lt_limit.le, fun _ => h.lt_limit⟩

/-- A number that is read as a double does not lie below its interval. -/
theorem lowEnd_le (h : x.Reads r) (hr : 0 ≤ r) :
    x.lowEnd ≤ r ∧ (x.significand % 2 = 1 → x.lowEnd < r) := by
  by_cases hzero : x.significand = 0
  · rw [lowEnd_of_zero hzero]
    exact ⟨hr, by omega⟩
  · obtain ⟨y, hy, hprevious⟩ := exists_previous h.finite hzero
    have hlt := x.previous_lt_magnitude
    have hle : x.lowEnd ≤ r := by
      have hnearest := h.nearest y hy
      rw [hprevious, abs_sub_le_iff_half_le hlt] at hnearest
      rwa [lowEnd_eq hzero]
    refine ⟨hle, fun hodd => lt_of_le_of_ne hle fun heq => ?_⟩
    have htie : |y.magnitude - r| = |x.magnitude - r| := by
      refine le_antisymm ?_ (h.nearest y hy)
      rw [hprevious, abs_sub_le_iff_le_half hlt, ← lowEnd_eq hzero, heq]
    have heven := h.even y hy (by rw [hprevious]; exact hlt.ne) htie
    omega

/-- Of two doubles that are equally near only one has an even significand. -/
theorem not_lt (hx : x.Reads r) (hy : y.Reads r) : ¬x.magnitude < y.magnitude := by
  intro hlt
  have htie := le_antisymm (hx.nearest y hy.finite) (hy.nearest x hx.finite)
  have hxeven := hx.even y hy.finite hlt.ne' htie.symm
  have hyeven := hy.even x hx.finite hlt.ne htie
  -- the number lies halfway between the two, so that the second one is next to the first
  have hhalf : (x.magnitude + y.magnitude) / 2 ≤ r := (abs_sub_le_iff_half_le hlt).1 htie.ge
  have hhigh := hx.le_highEnd.1
  rw [highEnd_eq] at hhigh
  have hnext : y.magnitude = x.next := le_antisymm (by linarith) (next_le hlt)
  have hcanonical := x.canonical
  have hlimit := hcanonical.lt
  have hlead := hcanonical.le_of_lt
  have hsucc : Canonical (x.significand + 1) x.scale :=
    ⟨by omega, hcanonical.least_le, fun hscale => by have := hlead hscale; omega⟩
  have hsame : (y.significand : ℚ) * 2 ^ y.scale = (x.significand + 1 : Nat) * 2 ^ x.scale := by
    rw [← Binary64.magnitude_eq, hnext, next, Nat.cast_succ]
  have := (y.canonical.unique hsucc hsame).1
  omega

/-- What is read as a double lies in its interval. -/
theorem covers (h : x.Reads r) (hr : 0 ≤ r) : x.Covers r := by
  obtain ⟨hhigh, hhigh'⟩ := h.le_highEnd
  obtain ⟨hlow, hlow'⟩ := h.lowEnd_le hr
  unfold Covers
  split_ifs with hparity
  · exact ⟨hlow, hhigh⟩
  · exact ⟨hlow' (by omega), hhigh' (by omega)⟩

/-- A number is read as one double only, up to the sign. -/
theorem magnitude_eq (hx : x.Reads r) (hy : y.Reads r) : x.magnitude = y.magnitude :=
  le_antisymm (le_of_not_gt (hy.not_lt hx)) (le_of_not_gt (hx.not_lt hy))

end Reads

namespace Covers

variable {x y : Binary64} {r : ℚ}

theorem bounds (h : x.Covers r) : x.lowEnd ≤ r ∧ r ≤ x.highEnd := by
  unfold Covers at h
  split_ifs at h
  · exact h
  · exact ⟨h.1.le, h.2.le⟩

theorem strict (h : x.Covers r) (hodd : x.significand % 2 ≠ 0) :
    x.lowEnd < r ∧ r < x.highEnd := by
  rwa [Covers, if_neg hodd] at h

theorem lt_overflowLimit (h : x.Covers r) (hx : x.isFinite = true) : r < overflowLimit := by
  obtain ⟨hle, hlt⟩ := highEnd_le_overflowLimit hx
  by_cases hparity : x.significand % 2 = 0
  · exact lt_of_le_of_lt h.bounds.2 (hlt hparity)
  · exact lt_of_lt_of_le (h.strict hparity).2 hle

/-- No other double is nearer to a number of the interval: it would have to be nearer than the
neighbour on its side. -/
theorem abs_sub_le (h : x.Covers r) (hne : y.magnitude ≠ x.magnitude) :
    |x.magnitude - r| ≤ |y.magnitude - r| ∧
      (x.significand % 2 ≠ 0 → |x.magnitude - r| < |y.magnitude - r|) := by
  obtain ⟨hlow, hhigh⟩ := h.bounds
  rcases lt_or_gt_of_ne hne with hlt | hgt
  · have hzero : x.significand ≠ 0 := by
      intro hzero
      rw [x.magnitude_eq, hzero, Nat.cast_zero, zero_mul] at hlt
      exact absurd hlt (not_lt.2 y.magnitude_nonneg)
    have hprevious := le_previous hlt
    rw [lowEnd_eq hzero] at hlow
    refine ⟨(abs_sub_le_iff_half_le hlt).2 (by linarith), fun hodd => ?_⟩
    have hlow' := (h.strict hodd).1
    rw [lowEnd_eq hzero] at hlow'
    rw [← not_le, abs_sub_le_iff_le_half hlt]
    linarith
  · have hnext := next_le hgt
    rw [highEnd_eq] at hhigh
    refine ⟨(abs_sub_le_iff_le_half hgt).2 (by linarith), fun hodd => ?_⟩
    have hhigh' := (h.strict hodd).2
    rw [highEnd_eq] at hhigh'
    rw [← not_le, abs_sub_le_iff_half_le hgt]
    linarith

/-- What lies in the interval of a double is read as it. -/
theorem reads (h : x.Covers r) (hx : x.isFinite = true) : x.Reads r where
  finite := hx
  lt_limit := h.lt_overflowLimit hx
  nearest y _ := by
    by_cases hsame : y.magnitude = x.magnitude
    · rw [hsame]
    · exact (h.abs_sub_le hsame).1
  even y _ hne htie := by
    by_contra hodd
    have hnear := (h.abs_sub_le hne).2 (by omega)
    exact hnear.ne htie.symm

end Covers

/-- The numbers that are read as a double are those of its interval. -/
theorem reads_iff_covers {x : Binary64} (hx : x.isFinite = true) {r : ℚ} (hr : 0 ≤ r) :
    x.Reads r ↔ x.Covers r :=
  ⟨fun h => h.covers hr, fun h => h.reads hx⟩

end Stencil.Binary64
