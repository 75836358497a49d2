import Mathlib
import Stencil.Number.Digits.Lemmas

/-!
# Runs of digits as numbers

Arithmetic on digits is arithmetic on the numbers they denote, as long as every digit is below the
base (`InBase`).

* `value_lt_pow`, `value_inj` — a run denotes a number below a power of the base, and two runs of
  one length that denote the same number are the same.
* `ofNat_eq_digits` — the digits of a number are those of the standard library, most significant
  first.
* `value_increment` — adding one in the last place adds one, up to the carry.
* `trimLeading_eq`, `trimTrailing_eq` — what trimming removes is zeros.
* `length_trimLeading` — how many digits are left is how large the number is.
* `decimal_eq_toDigits`, `chars_eq_map_digitChar` — digits as characters are the standard ones.
-/

namespace Stencil.Digits

/-- Every digit of a run is below the base. -/
def InBase (base : Nat) (digits : List Nat) : Prop :=
  ∀ d ∈ digits, d < base

variable {base : Nat}

@[simp] theorem inBase_nil : InBase base [] := by
  intro d hd
  simp at hd

@[simp] theorem inBase_cons {d : Nat} {digits : List Nat} :
    InBase base (d :: digits) ↔ d < base ∧ InBase base digits :=
  List.forall_mem_cons

@[simp] theorem inBase_append {front back : List Nat} :
    InBase base (front ++ back) ↔ InBase base front ∧ InBase base back :=
  List.forall_mem_append

theorem InBase.sublist {short long : List Nat} (h : InBase base long) (hs : short.Sublist long) :
    InBase base short :=
  fun d hd => h d (hs.subset hd)

theorem InBase.mono {larger : Nat} (hle : base ≤ larger) {digits : List Nat}
    (h : InBase base digits) : InBase larger digits :=
  fun d hd => Nat.lt_of_lt_of_le (h d hd) hle

theorem inBase_replicate_zero (hb : 0 < base) (count : Nat) :
    InBase base (List.replicate count 0) := by
  intro d hd
  rw [List.eq_of_mem_replicate hd]
  exact hb

/-! ## The number of a run -/

@[simp] theorem value_nil : value base [] = 0 := rfl

theorem value_singleton (base d : Nat) : value base [d] = d := by
  simp [value]

theorem value_replicate_zero (base count : Nat) : value base (List.replicate count 0) = 0 := by
  induction count with
  | zero => rfl
  | succ count ih => rw [List.replicate_succ, value_cons, ih, Nat.zero_mul]

theorem value_eq_ofDigits (base : Nat) (digits : List Nat) :
    value base digits = Nat.ofDigits base digits.reverse := by
  induction digits with
  | nil => rfl
  | cons d digits ih =>
    rw [value_cons, ih, List.reverse_cons, Nat.ofDigits_append, Nat.ofDigits_singleton,
      List.length_reverse]
    ring

theorem value_lt_pow (hb : 1 < base) {digits : List Nat} (h : InBase base digits) :
    value base digits < base ^ digits.length := by
  rw [value_eq_ofDigits, ← List.length_reverse]
  exact Nat.ofDigits_lt_base_pow_length hb fun d hd => h d (List.mem_reverse.1 hd)

theorem value_eq_zero_iff (hb : 0 < base) {digits : List Nat} :
    value base digits = 0 ↔ allZero digits = true := by
  induction digits with
  | nil => simp [allZero]
  | cons d digits ih =>
    have hp : base ^ digits.length ≠ 0 := (Nat.pow_pos hb).ne'
    rw [value_cons, Nat.add_eq_zero_iff, ih, Nat.mul_eq_zero, or_iff_left hp]
    simp [allZero]

/-- Two runs of one length that denote the same number are the same. -/
theorem value_inj (hb : 1 < base) {first second : List Nat} (hf : InBase base first)
    (hs : InBase base second) (hlen : first.length = second.length)
    (h : value base first = value base second) : first = second := by
  rw [value_eq_ofDigits, value_eq_ofDigits] at h
  refine List.reverse_injective ?_
  exact Nat.ofDigits_inj_of_len_eq hb (by simpa using hlen)
    (fun d hd => hf d (List.mem_reverse.1 hd)) (fun d hd => hs d (List.mem_reverse.1 hd)) h

/-! ## The digits of a number -/

theorem ofNatAux_eq_digits (hb : 1 < base) (n : Nat) (known : List Nat) :
    ofNatAux base n known = (if n = 0 then [0] else (Nat.digits base n).reverse) ++ known := by
  fun_induction ofNatAux base n known with
  | case1 n known h =>
    have hlt : n < base := by omega
    by_cases h0 : n = 0
    · simp [h0]
    · rw [if_neg h0, Nat.digits_of_lt base n h0 hlt]
      rfl
  | case2 n known h ih =>
    have hle : base ≤ n := by omega
    have hn : n ≠ 0 := by omega
    have hq : n / base ≠ 0 := (Nat.div_pos hle (by omega)).ne'
    rw [ih, if_neg hq, if_neg hn, Nat.digits_def' hb (Nat.pos_of_ne_zero hn), List.reverse_cons,
      List.append_assoc, List.singleton_append]

/-- The digits of a number are those of the standard library, most significant first. -/
theorem ofNat_eq_digits (hb : 1 < base) (n : Nat) :
    ofNat base n = if n = 0 then [0] else (Nat.digits base n).reverse := by
  rw [ofNat, ofNatAux_eq_digits hb, List.append_nil]

theorem ofNat_ne_nil (hb : 1 < base) (n : Nat) : ofNat base n ≠ [] := by
  rw [ofNat_eq_digits hb]
  split_ifs with h
  · simp
  · rw [ne_eq, List.reverse_eq_nil_iff, Nat.digits_eq_nil_iff_eq_zero]
    exact h

theorem inBase_ofNat (hb : 1 < base) (n : Nat) : InBase base (ofNat base n) := by
  rw [ofNat_eq_digits hb]
  split_ifs with h
  · simp
    omega
  · intro d hd
    exact Nat.digits_lt_base hb (List.mem_reverse.1 hd)

theorem head_ofNat_ne_zero (hb : 1 < base) {n : Nat} (hn : n ≠ 0) :
    (ofNat base n).head? ≠ some 0 := by
  rw [ofNat_eq_digits hb, if_neg hn, List.head?_reverse, ne_eq, List.getLast?_eq_some_iff]
  rintro ⟨front, hfront⟩
  have hlast := Nat.getLast_digit_ne_zero base hn
  simp only [hfront, List.getLast_append_singleton] at hlast
  exact hlast rfl

/-- A number has at most as many digits as binary digits. -/
theorem length_ofNat_le {base : Nat} (hb : 1 < base) (n : Nat) :
    (ofNat base n).length ≤ n.log2 + 1 := by
  rw [ofNat_eq_digits hb]
  split_ifs
  · simp
  · rw [List.length_reverse, Nat.digits_length_le_iff hb]
    calc n < 2 ^ (n.log2 + 1) := Nat.lt_log2_self
      _ ≤ base ^ (n.log2 + 1) := Nat.pow_le_pow_left hb _

/-! ## Adding one -/

theorem addCarry_value (hb : 1 < base) {d : Nat} (hd : d < base) (carry : Bool) {run : List Nat}
    (hr : InBase base run) :
    let sum := addCarry base d (carry, run)
    InBase base sum.2 ∧ sum.2.length = run.length + 1 ∧
      value base sum.2 + sum.1.toNat * base ^ (run.length + 1) =
        (d + carry.toNat) * base ^ run.length + value base run := by
  cases carry with
  | false => exact ⟨inBase_cons.2 ⟨hd, hr⟩, rfl, by simp [addCarry, value_cons]⟩
  | true =>
    by_cases htop : d + 1 = base
    · simp only [addCarry, if_pos htop]
      refine ⟨inBase_cons.2 ⟨by omega, hr⟩, rfl, ?_⟩
      rw [value_cons, Bool.toNat_true, htop, pow_succ]
      ring
    · simp only [addCarry, if_neg htop]
      refine ⟨inBase_cons.2 ⟨by omega, hr⟩, rfl, ?_⟩
      rw [value_cons, Bool.toNat_true, Bool.toNat_false]
      ring

/-- One unit in the last place adds one; what leaves the run is worth a power of the base. -/
theorem value_increment (hb : 1 < base) {digits : List Nat} (h : InBase base digits) :
    InBase base (increment base digits).2 ∧
      (increment base digits).2.length = digits.length ∧
      value base (increment base digits).2 +
        (increment base digits).1.toNat * base ^ digits.length = value base digits + 1 := by
  induction digits with
  | nil => exact ⟨by simp [increment], rfl, by simp [increment]⟩
  | cons d digits ih =>
    obtain ⟨hd, hrest⟩ := inBase_cons.1 h
    obtain ⟨hib, hlen, hval⟩ := ih hrest
    have hstep : increment base (d :: digits) = addCarry base d (increment base digits) := rfl
    obtain ⟨hib', hlen', hval'⟩ := addCarry_value hb hd (increment base digits).1 hib
    rw [hstep]
    refine ⟨hib', by rw [hlen', hlen, List.length_cons], ?_⟩
    rw [hlen] at hval'
    rw [List.length_cons, hval', value_cons]
    have hsum : (d + (increment base digits).1.toNat) * base ^ digits.length +
        value base (increment base digits).2 = d * base ^ digits.length +
          (value base (increment base digits).2 +
            (increment base digits).1.toNat * base ^ digits.length) := by ring
    rw [hsum, hval, Nat.add_assoc]

/-- A carry leaves the run only if the run overflows to zeros. -/
theorem increment_carry (hb : 1 < base) {digits : List Nat} (h : InBase base digits)
    (hc : (increment base digits).1 = true) :
    value base digits + 1 = base ^ digits.length ∧
      (increment base digits).2 = List.replicate digits.length 0 := by
  obtain ⟨hib, hlen, hval⟩ := value_increment hb h
  have hlt := value_lt_pow hb h
  rw [hc, Bool.toNat_true, Nat.one_mul] at hval
  refine ⟨by omega, value_inj hb hib (inBase_replicate_zero (by omega) _) (by simpa using hlen) ?_⟩
  rw [value_replicate_zero]
  omega

/-! ## Trimming and padding -/

theorem trimLeading_cons_of_ne {d : Nat} (hd : d ≠ 0) (digits : List Nat) :
    trimLeading (d :: digits) = d :: digits := by
  simp [trimLeading, hd]

/-- What is trimmed at the front is zeros. -/
theorem trimLeading_eq (digits : List Nat) :
    ∃ count, digits = List.replicate count 0 ++ trimLeading digits := by
  induction digits with
  | nil => exact ⟨0, rfl⟩
  | cons d digits ih =>
    by_cases hd : d = 0
    · subst hd
      obtain ⟨count, hcount⟩ := ih
      refine ⟨count + 1, ?_⟩
      have ht : trimLeading (0 :: digits) = trimLeading digits := by simp [trimLeading]
      rw [ht, List.replicate_succ, List.cons_append, ← hcount]
    · exact ⟨0, by rw [trimLeading_cons_of_ne hd]; rfl⟩

theorem head_trimLeading_ne_zero (digits : List Nat) : (trimLeading digits).head? ≠ some 0 := by
  intro h
  have hhead := List.head?_dropWhile_not (fun d : Nat => d == 0) digits
  rw [trimLeading] at h
  rw [h] at hhead
  simp at hhead

theorem value_trimLeading (base : Nat) (digits : List Nat) :
    value base (trimLeading digits) = value base digits := by
  obtain ⟨count, hcount⟩ := trimLeading_eq digits
  conv_rhs => rw [hcount]
  rw [value_append, value_replicate_zero, Nat.zero_mul, Nat.zero_add]

/-- What is trimmed at the end is zeros. -/
theorem trimTrailing_eq (digits : List Nat) :
    ∃ count, digits = trimTrailing digits ++ List.replicate count 0 := by
  obtain ⟨count, hcount⟩ := trimLeading_eq digits.reverse
  refine ⟨count, ?_⟩
  have h := congrArg List.reverse hcount
  rwa [List.reverse_reverse, List.reverse_append, List.reverse_replicate] at h

theorem trimTrailing_sublist (digits : List Nat) : (trimTrailing digits).Sublist digits := by
  obtain ⟨count, hcount⟩ := trimTrailing_eq digits
  conv_rhs => rw [hcount]
  exact List.sublist_append_left _ _

theorem trimTrailing_trimTrailing (digits : List Nat) :
    trimTrailing (trimTrailing digits) = trimTrailing digits := by
  rw [trimTrailing, trimTrailing, List.reverse_reverse, trimLeading, trimLeading,
    List.dropWhile_idempotent]

theorem getLast_trimTrailing_ne_zero (digits : List Nat) :
    (trimTrailing digits).getLast? ≠ some 0 := by
  rw [trimTrailing, List.getLast?_reverse]
  exact head_trimLeading_ne_zero digits.reverse

/-- A run that does not start with a zero denotes at least the power of its length less one. -/
theorem pow_le_value (base : Nat) {digits : List Nat} (hne : digits ≠ [])
    (hhead : digits.head? ≠ some 0) :
    base ^ (digits.length - 1) ≤ value base digits := by
  cases digits with
  | nil => exact absurd rfl hne
  | cons d digits =>
    have hd : 1 ≤ d := Nat.pos_of_ne_zero fun h => hhead (by rw [h, List.head?_cons])
    rw [value_cons, List.length_cons, Nat.add_sub_cancel]
    calc base ^ digits.length = 1 * base ^ digits.length := (one_mul _).symm
      _ ≤ d * base ^ digits.length := Nat.mul_le_mul_right _ hd
      _ ≤ _ := Nat.le_add_right _ _

/-- A number between two powers has as many digits from its first one that is not zero. -/
theorem length_trimLeading (hb : 1 < base) {digits : List Nat} (h : InBase base digits) {k : Nat}
    (hlow : base ^ k ≤ value base digits) (hhigh : value base digits < base ^ (k + 1)) :
    (trimLeading digits).length = k + 1 := by
  have hin : InBase base (trimLeading digits) := h.sublist (List.dropWhile_sublist _)
  have hlt := value_lt_pow hb hin
  rw [← value_trimLeading] at hlow hhigh
  have hlong : k < (trimLeading digits).length :=
    (Nat.pow_lt_pow_iff_right hb).1 (Nat.lt_of_le_of_lt hlow hlt)
  have hne : trimLeading digits ≠ [] := List.length_pos_iff.1 (by omega)
  have hge := pow_le_value base hne (head_trimLeading_ne_zero digits)
  have hshort := (Nat.pow_lt_pow_iff_right hb).1 (Nat.lt_of_le_of_lt hge hhigh)
  omega

theorem value_padTrailing (base length : Nat) (digits : List Nat) :
    value base (padTrailing length digits) =
      value base digits * base ^ (length - digits.length) := by
  rw [padTrailing, value_append, value_replicate_zero, List.length_replicate, Nat.add_zero]

theorem length_padTrailing (length : Nat) (digits : List Nat) :
    (padTrailing length digits).length = max length digits.length := by
  simp [padTrailing]
  omega

theorem inBase_padTrailing (hb : 0 < base) (length : Nat) {digits : List Nat}
    (h : InBase base digits) : InBase base (padTrailing length digits) :=
  inBase_append.2 ⟨h, inBase_replicate_zero hb _⟩

/-! ## Digits as characters -/

theorem char_eq_digitChar {d : Nat} (hd : d < 16) : char d = Nat.digitChar d := by
  have h : ∀ d < 16, char d = Nat.digitChar d := by decide
  exact h d hd

theorem chars_eq_map_digitChar {digits : List Nat} (h : InBase 16 digits) :
    chars digits = digits.map Nat.digitChar :=
  List.map_congr_left fun d hd => char_eq_digitChar (h d hd)

/-- A number in plain decimal, as the standard library writes it. -/
theorem decimal_eq_toDigits (n : Nat) : decimal n = Nat.toDigits 10 n := by
  have haux (n : Nat) (known : List Nat) :
      chars (ofNatAux 10 n known) = Nat.toDigits 10 n ++ chars known := by
    fun_induction ofNatAux 10 n known with
    | case1 n known h =>
      have hlt : n < 10 := by omega
      rw [Nat.toDigits_of_lt_base hlt, chars, List.map_cons, char_eq_digitChar (by omega)]
      rfl
    | case2 n known h ih =>
      have hm : n % 10 < 16 := by omega
      have hle : 10 ≤ n := by omega
      rw [ih, Nat.toDigits_of_base_le (by omega) hle, chars, List.map_cons,
        char_eq_digitChar hm, List.append_assoc]
      rfl
  rw [decimal, ofNat, haux]
  simp [chars]

end Stencil.Digits
