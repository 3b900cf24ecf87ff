import RadarTimeline.Proofs.Expr.ValueText
import RadarTimeline.Proofs.Number.Integers

namespace RadarTimeline.Number

open Float.Model Float.Model.UnpackedFloat

variable {b : Binary} {n : ℕ} {a : ℤ} {x : Float}

/-- The parts of a natural number with at most 53 digits. -/
structure Binary.Whole (b : Binary) (n : ℕ) : Prop where
  full : leading ≤ b.mantissa
  lt : b.mantissa < 2 * leading
  least : -52 ≤ b.exponent
  greatest : b.exponent ≤ 0
  value : (b.mantissa * 2 ^ b.exponent : ℚ) = n

theorem digitChars_mul_pow (hn : 0 < n) (k : ℕ) :
    digitChars (n * 10 ^ k) = digitChars n ++ zeros k := by
  induction k with
  | zero => simp [zeros]
  | succ k ih =>
    have hstep := Nat.toDigits_append_toDigits (b := 10) (n := n * 10 ^ k) (d := 0) (by decide)
      (by positivity) (by decide)
    rw [pow_succ, ← mul_assoc, mul_comm _ 10]
    refine hstep.symm.trans ?_
    rw [digitChars] at ih
    rw [ih, zeros, zeros, List.replicate_succ', List.append_assoc]
    rfl

/-- A whole decimal below `10 ^ 21` is laid out as the digits of its value. -/
theorem layout_whole {d : Decimal} (hexponent : 0 ≤ d.exponent) (hvalue : d.value = n) (hn : 0 < n)
    (hlt : n < 10 ^ 21) : d.layout = digitChars n := by
  obtain ⟨digits, z⟩ := d
  obtain ⟨k, rfl⟩ := Int.eq_ofNat_of_zero_le hexponent
  obtain rfl : n = digits * 10 ^ k := by
    simp only [Decimal.value, zpow_natCast] at hvalue
    exact_mod_cast hvalue.symm
  have hdigits : 0 < digits := Nat.pos_of_mul_pos_right hn
  have hchars := digitChars_mul_pow hdigits k
  have hlength : (digitChars (digits * 10 ^ k)).length ≤ 21 :=
    (Nat.length_toDigits_le_iff (by decide) (by decide)).2 hlt
  rw [hchars, List.length_append, zeros, List.length_replicate] at hlength
  rw [Decimal.layout, hchars]
  dsimp only
  rw [if_pos (by simp; omega), add_sub_cancel_left, Int.toNat_natCast]

section Search

variable {r : Rounding}

theorem nearest?_isSome (h : r.holds (r.value / r.den) = true) : r.nearest?.isSome = true := by
  simp only [Rounding.nearest?, h]
  split
  · contradiction
  · rfl
  · contradiction
  · split <;> rfl

theorem Binary.Whole.pos (h : b.Whole n) : 0 < b.mantissa := (Nat.two_pow_pos 52).trans_le h.full

theorem Binary.Whole.rounding_value (h : b.Whole n) :
    (Rounding.ofBinary b).value = n * (Rounding.ofBinary b).den := by
  obtain ⟨k, hk⟩ : ∃ k : ℕ, b.exponent = -k := ⟨(-b.exponent).toNat, by have := h.greatest; omega⟩
  have hvalue := h.value
  rw [hk, zpow_neg, zpow_natCast] at hvalue
  have hquarters : (4 * b.mantissa : ℚ) = n * 2 ^ (k + 2) := by
    rw [← hvalue, pow_add]
    field_simp
    ring
  have hunit : (b.exponent - 2).toNat = 0 := by omega
  have hamount : (2 - b.exponent).toNat = k + 2 := by omega
  simp only [Rounding.ofBinary, hunit, hamount, Nat.pow_eq, pow_zero, mul_one]
  exact_mod_cast hquarters

theorem Binary.Whole.nearest?_isSome (h : b.Whole n) :
    ((Rounding.ofBinary b).onGrid 0).nearest?.isSome = true := by
  have hquotient : ((Rounding.ofBinary b).onGrid 0).value / ((Rounding.ofBinary b).onGrid 0).den =
    n := by
    simp only [Rounding.onGrid, h.rounding_value, Nat.pow_eq, neg_zero, Int.toNat_zero,
      pow_zero, mul_one]
    exact Nat.mul_div_cancel _ (Nat.two_pow_pos _)
  refine Number.nearest?_isSome ?_
  rw [hquotient, holds_onGrid_iff, zpow_zero, mul_one, ← h.value]
  exact rounds_magnitude b h.pos

theorem Binary.Whole.scale_bounds (h : b.Whole n) (hn : 0 < n) :
    1 ≤ (Rounding.ofBinary b).scale b ∧ (Rounding.ofBinary b).scale b ≤ 17 := by
  have hle : (Rounding.ofBinary b).den ≤ (Rounding.ofBinary b).value := by
    rw [h.rounding_value]
    exact Nat.le_mul_of_pos_left _ hn
  unfold Rounding.scale
  rw [log2_eq h.full h.lt]
  dsimp only
  obtain ⟨guess, hguess⟩ : ∃ guess, guess = (((52 : ℕ) : ℤ) + b.exponent) * 1233 / 4096 := ⟨_, rfl⟩
  rw [← hguess]
  have hbounds : 0 ≤ guess ∧ guess ≤ 15 := by
    have hleast := h.least
    have hgreatest := h.greatest
    omega
  split
  · next hfits =>
    have hne : guess ≠ 0 := by
      rintro rfl
      simp only [decide_eq_true_eq, neg_zero, Int.toNat_zero, Nat.pow_eq, pow_zero,
        mul_one] at hfits
      omega
    omega
  · split <;> omega

/-- A search in ascending order ends no later than at a number that would do. -/
theorem findSome?_range {α : Type} (f : ℕ → Option α) {i k : ℕ} (hi : i < k)
    (h : (f i).isSome = true) :
    ∃ j ≤ i, ∃ a, f j = some a ∧ (List.range k).findSome? f = some a := by
  induction k with
  | zero => contradiction
  | succ k ih =>
    rw [List.range_succ, List.findSome?_append]
    rcases Nat.lt_succ_iff_lt_or_eq.1 hi with hlt | rfl
    · obtain ⟨j, hj, a, ha, hfound⟩ := ih hlt
      exact ⟨j, hj, a, ha, by rw [hfound, Option.some_or]⟩
    · cases hbefore : (List.range i).findSome? f with
      | some a =>
        obtain ⟨j, hj, ha⟩ := List.exists_of_findSome?_eq_some hbefore
        exact ⟨j, (List.mem_range.1 hj).le, a, ha, Option.some_or⟩
      | none =>
        obtain ⟨a, ha⟩ := Option.isSome_iff_exists.1 h
        exact ⟨i, le_rfl, a, ha, by rw [Option.none_or, List.findSome?_singleton, ha]⟩

/-- The decimal that the search finds on the grid of its `m`-th step, if it begins at `10 ^ k`. -/
def Binary.candidate? (b : Binary) (k : ℤ) (m : ℕ) : Option Decimal :=
  ((Rounding.ofBinary b).onGrid (k - (m + 1))).nearest?.map fun digits =>
  Decimal.strip ⟨digits, k - (m + 1)⟩ 18

theorem Binary.Whole.shortest_exponent (h : b.Whole n) (hn : 0 < n) : 0 ≤ b.shortest.exponent := by
  obtain ⟨hlow, hhigh⟩ := h.scale_bounds hn
  change 0 ≤
    (((List.range 17).findSome? (b.candidate? ((Rounding.ofBinary b).scale b))).getD _).exponent
  generalize (Rounding.ofBinary b).scale b = k at hlow hhigh ⊢
  obtain ⟨i, rfl⟩ : ∃ i : ℕ, k = i + 1 := ⟨(k - 1).toNat, by omega⟩
  -- step `i` is on the grid of the whole decimals
  have hwhole : (b.candidate? (i + 1) i).isSome = true := by
    rw [Binary.candidate?, Option.isSome_map, sub_self]
    exact h.nearest?_isSome
  obtain ⟨j, hj, d, hd, hfound⟩ := findSome?_range (b.candidate? (i + 1)) (by omega : i < 17) hwhole
  obtain ⟨digits, -, rfl⟩ := Option.map_eq_some_iff.1 hd
  have hstrip := le_strip_exponent ⟨digits, (i : ℤ) + 1 - (j + 1)⟩ 18
  rw [hfound, Option.getD_some]
  dsimp only at hstrip
  omega

end Search

/-- The only whole value that rounds to an integer is the integer. -/
theorem Binary.Whole.eq_of_rounds {c : ℕ} (h : b.Whole n) (hc : b.Rounds c) : c = n := by
  obtain ⟨hlow, hhigh⟩ : b.low ≤ c ∧ (c : ℚ) ≤ b.high := by
    unfold Binary.Rounds at hc
    split at hc
    · exact hc
    · exact ⟨hc.1.le, hc.2.le⟩
  have hquarter : (2 : ℚ) ^ (b.exponent - 2) ≤ 1 / 4 := by
    have hle : (2 : ℚ) ^ (b.exponent - 2) ≤ 2 ^ (-2 : ℤ) :=
      zpow_le_zpow_right₀ (by norm_num) (by have := h.greatest; omega)
    exact hle.trans (by norm_num)
  have hpos : (0 : ℚ) < 2 ^ (b.exponent - 2) := by positivity
  have hvalue : (4 * b.mantissa : ℚ) * 2 ^ (b.exponent - 2) = n := by
    rw [← h.value, zpow_sub₀ (by norm_num)]
    ring
  have hbelow : ((4 * b.mantissa : ℕ) : ℚ) ≤ (4 * b.mantissa - b.below : ℕ) + 2 := by
    have := b.below_cases
    exact_mod_cast (by omega : 4 * b.mantissa ≤ 4 * b.mantissa - b.below + 2)
  have hlow' := mul_le_mul_of_nonneg_right hbelow hpos.le
  rw [Binary.low] at hlow
  rw [Binary.high] at hhigh
  push_cast at hlow' hhigh
  have hle : (n : ℚ) < c + 1 := by linarith
  have hge : (c : ℚ) < n + 1 := by linarith
  have hle' : n < c + 1 := by exact_mod_cast hle
  have hge' : c < n + 1 := by exact_mod_cast hge
  omega

theorem Binary.Whole.lt_pow (h : b.Whole n) : n < 2 ^ 53 := by
  have hone : (2 : ℚ) ^ b.exponent ≤ 1 := zpow_le_one_of_nonpos₀ (by norm_num) h.greatest
  have hle : (n : ℚ) ≤ b.mantissa := h.value ▸ mul_le_of_le_one_right (by positivity) hone
  exact (Nat.cast_le.1 hle).trans_lt h.lt

theorem Binary.Whole.layout_shortest (h : b.Whole n) (hn : 0 < n) :
    b.shortest.layout = digitChars n := by
  have hexponent := h.shortest_exponent hn
  have hrounds := shortest_rounds h.pos
  obtain ⟨k, hk⟩ := Int.eq_ofNat_of_zero_le hexponent
  have hvalue : b.shortest.value = (b.shortest.digits * 10 ^ k : ℕ) := by
    rw [Decimal.value, hk, zpow_natCast]
    push_cast
    rfl
  rw [hvalue] at hrounds
  rw [h.eq_of_rounds hrounds] at hvalue
  exact layout_whole hexponent hvalue hn (h.lt_pow.trans (by decide))

theorem layout_boundary (negative : Bool) :
    (Binary.mk negative (2 ^ 52) 1).shortest.layout = digitChars (2 ^ 53) := by
  cases negative <;> decide +kernel

/-- Up to `2 ^ 53` an integer is written with all its digits. -/
theorem text_of_rounded (h : Rounded a x.toModel.unpack) (ha : a.natAbs ≤ 2 ^ 53) :
    text x = toString a := by
  generalize hx : x.toModel.unpack = u at h
  cases h with
  | zero => exact Expr.text_zero hx
  | @nonzero n u s hn h =>
    rw [natAbs_apply, Int.natAbs_natCast] at ha
    obtain ⟨m, e, hm, rfl, hvalue, hlow, hhigh, hl, he⟩ := h.exact hn ha
    rw [kept_of_le he] at hx
    have hlayout : (Binary.mk (s == .negative) m e).shortest.layout = digitChars n := by
      rcases he.lt_or_eq with he | rfl
      · exact Binary.Whole.layout_shortest ⟨hlow, hhigh, hl, by dsimp only; omega, hvalue⟩ hn
      · have hdouble : m * 2 = n := by exact_mod_cast (zpow_one (2 : ℚ) ▸ hvalue)
        have hlead : Binary.leading = 2 ^ 52 := rfl
        obtain rfl : m = 2 ^ 52 := by omega
        rw [← hdouble]
        exact layout_boundary _
    rw [Expr.text_finite hx, finiteText, (ofFloat_of_unpack hx).1]
    dsimp only
    rw [hlayout, ← String.toList_inj, String.toList_ofList, Expr.toList_toString, natAbs_apply,
      Int.natAbs_natCast]
    cases s with
    | positive => rw [if_neg (by decide), if_neg (by simp only [Sign.apply]; omega)]
    | negative => rw [if_pos (by decide), if_pos (by simp only [Sign.apply]; omega)]

end RadarTimeline.Number
