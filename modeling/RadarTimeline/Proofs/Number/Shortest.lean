import RadarTimeline.Number.Decimal
import Mathlib.Algebra.Order.Field.Power
import Mathlib.Data.Rat.Cast.Order
import Mathlib.Tactic.FieldSimp
import Mathlib.Tactic.Linarith
import Mathlib.Tactic.Positivity
import Mathlib.Tactic.Ring

namespace RadarTimeline.Number

def Decimal.value (d : Decimal) : ℚ := d.digits * 10 ^ d.exponent

/-- Half the distances to the two neighbours, in quarters of the last digit. The neighbour below a
power of two is half as far away as the one above. -/
def Binary.below (b : Binary) : ℕ := if b.mantissa = leading ∧ b.exponent ≠ -1074 then 1 else 2

def Binary.low (b : Binary) : ℚ := (4 * b.mantissa - b.below : ℕ) * 2 ^ (b.exponent - 2)

def Binary.high (b : Binary) : ℚ := (4 * b.mantissa + 2 : ℕ) * 2 ^ (b.exponent - 2)

/-- A value rounds to the magnitude of a number. What is half-way between two numbers rounds to the
one with the even mantissa. -/
def Binary.Rounds (b : Binary) (v : ℚ) : Prop :=
  if b.mantissa % 2 = 0 then b.low ≤ v ∧ v ≤ b.high else b.low < v ∧ v < b.high

/-- The form in which numbers are stored: with 53 digits, or with fewer and the least exponent. -/
structure Binary.Stored (b : Binary) : Prop where
  pos : 0 < b.mantissa
  lt : b.mantissa < 2 * leading
  least : -1074 ≤ b.exponent
  full : b.exponent ≠ -1074 → leading ≤ b.mantissa

variable {b c : Binary} {v w : ℚ} {g : ℤ} {n : ℕ} {d : Decimal} {r : Rounding}

theorem strip_value (d : Decimal) (fuel : ℕ) : (d.strip fuel).value = d.value := by
  induction fuel generalizing d with
  | zero => rfl
  | succ fuel ih =>
    rw [Decimal.strip]
    split
    · next h =>
      simp only [Bool.and_eq_true, decide_eq_true_eq] at h
      obtain ⟨q, hq⟩ := Nat.dvd_of_mod_eq_zero h.1
      rw [ih, Decimal.value, Decimal.value, hq, Nat.mul_div_cancel_left q (by decide)]
      push_cast
      rw [zpow_add_one₀ (by norm_num)]
      ring
    · rfl

theorem le_strip_exponent (d : Decimal) (fuel : ℕ) : d.exponent ≤ (d.strip fuel).exponent := by
  induction fuel generalizing d with
  | zero => exact le_rfl
  | succ fuel ih =>
    rw [Decimal.strip]
    split
    · exact (Int.le_add_one le_rfl).trans (ih _)
    · exact le_rfl

theorem zpow_eq_div {a : ℕ} (ha : a ≠ 0) (z : ℤ) :
    (a : ℚ) ^ z = ((a ^ z.toNat : ℕ) : ℚ) / ((a ^ (-z).toNat : ℕ) : ℚ) := by
  have ha' : (a : ℚ) ≠ 0 := Nat.cast_ne_zero.2 ha
  rcases le_total 0 z with hz | hz
  · obtain ⟨n, rfl⟩ := Int.eq_ofNat_of_zero_le hz
    simp
  · obtain ⟨n, hn⟩ := Int.eq_ofNat_of_zero_le (neg_nonneg.2 hz)
    obtain rfl : z = -n := by omega
    simp

theorem mul_zpow_le_iff {m n : ℕ} {e g : ℤ} :
    (m : ℚ) * 2 ^ e ≤ n * 10 ^ g ↔
      m * 2 ^ e.toNat * 10 ^ (-g).toNat ≤ n * (2 ^ (-e).toNat * 10 ^ g.toNat) := by
  have h2 : (2 : ℚ) ^ e = _ := zpow_eq_div (a := 2) (by decide) e
  have h10 : (10 : ℚ) ^ g = _ := zpow_eq_div (a := 10) (by decide) g
  rw [h2, h10, mul_div, mul_div, div_le_div_iff₀ (by positivity) (by positivity)]
  norm_cast
  rw [mul_assoc n, mul_comm (10 ^ g.toNat)]

theorem mul_zpow_ge_iff {m n : ℕ} {e g : ℤ} :
    (n : ℚ) * 10 ^ g ≤ m * 2 ^ e ↔
      n * (2 ^ (-e).toNat * 10 ^ g.toNat) ≤ m * 2 ^ e.toNat * 10 ^ (-g).toNat := by
  have h2 : (2 : ℚ) ^ e = _ := zpow_eq_div (a := 2) (by decide) e
  have h10 : (10 : ℚ) ^ g = _ := zpow_eq_div (a := 10) (by decide) g
  rw [h2, h10, mul_div, mul_div, div_le_div_iff₀ (by positivity) (by positivity)]
  norm_cast
  rw [mul_assoc n, mul_comm (10 ^ g.toNat)]

theorem holds_onGrid_iff :
    ((Rounding.ofBinary b).onGrid g).holds n = true ↔ b.Rounds (n * 10 ^ g) := by
  have hneg : 2 - b.exponent = -(b.exponent - 2) := by omega
  have hbelow : (if (b.mantissa = Binary.leading && b.exponent != -1074) = true then 1 else 2) =
    b.below := by
    simp [Binary.below]
  unfold Rounding.holds Binary.Rounds Rounding.ofBinary Rounding.onGrid
  simp only [hbelow, hneg, decide_eq_true_eq]
  split
  · rw [Bool.and_eq_true, decide_eq_true_eq, decide_eq_true_eq]
    exact and_congr mul_zpow_le_iff.symm mul_zpow_ge_iff.symm
  · rw [Bool.and_eq_true, decide_eq_true_eq, decide_eq_true_eq, ← not_le, ← not_le,
      ← not_le, ← not_le]
    exact and_congr (not_congr mul_zpow_ge_iff.symm) (not_congr mul_zpow_le_iff.symm)

theorem holds_of_nearest? (h : r.nearest? = some n) : r.holds n = true := by
  unfold Rounding.nearest? at h
  dsimp only at h
  split at h
  · cases h
  · next hn _ =>
    cases h
    exact hn
  · next _ hn =>
    cases h
    exact hn
  · next hn hn' =>
    split at h <;> cases h
    · exact hn
    · exact hn'
    · split
      · exact hn
      · exact hn'

theorem rounds_magnitude (b : Binary) (hb : 0 < b.mantissa) :
    b.Rounds (b.mantissa * 2 ^ b.exponent) := by
  have hpos : (0 : ℚ) < 2 ^ (b.exponent - 2) := by positivity
  have hquarters : (b.mantissa : ℚ) * 2 ^ b.exponent =
    (4 * b.mantissa : ℕ) * 2 ^ (b.exponent - 2) := by
    rw [zpow_sub₀ (by norm_num)]
    push_cast
    ring
  have hbelow : 4 * b.mantissa - b.below < 4 * b.mantissa := by
    unfold Binary.below
    split <;> omega
  have hlow : b.low < (b.mantissa : ℚ) * 2 ^ b.exponent := by
    rw [hquarters, Binary.low]
    exact mul_lt_mul_of_pos_right (Nat.cast_lt.2 hbelow) hpos
  have hhigh : (b.mantissa : ℚ) * 2 ^ b.exponent < b.high := by
    rw [hquarters, Binary.high]
    exact mul_lt_mul_of_pos_right (Nat.cast_lt.2 (by omega)) hpos
  unfold Binary.Rounds
  split
  · exact ⟨hlow.le, hhigh.le⟩
  · exact ⟨hlow, hhigh⟩

theorem exact_value (b : Binary) :
    Decimal.value ⟨b.mantissa * Nat.pow 2 b.exponent.toNat * Nat.pow 5 (-b.exponent).toNat,
      -(-b.exponent).toNat⟩ = b.mantissa * 2 ^ b.exponent := by
  have h2 : (2 : ℚ) ^ b.exponent = _ := zpow_eq_div (a := 2) (by decide) b.exponent
  have h10 : (10 : ℚ) = 2 * 5 := by norm_num
  rw [Decimal.value, h2, zpow_neg, zpow_natCast, h10, mul_pow]
  simp only [Nat.pow_eq]
  push_cast
  field_simp

theorem shortest_rounds (hb : 0 < b.mantissa) : b.Rounds b.shortest.value := by
  unfold Binary.shortest
  dsimp only
  cases hfound : (List.range 17).findSome? _ with
  | none =>
    rw [Option.getD_none, exact_value]
    exact rounds_magnitude b hb
  | some d =>
    obtain ⟨n, -, hn⟩ := List.exists_of_findSome?_eq_some hfound
    obtain ⟨digits, hdigits, rfl⟩ := Option.map_eq_some_iff.1 hn
    rw [Option.getD_some, strip_value]
    exact holds_onGrid_iff.1 (holds_of_nearest? hdigits)

/-- The decimal that stands for a number has no smaller exponent than the number can have. -/
theorem le_shortest_exponent (hb : -1074 ≤ b.exponent) : -1074 ≤ b.shortest.exponent := by
  unfold Binary.shortest
  dsimp only
  have hscale : -324 ≤ (Rounding.ofBinary b).scale b := by
    unfold Rounding.scale
    dsimp only
    split_ifs <;> omega
  generalize (Rounding.ofBinary b).scale b = k at hscale ⊢
  cases hfound : (List.range 17).findSome? _ with
  | none =>
    rw [Option.getD_none]
    dsimp only
    omega
  | some d =>
    obtain ⟨i, hi, hd⟩ := List.exists_of_findSome?_eq_some hfound
    obtain ⟨digits, -, rfl⟩ := Option.map_eq_some_iff.1 hd
    have hstrip := le_strip_exponent ⟨digits, k - (i + 1)⟩ 18
    have hlt := List.mem_range.1 hi
    rw [Option.getD_some]
    dsimp only at hstrip
    omega

/-- What rounds to one number and is not above what rounds to another one keeps their intervals from
lying apart, and at a shared end both mantissas are even. -/
theorem Binary.Rounds.bounds (h : b.Rounds v) (h' : c.Rounds w) (hle : w ≤ v) :
    c.low ≤ b.high ∧ (c.low = b.high → b.mantissa % 2 = 0 ∧ c.mantissa % 2 = 0) := by
  unfold Binary.Rounds at h h'
  split_ifs at h h' with hb hc hc
  · exact ⟨(h'.1.trans hle).trans h.2, fun _ => ⟨hb, hc⟩⟩
  all_goals
    have hlt : c.low < b.high := by linarith [h.2, h'.1]
    exact ⟨hlt.le, fun heq => (hlt.ne heq).elim⟩

theorem Binary.below_cases (b : Binary) :
    b.below = 1 ∧ b.mantissa = leading ∨ b.below = 2 ∧
    (b.mantissa = leading → b.exponent = -1074) := by
  unfold Binary.below
  split
  · next h => exact .inl ⟨rfl, h.1⟩
  · next h => exact .inr ⟨rfl, fun hm => by_contra fun he => h ⟨hm, he⟩⟩

/-- Of two numbers the upper one has its interval above that of the lower one. -/
theorem Binary.Stored.lt_of_rounds (hb : b.Stored) (hc : c.Stored)
    (hlt : b.exponent < c.exponent ∨ b.exponent = c.exponent ∧ b.mantissa < c.mantissa)
    (h : b.Rounds v) (h' : c.Rounds w) : v < w := by
  by_contra hle
  obtain ⟨hle, heq⟩ := h.bounds h' (not_lt.1 hle)
  -- both ends are counted in quarters of the last digit of the lower number
  obtain ⟨k, hk⟩ : ∃ k : ℕ, c.exponent - b.exponent = k := Int.eq_ofNat_of_zero_le (by omega)
  have hpos : (0 : ℚ) < 2 ^ (b.exponent - 2) := by positivity
  have hlow : c.low = ((4 * c.mantissa - c.below) * 2 ^ k : ℕ) * 2 ^ (b.exponent - 2) := by
    rw [Binary.low, show c.exponent - 2 =
      k + (b.exponent - 2) by omega, zpow_add₀ (by norm_num), zpow_natCast]
    push_cast
    ring
  rw [hlow, Binary.high, mul_le_mul_iff_of_pos_right hpos, Nat.cast_le] at hle
  rw [hlow, Binary.high, mul_left_inj' hpos.ne', Nat.cast_inj] at heq
  have hbelow := c.below_cases
  have hlead : leading = 4503599627370496 := rfl
  have hb₁ := hb.lt
  have hc₁ := hc.full
  have hleast := hb.least
  rcases k with _ | k
  · rw [pow_zero, mul_one] at hle heq
    omega
  · have htwo : (4 * c.mantissa - c.below) * 2 ≤ (4 * c.mantissa - c.below) * 2 ^ (k + 1) :=
      Nat.mul_le_mul_left _ (Nat.le_self_pow (by omega) 2)
    omega

theorem Binary.Stored.eq_of_rounds (hb : b.Stored) (hc : c.Stored) (h : b.Rounds v)
    (h' : c.Rounds v) :
    b.mantissa = c.mantissa ∧ b.exponent = c.exponent := by
  by_contra hne
  have hcases : (b.exponent < c.exponent ∨ b.exponent = c.exponent ∧ b.mantissa < c.mantissa) ∨
      (c.exponent < b.exponent ∨ c.exponent = b.exponent ∧ c.mantissa < b.mantissa) := by omega
  rcases hcases with hlt | hlt
  · exact (hb.lt_of_rounds hc hlt h h').false
  · exact (hc.lt_of_rounds hb hlt h' h).false

theorem eq_of_shortest_value (hb : b.Stored) (hc : c.Stored)
    (h : b.shortest.value = c.shortest.value) :
    b.mantissa = c.mantissa ∧ b.exponent = c.exponent :=
  hb.eq_of_rounds hc (shortest_rounds hb.pos) (h ▸ shortest_rounds hc.pos)

end RadarTimeline.Number
