import RadarTimeline.Proofs.Number.Parts

namespace RadarTimeline.Number

open Float.Model Float.Model.UnpackedFloat

/-- The value of a number, if it is finite. -/
def value? (x : Float) : Option ℚ :=
  match x.toModel.unpack with
  | .zero _ => some 0
  | .finite s m e _ => some (s.apply m * 2 ^ e)
  | _ => none

variable {x : Float} {n : ℕ}

theorem numerator_div_denominator (b : Binary) : (b.numerator : ℚ) / b.denominator =
    (if b.negative then -(b.mantissa : ℤ) else b.mantissa : ℤ) * 2 ^ b.exponent := by
  have hpow : (2 : ℚ) ^ b.exponent = _ := zpow_eq_div (a := 2) (by decide) b.exponent
  rw [hpow, Binary.numerator, Binary.denominator, Nat.pow_eq, Nat.pow_eq]
  split_ifs <;> push_cast <;> ring

theorem value?_eq_some_iff {v : ℚ} : value? x = some v ↔
    x.isFinite ∧ ((Binary.ofFloat x).numerator : ℚ) / (Binary.ofFloat x).denominator = v := by
  change _ ↔ x.toModel.unpack.isFinite = true ∧ _
  rw [numerator_div_denominator, value?]
  cases hx : x.toModel.unpack with
  | zero s => simp [ofFloat_of_zero hx, UnpackedFloat.isFinite]
  | infinity s => simp [UnpackedFloat.isFinite]
  | notANumber => simp [UnpackedFloat.isFinite]
  | finite s m e hm =>
    rw [(ofFloat_of_unpack hx).1]
    cases s <;> simp [UnpackedFloat.isFinite, Sign.apply]

/-- A number is an index exactly if its value is that index. -/
theorem toIndex?_eq_some_iff : toIndex? x = some n ↔ value? x = some (n : ℚ) := by
  have hpos := (Binary.ofFloat x).denominator_pos
  rw [value?_eq_some_iff, toIndex?]
  generalize Binary.ofFloat x = b at hpos
  have hden : (b.denominator : ℚ) ≠ 0 := Nat.cast_ne_zero.2 hpos.ne'
  rw [div_eq_iff hden]
  norm_cast
  simp only [Option.ite_none_right_eq_some, Bool.and_eq_true, beq_iff_eq, decide_eq_true_eq,
    Option.some_inj]
  constructor
  · rintro ⟨⟨⟨hfinite, hmod⟩, hnonneg⟩, hn⟩
    have hquotient : 0 ≤ b.numerator / b.denominator :=
      Int.ediv_nonneg hnonneg (Int.natCast_nonneg _)
    refine ⟨hfinite, ?_⟩
    rw [← hn, Nat.cast_mul, Int.toNat_of_nonneg hquotient]
    exact (Int.ediv_mul_cancel_of_emod_eq_zero hmod).symm
  · rintro ⟨hfinite, hnum⟩
    have hden' : (b.denominator : ℤ) ≠ 0 := Int.natCast_ne_zero.2 hpos.ne'
    rw [hnum, Nat.cast_mul, Int.mul_ediv_cancel _ hden']
    exact ⟨⟨⟨hfinite, Int.mul_emod_left _ _⟩, by positivity⟩, rfl⟩

end RadarTimeline.Number
