import RadarTimeline.Proofs.Number.Order

namespace RadarTimeline.Number

open Float.Model Float.Model.UnpackedFloat

/-- Zero, or a finite number with an exponent that is not above a bound. -/
def Below (bound : ℤ) : UnpackedFloat → Prop
  | .zero _ => True
  | .finite _ _ e _ => e ≤ bound
  | _ => False

instance (bound : ℤ) : DecidablePred (Below bound)
  | .zero _ => .isTrue trivial
  | .finite _ _ e _ => inferInstanceAs (Decidable (e ≤ bound))
  | .infinity _ => .isFalse id
  | .notANumber => .isFalse id

theorem Below.mono {b c : ℤ} {u : UnpackedFloat} (h : Below b u) (hbc : b ≤ c) : Below c u := by
  rcases u with _ | _ | _ | ⟨_, m, e, hm⟩
  · exact h
  · exact h
  · trivial
  · exact Int.le_trans h hbc

theorem Below.isFinite {b : ℤ} {u : UnpackedFloat} (h : Below b u) : u.isFinite = true := by
  rcases u with _ | _ | _ | ⟨_, m, e, hm⟩
  · exact h.elim
  · exact h.elim
  · rfl
  · rfl

section Shift

variable (m : ℕ) (e : ℤ) (a : Accuracy)

theorem mantissa_shiftRight (em : ExtendedMantissa) (n : ℕ) :
    (em >>> n).mantissa = em.mantissa / 2 ^ n := by
  induction n with
  | zero => simp [HShiftRight.hShiftRight, Nat.repeat]
  | succ n ih =>
    change (em >>> n).mantissa / 2 = _
    rw [ih, Nat.div_div_eq_div_mul, pow_succ]

theorem roundedMantissa_le (em : ExtendedMantissa) : em.roundedMantissa ≤ em.mantissa + 1 := by
  rcases em with ⟨m, _ | _, _ | _⟩ <;>
    simp only [ExtendedMantissa.roundedMantissa, ExtendedMantissa.accuracy,
      Accuracy.roundToNearestEven]
  all_goals omega

theorem targetExponent_eq (t : ℤ) : Format.binary64.targetExponent t = max (t - 53) (-1074) := rfl

theorem exponent_shift :
    (shiftToTargetExponent Format.binary64 m e a).2 =
      max e (max (totalExponent m e - 53) (-1074)) := by
  simp only [shiftToTargetExponent, shiftToExponent, targetExponent_eq]
  omega

theorem mantissa_ofMantissaAndAccuracy :
    (ExtendedMantissa.ofMantissaAndAccuracy m a).mantissa = m := by
  rcases a with _ | (_ | _ | _) <;> rfl

theorem mantissa_shift :
    (shiftToTargetExponent Format.binary64 m e a).1.mantissa =
      m / 2 ^ ((shiftToTargetExponent Format.binary64 m e a).2 - e).toNat := by
  rw [exponent_shift]
  simp only [shiftToTargetExponent, shiftToExponent, targetExponent_eq, mantissa_shiftRight,
    mantissa_ofMantissaAndAccuracy]
  congr 2
  omega

theorem totalExponent_le {n : ℕ} {t : ℤ} (hm : m < 2 ^ n) (hn : 0 < n) (ht : n + e ≤ t) :
    totalExponent m e ≤ t := by
  have h : m.log2 < n := by
    rcases m.eq_zero_or_pos with rfl | hpos
    · simpa using hn
    · exact (Nat.log2_lt hpos.ne').2 hm
  unfold totalExponent
  omega

end Shift

theorem div_add_one_lt {m n k : ℕ} (h : m < 2 ^ n) : m / 2 ^ k + 1 < 2 ^ (n - k + 1) := by
  have h₁ : m / 2 ^ k < 2 ^ (n - k) := by
    rw [Nat.div_lt_iff_lt_mul (by positivity), ← pow_add]
    exact h.trans_le (Nat.pow_le_pow_right two_pos (by omega))
  have h₂ : 0 < 2 ^ (n - k) := by positivity
  rw [pow_succ]
  omega

theorem totalExponent_rounded (m : ℕ) (e : ℤ) (a : Accuracy) :
    let shifted := shiftToTargetExponent Format.binary64 m e a
    totalExponent shifted.1.roundedMantissa shifted.2 ≤ max (totalExponent m e + 1) (-1073) := by
  intro shifted
  set k := (shifted.2 - e).toNat with hk
  have hr : shifted.1.roundedMantissa ≤ m / 2 ^ k + 1 := by
    rw [hk, ← mantissa_shift]
    exact roundedMantissa_le _
  have he := exponent_shift m e a
  change shifted.2 = _ at he
  refine totalExponent_le _ _ (hr.trans_lt (div_add_one_lt Nat.lt_log2_self)) (Nat.succ_pos _) ?_
  unfold totalExponent at he ⊢
  omega

theorem below_roundWithAccuracy (s : Sign) (m : ℕ) (e : ℤ) (a : Accuracy) :
    Below (max e (max (totalExponent m e - 52) (-1074)))
      (roundWithAccuracy Format.binary64 s m e a) := by
  have h := totalExponent_rounded m e a
  have he := exponent_shift m e a
  simp only [roundWithAccuracy]
  split
  · trivial
  · change (shiftToTargetExponent Format.binary64 _ _ _).2 ≤ _
    rw [exponent_shift]
    omega

theorem totalExponent_shiftLeft_le (m : ℕ) (e : ℤ) (k : ℕ) :
    totalExponent (m <<< k) (e - k) ≤ totalExponent m e := by
  have h : m <<< k < 2 ^ (m.log2 + 1 + k) := by
    rw [Nat.shiftLeft_eq, pow_add]
    exact Nat.mul_lt_mul_of_pos_right Nat.lt_log2_self (by positivity)
  refine totalExponent_le _ _ h (by omega) ?_
  unfold totalExponent
  omega

theorem below_round (s : Sign) (m : ℕ) (e : ℤ) :
    Below (max e (max (totalExponent m e - 52) (-1074)))
      (UnpackedFloat.round Format.binary64 s m e) := by
  simp only [UnpackedFloat.round, decreaseExponent]
  refine (below_roundWithAccuracy _ _ _ _).mono ?_
  have h := totalExponent_shiftLeft_le m e
    (e - Format.binary64.targetExponent (totalExponent m e)).toNat
  omega

/-- An exact value below `2 ^ n` with the exponent `e`, rounded. -/
theorem below_normalize {m : ℤ} {n : ℕ} (hm : m.natAbs < 2 ^ n) (hn : 0 < n) (e : ℤ) (z : Sign) :
    Below (max e (max (n + e - 52) (-1074))) (UnpackedFloat.normalize Format.binary64 m e z) := by
  have h : ∀ k : ℕ, k = m.natAbs → totalExponent k e ≤ n + e := by
    rintro k rfl
    exact totalExponent_le _ _ hm hn le_rfl
  unfold UnpackedFloat.normalize
  split
  next hlt =>
    have hlt := compare_lt_iff_lt.1 hlt
    have := h (-m).toNat (by omega)
    exact (below_round _ _ _).mono (by omega)
  · trivial
  next hgt =>
    have hgt := compare_gt_iff_gt.1 hgt
    have := h m.toNat (by omega)
    exact (below_round _ _ _).mono (by omega)

section Pack

/-- What the bits of a stored number with a usual exponent stand for. -/
theorem unpack_cases {v : BitVec Format.binary64.numBits} (hfin : unpackExponent v ≠ -1#_) :
    (∃ s, UnpackedFloat.unpack Format.binary64 v = .zero s) ∨
      ∃ s m e hm, UnpackedFloat.unpack Format.binary64 v = .finite s m e hm ∧ m < 2 ^ 53 ∧
        e = max (((unpackExponent v).toNat : ℤ) - 1075) (-1074) := by
  have hbias : ((Format.binary64.exponentBias : ℕ) : ℤ) = 1023 := by decide
  simp only [UnpackedFloat.unpack, if_neg hfin]
  split
  next h0 =>
    split
    · exact .inl ⟨_, rfl⟩
    next hm =>
      have hpos : 0 < (unpackMantissa v).toNat :=
        Nat.pos_of_ne_zero fun h => hm (BitVec.eq_of_toNat_eq h)
      refine .inr ⟨_, _, _, hpos, rfl, (BitVec.isLt _).trans (by decide), ?_⟩
      rw [h0, hbias]
      rfl
  next h0 =>
    have hpos : (unpackExponent v).toNat ≠ 0 := fun h => h0 (BitVec.eq_of_toNat_eq h)
    have hm : 0 < (1#1 ++ unpackMantissa v).toNat := by
      rw [BitVec.toNat_append]
      exact Nat.pos_of_ne_zero fun h => absurd (Nat.or_eq_zero_iff.1 h).1 (by decide)
    refine .inr ⟨_, _, _, hm, rfl, BitVec.isLt _, ?_⟩
    rw [hbias]
    omega

theorem not_isFinite_of_exponent {v : BitVec Format.binary64.numBits}
    (hinf : unpackExponent v = -1#_) :
    (UnpackedFloat.unpack Format.binary64 v).isFinite = false := by
  simp only [UnpackedFloat.unpack, if_pos hinf]
  split <;> rfl

theorem exponent_lt {v : BitVec Format.binary64.numBits} (hfin : unpackExponent v ≠ -1#_) :
    (unpackExponent v).toNat < 2047 := by
  have hlt := (unpackExponent v).isLt
  have hne : (unpackExponent v).toNat ≠ 2047 := fun h => hfin (BitVec.eq_of_toNat_eq h)
  simp only at hlt
  omega

theorem finite_cases {x : Float} (h : x.isFinite) :
    (∃ s, x.toModel.unpack = .zero s) ∨
      ∃ s m e hm, x.toModel.unpack = .finite s m e hm ∧ m < 2 ^ 53 ∧ e ≤ 971 := by
  change x.toModel.unpack.isFinite = true at h
  have hfin : @unpackExponent Format.binary64 x.toModel.toBits.toBitVec ≠ -1#_ := by
    intro hinf
    rw [Float.Model.unpack, not_isFinite_of_exponent hinf] at h
    cases h
  refine (unpack_cases hfin).imp_right ?_
  rintro ⟨s, m, e, hm, hx, hlt, he⟩
  have := exponent_lt hfin
  exact ⟨s, m, e, hm, hx, hlt, by omega⟩

theorem below_of_exponent {b : ℤ} {v : BitVec Format.binary64.numBits}
    (hlt : (unpackExponent v).toNat < 2047) (hle : ((unpackExponent v).toNat : ℤ) ≤ b + 1075)
    (hb : -1074 ≤ b) : Below b (UnpackedFloat.unpack Format.binary64 v) := by
  have hfin : unpackExponent v ≠ -1#_ := by
    intro h
    rw [h] at hlt
    exact absurd hlt (by decide)
  rcases unpack_cases hfin with ⟨s, hs⟩ | ⟨s, m, e, hm, hv, -, he⟩
  · rw [hs]
    trivial
  · rw [hv]
    change e ≤ b
    omega

theorem unpack_pack (u : UnpackedFloat) : (Float.Model.pack u).unpack =
    UnpackedFloat.unpack Format.binary64 (UnpackedFloat.pack Format.binary64 u) := rfl

/-- To store a number that is not too large keeps its exponent, or raises it to the least one. -/
theorem below_unpack_pack {b : ℤ} {u : UnpackedFloat} (h : Below b u) (hb : -1074 ≤ b)
    (hb' : b < 972) :
    Below b (Float.Model.pack u).unpack := by
  have hbias : ((Format.binary64.exponentBias : ℕ) : ℤ) = 1023 := by decide
  rw [unpack_pack]
  rcases u with _ | _ | s | ⟨s, m, e, hm⟩
  · exact h.elim
  · exact h.elim
  · apply below_of_exponent _ _ hb
    · simp [UnpackedFloat.pack, packedZero]
    · simp [UnpackedFloat.pack, packedZero]
      omega
  · change e ≤ b at h
    have hbits : 2 ^ Format.binary64.exponentBits = 2048 := by decide
    simp only [UnpackedFloat.pack, hbias]
    rw [if_neg (by rw [hbits]; omega)]
    split
    · apply below_of_exponent _ _ hb
      · rw [unpackExponent_packComponents, BitVec.toNat_ofNat, hbits]
        omega
      · rw [unpackExponent_packComponents, BitVec.toNat_ofNat, hbits]
        omega
    · apply below_of_exponent _ _ hb
      · simp
      · simp
        omega

end Pack

section Operations

theorem below_decreased {m : ℕ} (hm : m < 2 ^ 53) (e t : ℤ) :
    (decreaseExponent m e t).1 < 2 ^ (53 + (e - t).toNat) := by
  rw [decreaseExponent, Nat.shiftLeft_eq, pow_add]
  exact Nat.mul_lt_mul_of_pos_right hm (by positivity)

theorem natAbs_apply (s : Sign) (m : ℤ) : (s.apply m).natAbs = m.natAbs := by
  rcases s with _ | _
  · exact Int.natAbs_neg m
  · rfl

/-- The exact sum of two numbers with exponents of at most `b`, from the smaller exponent on. -/
theorem natAbs_sum_lt {e f b : ℤ} {m n : ℕ} (s t : Sign) (hm : m < 2 ^ 53) (hn : n < 2 ^ 53)
    (he : e ≤ b) (hf : f ≤ b) :
    (s.apply (decreaseExponent m e (min e f)).1 +
      t.apply (decreaseExponent n f (min e f)).1).natAbs <
      2 ^ (54 + (b - min e f).toNat) := by
  have h₁ := below_decreased hm e (min e f)
  have h₂ := below_decreased hn f (min e f)
  have hadd := Int.natAbs_add_le (s.apply (decreaseExponent m e (min e f)).1)
    (t.apply (decreaseExponent n f (min e f)).1)
  rw [natAbs_apply, natAbs_apply, Int.natAbs_natCast, Int.natAbs_natCast] at hadd
  have h₃ : 2 ^ (53 + (e - min e f).toNat) ≤ 2 ^ (53 + (b - min e f).toNat) :=
    Nat.pow_le_pow_right two_pos (by omega)
  have h₄ : 2 ^ (53 + (f - min e f).toNat) ≤ 2 ^ (53 + (b - min e f).toNat) :=
    Nat.pow_le_pow_right two_pos (by omega)
  have h₅ : 2 ^ (54 + (b - min e f).toNat) = 2 * 2 ^ (53 + (b - min e f).toNat) := by ring
  omega

variable {x y : Float} {b c : ℤ}

theorem below_add (hx : Below b x.toModel.unpack) (hy : Below b y.toModel.unpack) (hb : -1074 ≤ b) :
    Below (b + 2) (UnpackedFloat.add Format.binary64 x.toModel.unpack y.toModel.unpack) := by
  rcases finite_cases hx.isFinite with ⟨s, hs⟩ | ⟨s, m, e, hm, hs, hlt, -⟩ <;>
    rcases finite_cases hy.isFinite with ⟨t, ht⟩ | ⟨t, n, f, hn, ht, hlt', -⟩ <;>
    rw [hs] at hx ⊢ <;> rw [ht] at hy ⊢
  · simp only [UnpackedFloat.add]
    split <;> trivial
  · exact hy.mono (by omega)
  · exact hx.mono (by omega)
  · change e ≤ b at hx
    change f ≤ b at hy
    refine (below_normalize (natAbs_sum_lt s t hlt hlt' hx hy) (by omega) _ _).mono ?_
    omega

theorem below_mul (hx : Below b x.toModel.unpack) (hy : Below c y.toModel.unpack) :
    Below (max (b + c + 54) (-1074))
      (UnpackedFloat.mul Format.binary64 x.toModel.unpack y.toModel.unpack) := by
  rcases finite_cases hx.isFinite with ⟨s, hs⟩ | ⟨s, m, e, hm, hs, hlt, -⟩ <;>
    rcases finite_cases hy.isFinite with ⟨t, ht⟩ | ⟨t, n, f, hn, ht, hlt', -⟩ <;>
    rw [hs] at hx ⊢ <;> rw [ht] at hy ⊢
  · trivial
  · trivial
  · trivial
  · change e ≤ b at hx
    change f ≤ c at hy
    have hprod : m * n < 2 ^ 106 :=
      (Nat.mul_lt_mul'' hlt hlt').trans_le (by norm_num)
    have htotal := totalExponent_le (m * n) (e + f) hprod (by decide) le_rfl
    exact (below_roundWithAccuracy _ _ _ _).mono (by omega)

theorem isFinite_add (hx : Below 969 x.toModel.unpack) (hy : Below 969 y.toModel.unpack) :
    (x + y).isFinite :=
  (below_unpack_pack (below_add hx hy (by decide)) (by decide) (by decide)).isFinite

theorem below_of_isFinite (h : x.isFinite) : Below 971 x.toModel.unpack := by
  rcases finite_cases h with ⟨s, hs⟩ | ⟨s, m, e, hm, hs, -, he⟩
  · rw [hs]
    trivial
  · rw [hs]
    exact he

theorem below_mul_small (hx : x.isFinite) (hy : Below (-72) y.toModel.unpack) :
    Below 953 (x * y).toModel.unpack := by
  have h := (below_mul (below_of_isFinite hx) hy).mono (by decide : _ ≤ (953 : ℤ))
  exact below_unpack_pack h (by decide) (by decide)

theorem unpack_packedInfinity (s : Sign) :
    UnpackedFloat.unpack Format.binary64 (packedInfinity Format.binary64 s) = .infinity s := by
  rcases s with _ | _ <;> rfl

theorem unpack_pack_isFinite_or {u : UnpackedFloat} (h : u.isFinite = true) :
    (Float.Model.pack u).unpack.isFinite = true ∨ ∃ s, (Float.Model.pack u).unpack =
      .infinity s := by
  by_cases hu : Below 971 u
  · exact .inl (below_unpack_pack hu (by decide) (by decide)).isFinite
  · rcases u with _ | _ | s | ⟨s, m, e, hm⟩
    · cases h
    · cases h
    · exact absurd trivial hu
    · have he : ¬ e ≤ 971 := hu
      have hbias : ((Format.binary64.exponentBias : ℕ) : ℤ) = 1023 := by decide
      have hbits : 2 ^ Format.binary64.exponentBits = 2048 := by decide
      refine .inr ⟨s, ?_⟩
      rw [unpack_pack]
      simp only [UnpackedFloat.pack, hbias]
      rw [if_pos (by rw [hbits]; omega), unpack_packedInfinity]

theorem add_le_self (hx : x.isFinite) (hy : y.isFinite) : x + y ≤ x + y := by
  have hsum : (UnpackedFloat.add Format.binary64 x.toModel.unpack y.toModel.unpack).isFinite =
    true :=
    (below_add (below_of_isFinite hx) (below_of_isFinite hy) (by decide)).isFinite
  rcases unpack_pack_isFinite_or hsum with h | ⟨s, h⟩
  · exact le_refl h
  · have hrank : rank (x + y) = place (.infinity s) := congrArg place h
    obtain ⟨r, hr⟩ : ∃ r, place (.infinity s) = some r := by
      rcases s with _ | _ <;> exact ⟨_, rfl⟩
    rw [hr] at hrank
    exact le_iff_rank.2 ⟨r, hrank, r, hrank, le_rfl⟩

end Operations

end RadarTimeline.Number
