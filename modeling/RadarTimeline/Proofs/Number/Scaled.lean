import RadarTimeline.Proofs.Number.Integers

namespace RadarTimeline.Number

open Float.Model Float.Model.UnpackedFloat

variable {b : Binary} {m n k digits : ℕ} {e f t exponent : ℤ} {hm : 0 < m} {hn : 0 < n} {v : ℚ}

section Quotient

theorem residue_quotient (a : ℕ) (hn : 0 < n) :
    Residue (.ofMantissaAndAccuracy (a / n) (accuracyOfFraction (a % n) n)) (a / n) := by
  have hpos : (0 : ℚ) < n := Nat.cast_pos.2 hn
  have hlt : a % n < n := Nat.mod_lt a hn
  have hdivision : (a : ℚ) / n = (a / n : ℕ) + (a % n : ℕ) / n := by
    field_simp
    exact_mod_cast (Nat.div_add_mod a n).symm
  rw [hdivision]
  generalize a / n = q
  generalize a % n = r at hlt
  unfold accuracyOfFraction
  split
  · next h =>
    rw [h, Nat.cast_zero, zero_div, add_zero]
    exact residue_exact q
  · next h =>
    have hrest : (0 : ℚ) < r / n := div_pos (Nat.cast_pos.2 (Nat.pos_of_ne_zero h)) hpos
    have hone : (r : ℚ) / n < 1 := (div_lt_one hpos).2 (Nat.cast_lt.2 hlt)
    cases hhalf : compare (2 * r) n with
    | lt =>
      have hless : (2 * r : ℚ) < n := by exact_mod_cast compare_lt_iff_lt.1 hhalf
      have : (r : ℚ) / n < 1 / 2 := (div_lt_div_iff₀ hpos two_pos).2 (by linarith)
      change (q : ℚ) < q + r / n ∧ (q : ℚ) + r / n < q + 1 / 2
      exact ⟨by linarith, by linarith⟩
    | eq =>
      have heq : (2 * r : ℚ) = n := by exact_mod_cast compare_eq_iff_eq.1 hhalf
      have : (r : ℚ) / n = 1 / 2 := (div_eq_div_iff hpos.ne' two_ne_zero).2 (by linarith)
      rw [this]
      rfl
    | gt =>
      have hmore : (n : ℚ) < 2 * r := by exact_mod_cast compare_gt_iff_gt.1 hhalf
      have : 1 / 2 < (r : ℚ) / n := (div_lt_div_iff₀ two_pos hpos).2 (by linarith)
      change (q : ℚ) + 1 / 2 < q + r / n ∧ (q : ℚ) + r / n < q + 1
      exact ⟨by linarith, by linarith⟩

theorem le_log2_quotient {j : ℕ} (hm : 0 < m) (hn : 0 < n) (h : n.log2 + 1 + j ≤ m.log2 + k) :
    j ≤ ((m <<< k) / n).log2 := by
  have hle : 2 ^ j ≤ (m <<< k) / n := by
    rw [Nat.le_div_iff_mul_le hn, Nat.shiftLeft_eq]
    calc 2 ^ j * n ≤ 2 ^ j * 2 ^ (n.log2 + 1) := Nat.mul_le_mul_left _ Nat.lt_log2_self.le
      _ = 2 ^ (n.log2 + 1 + j) := by rw [← pow_add, add_comm]
      _ ≤ 2 ^ (m.log2 + k) := Nat.pow_le_pow_right two_pos h
      _ = 2 ^ m.log2 * 2 ^ k := pow_add 2 _ _
      _ ≤ m * 2 ^ k := Nat.mul_le_mul_right _ (Nat.log2_self_le hm.ne')
  exact (Nat.le_log2 ((Nat.two_pow_pos j).trans_le hle).ne').2 hle

theorem precise_quotient (hm : 0 < m) (hn : 0 < n)
    (ht : t = min (e - f) (max (totalExponent m e - totalExponent n f - 53) (-1074))) :
    Precise ((m <<< (e - f - t).toNat) / n) t := by
  unfold Precise
  by_cases hleast : t ≤ -1074
  · omega
  · unfold totalExponent at ht ⊢
    have hlog : 52 ≤ ((m <<< (e - f - t).toNat) / n).log2 := le_log2_quotient hm hn (by omega)
    omega

end Quotient

section Operations

variable (hb : b.Stored) (he : b.exponent ≤ 971)
include he

theorem unpack_mul (hfull : Binary.leading ≤ m * n) (hr : b.Rounds (m * 2 ^ e * (n * 2 ^ f))) :
    (Float.Model.pack (.mul Format.binary64 (.finite .positive m e hm)
      (.finite .positive n f hn))).unpack = .finite .positive b.mantissa b.exponent hb.pos := by
  have hvalue : (m * 2 ^ e * (n * 2 ^ f) : ℚ) = (m * n : ℕ) * 2 ^ (e + f) := by
    rw [zpow_add₀ two_ne_zero]
    push_cast
    ring
  rw [hvalue] at hr
  have hround := roundWithAccuracy_eq .positive (precise_of_full hfull _) (residue_exact _) hb hr
  change (Float.Model.pack (.roundWithAccuracy Format.binary64 .positive (m * n) (e + f)
    .exact)).unpack = _
  rw [hround, unpack_pack_stored hb he]

theorem unpack_div (hr : b.Rounds (m * 2 ^ e / (n * 2 ^ f))) :
    (Float.Model.pack (.div Format.binary64 (.finite .positive m e hm)
      (.finite .positive n f hn))).unpack = .finite .positive b.mantissa b.exponent hb.pos := by
  obtain ⟨t, ht⟩ : ∃ t, t =
    min (e - f) (max (totalExponent m e - totalExponent n f - 53) (-1074)) := ⟨_, rfl⟩
  obtain ⟨k, hk⟩ : ∃ k, k = (e - f - t).toNat := ⟨_, rfl⟩
  have hvalue : (m * 2 ^ e / (n * 2 ^ f) : ℚ) = (m <<< k : ℕ) / n * 2 ^ t := by
    have hexponent : e = k + t + f := by omega
    rw [hexponent, zpow_add₀ two_ne_zero, zpow_add₀ two_ne_zero, zpow_natCast, Nat.shiftLeft_eq]
    push_cast
    field_simp
  rw [hvalue] at hr
  have hprecise := precise_quotient hm hn ht
  rw [← hk] at hprecise
  have hround := roundWithAccuracy_eq .positive hprecise (residue_quotient _ hn) hb hr
  have hcore : UnpackedFloat.div Format.binary64 (.finite .positive m e hm)
    (.finite .positive n f hn) =
      .roundWithAccuracy Format.binary64 .positive ((m <<< k) / n) t
        (accuracyOfFraction (m <<< k % n) n) := by
    simp only [UnpackedFloat.div, divCore, targetExponent_eq, ← ht, ← hk]
    rfl
  rw [hcore, hround, unpack_pack_stored hb he]

end Operations

section Powers

theorem powerOfTen_exact (i : Fin 23) : ∃ m e hm,
    (Float.exactlyRepresentablePowersOfTen[i]).toModel.unpack = .finite .positive m e hm ∧
      (m * 2 ^ e : ℚ) = 10 ^ (i : ℕ) ∧ Binary.leading ≤ m := by
  have hall : ∀ i : Fin 23,
      (Binary.ofFloat Float.exactlyRepresentablePowersOfTen[i]).negative = false ∧
      Binary.leading ≤ (Binary.ofFloat Float.exactlyRepresentablePowersOfTen[i]).mantissa ∧
      (Binary.ofFloat Float.exactlyRepresentablePowersOfTen[i]).mantissa *
          2 ^ (Binary.ofFloat Float.exactlyRepresentablePowersOfTen[i]).exponent.toNat =
        10 ^ (i : ℕ) * 2 ^
          (-(Binary.ofFloat Float.exactlyRepresentablePowersOfTen[i]).exponent).toNat := by
    decide +kernel
  obtain ⟨s, m, e, hm, hx⟩ := powerOfTen_finite i
  obtain ⟨hsign, hfull, hvalue⟩ := hall i
  rw [(ofFloat_of_unpack hx).1] at hsign hfull hvalue
  obtain rfl : s = .positive := by
    cases s with
    | positive => rfl
    | negative => cases hsign
  refine ⟨m, e, hm, hx, ?_, hfull⟩
  have h2 : (2 : ℚ) ^ e = _ := zpow_eq_div (a := 2) (by decide) e
  rw [h2, mul_div, div_eq_iff (by positivity)]
  exact_mod_cast hvalue

variable (hb : b.Stored) (he : b.exponent ≤ 971)
include he

theorem unpack_ofScientific_mul (hd : 0 < digits) (hk : k ≤ 2048)
    (hr : b.Rounds (digits * 10 ^ k)) :
    (Float.ofScientific digits false k).toModel.unpack =
      .finite .positive b.mantissa b.exponent hb.pos := by
  have hlead : Binary.leading = 2 ^ 52 := rfl
  unfold Float.ofScientific
  split
  · next h =>
    obtain ⟨m, e, hm, hfactor, hvalue, hfull, -⟩ := unpack_toFloat hd h.1
    obtain ⟨n, f, hn, hpower, hten, -⟩ := powerOfTen_exact ⟨k, by omega⟩
    change (Float.Model.pack (.mul Format.binary64 digits.toUInt64.toFloat.toModel.unpack
      (Float.exactlyRepresentablePowersOfTen[(⟨k, by omega⟩ : Fin 23)]).toModel.unpack)).unpack = _
    rw [hfactor, hpower]
    refine unpack_mul hb he (hfull.trans (Nat.le_mul_of_pos_right _ hn)) ?_
    rwa [hvalue, hten]
  · have hbits : (2 : ℤ) ^ Format.binary64.exponentBits = 2048 := by decide
    have hvalue : ((digits <<< 53 : ℕ) : ℚ) * 2 ^ (-53 : ℤ) * ((10 ^ k : ℕ) * 2 ^ (0 : ℤ)) =
      digits * 10 ^ k := by
      rw [Nat.shiftLeft_eq, zpow_neg]
      push_cast
      field_simp
    have hfull : Binary.leading ≤ digits <<< 53 * 10 ^ k := by
      rw [Nat.shiftLeft_eq]
      calc Binary.leading ≤ digits * 2 ^ 53 := by omega
        _ ≤ digits * 2 ^ 53 * 10 ^ k := Nat.le_mul_of_pos_right _ (by positivity)
    change (Float.Model.pack (UnpackedFloat.ofScientific Format.binary64 digits k)).unpack = _
    rw [UnpackedFloat.ofScientific, dif_neg hd.ne', hbits, if_neg (by omega), if_neg (by omega),
      if_pos (Int.natCast_nonneg k)]
    exact unpack_mul hb he hfull (hvalue.symm ▸ hr)

theorem unpack_ofScientific_div (hd : 0 < digits) (hk : 0 < k) (hk' : k ≤ 2048 + digits.log2)
    (hr : b.Rounds (digits / 10 ^ k)) :
    (Float.ofScientific digits true k).toModel.unpack =
      .finite .positive b.mantissa b.exponent hb.pos := by
  unfold Float.ofScientific
  split
  · next h =>
    obtain ⟨m, e, hm, hfactor, hvalue, -⟩ := unpack_toFloat hd h.1
    obtain ⟨n, f, hn, hpower, hten, -⟩ := powerOfTen_exact ⟨k, by omega⟩
    change (Float.Model.pack (.div Format.binary64 digits.toUInt64.toFloat.toModel.unpack
      (Float.exactlyRepresentablePowersOfTen[(⟨k, by omega⟩ : Fin 23)]).toModel.unpack)).unpack = _
    rw [hfactor, hpower]
    refine unpack_div hb he ?_
    rwa [hvalue, hten]
  · have hbits : (2 : ℤ) ^ Format.binary64.exponentBits = 2048 := by decide
    have hvalue : (digits * 2 ^ (0 : ℤ) / ((10 ^ (- -(k : ℤ)).toNat : ℕ) * 2 ^ (0 : ℤ)) : ℚ) =
      digits / 10 ^ k := by
      rw [neg_neg, Int.toNat_natCast, zpow_zero, mul_one, mul_one]
      push_cast
      rfl
    change (Float.Model.pack (UnpackedFloat.ofScientific Format.binary64 digits
      (-(k : ℤ)))).unpack = _
    rw [UnpackedFloat.ofScientific, dif_neg hd.ne', hbits, if_neg (by omega), if_neg (by omega),
      if_neg (by omega)]
    exact unpack_div hb he (hvalue.symm ▸ hr)

end Powers

section Bounds

theorem le_of_rounds (hb : b.Stored) (he : b.exponent ≤ 971) (hr : b.Rounds v) : v ≤ 2 ^ 1024 := by
  have hlead : Binary.leading = 2 ^ 52 := rfl
  have hv : v ≤ b.high := by
    unfold Binary.Rounds at hr
    split at hr
    · exact hr.2
    · exact hr.2.le
  have hlt := hb.lt
  have hdigits : 4 * b.mantissa + 2 ≤ 2 ^ 55 := by omega
  have hunit : (2 : ℚ) ^ (b.exponent - 2) ≤ 2 ^ (969 : ℤ) :=
    zpow_le_zpow_right₀ one_le_two (by omega)
  calc v ≤ b.high := hv
    _ ≤ (2 ^ 55 : ℕ) * 2 ^ (969 : ℤ) :=
      mul_le_mul (Nat.cast_le.2 hdigits) hunit (by positivity) (by positivity)
    _ = 2 ^ 1024 := by
      rw [zpow_ofNat, Nat.cast_pow, Nat.cast_ofNat, ← pow_add]

theorem log2_le_of_mul (hd : 0 < digits) (h : digits * 10 ^ k ≤ 2 ^ 1024) :
    digits.log2 + 3 * k ≤ 1024 := by
  have hpow : 2 ^ (digits.log2 + 3 * k) ≤ 2 ^ 1024 := by
    calc 2 ^ (digits.log2 + 3 * k) = 2 ^ digits.log2 * 8 ^ k := by rw [pow_add, pow_mul]; rfl
      _ ≤ digits * 10 ^ k :=
        Nat.mul_le_mul (Nat.log2_self_le hd.ne') (Nat.pow_le_pow_left (by decide) k)
      _ ≤ 2 ^ 1024 := h
  exact (pow_le_pow_iff_right₀ one_lt_two).1 hpow

theorem log2_le_of_div (hd : 0 < digits) (h : digits ≤ 2 ^ 1024 * 10 ^ k) :
    digits.log2 * 3 ≤ 1024 * 3 + 10 * k := by
  have hpow : 2 ^ (digits.log2 * 3) ≤ 2 ^ (1024 * 3 + 10 * k) := by
    calc 2 ^ (digits.log2 * 3) = (2 ^ digits.log2) ^ 3 := pow_mul 2 _ 3
      _ ≤ (2 ^ 1024 * 10 ^ k) ^ 3 := Nat.pow_le_pow_left ((Nat.log2_self_le hd.ne').trans h) 3
      _ = 2 ^ (1024 * 3) * 1000 ^ k := by
        rw [mul_pow, ← pow_mul, ← pow_mul, mul_comm k, pow_mul 10]; rfl
      _ ≤ 2 ^ (1024 * 3) * 1024 ^ k := Nat.mul_le_mul_left _ (Nat.pow_le_pow_left (by decide) k)
      _ = 2 ^ (1024 * 3 + 10 * k) := by rw [pow_add, pow_mul 2 10]; rfl
  exact (pow_le_pow_iff_right₀ one_lt_two).1 hpow

theorem lt_log2_of_div (h : 10 ^ k < 2 ^ 1075 * digits) : 3 * k < 1076 + digits.log2 := by
  have hpow : 2 ^ (3 * k) < 2 ^ (1075 + (digits.log2 + 1)) := by
    calc 2 ^ (3 * k) = 8 ^ k := pow_mul 2 3 k
      _ ≤ 10 ^ k := Nat.pow_le_pow_left (by decide) k
      _ < 2 ^ 1075 * digits := h
      _ ≤ 2 ^ 1075 * 2 ^ (digits.log2 + 1) := Nat.mul_le_mul_left _ Nat.lt_log2_self.le
      _ = 2 ^ (1075 + (digits.log2 + 1)) := (pow_add 2 _ _).symm
  have := (pow_lt_pow_iff_right₀ one_lt_two).1 hpow
  omega

theorem magnitude_bounds (hd : 0 < digits) (hleast : -1100 ≤ exponent)
    (hlow : 2 ^ (-1075 : ℤ) < (digits * 10 ^ exponent : ℚ))
    (hhigh : (digits * 10 ^ exponent : ℚ) ≤ 2 ^ 1024) :
    -800 ≤ (digits.log2 : ℤ) * 3 / 10 + exponent ∧ (digits.log2 : ℤ) * 3 / 10 + exponent ≤ 400 := by
  rcases le_total 0 exponent with h | h
  · obtain ⟨k, rfl⟩ := Int.eq_ofNat_of_zero_le h
    have hproduct : digits * 10 ^ k ≤ 2 ^ 1024 := by exact_mod_cast hhigh
    have := log2_le_of_mul hd hproduct
    omega
  · obtain ⟨k, hk⟩ := Int.eq_ofNat_of_zero_le (neg_nonneg.2 h)
    obtain rfl : exponent = -k := by omega
    have hten : (0 : ℚ) < 10 ^ k := by positivity
    have hquotient : (digits * 10 ^ (-(k : ℤ)) : ℚ) = digits / 10 ^ k := by
      rw [zpow_neg, zpow_natCast, div_eq_mul_inv]
    rw [hquotient] at hlow hhigh
    constructor
    · rw [zpow_neg, lt_div_iff₀ hten, inv_mul_lt_iff₀ (by positivity), zpow_ofNat] at hlow
      have hproduct : 10 ^ k < 2 ^ 1075 * digits := by exact_mod_cast hlow
      have := lt_log2_of_div hproduct
      omega
    · rw [div_le_iff₀ hten] at hhigh
      have hproduct : digits ≤ 2 ^ 1024 * 10 ^ k := by exact_mod_cast hhigh
      have := log2_le_of_div hd hproduct
      omega

end Bounds

theorem unpack_scaled (hb : b.Stored) (he : b.exponent ≤ 971) (hleast : -1100 ≤ exponent)
    (hr : b.Rounds (digits * 10 ^ exponent)) :
    (scaled digits exponent).toModel.unpack = .finite .positive b.mantissa b.exponent hb.pos := by
  have hlow := lt_of_rounds hb hr
  have hd : 0 < digits := by
    rw [Nat.pos_iff_ne_zero]
    rintro rfl
    rw [Nat.cast_zero, zero_mul] at hlow
    exact hlow.not_ge (by positivity)
  obtain ⟨hmin, hmax⟩ := magnitude_bounds hd hleast hlow (le_of_rounds hb he hr)
  unfold scaled
  dsimp only
  rw [if_neg hd.ne', if_neg (by omega), if_neg (by omega)]
  rcases lt_or_ge exponent 0 with h | h
  · obtain ⟨k, hk⟩ := Int.eq_ofNat_of_zero_le (neg_nonneg.2 h.le)
    obtain rfl : exponent = -k := by omega
    rw [zpow_neg, zpow_natCast, ← div_eq_mul_inv] at hr
    rw [decide_eq_true h, Int.natAbs_neg, Int.natAbs_natCast]
    exact unpack_ofScientific_div hb he hd (by omega) (by omega) hr
  · obtain ⟨k, rfl⟩ := Int.eq_ofNat_of_zero_le h
    rw [zpow_natCast] at hr
    rw [decide_eq_false h.not_gt, Int.natAbs_natCast]
    exact unpack_ofScientific_mul hb he hd (by omega) hr

end RadarTimeline.Number
