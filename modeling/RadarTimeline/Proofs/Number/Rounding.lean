import RadarTimeline.Proofs.Number.Difference

namespace RadarTimeline.Number

open Float.Model Float.Model.UnpackedFloat

variable {s : Sign} {m n : ℕ} {e : ℤ} {v w : ℚ} {em : ExtendedMantissa} {u : UnpackedFloat}

section Residue

/-- What a mantissa with its two residual bits is left of, in units of its last digit. -/
def Residue (em : ExtendedMantissa) (v : ℚ) : Prop :=
  match em.roundBit, em.stickyBit with
  | false, false => v = em.mantissa
  | false, true => em.mantissa < v ∧ v < em.mantissa + 1 / 2
  | true, false => v = em.mantissa + 1 / 2
  | true, true => em.mantissa + 1 / 2 < v ∧ v < em.mantissa + 1

theorem residue_exact (m : ℕ) : Residue (.ofMantissaAndAccuracy m .exact) m := rfl

theorem Residue.shiftRightOne (h : Residue em v) : Residue em.shiftRightOne (v / 2) := by
  rcases em with ⟨m, r, s⟩
  have hdigit : (m : ℚ) = 2 * (m / 2 : ℕ) + (m % 2 : ℕ) := by
    exact_mod_cast (Nat.div_add_mod m 2).symm
  rcases Nat.mod_two_eq_zero_or_one m with hm | hm <;> rw [hm] at hdigit <;>
    rcases r with _ | _ <;> rcases s with _ | _ <;>
    simp only [Residue, ExtendedMantissa.shiftRightOne, hm, Nat.cast_zero,
      Nat.cast_one] at h hdigit ⊢
  all_goals
    first
    | exact ⟨by linarith, by linarith⟩
    | exact (show v / 2 = _ by linarith)

theorem Residue.shiftRight (h : Residue em v) (k : ℕ) : Residue (em >>> k) (v / 2 ^ k) := by
  induction k with
  | zero =>
    rw [pow_zero, div_one]
    exact h
  | succ k ih =>
    rw [pow_succ, ← div_div]
    exact ih.shiftRightOne

/-- A whole number is at most one half away from a value, and even if it is one half away. -/
def HalfWithin (r : ℕ) (v : ℚ) : Prop :=
  r - 1 / 2 ≤ v ∧ v ≤ r + 1 / 2 ∧ (r % 2 = 1 → r - 1 / 2 < v ∧ v < r + 1 / 2)

theorem Residue.halfWithin (h : Residue em v) : HalfWithin em.roundedMantissa v := by
  rcases em with ⟨m, _ | _, _ | _⟩
  · change v = m at h
    change HalfWithin m v
    exact ⟨by linarith, by linarith, fun _ => ⟨by linarith, by linarith⟩⟩
  · obtain ⟨hlow, hhigh⟩ := h
    change HalfWithin m v
    exact ⟨by linarith, hhigh.le, fun _ => ⟨by linarith, hhigh⟩⟩
  · -- half-way the odd mantissa goes up and the even one stays
    change v = m + 1 / 2 at h
    change HalfWithin (m + m % 2) v
    rcases Nat.mod_two_eq_zero_or_one m with hm | hm <;> rw [hm] <;> unfold HalfWithin <;> push_cast
    · exact ⟨by linarith, by linarith, fun hodd => by omega⟩
    · exact ⟨by linarith, by linarith, fun hodd => by omega⟩
  · obtain ⟨hlow, hhigh⟩ := h
    change HalfWithin (m + 1) v
    unfold HalfWithin
    push_cast
    exact ⟨by linarith, by linarith, fun _ => ⟨by linarith, by linarith⟩⟩

end Residue

/-- A number with all digits that is nearest to a value with a sign. It may be too large to be
stored. -/
def Nearest (s : Sign) (v : ℚ) (u : UnpackedFloat) : Prop :=
  ∃ m e hm, u = .finite s m e hm ∧ Binary.leading ≤ m ∧ (Binary.mk (s == .negative) m e).Stored ∧
    (Binary.mk (s == .negative) m e).Rounds v

section Rounding

variable (s)

theorem log2_eq (hlow : Binary.leading ≤ m) (hhigh : m < 2 * Binary.leading) : m.log2 = 52 :=
  (Nat.log2_eq_iff (by have : Binary.leading = 2 ^ 52 := rfl; omega)).2 ⟨hlow, hhigh⟩

theorem stored_of_full (negative : Bool) (hlow : Binary.leading ≤ m)
    (hhigh : m < 2 * Binary.leading) (he : -1074 ≤ e) : (Binary.mk negative m e).Stored where
  pos := (Nat.two_pow_pos 52).trans_le hlow
  lt := hhigh
  least := he
  full _ := hlow

/-- A mantissa of at most 53 digits needs no shift, and one with a digit more is shifted once. -/
theorem shift_rounded (hhigh : m ≤ 2 * Binary.leading) (he : -1074 ≤ e) :
    let shifted := shiftToTargetExponent Format.binary64 m e .exact
    m < 2 * Binary.leading ∧ shifted.1.mantissa = m ∧ shifted.2 = e ∨
      m = 2 * Binary.leading ∧ shifted.1.mantissa = Binary.leading ∧ shifted.2 = e + 1 := by
  intro shifted
  have hmantissa : shifted.1.mantissa = _ := mantissa_shift m e .exact
  have hexponent : shifted.2 = _ := exponent_shift m e .exact
  rw [exponent_shift] at hmantissa
  unfold totalExponent at hmantissa hexponent
  rcases hhigh.lt_or_eq with hlt | rfl
  · have hlog : m.log2 < 53 := by
      rcases m.eq_zero_or_pos with rfl | hm
      · decide
      · exact (Nat.log2_lt hm.ne').2 hlt
    have hstay : max e (max ((m.log2 : ℤ) + 1 + e - 53) (-1074)) = e := by omega
    rw [hstay, sub_self, Int.toNat_zero, pow_zero, Nat.div_one] at hmantissa
    exact .inl ⟨hlt, hmantissa, hexponent.trans hstay⟩
  · have hlog : (2 * Binary.leading).log2 = 53 := by decide +kernel
    rw [hlog] at hmantissa hexponent
    have hnext : max e (max (((53 : ℕ) : ℤ) + 1 + e - 53) (-1074)) = e + 1 := by omega
    rw [hnext, add_sub_cancel_left, Int.toNat_one, pow_one, Nat.mul_div_cancel_left _ two_pos]
      at hmantissa
    exact .inr ⟨rfl, hmantissa, hexponent.trans hnext⟩

/-- What is one half away at most from a mantissa rounds to it. Under a power of two the numbers are
closer, except for the least ones. -/
theorem rounds_of_halfWithin (negative : Bool) (e : ℤ) (hm : 0 < m) (h : HalfWithin m v)
    (hv : m = Binary.leading → e ≠ -1074 → m - 1 / 4 ≤ v) :
    (Binary.mk negative m e).Rounds (v * 2 ^ e) := by
  have hpos : (0 : ℚ) < 2 ^ (e - 2) := by positivity
  have hquarters : v * 2 ^ e = 4 * v * 2 ^ (e - 2) := by
    rw [zpow_sub₀ (by norm_num)]
    ring
  obtain ⟨hl, hu, hodd⟩ := h
  have hlead : Binary.leading = 4503599627370496 := rfl
  have hlow : m % 2 = 0 → (4 * m - (Binary.mk negative m e).below : ℕ) ≤ 4 * v := by
    intro _
    unfold Binary.below
    split
    · next hpower =>
      have := hv hpower.1 hpower.2
      rw [Nat.cast_sub (by omega)]
      push_cast
      linarith
    · rw [Nat.cast_sub (by omega)]
      push_cast
      linarith
  have htwo : m % 2 = 1 → (4 * m - (Binary.mk negative m e).below : ℕ) = (4 * m - 2 : ℚ) := by
    intro hmod
    rw [Binary.below, if_neg fun h => by dsimp only at h; omega, Nat.cast_sub (by omega)]
    push_cast
    rfl
  unfold Binary.Rounds
  rw [hquarters, Binary.low, Binary.high]
  push_cast
  rcases Nat.mod_two_eq_zero_or_one m with hmod | hmod
  · rw [if_pos hmod]
    exact ⟨mul_le_mul_of_nonneg_right (hlow hmod) hpos.le,
      mul_le_mul_of_nonneg_right (by linarith) hpos.le⟩
  · obtain ⟨hl, hu⟩ := hodd hmod
    rw [if_neg (by omega), htwo hmod]
    exact ⟨mul_lt_mul_of_pos_right (by linarith) hpos, mul_lt_mul_of_pos_right (by linarith) hpos⟩

theorem Residue.mantissa_le (h : Residue em v) : em.mantissa ≤ v ∧ v < em.mantissa + 1 := by
  rcases em with ⟨m, _ | _, _ | _⟩
  · change v = m at h
    exact ⟨h.ge, by linarith⟩
  · exact ⟨h.1.le, by linarith [h.2]⟩
  · change v = m + 1 / 2 at h
    exact ⟨by linarith, by linarith⟩
  · exact ⟨by linarith [h.1], h.2⟩

/-- The digits of a mantissa are known down to the last one that is kept. -/
def Precise (m : ℕ) (e : ℤ) : Prop := e ≤ max (totalExponent m e - 53) (-1074)

/-- A mantissa is shifted until 53 digits are left, or to the least exponent. -/
theorem shift_precise {acc : Accuracy} (hp : Precise m e)
    (hresidue : Residue (.ofMantissaAndAccuracy m acc) v) :
    ∃ em k, shiftToTargetExponent Format.binary64 m e acc = (em, e + (k : ℕ)) ∧ -1074 ≤ e + k ∧
      em.mantissa < 2 * Binary.leading ∧ (e + k ≠ -1074 → Binary.leading ≤ em.mantissa) ∧
      Residue em (v / 2 ^ k) ∧ (k = 0 → em.mantissa = m) := by
  obtain ⟨k, hk⟩ : ∃ k : ℕ, e + k = max (totalExponent m e - 53) (-1074) :=
    ⟨(max (totalExponent m e - 53) (-1074) - e).toNat, by unfold Precise at hp; omega⟩
  have hshift : shiftToTargetExponent Format.binary64 m e acc =
      (ExtendedMantissa.ofMantissaAndAccuracy m acc >>> k, e + k) := by
    have hamount : (max (totalExponent m e - 53) (-1074) - e).toNat = k := by omega
    simp only [shiftToTargetExponent, shiftToExponent, targetExponent_eq, hamount]
  have hhigh : m < 2 ^ (m.log2 + 1) := Nat.lt_log2_self
  unfold totalExponent at hk
  refine ⟨_, k, hshift, by omega, ?_, fun hfull => ?_, hresidue.shiftRight k, ?_⟩
  · rw [mantissa_shiftRight, mantissa_ofMantissaAndAccuracy]
    refine (Nat.div_lt_iff_lt_mul (by positivity)).2 (hhigh.trans_le ?_)
    have hlead : 2 * Binary.leading = 2 ^ 53 := rfl
    rw [hlead, ← pow_add]
    exact Nat.pow_le_pow_right two_pos (by omega)
  · rw [mantissa_shiftRight, mantissa_ofMantissaAndAccuracy]
    have hlog : m.log2 = 52 + k := by omega
    have hlow : 2 ^ m.log2 ≤ m :=
      Nat.log2_self_le (by rintro rfl; rw [Nat.log2_zero] at hlog; omega)
    rw [hlog, pow_add] at hlow
    exact (Nat.le_div_iff_mul_le (by positivity)).2 hlow
  · rintro rfl
    rw [mantissa_shiftRight, mantissa_ofMantissaAndAccuracy, pow_zero, Nat.div_one]

theorem shifted_value (v : ℚ) (e : ℤ) (k : ℕ) : v * 2 ^ e = v / 2 ^ k * 2 ^ (e + k) := by
  rw [zpow_add₀ two_ne_zero, zpow_natCast]
  field_simp

theorem Residue.le_half (h : Residue em v) (hzero : em.roundedMantissa = 0) : v ≤ 1 / 2 := by
  have hhigh := h.halfWithin.2.1
  rwa [hzero, Nat.cast_zero, zero_add] at hhigh

/-- The digits that are kept, rounded by those that are not, are the number in whose interval the
value lies. -/
theorem rounds_roundedMantissa (negative : Bool) (h : Residue em v)
    (hhigh : em.mantissa < 2 * Binary.leading)
    (he : -1074 ≤ e) (hfull : e ≠ -1074 → Binary.leading ≤ em.mantissa)
    (hpos : 0 < em.roundedMantissa) :
    let shifted := shiftToTargetExponent Format.binary64 em.roundedMantissa e .exact
    (Binary.mk negative shifted.1.mantissa shifted.2).Stored ∧
      (Binary.mk negative shifted.1.mantissa shifted.2).Rounds (v * 2 ^ e) ∧
      (Binary.leading ≤ em.mantissa → Binary.leading ≤ shifted.1.mantissa) := by
  have hhalf := h.halfWithin
  have hle := le_roundedMantissa em
  have hge := roundedMantissa_le em
  intro shifted
  obtain ⟨hlt, hmantissa, hexponent⟩ | ⟨heq, hmantissa, hexponent⟩ :=
    shift_rounded (m := em.roundedMantissa) (by omega) he
  · rw [show shifted.1.mantissa = em.roundedMantissa from hmantissa, show shifted.2 =
      e from hexponent]
    refine ⟨⟨hpos, hlt, he, fun hne => (hfull hne).trans hle⟩, ?_, fun hm => hm.trans hle⟩
    refine rounds_of_halfWithin _ _ hpos hhalf fun heq hne => ?_
    have hfloor : (em.roundedMantissa : ℚ) ≤ em.mantissa := Nat.cast_le.2 (heq.trans_le (hfull hne))
    linarith [h.mantissa_le.1]
  · -- one digit more than are kept: the value is just under a power of two
    rw [show shifted.1.mantissa = Binary.leading from hmantissa, show shifted.2 =
      e + 1 from hexponent]
    refine ⟨stored_of_full _ le_rfl (by decide) (by omega), ?_, fun _ => le_rfl⟩
    have hcast : (em.roundedMantissa : ℚ) = 2 * Binary.leading := by exact_mod_cast heq
    obtain ⟨hl, hu, -⟩ := hhalf
    rw [hcast] at hl hu
    rw [shifted_value v e 1, pow_one, Nat.cast_one]
    refine rounds_of_halfWithin _ _ (by decide) ⟨by linarith, by linarith, fun hodd => ?_⟩ fun _
      _ => by linarith
    exact absurd hodd (by decide)

/-- Only what is at most half of the least number is rounded to zero, and all else to the number in
whose interval it lies. -/
theorem roundWithAccuracy_cases {acc : Accuracy} (hp : Precise m e)
    (hresidue : Residue (.ofMantissaAndAccuracy m acc) v) :
    v * 2 ^ e ≤ 2 ^ (-1075 : ℤ) ∨
      ∃ n f hn, roundWithAccuracy Format.binary64 s m e acc = .finite s n f hn ∧
        (Binary.mk (s == .negative) n f).Stored ∧
        (Binary.mk (s == .negative) n f).Rounds (v * 2 ^ e) ∧
        (-1074 ≤ e → Binary.leading ≤ m → Binary.leading ≤ n) := by
  obtain ⟨em, k, hfirst, hleast, hhigh, hfull, hresidue, hsame⟩ := shift_precise hp hresidue
  rw [shifted_value v e k]
  rcases em.roundedMantissa.eq_zero_or_pos with hzero | hpos
  · left
    have hk : e + k = -1074 := by
      by_contra hne
      have hlead : 0 < Binary.leading := by decide
      have hle := le_roundedMantissa em
      have := hfull hne
      omega
    calc v / 2 ^ k * 2 ^ (e + k) ≤ 1 / 2 * 2 ^ (e + k) :=
          mul_le_mul_of_nonneg_right (hresidue.le_half hzero) (by positivity)
      _ = 2 ^ (-1 : ℤ) * 2 ^ (-1074 : ℤ) := by rw [hk, one_div, zpow_neg_one]
      _ = 2 ^ (-1075 : ℤ) := (zpow_add₀ two_ne_zero (-1) (-1074)).symm
  · right
    obtain ⟨hstored, hrounds, hkeeps⟩ :=
      rounds_roundedMantissa (s == .negative) hresidue hhigh hleast hfull hpos
    simp only [roundWithAccuracy, hfirst]
    rw [dif_neg hstored.pos.ne']
    refine ⟨_, _, hstored.pos, rfl, hstored, hrounds, fun he hm => hkeeps ?_⟩
    by_cases hk : e + k = -1074
    · exact hm.trans_eq (hsame (by omega)).symm
    · exact hfull hk

/-- What rounds to a number is at least half of the least number, and more unless it is not it. -/
theorem lt_of_rounds {b : Binary} (hb : b.Stored) (hr : b.Rounds v) : 2 ^ (-1075 : ℤ) < v := by
  have hpos := hb.pos
  have hunit : (2 : ℚ) ^ (-1076 : ℤ) ≤ 2 ^ (b.exponent - 2) :=
    zpow_le_zpow_right₀ (by norm_num) (by have := hb.least; omega)
  have hhalf : (2 : ℚ) ^ (-1075 : ℤ) = 2 ^ (-1076 : ℤ) * 2 := zpow_add_one₀ two_ne_zero (-1076)
  have hbelow : b.below ≤ 2 := by
    unfold Binary.below
    split <;> omega
  have hlow : ∀ n : ℕ, n ≤ 4 * b.mantissa - b.below → n * 2 ^ (-1076 : ℤ) ≤ b.low := by
    intro n hn
    rw [Binary.low]
    exact mul_le_mul (Nat.cast_le.2 hn) hunit (by positivity) (Nat.cast_nonneg _)
  have hleast : (0 : ℚ) < 2 ^ (-1076 : ℤ) := by positivity
  rw [hhalf]
  generalize (2 : ℚ) ^ (-1076 : ℤ) = unit at hlow hleast
  unfold Binary.Rounds at hr
  split at hr
  · have := hlow 3 (by omega)
    push_cast at this
    linarith [hr.1]
  · have := hlow 2 (by omega)
    push_cast at this
    linarith [hr.1]

theorem roundWithAccuracy_eq {acc : Accuracy} {b : Binary} (hp : Precise m e)
    (hresidue : Residue (.ofMantissaAndAccuracy m acc) v) (hb : b.Stored)
    (hr : b.Rounds (v * 2 ^ e)) :
    roundWithAccuracy Format.binary64 s m e acc = .finite s b.mantissa b.exponent hb.pos := by
  rcases roundWithAccuracy_cases s hp hresidue with hsmall | ⟨n, f, hn, heq, hstored, hrounds, -⟩
  · exact absurd hsmall (lt_of_rounds hb hr).not_ge
  · obtain ⟨rfl, rfl⟩ := hstored.eq_of_rounds hb hrounds hr
    exact heq

theorem precise_of_full (hm : Binary.leading ≤ m) (e : ℤ) : Precise m e := by
  have hlead : Binary.leading = 4503599627370496 := rfl
  have hlog : 52 ≤ m.log2 := (Nat.le_log2 (by omega)).2 hm
  unfold Precise totalExponent
  omega

theorem nearest_roundWithAccuracy (hm : Binary.leading ≤ m) (he : -1074 ≤ e) :
    Nearest s (m * 2 ^ e) (roundWithAccuracy Format.binary64 s m e .exact) := by
  have hcases := roundWithAccuracy_cases s (precise_of_full hm e) (residue_exact m)
  rcases hcases with hsmall | ⟨n, f, hn, heq, hstored, hrounds, hfull⟩
  · have hone : (1 : ℚ) ≤ m := Nat.one_le_cast.2 ((by decide : 1 ≤ Binary.leading).trans hm)
    have hlarge : (2 : ℚ) ^ (-1075 : ℤ) < 2 ^ e := zpow_lt_zpow_right₀ (by norm_num) (by omega)
    have hle : (2 : ℚ) ^ e ≤ m * 2 ^ e := le_mul_of_one_le_left (by positivity) hone
    exact absurd hsmall (hlarge.trans_le hle).not_ge
  · exact ⟨n, f, hn, heq, hfull he hm, hstored, hrounds⟩

theorem nearest_round (hm : 0 < m) (he : -1022 ≤ e) :
    Nearest s (m * 2 ^ e) (UnpackedFloat.round Format.binary64 s m e) := by
  obtain ⟨k, hk⟩ : ∃ k, k = 52 - m.log2 := ⟨_, rfl⟩
  have hamount : (e - max ((m.log2 : ℤ) + 1 + e - 53) (-1074)).toNat = k := by omega
  have hlow : Binary.leading ≤ m <<< k := by
    rw [Nat.shiftLeft_eq]
    calc Binary.leading = 2 ^ 52 := rfl
      _ ≤ 2 ^ (m.log2 + k) := Nat.pow_le_pow_right two_pos (by omega)
      _ = 2 ^ m.log2 * 2 ^ k := pow_add 2 _ _
      _ ≤ m * 2 ^ k := Nat.mul_le_mul_right _ (Nat.log2_self_le hm.ne')
  have hvalue : ((m <<< k : ℕ) : ℚ) * 2 ^ (e - k) = m * 2 ^ e := by
    rw [Nat.shiftLeft_eq, zpow_sub₀ (by norm_num), zpow_natCast]
    push_cast
    field_simp
  simp only [UnpackedFloat.round, decreaseExponent, targetExponent_eq, totalExponent, hamount]
  rw [← hvalue]
  exact nearest_roundWithAccuracy s hlow (by omega)

end Rounding

section Storing

/-- What is left of a number when it is stored: beyond the largest exponent there are only the
infinities. -/
def kept : UnpackedFloat → UnpackedFloat
  | .finite s m e hm => if e ≤ 971 then .finite s m e hm else .infinity s
  | u => u

theorem unpack_pack_full {hm : 0 < m} (hlow : Binary.leading ≤ m) (hhigh : m < 2 * Binary.leading)
    (he : -1074 ≤ e) (he' : e ≤ 971) :
    (Float.Model.pack (.finite s m e hm)).unpack = .finite s m e hm := by
  have hsign : Sign.ofBitVec s.toBitVec = s := by cases s <;> rfl
  have hbias : ((Format.binary64.exponentBias : ℕ) : ℤ) = 1023 := by decide
  have hdigits : ((Format.binary64.mantissaBitsWithoutImplicit : ℕ) : ℤ) = 52 := by decide
  have hbits : 2 ^ Format.binary64.exponentBits = 2048 := by decide
  have hall : 52 + 1 = Format.binary64.mantissaBits := by decide
  obtain ⟨k, hk⟩ : ∃ k, k = (e + 1023 + 52).toNat := ⟨_, rfl⟩
  have hfield : (BitVec.ofNat Format.binary64.exponentBits k).toNat = k := by
    rw [BitVec.toNat_ofNat, hbits, Nat.mod_eq_of_lt (by omega)]
  have hmantissa : (1#1 ++ BitVec.ofNat Format.binary64.mantissaBitsWithoutImplicit m).toNat =
    m := by
    rw [toNat_leading_append, BitVec.toNat_ofNat]
    change Binary.leading + m % Binary.leading = m
    rw [Nat.mod_eq_sub_mod hlow, Nat.mod_eq_of_lt (by omega), Nat.add_sub_of_le hlow]
  rw [unpack_pack]
  simp only [UnpackedFloat.pack, hbias, hdigits, hbits, ← hk, log2_eq hlow hhigh]
  rw [if_neg (by omega), if_pos hall]
  simp only [UnpackedFloat.unpack, unpackExponent_packComponents, unpackMantissa_packComponents,
    unpackSign_packComponents, hsign]
  rw [if_neg, if_neg]
  · simp only [hmantissa, hfield, hbias, hdigits]
    congr 1
    omega
  · intro h
    have h : k = 0 := hfield.symm.trans (congrArg BitVec.toNat h)
    omega
  · intro h
    have h : k = 2047 := hfield.symm.trans (congrArg BitVec.toNat h)
    omega

/-- A number with fewer digits has the least exponent, and all its digits are stored. -/
theorem unpack_pack_short {hm : 0 < m} (hshort : m < Binary.leading) :
    (Float.Model.pack (.finite s m (-1074) hm)).unpack = .finite s m (-1074) hm := by
  have hsign : Sign.ofBitVec s.toBitVec = s := by cases s <;> rfl
  have hbias : ((Format.binary64.exponentBias : ℕ) : ℤ) = 1023 := by decide
  have hdigits : ((Format.binary64.mantissaBitsWithoutImplicit : ℕ) : ℤ) = 52 := by decide
  have hbits : 2 ^ Format.binary64.exponentBits = 2048 := by decide
  have hall : Format.binary64.mantissaBits = 53 := by decide
  have hlog : m.log2 < 52 := (Nat.log2_lt hm.ne').2 hshort
  have hmantissa : (BitVec.ofNat Format.binary64.mantissaBitsWithoutImplicit m).toNat = m := by
    rw [BitVec.toNat_ofNat]
    exact Nat.mod_eq_of_lt hshort
  rw [unpack_pack]
  simp only [UnpackedFloat.pack, hbias, hdigits, hbits, hall]
  rw [if_neg (by omega), if_neg (by omega)]
  simp only [UnpackedFloat.unpack, unpackExponent_packComponents, unpackMantissa_packComponents,
    unpackSign_packComponents, hsign]
  rw [if_neg (by decide), if_pos trivial, dif_neg]
  · congr 1
  · intro h
    rw [h] at hmantissa
    exact hm.ne hmantissa

theorem unpack_pack_stored {negative : Bool} (hb : (Binary.mk negative m e).Stored) (he : e ≤ 971) :
    (Float.Model.pack (.finite s m e hb.pos)).unpack = .finite s m e hb.pos := by
  rcases Nat.lt_or_ge m Binary.leading with hshort | hfull
  · obtain rfl : e = -1074 := by_contra fun h => hshort.not_ge (hb.full h)
    exact unpack_pack_short hshort
  · exact unpack_pack_full hfull hb.lt hb.least he

theorem unpack_pack_large {hm : 0 < m} (he : 971 < e) :
    (Float.Model.pack (.finite s m e hm)).unpack = .infinity s := by
  have hbias : ((Format.binary64.exponentBias : ℕ) : ℤ) = 1023 := by decide
  have hbits : 2 ^ Format.binary64.exponentBits = 2048 := by decide
  rw [unpack_pack]
  simp only [UnpackedFloat.pack, hbias]
  rw [if_pos (by rw [hbits]; omega), unpack_packedInfinity]

theorem Nearest.unpack_pack (h : Nearest s v u) : (Float.Model.pack u).unpack = kept u := by
  obtain ⟨m, e, hm, rfl, hlow, hstored, -⟩ := h
  unfold kept
  dsimp only
  split
  · next he => exact unpack_pack_full hlow hstored.lt hstored.least he
  · next he => exact unpack_pack_large (by omega)

theorem Nearest.unpack_pack_kept (h : Nearest s v u) :
    (Float.Model.pack (kept u)).unpack = kept u := by
  have hu := h.unpack_pack
  obtain ⟨m, e, hm, rfl, -⟩ := h
  by_cases he : e ≤ 971
  · have hkept : kept (.finite s m e hm) = .finite s m e hm := if_pos he
    rwa [hkept] at hu ⊢
  · have hkept : kept (.finite s m e hm) = .infinity s := if_neg he
    rw [hkept]
    exact unpack_packedInfinity s

theorem Nearest.neg (h : Nearest s v u) : Nearest (-s) v u.neg ∧ kept u.neg = (kept u).neg := by
  obtain ⟨m, e, hm, rfl, hlow, hstored, hrounds⟩ := h
  refine ⟨⟨m, e, hm, rfl, hlow, stored_of_full _ hlow hstored.lt hstored.least, hrounds⟩, ?_⟩
  unfold kept
  dsimp only [UnpackedFloat.neg]
  split <;> rfl

theorem nearest_self (s : Sign) (hm : 0 < m) (hlow : Binary.leading ≤ m)
    (hhigh : m < 2 * Binary.leading) (he : -1074 ≤ e) : Nearest s (m * 2 ^ e) (.finite s m e hm) :=
  ⟨m, e, hm, rfl, hlow, stored_of_full _ hlow hhigh he, rounds_magnitude _ hm⟩

theorem Nearest.unique {u' : UnpackedFloat} (h : Nearest s v u) (h' : Nearest s v u') : u = u' := by
  obtain ⟨m, e, hm, rfl, -, hstored, hrounds⟩ := h
  obtain ⟨n, f, hn, rfl, -, hstored', hrounds'⟩ := h'
  obtain ⟨hmn, hef⟩ := hstored.eq_of_rounds hstored' hrounds hrounds'
  dsimp only at hmn hef
  subst hmn hef
  rfl

theorem Nearest.order {u' : UnpackedFloat} (h : Nearest s v u) (h' : Nearest s w u') (hle : v ≤ w) :
    match s with
    | .positive => (kept u).le (kept u') = true
    | .negative => (kept u').le (kept u) = true := by
  obtain ⟨m, e, hm, rfl, -, hstored, hrounds⟩ := h
  obtain ⟨n, f, hn, rfl, -, hstored', hrounds'⟩ := h'
  have hparts : e < f ∨ e = f ∧ m ≤ n := by
    have hnot : ¬(f < e ∨ f = e ∧ n < m) := fun hlt =>
      (hstored'.lt_of_rounds hstored hlt hrounds' hrounds).not_ge hle
    omega
  unfold kept
  cases s <;> simp only [le_iff_place] <;> split_ifs <;>
    simp [place, Prod.Lex.toLex_le_toLex] <;> omega

end Storing

end RadarTimeline.Number
