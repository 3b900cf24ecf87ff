import RadarTimeline.Number.Layout
import RadarTimeline.Proofs.Number.Indices
import RadarTimeline.Proofs.Number.Integers

namespace RadarTimeline.Number

open Float.Model Float.Model.UnpackedFloat

variable {x y : Float} {s : Sign} {d m n : ℕ} {e f : ℤ} {v w : ℚ} {u : UnpackedFloat}

section Order

theorem Binary.Stored.lt_iff {a b : Binary} (ha : a.Stored) (hb : b.Stored) :
    (a.mantissa * 2 ^ a.exponent : ℚ) < b.mantissa * 2 ^ b.exponent ↔
      a.exponent < b.exponent ∨ a.exponent = b.exponent ∧ a.mantissa < b.mantissa := by
  have hlt : ∀ {a b : Binary}, a.Stored → b.Stored →
      a.exponent < b.exponent ∨ a.exponent = b.exponent ∧ a.mantissa < b.mantissa →
        (a.mantissa * 2 ^ a.exponent : ℚ) < b.mantissa * 2 ^ b.exponent := fun ha hb h =>
    ha.lt_of_rounds hb h (rounds_magnitude _ ha.pos) (rounds_magnitude _ hb.pos)
  refine ⟨fun h => ?_, hlt ha hb⟩
  by_contra hnot
  rcases eq_or_ne a.exponent b.exponent with he | he
  · rcases eq_or_ne a.mantissa b.mantissa with hm | hm
    · rw [he, hm] at h
      exact h.false
    · exact h.asymm (hlt hb ha (by omega))
  · exact h.asymm (hlt hb ha (by omega))

theorem unpack_cases_of_value? (h : value? x = some v) :
    (∃ s, x.toModel.unpack = .zero s ∧ v = 0) ∨
      ∃ s m e hm, x.toModel.unpack = .finite s m e hm ∧ v = s.apply (m : ℤ) * 2 ^ e := by
  unfold value? at h
  split at h
  · next s hx => exact .inl ⟨s, hx, (Option.some_inj.1 h).symm⟩
  · next s m e hm hx => exact .inr ⟨s, m, e, hm, hx, (Option.some_inj.1 h).symm⟩
  · cases h

theorem unpack_cases_of_nonneg (h : value? x = some v) (hv : 0 ≤ v) :
    (∃ s, x.toModel.unpack = .zero s ∧ v = 0) ∨
      ∃ m e hm, x.toModel.unpack = .finite .positive m e hm ∧ v = m * 2 ^ e := by
  refine (unpack_cases_of_value? h).imp_right ?_
  rintro ⟨s, m, e, hm, hx, rfl⟩
  cases s with
  | negative =>
    have hpos : (0 : ℚ) < m * 2 ^ e := by positivity
    simp only [Sign.apply, Int.cast_neg, Int.cast_natCast, neg_mul] at hv
    linarith
  | positive => exact ⟨m, e, hm, hx, rfl⟩

/-- Finite numbers are in the order of their values. -/
theorem lt_iff_value (hx : value? x = some v) (hy : value? y = some w) : x < y ↔ v < w := by
  have hlt : x < y ↔ x.toModel.unpack.lt y.toModel.unpack = true := by
    change decide (x.toModel < y.toModel) = true ↔ _
    rw [decide_eq_true_iff]
    rfl
  rw [hlt, UnpackedFloat.lt, beq_iff_eq]
  rcases unpack_cases_of_value? hx with ⟨s, hux, rfl⟩ | ⟨s, m, e, hm, hux, rfl⟩ <;>
    rcases unpack_cases_of_value? hy with ⟨t, huy, rfl⟩ | ⟨t, n, f, hn, huy, rfl⟩ <;>
    rw [hux, huy]
  · simp [UnpackedFloat.compare]
  · have hpos : (0 : ℚ) < n * 2 ^ f := by positivity
    cases t <;> simp [UnpackedFloat.compare, Sign.apply, hpos, hpos.le]
  · have hpos : (0 : ℚ) < m * 2 ^ e := by positivity
    cases s <;> simp [UnpackedFloat.compare, Sign.apply, hpos, hpos.le]
  · have hm' : (0 : ℚ) < m * 2 ^ e := by positivity
    have hn' : (0 : ℚ) < n * 2 ^ f := by positivity
    have hxy := (stored_of_unpack hux).lt_iff (stored_of_unpack huy)
    have hyx := (stored_of_unpack huy).lt_iff (stored_of_unpack hux)
    dsimp only at hxy hyx
    cases s <;> cases t <;>
      simp only [UnpackedFloat.compare, Sign.apply, Int.cast_neg, Int.cast_natCast, neg_mul]
    · rw [neg_lt_neg_iff, hyx, Option.some_inj, Ordering.swap_eq_lt, then_eq_gt]
      omega
    · simp
      linarith
    · simp
      linarith
    · rw [hxy, Option.some_inj, then_eq_lt]

theorem le_iff_value (hx : value? x = some v) (hy : value? y = some w) : x ≤ y ↔ v ≤ w := by
  rw [← not_lt_iff_le (value?_eq_some_iff.1 hx).1 (value?_eq_some_iff.1 hy).1,
    lt_iff_value hy hx, not_lt]

end Order

section Exact

theorem Nearest.value (h : Nearest s (d * 2 ^ f) u) (hd : 0 < d) (hlt : d < 2 ^ 53)
    (hf : -1022 ≤ f) :
    ∃ m e hm, u = .finite s m e hm ∧ (m * 2 ^ e : ℚ) = d * 2 ^ f ∧ e ≤ f := by
  obtain ⟨k, hk, hlow, hhigh⟩ := exists_full hd hlt
  have hvalue : ((d * 2 ^ k : ℕ) : ℚ) * 2 ^ (f - k) = d * 2 ^ f := by
    rw [zpow_sub₀ two_ne_zero, zpow_natCast]
    push_cast
    field_simp
  have hself := nearest_self s (by positivity) hlow hhigh (by omega : -1074 ≤ f - k)
  rw [hvalue] at hself
  exact ⟨_, _, _, h.unique hself, hvalue, by omega⟩

theorem value?_of_nearest (hx : x.toModel.unpack = kept u) (h : Nearest .positive (d * 2 ^ f) u)
    (hd : 0 < d)
    (hlt : d < 2 ^ 53) (hf : -1022 ≤ f) (hf' : f ≤ 971) : value? x = some (d * 2 ^ f : ℚ) := by
  obtain ⟨m, e, hm, rfl, hvalue, he⟩ := h.value hd hlt hf
  have hkept : kept (.finite .positive m e hm) = .finite .positive m e hm := if_pos (by omega)
  rw [hkept] at hx
  rw [value?, hx]
  simp [Sign.apply, hvalue]

/-- The product of two integers is not rounded if it is small enough. -/
theorem value?_mul_ofInt (hm : 0 < m) (hn : 0 < n) (hlt : m * n < 2 ^ 53) :
    value? (ofInt m * ofInt n) = some (m * n : ℚ) := by
  obtain ⟨u, hu, hkept⟩ := unpack_ofNat hm
  obtain ⟨u', hu', hkept'⟩ := unpack_ofNat hn
  obtain ⟨a, e, ha, rfl, hvalue, hlow, -, he, he'⟩ := hu.exact hm (by nlinarith)
  obtain ⟨b, f, hb, rfl, hvalue', -, -, hf, hf'⟩ := hu'.exact hn (by nlinarith)
  have hproduct := nearest_roundWithAccuracy .positive (m := a * b) (e := e + f)
    (hlow.trans (Nat.le_mul_of_pos_right a hb)) (by omega)
  have hexact : ((a * b : ℕ) : ℚ) * 2 ^ (e + f) = (m * n : ℕ) * 2 ^ (0 : ℤ) := by
    rw [zpow_add₀ two_ne_zero, zpow_zero]
    push_cast
    rw [← hvalue, ← hvalue']
    ring
  rw [hexact] at hproduct
  have hunpack : (ofInt m * ofInt n).toModel.unpack =
      kept (roundWithAccuracy Format.binary64 .positive (a * b) (e + f) .exact) := by
    rw [← hproduct.unpack_pack]
    change (Float.Model.pack (.mul Format.binary64 (Float.ofNat m).toModel.unpack
      (Float.ofNat n).toModel.unpack)).unpack = _
    rw [hkept, hkept', kept_of_le he', kept_of_le hf']
    rfl
  have hvalue := value?_of_nearest hunpack hproduct (Nat.mul_pos hm hn) hlt (by decide) (by decide)
  rw [hvalue, zpow_zero, mul_one, Nat.cast_mul]

theorem unpack_pack_unpack (h : value? x = some v) :
    (Float.Model.pack x.toModel.unpack).unpack = x.toModel.unpack := by
  rcases finite_cases (value?_eq_some_iff.1 h).1 with ⟨s, hx⟩ | ⟨s, m, e, hm, hx, -, he⟩
  · rw [hx, unpack_pack_zero]
  · rw [hx]
    exact unpack_pack_stored (stored_of_unpack hx) he

end Exact

section Floor

theorem floor_eq (h : value? x = some v) : floor x = ⌊v⌋ := by
  rw [← (value?_eq_some_iff.1 h).2, Rat.floor_intCast_div_natCast]
  rfl

/-- The floor among the numbers is the floor of the value; only the sign of zero is that of the
number. -/
theorem floorFloat_cases (h : value? x = some v) :
    ⌊v⌋ = 0 ∧ (∃ s, (floorFloat x).toModel.unpack = .zero s) ∨ ⌊v⌋ ≠ 0 ∧
    floorFloat x = ofInt ⌊v⌋ := by
  have hfloat : floorFloat x = withSignOf x ⌊v⌋ := by
    rw [floorFloat, if_pos (value?_eq_some_iff.1 h).1, floor_eq h]
  rw [hfloat, withSignOf]
  rcases eq_or_ne ⌊v⌋ 0 with hzero | hne
  · refine .inl ⟨hzero, ?_⟩
    rw [hzero]
    split
    · exact ⟨.negative, rfl⟩
    · exact ⟨.positive, rfl⟩
  · exact .inr ⟨hne, by simp [hne]⟩

/-- A small multiple of a floor is not rounded. -/
theorem value?_floorFloat_mul (h : value? x = some v) (hv : 0 ≤ v) (hn : 0 < n) (hn' : n < 2 ^ 53)
    (hlt : ⌊v⌋ * n < 2 ^ 53) : value? (floorFloat x * ofInt n) = some (⌊v⌋ * n : ℚ) := by
  rcases floorFloat_cases h with ⟨hzero, s, hfloor⟩ | ⟨hne, hfloor⟩
  · obtain ⟨u, hu, hkept⟩ := unpack_ofNat hn
    obtain ⟨b, f, hb, rfl, -, -, -, -, hf'⟩ := hu.exact hn hn'.le
    have hproduct : (floorFloat x * ofInt n).toModel.unpack =
      (Float.Model.pack (.zero s)).unpack := by
      change (Float.Model.pack (.mul Format.binary64 (floorFloat x).toModel.unpack
        (Float.ofNat n).toModel.unpack)).unpack = _
      rw [hfloor, hkept, kept_of_le hf']
      cases s <;> rfl
    rw [value?, hproduct, unpack_pack_zero, hzero, Int.cast_zero, zero_mul]
  · obtain ⟨m, hm⟩ := Int.eq_ofNat_of_zero_le (Int.floor_nonneg.2 hv)
    rw [hm] at hne hlt ⊢
    rw [hfloor, hm, Int.cast_natCast]
    exact value?_mul_ofInt (by omega) hn (by exact_mod_cast hlt)

theorem value?_sub_zero (h : value? x = some v) (hy : y.toModel.unpack = .zero s) :
    value? (x - y) = some v := by
  have hsub : (x - y).toModel.unpack =
      (Float.Model.pack (.sub Format.binary64 x.toModel.unpack (.zero s))).unpack := by
    rw [← hy]
    rfl
  rcases unpack_cases_of_value? h with ⟨t, hx, rfl⟩ | ⟨t, m, e, hm, hx, -⟩
  · rw [value?, hsub, hx]
    cases s <;> cases t <;> rfl
  · have hsame : (UnpackedFloat.finite t m e hm).sub Format.binary64 (.zero s) = .finite t m e hm :=
      rfl
    rw [value?, hsub, hx, hsame, ← hx, unpack_pack_unpack h]
    exact h

theorem value?_of_normalize {d : ℤ}
    (hx : x.toModel.unpack = (Float.Model.pack (.normalize Format.binary64 d f .positive)).unpack)
    (hd : 0 ≤ d)
    (hlt : d < 2 ^ 53) (hf : -1022 ≤ f) (hf' : f ≤ 971) : value? x = some (d * 2 ^ f : ℚ) := by
  obtain ⟨n, rfl⟩ := Int.eq_ofNat_of_zero_le hd
  rcases n.eq_zero_or_pos with rfl | hn
  · have hzero : UnpackedFloat.normalize Format.binary64 (0 : ℕ) f .positive = .zero .positive :=
      rfl
    rw [value?, hx, hzero, unpack_pack_zero, Nat.cast_zero, Int.cast_zero, zero_mul]
  · have hgt : compare (n : ℤ) 0 = .gt := compare_gt_iff_gt.2 (by omega)
    have hnearest := nearest_round .positive hn hf
    rw [UnpackedFloat.normalize, hgt] at hx
    exact value?_of_nearest (hx.trans hnearest.unpack_pack) hnearest hn (by omega) hf hf'

theorem least_exponent (hlt : m < 2 * Binary.leading) (h : (1 : ℚ) ≤ m * 2 ^ e) : -52 ≤ e := by
  have hlead : Binary.leading = 2 ^ 52 := rfl
  by_contra hsmall
  have hm : (m : ℚ) < 2 ^ 53 := by exact_mod_cast (by omega : m < 2 ^ 53)
  have hunit : (2 : ℚ) ^ e ≤ 2 ^ (-53 : ℤ) := zpow_le_zpow_right₀ (by norm_num) (by omega)
  have := mul_lt_mul hm hunit (by positivity) (by positivity)
  norm_num at this
  linarith

/-- A difference below one of numbers with less than 53 digits after the point is not rounded. -/
theorem value?_sub_of_close {hm : 0 < m} {hn : 0 < n}
    (hx : x.toModel.unpack = .finite .positive m e hm)
    (hy : y.toModel.unpack = .finite .positive n f hn) (he : -52 ≤ e) (hf : -52 ≤ f) (hf' : f ≤ 971)
    (hle : (n * 2 ^ f : ℚ) ≤ m * 2 ^ e) (hlt : (m * 2 ^ e - n * 2 ^ f : ℚ) < 1) :
    value? (x - y) = some (m * 2 ^ e - n * 2 ^ f : ℚ) := by
  -- both numbers are counted in units of the smaller exponent
  obtain ⟨d, hd⟩ : ∃ d : ℤ, d = (m <<< (e - min e f).toNat : ℕ) - (n <<< (f - min e f).toNat : ℕ) :=
    ⟨_, rfl⟩
  have hsub : (x - y).toModel.unpack =
      (Float.Model.pack (.normalize Format.binary64 d (min e f) .positive)).unpack := by
    change (Float.Model.pack (.sub Format.binary64 x.toModel.unpack y.toModel.unpack)).unpack = _
    rw [hx, hy, hd]
    rfl
  have hvalue : (d * 2 ^ min e f : ℚ) = m * 2 ^ e - n * 2 ^ f := by
    rw [hd, Int.cast_sub, Int.cast_natCast, Int.cast_natCast, sub_mul,
      shiftLeft_value m (min_le_left e f), shiftLeft_value n (min_le_right e f)]
  have hnonneg : 0 ≤ d := by
    have hproduct : (0 : ℚ) ≤ d * 2 ^ min e f := by rwa [hvalue, sub_nonneg]
    exact_mod_cast nonneg_of_mul_nonneg_left hproduct (by positivity)
  have hdigits : d < 2 ^ 53 := by
    have hunit : (2 : ℚ) ^ (-52 : ℤ) ≤ 2 ^ min e f := zpow_le_zpow_right₀ (by norm_num) (by omega)
    have hbelow : (d * 2 ^ (-52 : ℤ) : ℚ) < 1 :=
      calc (d * 2 ^ (-52 : ℤ) : ℚ) ≤ d * 2 ^ min e f :=
            mul_le_mul_of_nonneg_left hunit (Int.cast_nonneg hnonneg)
        _ < 1 := hvalue ▸ hlt
    rw [zpow_neg, ← div_eq_mul_inv, div_lt_one (by positivity)] at hbelow
    have : d < 2 ^ 52 := by exact_mod_cast hbelow
    omega
  rw [value?_of_normalize hsub hnonneg hdigits (by omega) (by omega), hvalue]

/-- What is left of a number above its floor is its fraction, without rounding. -/
theorem value?_sub_floorFloat (h : value? x = some v) (hv : 0 ≤ v) (hlt : ⌊v⌋ < 2 ^ 53) :
    value? (x - floorFloat x) = some (Int.fract v) := by
  rcases floorFloat_cases h with ⟨hzero, s, hfloor⟩ | ⟨hne, hfloor⟩
  · rw [value?_sub_zero h hfloor, Int.fract, hzero, Int.cast_zero, sub_zero]
  obtain ⟨n, hn⟩ := Int.eq_ofNat_of_zero_le (Int.floor_nonneg.2 hv)
  rw [hn] at hne hlt hfloor
  obtain ⟨u, hu, hkept⟩ := unpack_ofNat (n := n) (by omega)
  obtain ⟨b, f, hb, rfl, hvalue, -, -, hf, hf'⟩ := hu.exact (by omega) (by omega)
  rw [kept_of_le hf'] at hkept
  have hunpack : (floorFloat x).toModel.unpack = .finite .positive b f hb := hfloor ▸ hkept
  -- a number from one on has no digits that the difference could lose
  have hone : (1 : ℚ) ≤ v := Int.cast_one (R := ℚ) ▸ Int.le_floor.1 (by omega : (1 : ℤ) ≤ ⌊v⌋)
  rcases unpack_cases_of_nonneg h hv with ⟨t, -, rfl⟩ | ⟨m, e, hm, hx, hxv⟩
  · exact absurd hone (by norm_num)
  · have he : -52 ≤ e := least_exponent (stored_of_unpack hx).lt (hxv ▸ hone)
    have hfract : (m * 2 ^ e - b * 2 ^ f : ℚ) = Int.fract v := by
      rw [hvalue, ← hxv, Int.fract, hn, Int.cast_natCast]
    rw [value?_sub_of_close hx hunpack he hf (by omega) (sub_nonneg.1 (hfract ▸ Int.fract_nonneg v))
      (hfract ▸ Int.fract_lt_one v), hfract]

end Floor

section Places

theorem value?_abs (h : value? x = some v) (hv : 0 ≤ v) : value? x.abs = some v := by
  have habs : x.abs.toModel.unpack = (Float.Model.pack x.toModel.unpack.abs).unpack := rfl
  rcases unpack_cases_of_nonneg h hv with ⟨t, hx, rfl⟩ | ⟨m, e, hm, hx, -⟩
  · rw [value?, habs, hx]
    cases t <;> rfl
  · have hsame : (UnpackedFloat.finite .positive m e hm).abs = .finite .positive m e hm := rfl
    rw [value?, habs, hx, hsame, ← hx, unpack_pack_unpack h]
    exact h

theorem roundToPlaces_eq (places : ℕ) (h : value? x = some v) (hv : 0 ≤ v) :
    (Binary.ofFloat x).roundToPlaces places = ⌊v * 10 ^ places + 1 / 2⌋₊ := by
  have hvalue := (value?_eq_some_iff.1 h).2
  have hden := (Binary.ofFloat x).denominator_pos
  unfold Binary.roundToPlaces
  generalize Binary.ofFloat x = b at hvalue hden
  have hmagnitude : (b.mantissa * Nat.pow 2 b.exponent.toNat : ℕ) = b.numerator.natAbs := by
    unfold Binary.numerator
    split <;> simp [Int.natAbs_mul, Int.natAbs_pow]
  have habs : v = (b.numerator.natAbs : ℚ) / b.denominator := by
    rw [← abs_of_nonneg hv, ← hvalue, abs_div, Nat.abs_cast, Nat.cast_natAbs, Int.cast_abs]
  have hden' : (b.denominator : ℚ) ≠ 0 := Nat.cast_ne_zero.2 hden.ne'
  have hquotient : v * 10 ^ places + 1 / 2 =
    ((2 * (b.numerator.natAbs * 10 ^ places) + b.denominator : ℕ) : ℚ) /
      (2 * b.denominator : ℕ) := by
    rw [habs]
    push_cast
    field_simp
  rw [hmagnitude, hquotient, Nat.floor_div_eq_div]
  rfl

theorem fixedText_eq (places : ℕ) (h : value? x = some v) (hv : 0 ≤ v) (hlt : v < 1) :
    fixedText x places = String.ofList (placesText ⌊v * 10 ^ places + 1 / 2⌋₊ places) := by
  have hone : value? 1 = some 1 := by decide +kernel
  have hsmall : ¬ x.abs ≥ 1e21 := fun hge =>
    not_lt_of_le (le_trans (by decide +kernel : (1 : Float) ≤ 1e21) hge)
      ((lt_iff_value (value?_abs h hv) hone).2 hlt)
  have hsign : ¬ x < 0 := fun hneg => ((lt_iff_value h (rfl : value? 0 = some 0)).1 hneg).not_ge hv
  rw [fixedText, (value?_eq_some_iff.1 h).1]
  simp only [hsmall, hsign, roundToPlaces_eq places h hv]
  rfl

end Places

end RadarTimeline.Number
