import RadarTimeline.Proofs.Number.Rounding

namespace RadarTimeline.Number

open Float.Model Float.Model.UnpackedFloat

variable {s : Sign} {n : ℕ} {a b : ℤ} {u u' : UnpackedFloat}

/-- What an integer is stored as: zero, or what is kept of the number nearest to it. -/
inductive Rounded : ℤ → UnpackedFloat → Prop
  | zero : Rounded 0 (.zero .positive)
  | nonzero {n : ℕ} {u : UnpackedFloat} (s : Sign) (hn : 0 < n) (h : Nearest s n u) :
    Rounded (s.apply n) (kept u)

theorem exists_full (hn : 0 < n) (hlt : n < 2 ^ 53) :
    ∃ k ≤ 52, Binary.leading ≤ n * 2 ^ k ∧ n * 2 ^ k < 2 * Binary.leading := by
  have hlead : Binary.leading = 2 ^ 52 := rfl
  have hlog : n.log2 < 53 := (Nat.log2_lt hn.ne').2 hlt
  obtain ⟨k, hk⟩ : ∃ k, 52 = n.log2 + k := Nat.exists_eq_add_of_le (by omega)
  refine ⟨k, by omega, ?_, ?_⟩
  · rw [hlead, hk, pow_add]
    exact Nat.mul_le_mul_right _ (Nat.log2_self_le hn.ne')
  · rw [hlead, hk, ← pow_succ', add_right_comm, pow_add]
    exact Nat.mul_lt_mul_of_pos_right Nat.lt_log2_self (by positivity)

/-- Up to `2 ^ 53` an integer has all its digits in the number nearest to it. -/
theorem Nearest.exact (h : Nearest s n u) (hn : 0 < n) (hle : n ≤ 2 ^ 53) :
    ∃ m e hm, u = .finite s m e hm ∧ (m * 2 ^ e : ℚ) = n ∧ Binary.leading ≤ m ∧
    m < 2 * Binary.leading ∧
      -52 ≤ e ∧ e ≤ 1 := by
  have hlead : Binary.leading = 2 ^ 52 := rfl
  obtain ⟨m, e, hvalue, hlow, hhigh, he, he'⟩ : ∃ (m : ℕ) (e : ℤ), (m * 2 ^ e : ℚ) = n ∧
      Binary.leading ≤ m ∧ m < 2 * Binary.leading ∧ -52 ≤ e ∧ e ≤ 1 := by
    rcases hle.lt_or_eq with hlt | rfl
    · obtain ⟨k, hk, hlow, hhigh⟩ := exists_full hn hlt
      refine ⟨n * 2 ^ k, -k, ?_, hlow, hhigh, by omega, by omega⟩
      push_cast
      rw [zpow_neg, zpow_natCast]
      field_simp
    · exact ⟨2 ^ 52, 1, by norm_num, by omega, by omega, by omega, le_rfl⟩
  have hself := nearest_self s (by omega) hlow hhigh (by omega : -1074 ≤ e)
  rw [hvalue] at hself
  exact ⟨m, e, _, h.unique hself, hvalue, hlow, hhigh, he, he'⟩

theorem kept_of_le {m : ℕ} {e : ℤ} {hm : 0 < m} (he : e ≤ 1) :
    kept (.finite s m e hm) = .finite s m e hm :=
  if_pos (by omega)

section Conversion

theorem unpack_one : (1 : Float).toModel.unpack = .finite .positive (2 ^ 52) (-52) (by decide) := by
  rfl

/-- A machine integer below `2 ^ 53` is converted as it is. -/
theorem unpack_toFloat (hn : 0 < n) (hlt : n < 2 ^ 53) :
    ∃ m e hm, n.toUInt64.toFloat.toModel.unpack = .finite .positive m e hm ∧ (m * 2 ^ e : ℚ) = n ∧
      Binary.leading ≤ m ∧ -52 ≤ e := by
  have hround := nearest_round .positive hn (by decide : (-1022 : ℤ) ≤ 0)
  rw [zpow_zero, mul_one] at hround
  obtain ⟨m, e, hm, hu, hvalue, hlow, hhigh, he, he'⟩ := hround.exact hn hlt.le
  have hsize : n.toUInt64.toNat = n := by
    rw [Nat.toUInt64, UInt64.toNat_ofNat']
    exact Nat.mod_eq_of_lt (hlt.trans (by decide))
  have hnormal : UnpackedFloat.normalize Format.binary64 n 0 .positive =
    .finite .positive m e hm := by
    have hgt : compare (n : ℤ) 0 = .gt := compare_gt_iff_gt.2 (by omega)
    rw [UnpackedFloat.normalize, hgt, ← hu]
    rfl
  refine ⟨m, e, hm, ?_, hvalue, hlow, he⟩
  change (Float.Model.pack (.normalize Format.binary64 (n.toUInt64.toNat : ℤ) 0 .positive)).unpack =
    _
  rw [hsize, hnormal]
  exact unpack_pack_full hlow hhigh (by omega) (by omega)

theorem unpack_mul_one (hn : 0 < n) (hlt : n < 2 ^ 53) :
    ∃ u, Nearest .positive n u ∧ (n.toUInt64.toFloat * 1).toModel.unpack = kept u := by
  obtain ⟨m, e, hm, hfactor, hvalue, hlow, he⟩ := unpack_toFloat hn hlt
  have hlead : Binary.leading = 2 ^ 52 := rfl
  have hproduct :=
    nearest_roundWithAccuracy .positive (m := m * 2 ^ 52) (e := e - 52) (by omega) (by omega)
  have hexact : ((m * 2 ^ 52 : ℕ) : ℚ) * 2 ^ (e - 52) = n := by
    rw [← hvalue, zpow_sub₀ (by norm_num)]
    push_cast
    ring
  rw [hexact] at hproduct
  refine ⟨_, hproduct, ?_⟩
  rw [← hproduct.unpack_pack]
  change (Float.Model.pack (.mul Format.binary64 n.toUInt64.toFloat.toModel.unpack
    (1 : Float).toModel.unpack)).unpack = _
  rw [hfactor, unpack_one]
  rfl

theorem unpack_ofNat (hn : 0 < n) :
    ∃ u, Nearest .positive n u ∧ (Float.ofNat n).toModel.unpack = kept u := by
  change ∃ u, Nearest .positive n u ∧ (Float.ofScientific n false 0).toModel.unpack = kept u
  unfold Float.ofScientific
  split
  · next h => exact unpack_mul_one hn h.1
  · next h =>
    have hlead : Binary.leading = 2 ^ 52 := rfl
    have hproduct := nearest_roundWithAccuracy .positive (m := n <<< 53 * 10 ^ 0) (e := -53 + 0)
      (by rw [Nat.shiftLeft_eq]; omega) (by omega)
    have hexact : ((n <<< 53 * 10 ^ 0 : ℕ) : ℚ) * 2 ^ (-53 + 0 : ℤ) = n := by
      rw [Nat.shiftLeft_eq, add_zero, zpow_neg]
      push_cast
      field_simp
    rw [hexact] at hproduct
    refine ⟨_, hproduct, ?_⟩
    rw [← hproduct.unpack_pack]
    change (Float.Model.pack (UnpackedFloat.ofScientific Format.binary64 n 0)).unpack = _
    have hbits : (2 : ℤ) ^ Format.binary64.exponentBits = 2048 := by decide
    rw [UnpackedFloat.ofScientific, dif_neg hn.ne', hbits, if_neg (by decide), if_neg (by omega),
      if_pos le_rfl]
    rfl

theorem rounded_ofInt (a : ℤ) : Rounded a (ofInt a).toModel.unpack := by
  rcases a with n | n
  · rcases n.eq_zero_or_pos with rfl | hn
    · exact .zero
    · obtain ⟨u, hu, hkept⟩ := unpack_ofNat hn
      change Rounded n (Float.ofNat n).toModel.unpack
      rw [hkept]
      exact .nonzero .positive hn hu
  · obtain ⟨u, hu, hkept⟩ := unpack_ofNat n.succ_pos
    have hneg : (ofInt (Int.negSucc n)).toModel.unpack = kept u.neg := by
      change (Float.Model.pack (Float.ofNat (n + 1)).toModel.unpack.neg).unpack = _
      rw [hkept, ← hu.neg.2, hu.neg.1.unpack_pack_kept]
    rw [hneg]
    exact .nonzero .negative n.succ_pos hu.neg.1

end Conversion

section Order

def origin : ℤ ×ₗ ℤ ×ₗ ℤ := toLex (0, toLex (0, 0))

theorem Nearest.exists_place {v : ℚ} (h : Nearest s v u) : ∃ r, place (kept u) = some r ∧
    match s with
    | .positive => origin < r
    | .negative => r < origin := by
  obtain ⟨m, e, hm, rfl, -⟩ := h
  unfold kept
  cases s <;> dsimp only <;> split <;> refine ⟨_, rfl, Prod.Lex.toLex_lt_toLex.2 (.inl ?_)⟩ <;>
    norm_num

/-- Integers are stored in their order. -/
theorem Rounded.le (h : Rounded a u) (h' : Rounded b u') (hle : a ≤ b) : u.le u' = true := by
  cases h with
  | zero =>
    cases h' with
    | zero => rfl
    | nonzero s hn h =>
      obtain ⟨r, hr, hplace⟩ := h.exists_place
      cases s with
      | positive => exact (le_iff_place _ _).2 ⟨origin, rfl, r, hr, hplace.le⟩
      | negative => simp only [Sign.apply] at hle; omega
  | @nonzero n u s hn h =>
    obtain ⟨r, hr, hplace⟩ := h.exists_place
    cases h' with
    | zero =>
      cases s with
      | positive => simp only [Sign.apply] at hle; omega
      | negative => exact (le_iff_place _ _).2 ⟨r, hr, origin, rfl, hplace.le⟩
    | @nonzero n' u' s' hn' h' =>
      obtain ⟨r', hr', hplace'⟩ := h'.exists_place
      rcases s with _ | _ <;> rcases s' with _ | _ <;> simp only [Sign.apply] at hle
      · exact h'.order h (by exact_mod_cast (by omega : n' ≤ n))
      · exact (le_iff_place _ _).2 ⟨r, hr, r', hr', (hplace.trans hplace').le⟩
      · omega
      · exact h.order h' (by exact_mod_cast (by omega : n ≤ n'))

theorem ofInt_le_ofInt (h : a ≤ b) : ofInt a ≤ ofInt b := by
  have hle := (rounded_ofInt a).le (rounded_ofInt b) h
  rw [le_iff_place] at hle
  exact le_iff_rank.2 hle

theorem Nearest.eq_of_place {n' : ℕ} (h : Nearest s n u) (h' : Nearest s n' u') (hn : 0 < n)
    (hn' : 0 < n')
    (hle : n ≤ 2 ^ 53) (hle' : n' ≤ 2 ^ 53) (hplace : place (kept u) = place (kept u')) :
    n = n' := by
  obtain ⟨m, e, hm, rfl, hvalue, -, -, -, he⟩ := h.exact hn hle
  obtain ⟨m', e', hm', rfl, hvalue', -, -, -, he'⟩ := h'.exact hn' hle'
  rw [kept_of_le he, kept_of_le he'] at hplace
  have hparts : e = e' ∧ m = m' := by
    cases s <;> simpa [place] using hplace
  rw [hparts.1, hparts.2, hvalue'] at hvalue
  exact_mod_cast hvalue.symm

/-- Up to `2 ^ 53` an integer is told by the place of what it is stored as. -/
theorem Rounded.eq_of_place (h : Rounded a u) (h' : Rounded b u') (ha : a.natAbs ≤ 2 ^ 53)
    (hb : b.natAbs ≤ 2 ^ 53) (hplace : place u = place u') : a = b := by
  cases h with
  | zero =>
    cases h' with
    | zero => rfl
    | nonzero s hn h =>
      obtain ⟨r, hr, hside⟩ := h.exists_place
      obtain rfl : origin = r := Option.some.inj (hplace.trans hr)
      cases s <;> exact (lt_irrefl _ hside).elim
  | @nonzero n u s hn h =>
    obtain ⟨r, hr, hside⟩ := h.exists_place
    cases h' with
    | zero =>
      obtain rfl : r = origin := Option.some.inj (hr.symm.trans hplace)
      cases s <;> exact (lt_irrefl _ hside).elim
    | @nonzero n' u' s' hn' h' =>
      obtain ⟨r', hr', hside'⟩ := h'.exists_place
      obtain rfl : r = r' := Option.some.inj (hr.symm.trans (hplace.trans hr'))
      rw [natAbs_apply, Int.natAbs_natCast] at ha hb
      have hsign : s = s' := by
        rcases s with _ | _ <;> rcases s' with _ | _
        · rfl
        · exact (hside.trans hside').false.elim
        · exact (hside.trans hside').false.elim
        · rfl
      subst hsign
      rw [h.eq_of_place h' hn hn' ha hb hplace]

theorem ofInt_beq_ofInt (ha : a.natAbs ≤ 2 ^ 53) (hb : b.natAbs ≤ 2 ^ 53) :
    (ofInt a == ofInt b) = true ↔ a = b := by
  constructor
  · intro h
    obtain ⟨r, hr, hr'⟩ := (beq_iff_place _ _).1 (show UnpackedFloat.beq _ _ = true from h)
    exact (rounded_ofInt a).eq_of_place (rounded_ofInt b) ha hb (hr.trans hr'.symm)
  · rintro rfl
    exact beq_iff_le.2 ⟨ofInt_le_ofInt le_rfl, ofInt_le_ofInt le_rfl⟩

end Order

section Sum

/-- An integer that is given by a mantissa with an exponent is rounded to what it is stored as. -/
theorem rounded_normalize {d e : ℤ} (he : -1022 ≤ e) (hvalue : (d * 2 ^ e : ℚ) = a) :
    Rounded a (Float.Model.pack (.normalize Format.binary64 d e .positive)).unpack := by
  have hround : ∀ (s : Sign) (n k : ℕ), 0 < n → (n * 2 ^ e : ℚ) = k →
      Rounded (s.apply k) (Float.Model.pack (.round Format.binary64 s n e)).unpack := by
    intro s n k hn hk
    have hnearest := nearest_round s hn he
    have hpos : (0 : ℚ) < k := hk ▸ by positivity
    rw [hk] at hnearest
    rw [hnearest.unpack_pack]
    exact .nonzero s (Nat.cast_pos.1 hpos) hnearest
  have hpower : (0 : ℚ) < 2 ^ e := by positivity
  unfold UnpackedFloat.normalize
  split
  · next h =>
    have hd : (d : ℚ) < 0 := Int.cast_lt_zero.2 (compare_lt_iff_lt.1 h)
    have ha : a < 0 := Int.cast_lt_zero.1 (hvalue ▸ mul_neg_of_neg_of_pos hd hpower : (a : ℚ) < 0)
    obtain ⟨n, rfl⟩ : ∃ n : ℕ, d = -n := ⟨d.natAbs, by have := Int.cast_lt_zero.1 hd; omega⟩
    obtain ⟨k, rfl⟩ : ∃ k : ℕ, a = -k := ⟨a.natAbs, by omega⟩
    rw [neg_neg, Int.toNat_natCast]
    push_cast at hvalue hd
    exact hround .negative n k (Nat.cast_pos.1 (neg_lt_zero.1 hd)) (by linarith)
  · next h =>
    rw [compare_eq_iff_eq.1 h, Int.cast_zero, zero_mul] at hvalue
    obtain rfl : a = 0 := Int.cast_eq_zero.1 hvalue.symm
    exact .zero
  · next h =>
    have hd : (0 : ℚ) < d := Int.cast_pos.2 (compare_gt_iff_gt.1 h)
    have ha : 0 < a := Int.cast_pos.1 (hvalue ▸ mul_pos hd hpower : (0 : ℚ) < a)
    obtain ⟨n, rfl⟩ : ∃ n : ℕ, d = n := ⟨d.natAbs, by have := Int.cast_pos.1 hd; omega⟩
    obtain ⟨k, rfl⟩ : ∃ k : ℕ, a = k := ⟨a.natAbs, by omega⟩
    rw [Int.toNat_natCast]
    push_cast at hvalue hd
    exact hround .positive n k (Nat.cast_pos.1 hd) hvalue

theorem shiftLeft_value (m : ℕ) {e f : ℤ} (hf : f ≤ e) :
    ((m <<< (e - f).toNat : ℕ) : ℚ) * 2 ^ f = m * 2 ^ e := by
  obtain ⟨k, rfl⟩ : ∃ k : ℕ, e = f + k := ⟨(e - f).toNat, by omega⟩
  rw [add_sub_cancel_left, Int.toNat_natCast, Nat.shiftLeft_eq, zpow_add₀ two_ne_zero, zpow_natCast]
  push_cast
  ring

theorem apply_shiftLeft {m : ℕ} {e f : ℤ} (h : (m * 2 ^ e : ℚ) = n) (hf : f ≤ e) :
    ((s.apply (m <<< (e - f).toNat : ℕ) : ℤ) * 2 ^ f : ℚ) = (s.apply (n : ℤ) : ℤ) := by
  have hvalue := (shiftLeft_value m hf).trans h
  generalize m <<< (e - f).toNat = a at hvalue
  cases s
  · simp only [Sign.apply]
    push_cast at hvalue ⊢
    linarith
  · exact_mod_cast hvalue

theorem Rounded.unpack_pack (h : Rounded a u) : (Float.Model.pack u).unpack = u := by
  cases h with
  | zero => rfl
  | nonzero _ _ h => exact h.unpack_pack_kept

theorem Rounded.add_zero (h : Rounded a u) :
    UnpackedFloat.add Format.binary64 (.zero .positive) u = u ∧
      UnpackedFloat.add Format.binary64 u (.zero .positive) = u := by
  cases h with
  | zero => exact ⟨rfl, rfl⟩
  | nonzero _ _ h =>
    obtain ⟨m, e, hm, rfl, -⟩ := h
    unfold kept
    dsimp only
    split <;> exact ⟨rfl, rfl⟩

/-- Up to `2 ^ 53` the sum of two integers is rounded only once. -/
theorem rounded_add (ha : a.natAbs ≤ 2 ^ 53) (hb : b.natAbs ≤ 2 ^ 53) :
    Rounded (a + b) (ofInt a + ofInt b).toModel.unpack := by
  change Rounded (a + b) (Float.Model.pack (.add Format.binary64 (ofInt a).toModel.unpack
    (ofInt b).toModel.unpack)).unpack
  have hu := rounded_ofInt a
  have hu' := rounded_ofInt b
  generalize (ofInt a).toModel.unpack = u at hu
  generalize (ofInt b).toModel.unpack = u' at hu'
  cases hu with
  | zero =>
    rw [hu'.add_zero.1, hu'.unpack_pack, zero_add]
    exact hu'
  | @nonzero n w s hn h =>
    cases hu' with
    | zero =>
      have hu := Rounded.nonzero s hn h
      rw [hu.add_zero.2, hu.unpack_pack, add_zero]
      exact hu
    | @nonzero n' w' s' hn' h' =>
      rw [natAbs_apply, Int.natAbs_natCast] at ha hb
      obtain ⟨m, e, hm, rfl, hvalue, -, -, hl, he⟩ := h.exact hn ha
      obtain ⟨m', e', hm', rfl, hvalue', -, -, hl', he'⟩ := h'.exact hn' hb
      rw [kept_of_le he, kept_of_le he']
      refine rounded_normalize (e := min e e') (by omega) ?_
      rw [Int.cast_add, Int.cast_add, add_mul, apply_shiftLeft hvalue (min_le_left e e'),
        apply_shiftLeft hvalue' (min_le_right e e')]

end Sum

end RadarTimeline.Number
