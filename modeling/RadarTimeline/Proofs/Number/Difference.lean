import RadarTimeline.Proofs.Number.Parts

namespace RadarTimeline.Number

open Float.Model Float.Model.UnpackedFloat

variable {x y : Float} {a b : Binary} {u v : UnpackedFloat} {s : Sign} {m : ℕ} {e : ℤ}

def side (u : UnpackedFloat) : Option Ordering := u.compare (.zero .positive)

theorem lt_zero_iff_side : x < 0 ↔ side x.toModel.unpack = some .lt := by
  change decide (x.toModel < (0 : Float).toModel) = true ↔ _
  rw [decide_eq_true_iff]
  exact beq_iff_eq

theorem zero_lt_iff_side : 0 < x ↔ side x.toModel.unpack = some .gt := by
  have h : 0 < x ↔ UnpackedFloat.lt (.zero .positive) x.toModel.unpack = true := by
    change decide ((0 : Float).toModel < x.toModel) = true ↔ _
    rw [decide_eq_true_iff]
    rfl
  rw [h, UnpackedFloat.lt, beq_iff_eq]
  rcases x.toModel.unpack with (_ | _) | _ | _ | ⟨_ | _, _, _, _⟩ <;>
    simp [side, UnpackedFloat.compare]

theorem beq_zero_iff_side : (x == 0) = true ↔ side x.toModel.unpack = some .eq := by
  change UnpackedFloat.beq x.toModel.unpack (.zero .positive) = true ↔ _
  exact beq_iff_eq

section Rounding

/-- A mantissa that is shifted to its target exponent keeps a digit, and at most 53 of them. -/
theorem shifted_bounds (hm : 0 < m) (he : -1074 ≤ e) (a : Accuracy) :
    let shifted := shiftToTargetExponent Format.binary64 m e a
    0 < shifted.1.mantissa ∧ shifted.1.mantissa < 2 ^ 53 ∧ -1074 ≤ shifted.2 := by
  intro shifted
  have hexponent : shifted.2 = _ := exponent_shift m e a
  have hmantissa : shifted.1.mantissa = _ := mantissa_shift m e a
  rw [exponent_shift] at hmantissa
  have hlow : 2 ^ m.log2 ≤ m := Nat.log2_self_le hm.ne'
  have hhigh : m < 2 ^ (m.log2 + 1) := Nat.lt_log2_self
  unfold totalExponent at hexponent hmantissa
  obtain ⟨k, hk⟩ : ∃ k, k = (max e (max ((m.log2 : ℤ) + 1 + e - 53) (-1074)) - e).toNat := ⟨_, rfl⟩
  rw [hmantissa, hexponent, ← hk]
  refine ⟨Nat.div_pos ?_ (by positivity), ?_, by omega⟩
  · exact (Nat.pow_le_pow_right two_pos (by omega)).trans hlow
  · rw [Nat.div_lt_iff_lt_mul (by positivity), ← pow_add]
    exact hhigh.trans_le (Nat.pow_le_pow_right two_pos (by omega))

theorem le_roundedMantissa (em : ExtendedMantissa) : em.mantissa ≤ em.roundedMantissa := by
  rcases em with ⟨m, _ | _, _ | _⟩ <;>
    simp only [ExtendedMantissa.roundedMantissa, ExtendedMantissa.accuracy,
      Accuracy.roundToNearestEven]
  all_goals omega

/-- A number from the least exponent on is not rounded to zero, and keeps its sign. -/
theorem round_finite (s : Sign) (hm : 0 < m) (he : -1074 ≤ e) :
    ∃ n f hn, UnpackedFloat.round Format.binary64 s m e = .finite s n f hn ∧ n < 2 ^ 53 ∧
    -1074 ≤ f := by
  simp only [UnpackedFloat.round, decreaseExponent, targetExponent_eq]
  obtain ⟨k, hk⟩ : ∃ k, k = (e - max (totalExponent m e - 53) (-1074)).toNat := ⟨_, rfl⟩
  rw [← hk]
  have hpos : 0 < m <<< k := by
    rw [Nat.shiftLeft_eq]
    positivity
  have hfirst := shifted_bounds hpos (by omega : -1074 ≤ e - k) .exact
  have hrounded := hfirst.1.trans_le (le_roundedMantissa _)
  have hfinal := shifted_bounds hrounded hfirst.2.2 .exact
  simp only [roundWithAccuracy]
  rw [dif_neg hfinal.1.ne']
  exact ⟨_, _, hfinal.1, rfl, hfinal.2⟩

end Rounding

section Storing

/-- What is finite has at most 53 digits and at least the least exponent, but may be too large to be
stored. -/
def Storable : UnpackedFloat → Prop
  | .finite _ m e _ => m < 2 ^ 53 ∧ -1074 ≤ e
  | _ => True

theorem side_unpack_components {field : BitVec Format.binary64.exponentBits}
    {fraction : BitVec Format.binary64.mantissaBitsWithoutImplicit} (hm : 0 < m)
    (hfinite : field ≠ -1#_) (hzero : field ≠ 0#_ ∨ fraction ≠ 0#_) :
    side (.unpack Format.binary64 (packComponents Format.binary64 s field fraction)) =
      side (.finite s m e hm) := by
  have hsign : Sign.ofBitVec s.toBitVec = s := by cases s <;> rfl
  simp only [UnpackedFloat.unpack, unpackExponent_packComponents, unpackMantissa_packComponents,
    unpackSign_packComponents, hsign]
  rw [if_neg hfinite]
  split
  · next h =>
    rw [dif_neg (hzero.resolve_left (not_not_intro h))]
    cases s <;> rfl
  · cases s <;> rfl

/-- To store a number keeps its side, even if it overflows. -/
theorem Storable.side_unpack_pack (h : Storable u) : side (Float.Model.pack u).unpack = side u := by
  have hbias : ((Format.binary64.exponentBias : ℕ) : ℤ) = 1023 := by decide
  have hdigits : ((Format.binary64.mantissaBitsWithoutImplicit : ℕ) : ℤ) = 52 := by decide
  have hbits : 2 ^ Format.binary64.exponentBits = 2048 := by decide
  rcases u with s | _ | s | ⟨s, m, e, hm⟩
  · cases s <;> decide
  · decide
  · cases s <;> decide
  obtain ⟨hlt, he⟩ := h
  obtain ⟨k, hk⟩ : ∃ k, k = (e + 1023 + 52).toNat := ⟨_, rfl⟩
  have hfield : k < 2047 → (BitVec.ofNat Format.binary64.exponentBits k).toNat = k := fun h => by
    rw [BitVec.toNat_ofNat, hbits, Nat.mod_eq_of_lt (by omega)]
  rw [unpack_pack]
  simp only [UnpackedFloat.pack, hbias, hdigits, hbits, ← hk]
  split
  · rw [unpack_packedInfinity]
    cases s <;> rfl
  · next hinfinite =>
    split
    · refine side_unpack_components hm (fun h => ?_) (.inl fun h => ?_)
      · have h : k = 2047 := (hfield (by omega)).symm.trans (congrArg BitVec.toNat h)
        omega
      · have h : k = 0 := (hfield (by omega)).symm.trans (congrArg BitVec.toNat h)
        omega
    · next hshort =>
      -- fewer than 53 digits are stored with the least exponent field, and all of them
      refine side_unpack_components hm (by decide) (.inr fun h => ?_)
      have hlog : m.log2 < 53 := (Nat.log2_lt hm.ne').2 hlt
      have hne : m.log2 ≠ 52 := fun h => hshort (by rw [h]; rfl)
      have hlt : m < 2 ^ 52 := (Nat.log2_lt hm.ne').1 (by omega)
      have h : m % 2 ^ 52 = 0 := (BitVec.toNat_ofNat _ _).symm.trans (congrArg BitVec.toNat h)
      rw [Nat.mod_eq_of_lt hlt] at h
      omega

theorem side_normalize (d : ℤ) (he : -1074 ≤ e) :
    side (Float.Model.pack (.normalize Format.binary64 d e .positive)).unpack =
      some (compare d 0) := by
  have hround : ∀ s n, 0 < n →
      side (Float.Model.pack (.round Format.binary64 s n e)).unpack = side (.infinity s) := by
    intro s n hn
    obtain ⟨m, f, hm, hround, hstorable⟩ := round_finite s hn he
    have hstorable : Storable (.finite s m f hm) := hstorable
    rw [hround, hstorable.side_unpack_pack]
    cases s <;> rfl
  unfold UnpackedFloat.normalize
  split
  · next h =>
    have hd := compare_lt_iff_lt.1 h
    rw [h, hround _ _ (by omega)]
    rfl
  · next h =>
    rw [h]
    decide
  · next h =>
    have hd := compare_gt_iff_gt.1 h
    rw [h, hround _ _ (by omega)]
    rfl

end Storing

section Difference

theorem mantissa_lt_shiftLeft (ha : a.Stored) (hb : b.Stored) (h : a.exponent < b.exponent) :
    a.mantissa < b.mantissa <<< (b.exponent - a.exponent).toNat := by
  have hleast := ha.least
  have hfull := hb.full (by omega)
  have htwo : 2 ^ 1 ≤ 2 ^ (b.exponent - a.exponent).toNat := Nat.pow_le_pow_right two_pos (by omega)
  rw [Nat.shiftLeft_eq]
  calc a.mantissa < 2 * Binary.leading := ha.lt
    _ ≤ b.mantissa * 2 ^ 1 := by omega
    _ ≤ b.mantissa * 2 ^ (b.exponent - a.exponent).toNat := Nat.mul_le_mul_left _ htwo

theorem compare_aligned (ha : a.Stored) (hb : b.Stored) :
    compare (a.mantissa <<< (a.exponent - min a.exponent b.exponent).toNat)
        (b.mantissa <<< (b.exponent - min a.exponent b.exponent).toNat) =
      (compare a.exponent b.exponent).then (compare a.mantissa b.mantissa) := by
  rcases lt_trichotomy a.exponent b.exponent with h | h | h
  · rw [min_eq_left h.le, sub_self, compare_lt_iff_lt.2 h]
    exact compare_lt_iff_lt.2 (mantissa_lt_shiftLeft ha hb h)
  · rw [h, min_self, sub_self, compare_eq_iff_eq.2 rfl]
    rfl
  · rw [min_eq_right h.le, sub_self, compare_gt_iff_gt.2 h]
    exact compare_gt_iff_gt.2 (mantissa_lt_shiftLeft hb ha h)

/-- Mantissas with signs compare by the signs, and of two negative ones the longer is the
smaller. -/
theorem compare_apply {n : ℕ} (s t : Sign) (hm : 0 < m) (hn : 0 < n) :
    compare (s.apply (m : ℤ)) (t.apply n) =
      match s, t with
      | .negative, .negative => (compare m n).swap
      | .negative, .positive => .lt
      | .positive, .negative => .gt
      | .positive, .positive => compare m n := by
  rcases s with _ | _ <;> rcases t with _ | _
  · have hanti : StrictAnti fun n : ℕ => -(n : ℤ) := fun _ _ h => neg_lt_neg (Nat.cast_lt.2 h)
    rw [Nat.compare_swap, ← cmp_eq_compare n m, ← hanti.cmp_map_eq m n, cmp_eq_compare]
    rfl
  · exact compare_lt_iff_lt.2 (by simp only [Sign.apply]; omega)
  · exact compare_gt_iff_gt.2 (by simp only [Sign.apply]; omega)
  · have hmono : StrictMono fun n : ℕ => (n : ℤ) := fun _ _ h => Nat.cast_lt.2 h
    rw [← cmp_eq_compare m n, ← hmono.cmp_map_eq m n, cmp_eq_compare]
    rfl

theorem side_sub_finite {p q : Bool} {t : Sign} {n : ℕ} {f : ℤ} {hm : 0 < m} {hn : 0 < n}
    (ha : (Binary.mk p m e).Stored) (hb : (Binary.mk q n f).Stored) :
    side (Float.Model.pack (.sub Format.binary64 (.finite s m e hm) (.finite t n f hn))).unpack =
      (UnpackedFloat.finite s m e hm).compare (.finite t n f hn) := by
  have hleast : -1074 ≤ min e f := le_min ha.least hb.least
  have hpos : ∀ m k : ℕ, 0 < m → 0 < m <<< k := fun m k hm => by
    rw [Nat.shiftLeft_eq]
    positivity
  have haligned := compare_aligned ha hb
  dsimp only at haligned
  simp only [UnpackedFloat.sub, decreaseExponent]
  rw [side_normalize _ hleast, ← cmp_eq_compare, cmp_sub_zero, cmp_eq_compare,
    compare_apply s t (hpos m _ hm) (hpos n _ hn), haligned]
  rcases s with _ | _ <;> rcases t with _ | _ <;> rfl

/-- A difference with a zero, an infinity or `NaN` is not rounded. -/
theorem sub_special (hu : Storable u) (hv : Storable v)
    (hfinite : ∀ s m e hm t n f hn, u = .finite s m e hm → v ≠ .finite t n f hn)
    (hinfinity : ∀ s, u = .infinity s → v ≠ .infinity s) :
    Storable (u.sub Format.binary64 v) ∧ side (u.sub Format.binary64 v) = u.compare v := by
  rcases u with (_ | _) | _ | (_ | _) | ⟨_ | _, m, e, hm⟩ <;>
    rcases v with (_ | _) | _ | (_ | _) | ⟨_ | _, n, f, hn⟩
  all_goals
    first
    | exact absurd rfl (hinfinity _ rfl)
    | exact absurd rfl (hfinite _ _ _ _ _ _ _ _ rfl)
    | exact ⟨trivial, rfl⟩
    | exact ⟨hu, rfl⟩
    | exact ⟨hv, rfl⟩

/-- Both numbers are the same infinity. -/
def SameInfinity (x y : Float) : Prop :=
  ∃ s, x.toModel.unpack = .infinity s ∧ y.toModel.unpack = .infinity s

/-- Numbers compare as their difference does with zero, however it is rounded. -/
theorem side_sub (h : ¬ SameInfinity x y) :
    side (x - y).toModel.unpack = x.toModel.unpack.compare y.toModel.unpack := by
  have hstorable : ∀ z : Float, Storable z.toModel.unpack := by
    intro z
    rcases hz : z.toModel.unpack with s | _ | s | ⟨s, m, e, hm⟩
    · trivial
    · trivial
    · trivial
    · exact ⟨(stored_of_unpack hz).lt, (stored_of_unpack hz).least⟩
  change side (Float.Model.pack (.sub Format.binary64 x.toModel.unpack y.toModel.unpack)).unpack = _
  by_cases hfinite : ∀ s m e hm t n f hn, x.toModel.unpack = .finite s m e hm →
    y.toModel.unpack ≠ .finite t n f hn
  · have hspecial := sub_special (hstorable x) (hstorable y) hfinite fun s hx hy => h ⟨s, hx, hy⟩
    rw [hspecial.1.side_unpack_pack, hspecial.2]
  · push Not at hfinite
    obtain ⟨s, m, e, hm, t, n, f, hn, hx, hy⟩ := hfinite
    rw [hx, hy]
    exact side_sub_finite (stored_of_unpack hx) (stored_of_unpack hy)

theorem side_sub_sameInfinity (h : SameInfinity x y) : side (x - y).toModel.unpack = none := by
  obtain ⟨s, hx, hy⟩ := h
  change side (Float.Model.pack (.sub Format.binary64 x.toModel.unpack y.toModel.unpack)).unpack = _
  rw [hx, hy]
  cases s <;> decide

end Difference

section Alike

variable {u' v' : UnpackedFloat}

/-- Numbers that differ at most in the sign of a zero. -/
def Alike (u v : UnpackedFloat) : Prop := u = v ∨ ∃ s t, u = .zero s ∧ v = .zero t

theorem alike_of_beq (h : (x == y) = true) : Alike x.toModel.unpack y.toModel.unpack := by
  change x.toModel.unpack.beq y.toModel.unpack = true at h
  generalize x.toModel.unpack = u at h
  generalize y.toModel.unpack = v at h
  rcases u with (_ | _) | _ | _ | ⟨_ | _, m, e, hm⟩ <;>
    rcases v with (_ | _) | _ | _ | ⟨_ | _, n, f, hn⟩ <;>
    simp_all [UnpackedFloat.beq, UnpackedFloat.compare, Alike, Ordering.then_eq_eq]

theorem unpack_pack_zero (s : Sign) : (Float.Model.pack (.zero s)).unpack = .zero s := by
  cases s <;> rfl

theorem Alike.unpack_pack (h : Alike u v) :
    Alike (Float.Model.pack u).unpack (Float.Model.pack v).unpack := by
  rcases h with rfl | ⟨s, t, rfl, rfl⟩
  · exact .inl rfl
  · exact .inr ⟨s, t, unpack_pack_zero s, unpack_pack_zero t⟩

theorem Alike.sub (hu : Alike u u') (hv : Alike v v') :
    Alike (u.sub Format.binary64 v) (u'.sub Format.binary64 v') := by
  rcases hu with rfl | ⟨s, t, rfl, rfl⟩ <;> rcases hv with rfl | ⟨s', t', rfl, rfl⟩
  · exact .inl rfl
  · rcases u with _ | _ | r | _
    case zero => cases r <;> cases s' <;> cases t' <;> exact .inr ⟨_, _, rfl, rfl⟩
    all_goals exact .inl rfl
  · rcases v with _ | _ | r | _
    case zero => cases r <;> cases s <;> cases t <;> exact .inr ⟨_, _, rfl, rfl⟩
    all_goals exact .inl rfl
  · cases s <;> cases t <;> cases s' <;> cases t' <;> exact .inr ⟨_, _, rfl, rfl⟩

theorem Alike.div_finite (hu : Alike u u') (s : Sign) (e : ℤ) (hm : 0 < m) :
    Alike (u.div Format.binary64 (.finite s m e hm))
      (u'.div Format.binary64 (.finite s m e hm)) := by
  rcases hu with rfl | ⟨t, t', rfl, rfl⟩
  · exact .inl rfl
  · exact .inr ⟨_, _, rfl, rfl⟩

theorem Alike.isFinite_eq (h : Alike x.toModel.unpack y.toModel.unpack) :
    x.isFinite = y.isFinite := by
  change x.toModel.unpack.isFinite = y.toModel.unpack.isFinite
  rcases h with h | ⟨s, t, hs, ht⟩
  · rw [h]
  · rw [hs, ht]
    rfl

theorem Alike.isNaN_eq (h : Alike x.toModel.unpack y.toModel.unpack) : x.isNaN = y.isNaN := by
  change x.toModel.unpack.isNaN = y.toModel.unpack.isNaN
  rcases h with h | ⟨s, t, hs, ht⟩
  · rw [h]
  · rw [hs, ht]
    rfl

theorem round_of_zero (h : x.toModel.unpack = .zero s) : round x = 0 := by
  have hm : (Binary.ofFloat x).mantissa = 0 := ofFloat_of_zero h
  have hd := (Binary.ofFloat x).denominator_pos
  have hnumerator : (Binary.ofFloat x).numerator = 0 := by simp [Binary.numerator, hm]
  rw [round, hnumerator]
  exact Int.ediv_eq_zero_of_lt (by omega) (by omega)

theorem Alike.round_eq (h : Alike x.toModel.unpack y.toModel.unpack) (hx : x.isFinite) :
    round x = round y := by
  rcases h with h | ⟨s, t, hs, ht⟩
  · rcases finite_cases hx with ⟨s, hs⟩ | ⟨s, m, e, hm, hs, -⟩
    · rw [round_of_zero hs, round_of_zero (h.symm.trans hs)]
    · rw [round, round, (ofFloat_of_unpack hs).1, (ofFloat_of_unpack (h.symm.trans hs)).1]
  · rw [round_of_zero hs, round_of_zero ht]

end Alike

end RadarTimeline.Number
