import RadarTimeline.Number.Reading
import RadarTimeline.Proofs.Number.Magnitude
import RadarTimeline.Proofs.Number.Shortest

namespace RadarTimeline.Number

open Float.Model Float.Model.UnpackedFloat

variable {x y : Float} {s : Sign} {m : ℕ} {e : ℤ} {hm : 0 < m}

section Bits

variable (v : BitVec Format.binary64.numBits)

theorem toNat_unpackMantissa : (unpackMantissa v).toNat = v.toNat % Binary.leading := by
  simp only [unpackMantissa, BitVec.toNat_cast, BitVec.extractLsb_toNat]
  rfl

theorem toNat_unpackExponent : (unpackExponent v).toNat = v.toNat / Binary.leading % 0x800 := by
  simp only [unpackExponent, BitVec.toNat_cast, BitVec.extractLsb_toNat, Nat.shiftRight_eq_div_pow]
  rfl

theorem toNat_unpackSign : (unpackSign v).toNat = v.toNat / 0x8000000000000000 := by
  have hlt : v.toNat < 2 ^ 64 := v.isLt
  simp only [unpackSign, BitVec.toNat_cast, BitVec.extractLsb_toNat, Nat.shiftRight_eq_div_pow]
  change v.toNat / 2 ^ 63 % 2 = _
  omega

theorem toNat_leading_append (m : BitVec Format.binary64.mantissaBitsWithoutImplicit) :
    (1#1 ++ m).toNat = Binary.leading + m.toNat := by
  rw [BitVec.toNat_append, ← Nat.shiftLeft_add_eq_or_of_lt m.isLt]
  rfl

end Bits

theorem signBit_eq (v : BitVec Format.binary64.numBits) :
    (v.toNat / 0x8000000000000000 == 1) = (Sign.ofBitVec (unpackSign v) == .negative) := by
  rw [← toNat_unpackSign]
  generalize unpackSign v = b
  revert b
  decide

theorem ofFloat_eq {v : BitVec Format.binary64.numBits} (hv : v = x.toModel.toBits.toBitVec) :
    Binary.ofFloat x =
      if (unpackExponent v).toNat = 0 then
        ⟨Sign.ofBitVec (unpackSign v) == .negative, (unpackMantissa v).toNat, -1074⟩
      else
        ⟨Sign.ofBitVec (unpackSign v) == .negative, Binary.leading + (unpackMantissa v).toNat,
          (unpackExponent v).toNat - 1075⟩ := by
  rw [toNat_unpackMantissa, toNat_unpackExponent, ← signBit_eq, hv]
  rfl

theorem ofFloat_of_unpack (h : x.toModel.unpack = .finite s m e hm) :
    Binary.ofFloat x = ⟨s == .negative, m, e⟩ ∧ (Binary.ofFloat x).Stored := by
  obtain ⟨v, hv⟩ : ∃ v : BitVec Format.binary64.numBits, v = x.toModel.toBits.toBitVec := ⟨_, rfl⟩
  have hparts := ofFloat_eq hv
  have hmantissa : (unpackMantissa v).toNat < Binary.leading := (unpackMantissa v).isLt
  have hoffset :
    ((Format.binary64.exponentBias : ℕ) + (Format.binary64.mantissaBitsWithoutImplicit : ℕ) : ℤ) =
      1075 := by decide
  rw [Float.Model.unpack, ← hv, UnpackedFloat.unpack] at h
  simp only [hoffset] at h
  split_ifs at h with _ _ hfield hfraction
  · cases h
    have hzero : (unpackExponent v).toNat = 0 := by rw [hfield]; rfl
    rw [hparts, if_pos hzero, hzero]
    exact ⟨rfl, hm, by dsimp only; omega, le_rfl, fun h => (h rfl).elim⟩
  · cases h
    have hzero : (unpackExponent v).toNat ≠ 0 := fun h => hfield (BitVec.eq_of_toNat_eq h)
    rw [hparts, if_neg hzero, toNat_leading_append]
    exact ⟨rfl, by dsimp only; omega, by dsimp only; omega, by dsimp only; omega,
      fun _ => by dsimp only; omega⟩

theorem stored_of_unpack (h : x.toModel.unpack = .finite s m e hm) :
    (Binary.mk (s == .negative) m e).Stored := by
  have hparts := ofFloat_of_unpack h
  rw [hparts.1] at hparts
  exact hparts.2

theorem ofFloat_of_zero (h : x.toModel.unpack = .zero s) : (Binary.ofFloat x).mantissa = 0 := by
  obtain ⟨v, hv⟩ : ∃ v : BitVec Format.binary64.numBits, v = x.toModel.toBits.toBitVec := ⟨_, rfl⟩
  rw [Float.Model.unpack, ← hv, UnpackedFloat.unpack] at h
  split_ifs at h with _ _ hfield hfraction
  have hzero : (unpackExponent v).toNat = 0 := by rw [hfield]; rfl
  rw [ofFloat_eq hv, if_pos hzero, hfraction]
  rfl

theorem isNaN_of_isFinite {u : UnpackedFloat} (h : u.isFinite = true) : u.isNaN = false := by
  cases u <;> first | rfl | cases h

theorem isNaN_unpack_pack {u : UnpackedFloat} (h : u.isNaN = false) :
    (Float.Model.pack u).unpack.isNaN = false := by
  have hfinite : u.isFinite = true → (Float.Model.pack u).unpack.isNaN = false := by
    intro hu
    rcases unpack_pack_isFinite_or hu with h | ⟨t, h⟩
    · exact isNaN_of_isFinite h
    · rw [h]
      rfl
  rcases u with s | _ | s | ⟨s, m, e, hm⟩
  · rw [unpack_pack, UnpackedFloat.pack, unpack_packedInfinity]
    rfl
  · cases h
  · exact hfinite rfl
  · exact hfinite rfl

theorem isNaN_mul_div {u : UnpackedFloat} (h : u.isNaN = false) (s : Sign) (m : ℕ) (e : ℤ)
    (hm : 0 < m) :
    (u.mul Format.binary64 (.finite s m e hm)).isNaN = false ∧
      (u.div Format.binary64 (.finite s m e hm)).isNaN = false := by
  rcases u with s | _ | s | ⟨s, m, e, hm⟩
  · exact ⟨rfl, rfl⟩
  · cases h
  · exact ⟨rfl, rfl⟩
  · simp only [UnpackedFloat.mul, UnpackedFloat.div, UnpackedFloat.roundWithAccuracy]
    constructor <;> split <;> rfl

theorem isNaN_normalize (m e : ℤ) (z : Sign) :
    (UnpackedFloat.normalize Format.binary64 m e z).isNaN = false := by
  have hlt : m.natAbs < 2 ^ (m.natAbs.log2 + 1) := Nat.lt_log2_self
  exact isNaN_of_isFinite (below_normalize hlt (Nat.succ_pos _) e z).isFinite

theorem isNaN_sub (hx : x.isFinite) (hy : y.isFinite) : (x - y).toModel.unpack.isNaN = false := by
  refine isNaN_unpack_pack ?_
  rcases finite_cases hx with ⟨s, hs⟩ | ⟨s, m, e, hm, hs, -⟩ <;>
    rcases finite_cases hy with ⟨t, ht⟩ | ⟨t, n, f, hn, ht, -⟩ <;> rw [hs, ht]
  · cases s <;> cases t <;> rfl
  · rfl
  · rfl
  · exact isNaN_normalize _ _ _

theorem beq_zero_iff : (x == 0) = true ↔ ∃ s, x.toModel.unpack = .zero s := by
  change x.toModel.unpack.beq (.zero .positive) = true ↔ _
  rw [beq_iff_place]
  rcases x.toModel.unpack with (_ | _) | _ | s | ⟨_ | _, m, e, hm⟩ <;> simp [place]

theorem powerOfTen_finite (e : Fin 23) : ∃ s m k hm,
    (Float.exactlyRepresentablePowersOfTen[e]).toModel.unpack = .finite s m k hm := by
  have hall : ∀ e : Fin 23, (Float.exactlyRepresentablePowersOfTen[e]).isFinite = true ∧
      (Float.exactlyRepresentablePowersOfTen[e] == 0) = false := by decide +kernel
  obtain ⟨hfinite, hzero⟩ := hall e
  rcases finite_cases hfinite with ⟨s, hs⟩ | ⟨s, m, k, hm, hx, -⟩
  · rw [beq_zero_iff.2 ⟨s, hs⟩] at hzero
    cases hzero
  · exact ⟨s, m, k, hm, hx⟩

theorem isNaN_ofScientific (m : ℕ) (negative : Bool) (e : ℕ) :
    (Float.ofScientific m negative e).isNaN = false := by
  unfold Float.ofScientific
  split
  · next h =>
    have hm : m.toUInt64.toFloat.toModel.unpack.isNaN = false :=
      isNaN_unpack_pack (isNaN_normalize _ _ _)
    obtain ⟨s, n, k, hn, hpower⟩ := powerOfTen_finite ⟨e, by omega⟩
    have hboth := isNaN_mul_div hm s n k hn
    rw [← hpower] at hboth
    dsimp only
    split
    · exact isNaN_unpack_pack hboth.2
    · exact isNaN_unpack_pack hboth.1
  · refine isNaN_unpack_pack ?_
    generalize (if negative = true then Int.negOfNat e else Int.ofNat e) = z
    unfold UnpackedFloat.ofScientific
    split_ifs
    · rfl
    · rfl
    · rfl
    · exact (isNaN_mul_div rfl _ _ _ _).1
    · exact (isNaN_mul_div rfl _ _ _ _).2

theorem isNaN_scaled (digits : ℕ) (exponent : ℤ) : (scaled digits exponent).isNaN = false := by
  have hconstants : (0 : Float).isNaN = false ∧ infinity.isNaN = false := by decide +kernel
  unfold scaled
  dsimp only
  split_ifs
  · exact hconstants.1
  · exact hconstants.2
  · exact hconstants.1
  · exact isNaN_ofScientific _ _ _

theorem isNaN_neg (h : x.isNaN = false) : (-x).isNaN = false := by
  change x.toModel.unpack.isNaN = false at h
  refine isNaN_unpack_pack ?_
  generalize x.toModel.unpack = u at h
  cases u <;> first | rfl | cases h

theorem isNaN_ofInt (n : ℤ) : (ofInt n).isNaN = false := by
  rcases n with n | n
  · exact isNaN_ofScientific n false 0
  · exact isNaN_neg (isNaN_ofScientific (n + 1) false 0)

theorem isNaN_of_readDecimal? {cs : List Char} (h : readDecimal? cs = some x) :
    x.isNaN = false := by
  unfold readDecimal? at h
  dsimp only at h
  split at h
  · next n _ =>
    cases h
    unfold withSign
    split
    · exact isNaN_neg (isNaN_scaled _ _)
    · exact isNaN_scaled _ _
  · cases h

end RadarTimeline.Number
