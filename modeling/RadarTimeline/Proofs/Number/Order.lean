import RadarTimeline.Number.Binary
import Mathlib

namespace RadarTimeline.Number

open Float.Model

/-- The place of an unpacked number: sign and kind, then exponent, then mantissa. -/
def place : UnpackedFloat → Option (ℤ ×ₗ ℤ ×ₗ ℤ)
  | .notANumber => none
  | .infinity .negative => some (toLex (-2, toLex (0, 0)))
  -- of two negative numbers the longer one is the smaller
  | .finite .negative m e _ => some (toLex (-1, toLex (-e, -(m : ℤ))))
  | .zero _ => some (toLex (0, toLex (0, 0)))
  | .finite .positive m e _ => some (toLex (1, toLex (e, (m : ℤ))))
  | .infinity .positive => some (toLex (2, toLex (0, 0)))

theorem then_eq_lt (m n : ℕ) (e f : ℤ) :
    (compare e f).then (compare m n) = .lt ↔ e < f ∨ e = f ∧ m < n := by
  simp [Ordering.then_eq_lt, compare_lt_iff_lt]

theorem then_eq_gt (m n : ℕ) (e f : ℤ) :
    (compare e f).then (compare m n) = .gt ↔ f < e ∨ e = f ∧ n < m := by
  simp [Ordering.then_eq_gt, compare_gt_iff_gt]

theorem lt_iff_place (a b : UnpackedFloat) :
    a.lt b = true ↔ ∃ x ∈ place a, ∃ y ∈ place b, x < y := by
  rcases a with (_ | _) | _ | _ | ⟨_ | _, m, e, hm⟩ <;>
    rcases b with (_ | _) | _ | _ | ⟨_ | _, n, f, hn⟩ <;>
    simp [UnpackedFloat.lt, UnpackedFloat.compare, place, Prod.Lex.toLex_lt_toLex, then_eq_lt,
      then_eq_gt]
  rfl

theorem le_iff_place (a b : UnpackedFloat) :
    a.le b = true ↔ ∃ x ∈ place a, ∃ y ∈ place b, x ≤ y := by
  rcases a with (_ | _) | _ | _ | ⟨_ | _, m, e, hm⟩ <;>
    rcases b with (_ | _) | _ | _ | ⟨_ | _, n, f, hn⟩ <;>
    simp [UnpackedFloat.le, UnpackedFloat.compare, place, Prod.Lex.toLex_le_toLex]
  all_goals try rfl
  · rw [Ordering.isGE_iff_ne_lt, then_eq_lt]
    omega
  · rw [Ordering.isLE_iff_ne_gt, then_eq_gt]
    omega

theorem beq_iff_place (a b : UnpackedFloat) :
    a.beq b = true ↔ ∃ x ∈ place a, x ∈ place b := by
  rcases a with (_ | _) | _ | _ | ⟨_ | _, m, e, hm⟩ <;>
    rcases b with (_ | _) | _ | _ | ⟨_ | _, n, f, hn⟩ <;>
    simp [UnpackedFloat.beq, UnpackedFloat.compare, place]
  all_goals try rfl
  all_goals
    constructor
    · rintro ⟨rfl, rfl⟩
      exact ⟨rfl, rfl⟩
    · rintro ⟨rfl, h⟩
      exact ⟨rfl, by omega⟩

/-- The rank of a number; `NaN` has none, and both zeros have the same. -/
def rank (x : Float) : Option (ℤ ×ₗ ℤ ×ₗ ℤ) := place x.toModel.unpack

theorem lt_iff_rank {a b : Float} : a < b ↔ ∃ x ∈ rank a, ∃ y ∈ rank b, x < y := by
  rw [rank, rank, ← lt_iff_place]
  change decide (a.toModel < b.toModel) = true ↔ _
  rw [decide_eq_true_iff]
  rfl

theorem le_iff_rank {a b : Float} : a ≤ b ↔ ∃ x ∈ rank a, ∃ y ∈ rank b, x ≤ y := by
  rw [rank, rank, ← le_iff_place]
  change decide (a.toModel ≤ b.toModel) = true ↔ _
  rw [decide_eq_true_iff]
  rfl

theorem exists_rank {x : Float} (h : x.isFinite) : ∃ r, rank x = some r := by
  change x.toModel.unpack.isFinite = true at h
  rw [rank]
  generalize x.toModel.unpack = u at h
  rcases u with (_ | _) | _ | _ | ⟨_ | _, m, e, hm⟩
  case notANumber => cases h
  all_goals exact ⟨_, rfl⟩

theorem isFinite_of_between {a b x : Float} (ha : a.isFinite) (hb : b.isFinite) (h : a ≤ x)
    (h' : x ≤ b) : x.isFinite := by
  change a.toModel.unpack.isFinite = true at ha
  change b.toModel.unpack.isFinite = true at hb
  change x.toModel.unpack.isFinite = true
  rw [le_iff_rank, rank, rank, ← le_iff_place] at h h'
  generalize a.toModel.unpack = u at ha h
  generalize b.toModel.unpack = v at hb h'
  generalize x.toModel.unpack = w at h h'
  rcases w with (_ | _) | _ | _ | _
  · rcases u with _ | _ | _ | ⟨_ | _, _, _, _⟩ <;> cases ha <;> cases h
  · rcases v with _ | _ | _ | ⟨_ | _, _, _, _⟩ <;> cases hb <;> cases h'
  · rcases u with _ | _ | _ | ⟨_ | _, _, _, _⟩ <;> cases ha <;> cases h
  · rfl
  · rfl

theorem le_trans {a b c : Float} (h : a ≤ b) (h' : b ≤ c) : a ≤ c := by
  rw [le_iff_rank] at *
  obtain ⟨x, hx, y, hy, hxy⟩ := h
  obtain ⟨y', hy', z, hz, hyz⟩ := h'
  rw [Option.mem_unique hy hy'] at hxy
  exact ⟨x, hx, z, hz, hxy.trans hyz⟩

theorem le_refl {a : Float} (ha : a.isFinite) : a ≤ a := by
  obtain ⟨x, hx⟩ := exists_rank ha
  exact le_iff_rank.2 ⟨x, hx, x, hx, le_rfl⟩

theorem le_self_of_isNaN {a : Float} (h : a.isNaN = false) : a ≤ a := by
  change a.toModel.unpack.isNaN = false at h
  rw [le_iff_rank, rank]
  generalize a.toModel.unpack = u at h
  rcases u with (_ | _) | _ | _ | ⟨_ | _, m, e, hm⟩
  case notANumber => cases h
  all_goals exact ⟨_, rfl, _, rfl, le_rfl⟩

theorem not_lt_of_le {a b : Float} (h : a ≤ b) : ¬ b < a := by
  rw [le_iff_rank] at h
  rw [lt_iff_rank]
  rintro ⟨y', hy', x', hx', hlt⟩
  obtain ⟨x, hx, y, hy, hxy⟩ := h
  rw [Option.mem_unique hx' hx, Option.mem_unique hy' hy] at hlt
  exact hxy.not_gt hlt

theorem le_of_lt {a b : Float} (h : a < b) : a ≤ b := by
  rw [lt_iff_rank] at h
  rw [le_iff_rank]
  obtain ⟨x, hx, y, hy, hxy⟩ := h
  exact ⟨x, hx, y, hy, hxy.le⟩

theorem le_self_of_le_left {a b : Float} (h : a ≤ b) : a ≤ a := by
  obtain ⟨x, hx, -⟩ := le_iff_rank.1 h
  exact le_iff_rank.2 ⟨x, hx, x, hx, le_rfl⟩

theorem le_self_of_le_right {a b : Float} (h : a ≤ b) : b ≤ b := by
  obtain ⟨-, -, y, hy, -⟩ := le_iff_rank.1 h
  exact le_iff_rank.2 ⟨y, hy, y, hy, le_rfl⟩

theorem lt_of_lt_of_le {a b c : Float} (h : a < b) (h' : b ≤ c) : a < c := by
  obtain ⟨x, hx, y, hy, hxy⟩ := lt_iff_rank.1 h
  obtain ⟨y', hy', z, hz, hyz⟩ := le_iff_rank.1 h'
  rw [Option.mem_unique hy hy'] at hxy
  exact lt_iff_rank.2 ⟨x, hx, z, hz, hxy.trans_le hyz⟩

theorem lt_of_le_of_lt {a b c : Float} (h : a ≤ b) (h' : b < c) : a < c := by
  obtain ⟨x, hx, y, hy, hxy⟩ := le_iff_rank.1 h
  obtain ⟨y', hy', z, hz, hyz⟩ := lt_iff_rank.1 h'
  rw [Option.mem_unique hy hy'] at hxy
  exact lt_iff_rank.2 ⟨x, hx, z, hz, hxy.trans_lt hyz⟩

theorem le_or_lt {a b : Float} (ha : a ≤ a) (hb : b ≤ b) : a ≤ b ∨ b < a := by
  obtain ⟨x, hx, -⟩ := le_iff_rank.1 ha
  obtain ⟨y, hy, -⟩ := le_iff_rank.1 hb
  rcases le_or_gt x y with hxy | hxy
  · exact .inl (le_iff_rank.2 ⟨x, hx, y, hy, hxy⟩)
  · exact .inr (lt_iff_rank.2 ⟨y, hy, x, hx, hxy⟩)

theorem le_of_not_lt {a b : Float} (ha : a.isFinite) (hb : b.isFinite) (h : ¬ b < a) : a ≤ b := by
  obtain ⟨x, hx⟩ := exists_rank ha
  obtain ⟨y, hy⟩ := exists_rank hb
  refine le_iff_rank.2 ⟨x, hx, y, hy, le_of_not_gt fun hlt => h ?_⟩
  exact lt_iff_rank.2 ⟨y, hy, x, hx, hlt⟩

theorem not_lt_iff_le {a b : Float} (ha : a.isFinite) (hb : b.isFinite) : ¬ b < a ↔ a ≤ b :=
  ⟨le_of_not_lt ha hb, not_lt_of_le⟩

theorem beq_of_not_lt {a b : Float} (ha : a.isFinite) (hb : b.isFinite) (h : ¬ a < b)
    (h' : ¬ b < a) :
    (a == b) = true := by
  obtain ⟨x, hx⟩ := exists_rank ha
  obtain ⟨y, hy⟩ := exists_rank hb
  have hxy : x = y := by
    refine le_antisymm (le_of_not_gt fun hlt => h' ?_) (le_of_not_gt fun hlt => h ?_)
    · exact lt_iff_rank.2 ⟨y, hy, x, hx, hlt⟩
    · exact lt_iff_rank.2 ⟨x, hx, y, hy, hlt⟩
  exact (beq_iff_place _ _).2 ⟨x, hx, hxy ▸ hy⟩

theorem beq_iff_le {a b : Float} : (a == b) = true ↔ a ≤ b ∧ b ≤ a := by
  change a.toModel.unpack.beq b.toModel.unpack = true ↔ _
  rw [beq_iff_place, le_iff_rank, le_iff_rank]
  constructor
  · rintro ⟨x, hx, hx'⟩
    exact ⟨⟨x, hx, x, hx', le_rfl⟩, ⟨x, hx', x, hx, le_rfl⟩⟩
  · rintro ⟨⟨x, hx, y, hy, hxy⟩, ⟨y', hy', x', hx', hyx⟩⟩
    rw [Option.mem_unique hx' hx, Option.mem_unique hy' hy] at hyx
    exact ⟨x, hx, le_antisymm hxy hyx ▸ hy⟩

/-- Zero of either sign, above zero, or `NaN`. -/
def NotNegative : UnpackedFloat → Prop
  | .infinity .negative | .finite .negative _ _ _ => False
  | _ => True

theorem not_lt_zero_iff {x : Float} : ¬ x < 0 ↔ NotNegative x.toModel.unpack := by
  have h : x < 0 ↔ x.toModel.unpack.lt (.zero .positive) = true := by
    change decide (x.toModel < (0 : Float).toModel) = true ↔ _
    rw [decide_eq_true_iff]
    rfl
  rw [h]
  generalize x.toModel.unpack = u
  rcases u with (_ | _) | _ | (_ | _) | ⟨_ | _, m, e, hm⟩ <;>
    simp [UnpackedFloat.lt, UnpackedFloat.compare, NotNegative]

section Sum

variable {format : Format}

theorem notNegative_unpack {b : BitVec format.numBits} (h : UnpackedFloat.unpackSign b = 0#1) :
    NotNegative (.unpack format b) := by
  unfold UnpackedFloat.unpack
  simp only [h]
  split_ifs <;> exact trivial

theorem notNegative_of_components (e : BitVec format.exponentBits)
    (m : BitVec format.mantissaBitsWithoutImplicit) :
    NotNegative (.unpack format (UnpackedFloat.packComponents format .positive e m)) :=
  notNegative_unpack (UnpackedFloat.unpackSign_packComponents _ _ _)

/-- To store a number does not make it negative. -/
theorem notNegative_unpack_pack {u : UnpackedFloat} (h : NotNegative u) :
    NotNegative (Float.Model.pack u).unpack := by
  rcases u with (_ | _) | _ | (_ | _) | ⟨_ | _, m, e, hm⟩
  · exact h.elim
  · exact notNegative_of_components _ _
  · exact notNegative_of_components _ _
  · exact trivial
  · exact trivial
  · exact h.elim
  · change NotNegative (.unpack _ (UnpackedFloat.pack _ _))
    unfold UnpackedFloat.pack
    simp only
    split_ifs <;> exact notNegative_of_components _ _

theorem notNegative_round (m : ℕ) (e : ℤ) : NotNegative (.round format .positive m e) := by
  simp only [UnpackedFloat.round, UnpackedFloat.roundWithAccuracy]
  split <;> exact trivial

theorem notNegative_normalize {m : ℤ} (hm : 0 ≤ m) (e : ℤ) :
    NotNegative (.normalize format m e .positive) := by
  unfold UnpackedFloat.normalize
  split
  next h => exact absurd (compare_lt_iff_lt.1 h) hm.not_gt
  · exact trivial
  · exact notNegative_round _ _

theorem notNegative_add {a b : UnpackedFloat} (ha : NotNegative a) (hb : NotNegative b) :
    NotNegative (a.add format b) := by
  -- only a sum of two positive numbers is rounded
  rcases a with (_ | _) | _ | (_ | _) | ⟨_ | _, m, e, hm⟩ <;>
    rcases b with (_ | _) | _ | (_ | _) | ⟨_ | _, n, f, hn⟩ <;>
    first
    | exact ha.elim
    | exact hb.elim
    | exact trivial
    | exact notNegative_normalize (add_nonneg (Int.natCast_nonneg _) (Int.natCast_nonneg _)) _

theorem notNegative_mul {a b : UnpackedFloat} (ha : NotNegative a) (hb : NotNegative b) :
    NotNegative (a.mul format b) := by
  -- only a product of two positive numbers is rounded
  rcases a with (_ | _) | _ | (_ | _) | ⟨_ | _, m, e, hm⟩ <;>
    rcases b with (_ | _) | _ | (_ | _) | ⟨_ | _, n, f, hn⟩ <;>
    first
    | exact ha.elim
    | exact hb.elim
    | exact trivial
    | (simp only [UnpackedFloat.mul, UnpackedFloat.roundWithAccuracy]; split <;> exact trivial)

end Sum

theorem not_add_lt_zero {x y : Float} (hx : ¬ x < 0) (hy : ¬ y < 0) : ¬ x + y < 0 := by
  rw [not_lt_zero_iff] at *
  exact notNegative_unpack_pack (notNegative_add hx hy)

theorem not_mul_lt_zero {x y : Float} (hx : ¬ x < 0) (hy : ¬ y < 0) : ¬ x * y < 0 := by
  rw [not_lt_zero_iff] at *
  exact notNegative_unpack_pack (notNegative_mul hx hy)

end RadarTimeline.Number
