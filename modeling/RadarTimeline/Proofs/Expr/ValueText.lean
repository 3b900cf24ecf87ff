import RadarTimeline.Expr.Value
import RadarTimeline.Proofs.Expr.DecimalText
import RadarTimeline.Proofs.Expr.IntegerLiterals
import RadarTimeline.Proofs.Number.Parts

namespace RadarTimeline.Expr

open Float.Model Number

variable {x y : Float}

def isNumberChar (c : Char) : Bool := isDigit c || ['.', 'e', '-', '+'].contains c

theorem not_blank_of_numberChar {c : Char} (hc : isNumberChar c = true) :
    Text.isBlank c = false := by
  have hmarks : ['.', 'e', '-', '+'].all (!Text.isBlank ·) = true := by decide
  rw [isNumberChar, Bool.or_eq_true, List.contains_iff_mem] at hc
  rcases hc with hdigit | hmark
  · exact not_blank_of_hexDigit (isHexDigit_of_digit hdigit)
  · simpa using List.all_eq_true.1 hmarks c hmark

section Integers

theorem toList_toString (n : ℤ) :
    (toString n).toList = if n < 0 then '-' :: digitChars n.natAbs else digitChars n.natAbs := by
  cases n with
  | ofNat n => exact Nat.toList_repr
  | negSucc n =>
    have hneg : Int.negSucc n < 0 := Int.negSucc_lt_zero n
    rw [if_pos hneg]
    change ("-" ++ Nat.repr (n + 1)).toList = _
    rw [String.toList_append, Nat.toList_repr]
    rfl

theorem scanSign_toString (n : ℤ) :
    scanSign (toString n).toList = (decide (n < 0), digitChars n.natAbs) := by
  obtain ⟨d, ds, hcons⟩ := List.exists_cons_of_ne_nil (digitChars_ne_nil n.natAbs)
  have hd := digits_digitChars n.natAbs d (hcons ▸ List.mem_cons_self)
  rw [toList_toString]
  split
  · next h =>
    rw [decide_eq_true h]
    rfl
  · next h =>
    rw [decide_eq_false h, hcons]
    exact scanSign_digit hd ds

theorem readDigits?_digits {cs : List Char} (h : Digits cs) (hne : cs ≠ []) :
    readDigits? 10 cs = some (digitsValue 10 cs) := by
  have hall : cs.all (fun c => (digitValue? 10 c).isSome) = true := List.all_eq_true.2 h
  rw [readDigits?, hall, if_neg (by simpa using hne)]

theorem readDigits?_digitChars (n : ℕ) : readDigits? 10 (digitChars n) = some n := by
  rw [readDigits?_digits (digits_digitChars n) (digitChars_ne_nil n), digitsValue_digitChars]

theorem sign_natAbs (n : ℤ) :
    (if decide (n < 0) = true then -(n.natAbs : ℤ) else n.natAbs) = n := by
  simp only [decide_eq_true_eq]
  omega

theorem readInteger?_toString (n : ℤ) : readInteger? (toString n).toList = some n := by
  rw [readInteger?_digits (scanSign_toString n) (digits_digitChars _) (readDigits?_digitChars _),
    sign_natAbs]

theorem readWhole?_toString (n : ℤ) : readWhole? (toString n).toList = some n := by
  rw [readWhole?, scanSign_toString]
  dsimp only
  rw [readDigits?_digitChars]
  exact congrArg some (sign_natAbs n)

theorem digitChars_not_blank (n : ℕ) : ∀ c ∈ digitChars n, Text.isBlank c = false := fun c hc =>
  not_blank_of_hexDigit (isHexDigit_of_digit (digits_digitChars _ c hc))

theorem numberChars_toString (n : ℤ) : ∀ c ∈ (toString n).toList, isNumberChar c = true := by
  have hdigits : ∀ c ∈ digitChars n.natAbs, isNumberChar c = true := fun c hc =>
    Bool.or_eq_true_iff.2 (.inl (digits_digitChars _ c hc))
  rw [toList_toString]
  split
  · exact List.forall_mem_cons.2 ⟨by decide, hdigits⟩
  · exact hdigits

theorem toString_not_blank (n : ℤ) : ∀ c ∈ (toString n).toList, Text.isBlank c = false :=
  fun c hc =>
  not_blank_of_numberChar (numberChars_toString n c hc)

theorem readValue_toString (n : ℤ) : readValue (toString n) = .int n := by
  rw [readValue, trim_eq_self (toString_not_blank n), readInteger?_toString]

end Integers

section Doubles

variable {s : UnpackedFloat.Sign} {m : ℕ} {e : ℤ} {hm : 0 < m}

theorem kind_of_unpack {u : UnpackedFloat} (h : x.toModel.unpack = u) :
    x.isNaN = u.isNaN ∧ x.isInf = u.isInf := by
  subst h
  exact ⟨rfl, rfl⟩

theorem doubleText_infinity (h : x.toModel.unpack = .infinity s) :
    doubleText x = if s == .positive then "Inf" else "-Inf" := by
  have hnan : x.isNaN = false := (kind_of_unpack h).1
  have hinf : x.isInf = true := (kind_of_unpack h).2
  have hpos : 0 < x ↔ (s == .positive) = true := by
    have hrank : rank x = place (.infinity s) := congrArg place h
    have hzero : rank 0 = place (.zero .positive) := rfl
    rw [lt_iff_rank, hrank, hzero]
    cases s <;> simp [place, Prod.Lex.toLex_lt_toLex]
  unfold doubleText
  simp only [hnan, hinf, hpos, Bool.false_eq_true, if_false, if_true]

theorem text_zero (h : x.toModel.unpack = .zero s) : Number.text x = "0" := by
  have hnan : x.isNaN = false := (kind_of_unpack h).1
  have hinf : x.isInf = false := (kind_of_unpack h).2
  unfold Number.text
  simp only [hnan, hinf, beq_zero_iff.2 ⟨s, h⟩, Bool.false_eq_true, if_false, if_true]

theorem text_finite (h : x.toModel.unpack = .finite s m e hm) : Number.text x = finiteText x := by
  have hnan : x.isNaN = false := (kind_of_unpack h).1
  have hinf : x.isInf = false := (kind_of_unpack h).2
  have hzero : (x == 0) = false := by
    rw [Bool.eq_false_iff, Ne, beq_zero_iff, h]
    rintro ⟨t, ht⟩
    cases ht
  unfold Number.text
  simp only [hnan, hinf, hzero, Bool.false_eq_true, if_false]

theorem doubleText_zero (h : x.toModel.unpack = .zero s) : doubleText x = "0.0" := by
  have hnan : x.isNaN = false := (kind_of_unpack h).1
  have hinf : x.isInf = false := (kind_of_unpack h).2
  unfold doubleText
  simp only [hnan, hinf, text_zero h, Bool.false_eq_true, if_false]
  decide +kernel

theorem doubleText_finite (h : x.toModel.unpack = .finite s m e hm) :
    doubleText x =
      if (scanSign (finiteText x).toList).2.all isDigit then finiteText x ++ ".0"
      else finiteText x := by
  have hnan : x.isNaN = false := (kind_of_unpack h).1
  have hinf : x.isInf = false := (kind_of_unpack h).2
  unfold doubleText
  simp only [hnan, hinf, text_finite h, Bool.false_eq_true, if_false]

theorem toList_point_zero : ".0".toList = ['.', '0'] := rfl

theorem scansSigned_doubleText (h : x.toModel.unpack = .finite s m e hm) :
    ∃ d, ScansSigned (doubleText x).toList (Binary.ofFloat x).negative d ∧
      d.value = (Binary.ofFloat x).shortest.value ∧ -1074 ≤ d.exponent := by
  obtain ⟨d, hd, hvalue, hexponent⟩ := scans_layout (Binary.ofFloat x).shortest
  have hleast := le_shortest_exponent (ofFloat_of_unpack h).2.least
  have hfinite : ScansSigned (finiteText x).toList (Binary.ofFloat x).negative d := by
    rw [finiteText, String.toList_ofList]
    exact hd.signed _
  rw [doubleText_finite h]
  split
  · next hall =>
    obtain ⟨d', hd', hvalue', hexponent'⟩ := hfinite.point_zero (List.all_eq_true.1 hall)
    rw [String.toList_append, toList_point_zero]
    exact ⟨d', hd', hvalue'.trans hvalue, by omega⟩
  · exact ⟨d, hfinite, hvalue, by omega⟩

theorem spellsSigned_doubleText (h : x.toModel.unpack = .finite s m e hm) :
    SpellsSigned (doubleText x).toList (Binary.ofFloat x).negative
      (Binary.ofFloat x).shortest.value := by
  obtain ⟨d, hd, hvalue, -⟩ := scansSigned_doubleText h
  exact hvalue ▸ hd.spells

theorem shortest_pos {b : Binary} (hb : b.Stored) : 0 < b.shortest.value := by
  have hpow : (0 : ℚ) < 2 ^ (b.exponent - 2) := by positivity
  have hlow : 0 < b.low := by
    have hpos := hb.pos
    have hquarters : 0 < 4 * b.mantissa - b.below := by
      unfold Binary.below
      split <;> omega
    exact mul_pos (Nat.cast_pos.2 hquarters) hpow
  have hrounds := shortest_rounds hb.pos
  unfold Binary.Rounds at hrounds
  split at hrounds
  · exact hlow.trans_le hrounds.1
  · exact hlow.trans hrounds.1

theorem scansSigned_zero : ScansSigned "0.0".toList false ⟨0, -1⟩ :=
  ⟨"0.0".toList, rfl, ⟨['0'], some ['0'], []⟩, by decide, by decide⟩

theorem spellsSigned_zero : SpellsSigned "0.0".toList false 0 := by
  have hspells := scansSigned_zero.spells
  rwa [Decimal.value, Nat.cast_zero, zero_mul] at hspells

/-- The texts of finite doubles, and only those, are decimals. -/
theorem readDecimal?_doubleText (x : Float) :
    (readDecimal? (doubleText x).toList).isSome = x.isFinite := by
  change _ = x.toModel.unpack.isFinite
  rcases h : x.toModel.unpack with s | _ | s | ⟨s, m, e, hm⟩
  · rw [doubleText_infinity h]
    cases s <;> decide +kernel
  · have hnan : x.isNaN = true := (kind_of_unpack h).1
    rw [doubleText, if_pos hnan]
    decide +kernel
  · rw [doubleText_zero h, scansSigned_zero.readDecimal?]
    rfl
  · obtain ⟨d, hd, -⟩ := scansSigned_doubleText h
    rw [hd.readDecimal?]
    rfl

section Equality

variable {t : UnpackedFloat.Sign} {n : ℕ} {f : ℤ} {hn : 0 < n}

theorem doubleText_finite_eq_iff (hx : x.toModel.unpack = .finite s m e hm)
    (hy : y.toModel.unpack = .finite t n f hn) :
    doubleText x = doubleText y ↔ s = t ∧ m = n ∧ e = f := by
  obtain ⟨hxparts, hxstored⟩ := ofFloat_of_unpack hx
  obtain ⟨hyparts, hystored⟩ := ofFloat_of_unpack hy
  constructor
  · intro h
    have hxspells := spellsSigned_doubleText hx
    rw [h] at hxspells
    obtain ⟨hsign, hvalue⟩ := hxspells.unique (spellsSigned_doubleText hy)
    obtain ⟨hm, he⟩ := eq_of_shortest_value hxstored hystored hvalue
    rw [hxparts, hyparts] at hsign hm he
    refine ⟨?_, hm, he⟩
    cases s <;> cases t <;> first | rfl | cases hsign
  · rintro ⟨rfl, rfl, rfl⟩
    have htext : finiteText x = finiteText y := by rw [finiteText, finiteText, hxparts, hyparts]
    rw [doubleText_finite hx, doubleText_finite hy, htext]

theorem doubleText_zero_ne_finite (hx : x.toModel.unpack = .zero s)
    (hy : y.toModel.unpack = .finite t n f hn) : doubleText x ≠ doubleText y := by
  intro h
  have hyspells := spellsSigned_doubleText hy
  rw [← h, doubleText_zero hx] at hyspells
  have hpos := shortest_pos (ofFloat_of_unpack hy).2
  exact hpos.ne (spellsSigned_zero.unique hyspells).2

theorem doubleText_infinity_eq_iff (hx : x.toModel.unpack = .infinity s)
    (hy : y.toModel.unpack = .infinity t) : doubleText x = doubleText y ↔ s = t := by
  rw [doubleText_infinity hx, doubleText_infinity hy]
  cases s <;> cases t <;> simp

theorem isFinite_of_place {u w : UnpackedFloat} {r : ℤ ×ₗ ℤ ×ₗ ℤ} (hu : r ∈ place u)
    (hw : r ∈ place w) : u.isFinite = w.isFinite := by
  have hplace : place u = place w := (Option.mem_def.1 hu).trans (Option.mem_def.1 hw).symm
  clear hu hw
  rcases u with (_ | _) | _ | _ | ⟨_ | _, m, e, hm⟩ <;>
    rcases w with (_ | _) | _ | _ | ⟨_ | _, n, f, hn⟩ <;>
    first | rfl | simp [place] at hplace

theorem infinity_of_not_finite (hnan : x.isNaN = false) (h : x.isFinite = false) :
    ∃ s, x.toModel.unpack = .infinity s := by
  change x.toModel.unpack.isNaN = false at hnan
  change x.toModel.unpack.isFinite = false at h
  rcases hu : x.toModel.unpack with s | _ | s | ⟨s, m, e, hm⟩ <;> rw [hu] at hnan h
  case infinity => exact ⟨s, rfl⟩
  case notANumber => cases hnan
  all_goals cases h

/-- Texts of numbers are equal exactly if the numbers are. -/
theorem doubleText_eq_iff (hx : x.isNaN = false) (hy : y.isNaN = false) :
    doubleText x = doubleText y ↔ (x == y) = true := by
  change _ ↔ x.toModel.unpack.beq y.toModel.unpack = true
  rw [beq_iff_place]
  by_cases hkind : x.isFinite = y.isFinite
  · cases hfinite : x.isFinite
    · obtain ⟨s, hs⟩ := infinity_of_not_finite hx hfinite
      obtain ⟨t, ht⟩ := infinity_of_not_finite hy (hkind ▸ hfinite)
      rw [doubleText_infinity_eq_iff hs ht, hs, ht]
      cases s <;> cases t <;> simp [place]
    · rcases finite_cases hfinite with ⟨s, hs⟩ | ⟨s, m, e, hm, hs, -⟩ <;>
        rcases finite_cases (hkind ▸ hfinite) with ⟨t, ht⟩ | ⟨t, n, f, hn, ht, -⟩ <;>
        rw [hs, ht]
      · exact iff_of_true (by rw [doubleText_zero hs, doubleText_zero ht]) ⟨_, rfl, rfl⟩
      · exact iff_of_false (doubleText_zero_ne_finite hs ht) (by cases t <;> simp [place])
      · exact iff_of_false (doubleText_zero_ne_finite ht hs).symm (by cases s <;> simp [place])
      · rw [doubleText_finite_eq_iff hs ht]
        cases s <;> cases t <;> simp [place] <;> omega
  · constructor
    · intro h
      rw [← readDecimal?_doubleText, h, readDecimal?_doubleText] at hkind
      exact (hkind rfl).elim
    · rintro ⟨r, hr, hr'⟩
      exact (hkind (isFinite_of_place hr hr')).elim

end Equality

theorem numberChars_doubleText (h : x.isFinite) :
    ∀ c ∈ (doubleText x).toList, isNumberChar c = true := by
  have hfinite : ∀ c ∈ (finiteText x).toList, isNumberChar c = true := by
    have hlayout : ∀ c ∈ (Binary.ofFloat x).shortest.layout, isNumberChar c = true := by
      intro c hc
      rw [isNumberChar, Bool.or_eq_true, List.contains_iff_mem]
      exact mem_layout hc
    rw [finiteText, String.toList_ofList]
    split
    · exact List.forall_mem_cons.2 ⟨by decide, hlayout⟩
    · exact hlayout
  rcases finite_cases h with ⟨s, hs⟩ | ⟨s, m, e, hm, hs, -⟩
  · have hzero : "0.0".toList.all isNumberChar = true := by decide
    rw [doubleText_zero hs]
    exact List.all_eq_true.1 hzero
  · rw [doubleText_finite hs]
    split
    · rw [String.toList_append, toList_point_zero]
      exact List.forall_mem_append.2 ⟨hfinite, List.all_eq_true.1 (by decide)⟩
    · exact hfinite

theorem doubleText_not_blank (h : x.isFinite) :
    ∀ c ∈ (doubleText x).toList, Text.isBlank c = false :=
  fun c hc => not_blank_of_numberChar (numberChars_doubleText h c hc)

end Doubles

theorem doubleText_not_digits (x : Float) :
    (scanSign (doubleText x).toList).2.all isDigit = false := by
  unfold doubleText
  split
  · decide +kernel
  split
  · split <;> decide +kernel
  · dsimp only
    split
    · rw [String.toList_append, toList_point_zero, scanSign_append_point, List.all_append]
      simp [show isDigit '.' = false by decide]
    · next h => exact Bool.eq_false_of_not_eq_true h

theorem toString_ne_doubleText (n : ℤ) (x : Float) : toString n ≠ doubleText x := by
  intro h
  have hdigits : (scanSign (toString n).toList).2.all isDigit = true := by
    rw [scanSign_toString]
    exact List.all_eq_true.2 (digits_digitChars n.natAbs)
  rw [h, doubleText_not_digits] at hdigits
  cases hdigits

variable {a b text : String}

theorem readValue_doubleText (h : x.isFinite) : readValue (doubleText x) ≠ .string text := by
  have hsome := readDecimal?_doubleText x
  rw [h] at hsome
  obtain ⟨y, hy⟩ := Option.isSome_iff_exists.1 hsome
  rw [readValue, trim_eq_self (doubleText_not_blank h), hy]
  dsimp only
  split <;> simp

theorem readValue_string (h : readValue a = .string text) : text = a := by
  unfold readValue at h
  dsimp only at h
  split at h
  · cases h
  split at h
  · cases h
  · cases h
    rfl

theorem readValue_double (h : readValue a = .double x) : x.isNaN = false := by
  unfold readValue at h
  dsimp only at h
  split at h
  · cases h
  split at h
  · next hread =>
    cases h
    exact isNaN_of_readDecimal? hread
  · cases h

/-- A text reads as a double beyond the range, and the other is the text of that double. -/
def Beyond (a b : String) : Prop :=
  ∃ x, readValue a = .double x ∧ x.isInf = true ∧ b = if 0 < x then "Inf" else "-Inf"

/-- Texts that stand for values of one text. -/
inductive Alike (a b : String) : Prop
  | same (h : a = b)
  | integers {n : ℤ} (ha : readValue a = .int n) (hb : readValue b = .int n)
  | doubles {x y : Float} (ha : readValue a = .double x) (hb : readValue b = .double y)
    (h : (x == y) = true)
  | beyond_left (h : Beyond a b)
  | beyond_right (h : Beyond b a)

theorem doubleText_isInf (h : x.isInf = true) : doubleText x = if 0 < x then "Inf" else "-Inf" := by
  have hnan : x.isNaN = false := by
    change x.toModel.unpack.isInf = true at h
    change x.toModel.unpack.isNaN = false
    rcases hu : x.toModel.unpack with s | _ | s | ⟨s, m, e, hm⟩ <;> rw [hu] at h <;>
      first | rfl | cases h
  unfold doubleText
  simp only [hnan, h, Bool.false_eq_true, if_false, if_true]

theorem Beyond.text_eq (h : Beyond a b) : (readValue a).text = (readValue b).text := by
  obtain ⟨x, ha, hinf, hb⟩ := h
  have hwords : (readValue "Inf").text = "Inf" ∧ (readValue "-Inf").text = "-Inf" := by
    decide +kernel
  rw [ha, Value.text, doubleText_isInf hinf, hb]
  split
  · exact hwords.1.symm
  · exact hwords.2.symm

theorem toString_ne_string {n : ℤ} (hb : readValue b = .string text) : toString n ≠ text := by
  rintro rfl
  rw [← readValue_string hb, readValue_toString] at hb
  cases hb

theorem beyond_of_doubleText (ha : readValue a = .double x) (hb : readValue b = .string text)
    (h : doubleText x = text) : Beyond a b := by
  obtain rfl := readValue_string hb
  cases hfinite : x.isFinite with
  | true =>
    rw [← h] at hb
    exact (readValue_doubleText hfinite hb).elim
  | false =>
    obtain ⟨s, hs⟩ := infinity_of_not_finite (readValue_double ha) hfinite
    have hinf : x.isInf = true := (kind_of_unpack hs).2
    exact ⟨x, ha, hinf, h ▸ doubleText_isInf hinf⟩

/-- The values of two texts have one text exactly if the texts are the same, or stand for the same
number, or one stands for a number beyond the range and the other is its text. -/
theorem text_eq_iff (a b : String) : (readValue a).text = (readValue b).text ↔ Alike a b := by
  constructor
  · intro h
    rcases ha : readValue a with m | x | s <;> rcases hb : readValue b with n | y | t <;>
      rw [ha, hb] at h <;> simp only [Value.text] at h
    case int.int =>
      have hvalue := congrArg readValue h
      rw [readValue_toString, readValue_toString] at hvalue
      cases hvalue
      exact .integers ha hb
    case int.double => exact (toString_ne_doubleText m y h).elim
    case int.string => exact (toString_ne_string hb h).elim
    case double.int => exact (toString_ne_doubleText n x h.symm).elim
    case double.double =>
      exact .doubles ha hb ((doubleText_eq_iff (readValue_double ha) (readValue_double hb)).1 h)
    case double.string => exact .beyond_left (beyond_of_doubleText ha hb h)
    case string.int => exact (toString_ne_string ha h.symm).elim
    case string.double => exact .beyond_right (beyond_of_doubleText hb ha h.symm)
    case string.string => exact .same (readValue_string ha ▸ readValue_string hb ▸ h)
  · intro h
    cases h with
    | same h => rw [h]
    | integers ha hb => rw [ha, hb]
    | doubles ha hb h =>
      rw [ha, hb]
      exact (doubleText_eq_iff (readValue_double ha) (readValue_double hb)).2 h
    | beyond_left h => exact h.text_eq
    | beyond_right h => exact h.text_eq.symm

instance (a b : String) : Decidable (Alike a b) := decidable_of_iff _ (text_eq_iff a b)

example : Alike "1e400" "Inf" ∧ ¬Alike "1" "1.0" := by decide +kernel

end RadarTimeline.Expr
