import RadarTimeline.Proofs.Console.TextEquality
import RadarTimeline.Proofs.Number.Scaled

namespace RadarTimeline.Expr

open Float.Model Float.Model.UnpackedFloat Number

variable {x y : Float} {v w : Value} {s : Sign} {m : ℕ} {e : ℤ} {hm : 0 < m}

/-- Integers and doubles that are neither infinite nor no number. -/
def Value.isFinite : Value → Bool
  | .int _ => true
  | .double x => x.isFinite
  | .string _ => false

/-- Numbers of one kind that are equal. -/
inductive Value.SameNumber : Value → Value → Prop
  | int (n : ℤ) : SameNumber (.int n) (.int n)
  | double {x y : Float} (h : (x == y) = true) : SameNumber (.double x) (.double y)

section Doubles

theorem readValue_of_scans {text : String} {negative : Bool} {d : Decimal}
    (h : ScansSigned text.toList negative d) (hblank : ∀ c ∈ text.toList, Text.isBlank c = false)
    (hdigits : (scanSign text.toList).2.all isDigit = false) :
    readValue text = .double (withSign negative (scaled d.digits d.exponent)) := by
  rw [readValue, trim_eq_self hblank, h.readInteger? hdigits, h.readDecimal?]

theorem unpack_withSign (hb : (Binary.mk (s == .negative) m e).Stored) (he : e ≤ 971)
    (hx : x.toModel.unpack = .finite .positive m e hb.pos) :
    (withSign (s == .negative) x).toModel.unpack = .finite s m e hb.pos := by
  cases s with
  | positive => exact hx
  | negative =>
    change (Float.Model.pack x.toModel.unpack.neg).unpack = _
    rw [hx]
    exact unpack_pack_stored hb he

theorem beq_of_unpack (h : x.toModel.unpack = .finite s m e hm)
    (h' : y.toModel.unpack = .finite s m e hm) :
    (x == y) = true := by
  change x.toModel.unpack.beq y.toModel.unpack = true
  rw [h, h', beq_iff_place]
  cases s <;> exact ⟨_, rfl, rfl⟩

theorem exists_readValue_doubleText (hx : x.isFinite) :
    ∃ y, readValue (doubleText x) = .double y ∧ (x == y) = true := by
  have hread := fun negative d (h : ScansSigned (doubleText x).toList negative d) =>
    readValue_of_scans h (doubleText_not_blank hx) (doubleText_not_digits x)
  rcases finite_cases hx with ⟨s, hs⟩ | ⟨s, m, e, hm, hs, -, he⟩
  · have hzero : ScansSigned (doubleText x).toList false ⟨0, -1⟩ := by
      rw [doubleText_zero hs]
      exact scansSigned_zero
    exact ⟨_, hread _ _ hzero, beq_zero_iff.2 ⟨s, hs⟩⟩
  · obtain ⟨d, hd, hvalue, hexponent⟩ := scansSigned_doubleText hs
    obtain ⟨hparts, hstored⟩ := ofFloat_of_unpack hs
    rw [hparts] at hd hvalue hstored
    -- the decimal rounds to the number, so reading it rounds back to the number
    have hrounds : (Binary.mk (s == .negative) m e).Rounds d.value := hvalue ▸ shortest_rounds hm
    have hscaled := unpack_scaled hstored he (by omega) hrounds
    exact ⟨_, hread _ _ hd, beq_of_unpack hs (unpack_withSign hstored he hscaled)⟩

end Doubles

theorem Value.sameNumber_readValue (hv : v.isFinite = true) : v.SameNumber (readValue v.text) := by
  cases v with
  | int n =>
    rw [Value.text, readValue_toString]
    exact .int n
  | double x =>
    obtain ⟨y, hy, heq⟩ := exists_readValue_doubleText hv
    rw [Value.text, hy]
    exact .double heq
  | string => cases hv

theorem forbidden_not_numberChars :
    ∀ word ∈ forbiddenWords, word.toList.all isNumberChar = false := by
  decide +kernel

theorem Value.allowed_text (hv : v.isFinite = true) : Allowed v.text.toList := by
  refine allowed_of_all forbidden_not_numberChars ?_
  cases v with
  | int n => exact numberChars_toString n
  | double x => exact numberChars_doubleText hv
  | string => cases hv

end RadarTimeline.Expr

namespace RadarTimeline.Console

open RadarTimeline.Expr (Value readValue)

variable {call : Call} {v : Value} {st : State}

/-- An integer or a finite double is read from its text as the same number. The text is what an
expression gives if this number is its value, and the number is the value of each operand for which
the context gives the text, through a variable as well as through a script in brackets. -/
theorem result_readBack (hv : v.isFinite = true) :
    v.SameNumber (readValue v.text) ∧
      (∀ (ctx : Expr.Context Run) (source : String) (t : Expr.Tree) (st st₁ : State),
        Expr.parse source = .ok t → (t.eval ctx).run st = .ok (.ok v) st₁ →
          (Expr.evaluate ctx source).run st = .ok (.ok v.text) st₁) ∧
      ∀ (ctx : Expr.Context Run) (o : Expr.Operand) (asked : Run String) (st st₁ : State),
        request? ctx o = some asked → asked st = .ok v.text st₁ →
          ((Expr.Tree.operand o).eval ctx).run st = .ok (.ok (readValue v.text)) st₁ := by
  refine ⟨v.sameNumber_readValue hv, ?_, ?_⟩
  · intro ctx source t st st₁ hparse ht
    exact evaluate_tree hparse ht
  · intro ctx o asked st st₁ ho hasked
    exact eval_requested ho hasked (v.allowed_text hv)

/-- The smallest double is written with an exponent and no fraction, and a variable that holds its
text has it for a value. -/
theorem result_readBack_smallest :
    (Value.double 5e-324).isFinite = true ∧ (Value.double 5e-324).text = "5e-324" ∧
      (Value.double 5e-324).SameNumber (readValue "5e-324") ∧
      ∀ ctx : Expr.Context Run, ctx.valueOf "x" = variableValue 0 "x" ⟨consoleName, 1, 1, 1⟩ →
        ((Expr.Tree.operand (.variable "x")).eval ctx).run (twoVariables "5e-324" "") =
          .ok (.ok (readValue "5e-324")) (twoVariables "5e-324" "") := by
  have hfinite : (Value.double 5e-324).isFinite = true := by decide +kernel
  have htext : (Value.double 5e-324).text = "5e-324" := by decide +kernel
  obtain ⟨hsame, -, hoperand⟩ := result_readBack hfinite
  rw [htext] at hsame hoperand
  refine ⟨hfinite, htext, hsame, fun ctx hctx => ?_⟩
  refine hoperand ctx (.variable "x") _ _ _ rfl ?_
  rw [hctx]
  rfl

end RadarTimeline.Console
