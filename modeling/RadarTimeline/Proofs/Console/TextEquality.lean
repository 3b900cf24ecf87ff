import RadarTimeline.Console.Call
import RadarTimeline.Proofs.Console.Run
import RadarTimeline.Proofs.Expr.IntegerValues
import RadarTimeline.Proofs.Expr.ValueText

namespace RadarTimeline.Console

open RadarTimeline.Expr (Allowed Alike)

variable {st st₁ st₂ : State}

section Evaluation

variable {ctx : Expr.Context Run} {source x text : String} {left right t : Expr.Tree}
  {l r value : Expr.Value}

/-- What an operand asks the context for. Those that are written out ask for nothing. -/
def request? (ctx : Expr.Context Run) : Expr.Operand → Option (Run String)
  | .variable name => some (ctx.valueOf name)
  | .command script => some (ctx.runScript script)
  | .quoted text => some (ctx.fillIn text)
  | .number _ | .braced _ | .word _ => none

theorem eval_requested {o : Expr.Operand} {asked : Run String} (ho : request? ctx o = some asked)
    (hx : asked st = .ok text st₁) (hallowed : Allowed text.toList) :
    ((Expr.Tree.operand o).eval ctx).run st = .ok (.ok (Expr.readValue text)) st₁ := by
  have hcheck := Expr.checkAllowed_eq hallowed
  rw [String.ofList_toList] at hcheck
  cases o with
  | number | braced | word => cases ho
  | «variable» | command | quoted =>
    cases ho
    rw [Expr.Tree.eval, Expr.Operand.value]
    refine (Act.bind_of_ok (Act.lift_of_ok hx)).trans ?_
    rw [Expr.substituted, hcheck]
    rfl

theorem eval_variable (hx : ctx.valueOf x st = .ok text st₁) (hallowed : Allowed text.toList) :
    ((Expr.Tree.operand (.variable x)).eval ctx).run st = .ok (.ok (Expr.readValue text)) st₁ :=
  eval_requested rfl hx hallowed

theorem eval_binary {op : Expr.BinaryOp} (hand : op ≠ .and) (hor : op ≠ .or)
    (hl : (left.eval ctx).run st = .ok (.ok l) st₁)
    (hr : (right.eval ctx).run st₁ = .ok (.ok r) st₂) :
    ((Expr.Tree.binary op left right).eval ctx).run st = .ok (Expr.binaryValue op l r) st₂ := by
  rw [Expr.eval_strict hand hor, Act.bind_of_ok hl, Act.bind_of_ok hr]
  cases Expr.binaryValue op l r <;> rfl

theorem evaluate_tree (hparse : Expr.parse source = .ok t)
    (ht : (t.eval ctx).run st = .ok (.ok value) st₁) :
    (Expr.evaluate ctx source).run st = .ok (.ok value.text) st₁ := by
  rw [Expr.evaluate, hparse, Expr.lift_ok_bind, Act.bind_of_ok ht]
  rfl

end Evaluation

variable {call : Call} {a b : String}

/-- A variable of the scope of a call has a value. -/
def Call.Binds (call : Call) (st : State) (x value : String) : Prop :=
  (st.scope call.scope).bindings.get? x = some value

theorem Call.Binds.variableValue {x : String} (h : call.Binds st x a) :
    variableValue call.scope x call.command.location st = .ok a st := by
  rw [Console.variableValue, Run.bind_of_ok (rfl : Run.scope call.scope st =
    .ok (st.scope call.scope) st), h]
  rfl

theorem Call.evaluate_of_context {source text : String}
    (h : ∀ ctx : Expr.Context Run,
      (∀ name, ctx.valueOf name = Console.variableValue call.scope name call.command.location) →
      (Expr.evaluate ctx source).run st = .ok (.ok text) st₁) :
    (call.evaluate source).run st = .ok (.ok text) st₁ := by
  rw [Call.evaluate]
  refine (Act.bind_of_ok (Act.lift_of_ok (h _ fun _ => rfl))).trans ?_
  rfl

theorem Call.evaluate_binary {op : Expr.BinaryOp} {source x y : String} {value : Expr.Value}
    (hparse : Expr.parse source =
      .ok (.binary op (.operand (.variable x)) (.operand (.variable y))))
    (hand : op ≠ .and) (hor : op ≠ .or) (hx : call.Binds st x a) (hy : call.Binds st y b)
    (ha : Allowed a.toList) (hb : Allowed b.toList)
    (hvalue : Expr.binaryValue op (Expr.readValue a) (Expr.readValue b) = .ok value) :
    (call.evaluate source).run st = .ok (.ok value.text) st := by
  refine Call.evaluate_of_context fun ctx hctx => evaluate_tree hparse ?_
  have hleft := eval_variable ((congrFun (hctx x) st).trans hx.variableValue) ha
  have hright := eval_variable ((congrFun (hctx y) st).trans hy.variableValue) hb
  rw [eval_binary hand hor hleft hright, hvalue]

theorem bool_text (p : Bool) : (Expr.Value.bool p).text = if p then "1" else "0" := by
  cases p <;> rfl

theorem parse_sameText : Expr.parse "$x eq $y" =
    .ok (.binary .sameText (.operand (.variable "x")) (.operand (.variable "y"))) := by
  rfl

theorem parse_otherText : Expr.parse "$x ne $y" =
    .ok (.binary .otherText (.operand (.variable "x")) (.operand (.variable "y"))) := by
  rfl

/-- Two variables are the same as texts exactly if their texts are alike. Neither operator fails,
and neither changes anything. -/
theorem evaluate_textEquality (hx : call.Binds st "x" a) (hy : call.Binds st "y" b)
    (ha : Allowed a.toList) (hb : Allowed b.toList) :
    (call.evaluate "$x eq $y").run st = .ok (.ok (if Alike a b then "1" else "0")) st ∧
      (call.evaluate "$x ne $y").run st = .ok (.ok (if Alike a b then "0" else "1")) st := by
  constructor
  · rw [Call.evaluate_binary parse_sameText (by decide) (by decide) hx hy ha hb rfl, bool_text]
    simp only [decide_eq_true_eq, Expr.text_eq_iff]
  · rw [Call.evaluate_binary parse_otherText (by decide) (by decide) hx hy ha hb rfl, bool_text]
    simp only [bne_iff_ne, ne_eq, Expr.text_eq_iff, ite_not]

/-- A console with two variables. -/
def twoVariables (a b : String) : State where
  scopes := #[{
    parent := none
    name := consoleName
    bindings := [("x", a), ("y", b)]
    state := .initial .uhf "UHF" }]

/-- A number in base sixteen is the text of the same number in base ten, whatever stands around
it. -/
theorem evaluate_textEquality_hexadecimal :
    (consoleCall "expr").Binds (twoVariables "0x1F" " +31 ") "x" "0x1F" ∧
      (consoleCall "expr").Binds (twoVariables "0x1F" " +31 ") "y" " +31 " ∧
      Allowed "0x1F".toList ∧ Allowed " +31 ".toList ∧
      ((consoleCall "expr").evaluate "$x eq $y").run (twoVariables "0x1F" " +31 ") =
        .ok (.ok "1") (twoVariables "0x1F" " +31 ") := by
  have hx : (consoleCall "expr").Binds (twoVariables "0x1F" " +31 ") "x" "0x1F" := rfl
  have hy : (consoleCall "expr").Binds (twoVariables "0x1F" " +31 ") "y" " +31 " := rfl
  have ha : Allowed "0x1F".toList := by decide +kernel
  have hb : Allowed " +31 ".toList := by decide +kernel
  have halike : Alike "0x1F" " +31 " := by decide +kernel
  have heq := (evaluate_textEquality hx hy ha hb).1
  rw [if_pos halike] at heq
  exact ⟨hx, hy, ha, hb, heq⟩

theorem evaluate_textEquality_leadingZero :
    "1" ≠ "01" ∧ Allowed "1".toList ∧ Allowed "01".toList ∧
      (consoleCall "expr").Binds (twoVariables "1" "01") "x" "1" ∧
      (consoleCall "expr").Binds (twoVariables "1" "01") "y" "01" ∧
      ((consoleCall "expr").evaluate "$x eq $y").run (twoVariables "1" "01") =
        .ok (.ok "1") (twoVariables "1" "01") := by
  refine ⟨by decide, by decide +kernel, by decide +kernel, rfl, rfl, ?_⟩
  rfl

end RadarTimeline.Console
