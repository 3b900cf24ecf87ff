import RadarTimeline.Console.CoreCommands
import RadarTimeline.Proofs.Console.TextEquality
import RadarTimeline.Proofs.Expr.Extremes
import RadarTimeline.Proofs.Expr.IntegerText
import RadarTimeline.Proofs.Expr.Sums

namespace RadarTimeline.Console

open RadarTimeline.Expr (Foremost callValue)

variable {call : Call} {st : State} {name a increment : String} {ref : List Char} {m k : ℤ}

def State.withVariable (st : State) (s : Nat) (name value : String) : State :=
  st.modifyScope s fun sc => { sc with bindings := sc.bindings.set name value }

theorem Call.Binds.scope_lt {value : String} (h : call.Binds st name value) :
    call.scope < st.scopes.size := by
  by_contra hge
  have hnone : st.scope call.scope = default := by
    rw [State.scope, Array.getD_eq_getD_getElem?, Array.getElem?_eq_none (not_lt.1 hge)]
    rfl
  rw [Call.Binds, hnone] at h
  contradiction

theorem readInteger_run (h : Number.readWhole? a.toList = some m) :
    (readInteger a).run st = .ok (.ok (Number.ofInt m)) st := by
  obtain ⟨ts, t, hsigned⟩ := Expr.exists_signedDigits h
  rw [readInteger, Expr.trim_eq_self hsigned.not_blank, h]
  rfl

/-- The sum is made of the nearest numbers, and its text is stored. -/
theorem incr_run (hv : call.Binds st name a) (ha : Number.readWhole? a.toList = some m)
    (hk : Number.readWhole? increment.toList = some k) :
    (Builtin.incr.run call [name, increment]).run st =
      .ok (.ok (.normal (Number.text (Number.ofInt m + Number.ofInt k))))
        (st.withVariable call.scope name (Number.text (Number.ofInt m + Number.ofInt k))) := by
  have hscope : call.getScope.run st = .ok (.ok (st.scope call.scope)) st := rfl
  have hcurrent : (readInteger (((st.scope call.scope).bindings.get? name).getD "0")).run st =
      .ok (.ok (Number.ofInt m)) st := by
    rw [hv, Option.getD_some]
    exact readInteger_run ha
  change (Builtin.increase call name (readInteger increment)).run st = _
  unfold Builtin.increase
  rw [Act.bind_of_ok hscope, Act.bind_of_ok hcurrent, Act.bind_of_ok (readInteger_run hk)]
  rfl

/-- The sum of a variable and an integer is exact, and nothing changes. -/
theorem expr_sum_run (hv : call.Binds st name a) (ha : Number.readWhole? a.toList = some m)
    (hk : Number.readWhole? increment.toList = some k)
    (href : Expr.Token.Spelled (.operand (.variable name)) ref) :
    (Builtin.expr.run call [String.ofList (ref ++ ' ' :: '+' :: ' ' :: increment.toList)]).run st =
      .ok (.ok (.normal (toString (m + k)))) st := by
  obtain ⟨ts, t, hsigned⟩ := Expr.exists_signedDigits ha
  obtain ⟨ts', t', hsigned'⟩ := Expr.exists_signedDigits hk
  have hread := hsigned.readValue
  rw [String.ofList_toList] at hread
  have hvalue :
    (call.evaluate (String.ofList (ref ++ ' ' :: '+' :: ' ' :: increment.toList))).run st =
      .ok (.ok (Expr.Value.int (m + k)).text) st := by
    refine Call.evaluate_of_context fun ctx hctx => evaluate_tree (Expr.parse_sum href hsigned') ?_
    have hleft := eval_variable ((congrFun (hctx name) st).trans hv.variableValue) hsigned.allowed
    have hright : (t'.eval ctx).run st = .ok (.ok (.int k)) st := by
      rw [hsigned'.eval]
      rfl
    rw [eval_binary (by decide) (by decide) hleft hright, hread]
    rfl
  exact Act.bind_of_ok hvalue

/-- Increments, sums and extremes of integers. A sum in an expression is exact. An increment stores
and returns what the numbers nearest to both integers add up to, which is written with the digits of
the sum as far as all three are at most `2 ^ 53`. The largest and the smallest of some integers are
the first ones with the largest and the smallest nearest number, hence exact unless a later one with
the same number is beyond them. -/
theorem increments_and_extremes (hv : call.Binds st name a)
    (ha : Number.readWhole? a.toList = some m) (hk : Number.readWhole? increment.toList = some k)
    (href : Expr.Token.Spelled (.operand (.variable name)) ref) :
    (∃ sum st₁, (Builtin.incr.run call [name, increment]).run st = .ok (.ok (.normal sum)) st₁ ∧
      st₁ = st.withVariable call.scope name sum ∧ call.Binds st₁ name sum ∧
      sum = Number.text (Number.ofInt m + Number.ofInt k) ∧
      (m.natAbs ≤ 2 ^ 53 → k.natAbs ≤ 2 ^ 53 → (m + k).natAbs ≤ 2 ^ 53 → sum = toString (m + k))) ∧
    (Builtin.expr.run call [String.ofList (ref ++ ' ' :: '+' :: ' ' :: increment.toList)]).run st =
      .ok (.ok (.normal (toString (m + k)))) st ∧
    ∀ n ns, ∃ largest later smallest later',
      callValue "max" ((n :: ns).map .int) = .ok (.int largest) ∧
      Foremost (fun x y => y < x) (n :: ns) largest later ∧
      ((∀ x ∈ n :: ns, x ≤ largest) ↔
        ∀ x ∈ later, (Number.ofInt x == Number.ofInt largest) = true → x ≤ largest) ∧
      callValue "min" ((n :: ns).map .int) = .ok (.int smallest) ∧
      Foremost (fun x y => x < y) (n :: ns) smallest later' ∧
      ((∀ x ∈ n :: ns, smallest ≤ x) ↔
        ∀ x ∈ later', (Number.ofInt x == Number.ofInt smallest) = true → smallest ≤ x) ∧
      ((∀ x ∈ n :: ns, x.natAbs ≤ 2 ^ 53) → ∀ x ∈ n :: ns, smallest ≤ x ∧ x ≤ largest) := by
  refine ⟨⟨_, _, incr_run hv ha hk, rfl, ?_, rfl, fun hm hn hsum => ?_⟩, expr_sum_run hv ha hk href,
    fun n ns => ?_⟩
  · rw [Call.Binds, State.withVariable, State.scope_modifyScope _ _ hv.scope_lt]
    exact (Table.get?_set ..).trans (if_pos rfl)
  · exact Number.text_of_rounded (Number.rounded_add hm hn) hsum
  · obtain ⟨largest, later, hmax, hlargest⟩ := Expr.callValue_max n ns
    obtain ⟨smallest, later', hmin, hsmallest⟩ := Expr.callValue_min n ns
    have hbelow := Expr.ranks_max.flip
    refine ⟨largest, later, smallest, later', hmax, hlargest, hlargest.extreme_iff Expr.ranks_max,
      hmin, hsmallest,
      hsmallest.extreme_iff hbelow, fun hall x hx => ?_⟩
    exact ⟨hsmallest.extreme_of_le hbelow hall x hx,
      hlargest.extreme_of_le Expr.ranks_max hall x hx⟩

theorem spelled_x : Expr.Token.Spelled (.operand (.variable "x")) ['$', 'x'] := by
  have hplain : Expr.Operand.Spelled (.variable (String.ofList ['x'])) ('$' :: ['x']) :=
    .reference (by decide) (List.forall_mem_singleton.2 (by decide))
  exact .operand hplain (by decide +kernel)

/-- A negative increment with a leading zero. -/
theorem increments_and_extremes_small :
    (consoleCall "incr").Binds (twoVariables "+41" "") "x" "+41" ∧
      Number.readWhole? "+41".toList = some 41 ∧ Number.readWhole? "-05".toList = some (-5) ∧
      Expr.Token.Spelled (.operand (.variable "x")) ['$', 'x'] ∧
      ∃ st₁, (Builtin.incr.run (consoleCall "incr") ["x", "-05"]).run (twoVariables "+41" "") =
          .ok (.ok (.normal "36")) st₁ ∧ (consoleCall "incr").Binds st₁ "x" "36" ∧
        (Builtin.expr.run (consoleCall "incr") ["$x + -05"]).run (twoVariables "+41" "") =
          .ok (.ok (.normal "36")) (twoVariables "+41" "") := by
  have hv : (consoleCall "incr").Binds (twoVariables "+41" "") "x" "+41" := rfl
  have ha : Number.readWhole? "+41".toList = some 41 := by decide +kernel
  have hk : Number.readWhole? "-05".toList = some (-5) := by decide +kernel
  obtain ⟨⟨sum, st₁, hincr, -, hset, -, hexact⟩, hexpr, -⟩ :=
    increments_and_extremes hv ha hk spelled_x
  obtain rfl : sum = "36" := hexact (by decide) (by decide) (by decide)
  exact ⟨hv, ha, hk, spelled_x, st₁, hincr, hset, hexpr⟩

/-- Beyond `2 ^ 53` an increment of one is lost, and the larger of two neighbours is not found. -/
theorem increment_lost :
    (consoleCall "incr").Binds (twoVariables "9007199254740992" "") "x" "9007199254740992" ∧
      (∃ st₁, (Builtin.incr.run (consoleCall "incr") ["x", "1"]).run
        (twoVariables "9007199254740992" "") = .ok (.ok (.normal "9007199254740992")) st₁) ∧
      (Builtin.expr.run (consoleCall "incr") ["$x + 1"]).run (twoVariables "9007199254740992" "") =
        .ok (.ok (.normal "9007199254740993")) (twoVariables "9007199254740992" "") ∧
      callValue "max" [.int 9007199254740992, .int 9007199254740993] =
        .ok (.int 9007199254740992) := by
  have hv : (consoleCall "incr").Binds (twoVariables "9007199254740992" "") "x"
    "9007199254740992" := rfl
  have ha : Number.readWhole? "9007199254740992".toList = some 9007199254740992 := by decide +kernel
  have hk : Number.readWhole? "1".toList = some 1 := by decide +kernel
  have htext : Number.text (Number.ofInt 9007199254740992 + Number.ofInt 1) =
    "9007199254740992" := by
    decide +kernel
  have hincr := incr_run hv ha hk
  have hexpr := expr_sum_run hv ha hk spelled_x
  rw [htext] at hincr
  have hmax : Expr.pick (fun x y => y < x) (.int 9007199254740992) ([9007199254740993].map .int) =
      .int 9007199254740992 := (Expr.pick_cons _ _ _).trans (if_neg (by decide +kernel))
  exact ⟨hv, ⟨_, hincr⟩, hexpr, (Expr.callValue_ints rfl _ _).trans (congrArg Except.ok hmax)⟩

end RadarTimeline.Console
