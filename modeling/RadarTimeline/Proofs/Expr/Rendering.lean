import RadarTimeline.Proofs.Expr.IntegerValues
import RadarTimeline.Proofs.Expr.Lexing
import RadarTimeline.Proofs.Expr.Parsing

namespace RadarTimeline.Expr

variable {cs : List Char} {t : Tree} {ts : List Token}

theorem Called.enclose {need strength : Nat} (h : Called ts) :
    Called (enclose need strength ts) := by
  unfold Expr.enclose
  split
  · exact h.append trivial
  · exact h

mutual

theorem called_layout : (t : Tree) → Called t.layout
  | .operand _ => trivial
  | .unary op t => by
    have ht : Called (enclose unaryStrength t.strength t.layout) := (called_layout t).enclose
    cases op <;> exact ht
  | .binary _ left right => (called_layout left).enclose.append (called_layout right).enclose
  | .choice condition yes no => by
    have hyes : Called (.question :: yes.layout) := called_layout yes
    have hno : Called (.colon :: no.layout) := called_layout no
    exact ((called_layout condition).enclose.append hyes).append hno
  | .call _ args => ⟨rfl, (called_arguments args).append trivial⟩

theorem called_arguments : (args : List Tree) → Called (argumentsLayout args)
  | [] => trivial
  | arg :: args => (called_layout arg).append (called_more args)

theorem called_more : (args : List Tree) → Called (moreLayout args)
  | [] => trivial
  | arg :: args => (called_layout arg).append (called_more args)

end

theorem parse_writes (h : Writes t.layout cs) : parse (String.ofList cs) = .ok t := by
  have hlength : (String.ofList cs).length = cs.length := String.length_ofList
  have htokens : tokens (String.ofList cs) = .ok t.layout := by
    rw [tokens, String.toList_ofList, hlength]
    exact tokensFrom_writes h (called_layout t) le_rfl
  rw [parse, checkAllowed_eq h.allowed, htokens]
  exact treeOf_layout _ t

theorem spelled_enclose {need strength : Nat} (h : ∀ token ∈ ts, ∃ text, token.Spelled text) :
    ∀ token ∈ enclose need strength ts, ∃ text, token.Spelled text := by
  unfold enclose
  split
  · refine List.forall_mem_cons.2 ⟨⟨_, .sign rfl⟩, List.forall_mem_append.2 ⟨h, ?_⟩⟩
    exact List.forall_mem_singleton.2 ⟨_, .sign rfl⟩
  · exact h

theorem Tree.OverIntegers.spelled : (t : Tree) → t.OverIntegers →
    ∀ token ∈ t.layout, ∃ text, token.Spelled text
  | .operand (.number text), h => List.forall_mem_singleton.2 ⟨_, IntegerLiteral.spelled h⟩
  | .unary op t, h => by
    have hop : ∃ text, op.token.Spelled text := by
      cases op <;> exact ⟨_, .sign rfl⟩
    exact List.forall_mem_cons.2 ⟨hop, spelled_enclose (spelled t h)⟩
  | .binary op left right, h =>
    List.forall_mem_append.2 ⟨spelled_enclose (spelled left h.1),
      List.forall_mem_cons.2 ⟨⟨_, .sign rfl⟩, spelled_enclose (spelled right h.2)⟩⟩
  | .choice condition yes no, h =>
    List.forall_mem_append.2 ⟨List.forall_mem_append.2 ⟨spelled_enclose (spelled condition h.1),
      List.forall_mem_cons.2 ⟨⟨_, .sign rfl⟩, spelled yes h.2.1⟩⟩,
      List.forall_mem_cons.2 ⟨⟨_, .sign rfl⟩, spelled no h.2.2⟩⟩

variable {m : Type → Type} [Monad m] [LawfulMonad m]

theorem evaluate_writes (h : Writes t.layout cs) (hover : t.OverIntegers)
    (hexp : t.NoNegativeExponent) (ctx : Context m) :
    evaluate ctx (String.ofList cs) = liftM (t.integerValue.map toString) := by
  rw [evaluate, parse_writes h]
  refine (lift_ok_bind _ _).trans ?_
  rw [eval_integers ctx t hover hexp]
  cases t.integerValue with
  | error fault => exact lift_error_bind fault _
  | ok n => exact lift_ok_bind _ _

/-- A text that writes the layout of a tree is read as the tree. If the tree is over integer
literals and has no negative exponent, there is such a text, and its value is the decimal text of
the integer that the tree stands for, or the fault for which it stands for none. -/
theorem layout_read_and_evaluated (t : Tree) :
    (∀ cs, Writes t.layout cs → parse (String.ofList cs) = .ok t) ∧
    (t.OverIntegers → t.NoNegativeExponent →
      (∃ cs, Writes t.layout cs) ∧
      ∀ cs, Writes t.layout cs → ∀ {m : Type → Type} [Monad m] [LawfulMonad m] (ctx : Context m),
        evaluate ctx (String.ofList cs) = liftM (t.integerValue.map toString)) := by
  refine ⟨fun cs h => parse_writes h, fun hover hexp => ⟨?_, fun cs h _ _ _ ctx => ?_⟩⟩
  · exact exists_writes_iff.2 (hover.spelled t)
  · exact evaluate_writes h hover hexp ctx

/-- `2 ** 3 ** 2 % 0x1F - - 7 / 2`, whose powers group to the right. -/
def powersAndQuotients : Tree :=
  .binary .sub
    (.binary .mod
      (.binary .pow (.operand (.number "2"))
        (.binary .pow (.operand (.number "3")) (.operand (.number "2"))))
      (.operand (.number "0x1F")))
    (.binary .div (.unary .neg (.operand (.number "7"))) (.operand (.number "2")))

theorem powersAndQuotients_evaluated :
    Writes powersAndQuotients.layout "2 ** 3 ** 2 % 0x1F - - 7 / 2".toList ∧
    powersAndQuotients.OverIntegers ∧ powersAndQuotients.NoNegativeExponent ∧
    parse "2 ** 3 ** 2 % 0x1F - - 7 / 2" = .ok powersAndQuotients ∧
    ∀ ctx : Context Id, evaluate ctx "2 ** 3 ** 2 % 0x1F - - 7 / 2" = pure "20" := by
  have hdecimal : ∀ c, Number.isDigit c = true → IntegerLiteral [c] := fun c hc =>
    .decimal (List.forall_mem_singleton.2 hc) (List.cons_ne_nil c [])
  have htwo : IntegerLiteral "2".toList := hdecimal '2' (by decide)
  have hthree : IntegerLiteral "3".toList := hdecimal '3' (by decide)
  have hseven : IntegerLiteral "7".toList := hdecimal '7' (by decide)
  have hdigits : HexDigits ['1', 'F'] :=
    List.forall_mem_cons.2 ⟨by decide, List.forall_mem_singleton.2 (by decide)⟩
  have hmark : IntegerLiteral "0x1F".toList :=
    .hexadecimal (.inl rfl) hdigits (List.cons_ne_nil '1' ['F'])
  have htexts : List.Forall₂ Token.Spelled powersAndQuotients.layout
      (["2", "**", "3", "**", "2", "%", "0x1F", "-", "-", "7", "/", "2"].map String.toList) :=
    .cons htwo.spelled <| .cons (.sign rfl) <| .cons hthree.spelled <| .cons (.sign rfl) <|
      .cons htwo.spelled <| .cons (.sign rfl) <| .cons hmark.spelled <| .cons (.sign rfl) <|
      .cons (.sign rfl) <| .cons hseven.spelled <| .cons (.sign rfl) <| .cons htwo.spelled .nil
  have hwrites : Writes powersAndQuotients.layout "2 ** 3 ** 2 % 0x1F - - 7 / 2".toList :=
    writes_intercalate htexts
  have hover : powersAndQuotients.OverIntegers :=
    ⟨⟨⟨htwo, hthree, htwo⟩, hmark⟩, hseven, htwo⟩
  have hexp : powersAndQuotients.NoNegativeExponent := by
    have hinner : (Tree.operand (.number "2")).integerValue = .ok 2 := by decide +kernel
    have houter : (Tree.binary .pow (.operand (.number "3")) (.operand (.number "2"))).integerValue
        = .ok 9 := by decide +kernel
    have hpow : ∀ {t : Tree} {n k : Int}, 0 ≤ n → t.integerValue = .ok n →
        t.integerValue = .ok k → 0 ≤ k := fun hn h h' => Except.ok.inj (h.symm.trans h') ▸ hn
    exact ⟨nofun, ⟨nofun, ⟨fun _ _ => hpow (by decide) houter, trivial,
      ⟨fun _ _ => hpow (by decide) hinner, trivial, trivial⟩⟩, trivial⟩, nofun, trivial, trivial⟩
  have hvalue : powersAndQuotients.integerValue = .ok 20 := by decide +kernel
  obtain ⟨hparse, hinteger⟩ := layout_read_and_evaluated powersAndQuotients
  refine ⟨hwrites, hover, hexp, ?_, fun ctx => ?_⟩
  · have hread := hparse _ hwrites
    rwa [String.ofList_toList] at hread
  · have heval := (hinteger hover hexp).2 _ hwrites ctx
    rw [String.ofList_toList, hvalue] at heval
    exact heval

end RadarTimeline.Expr
