import RadarTimeline.Expr.Eval
import RadarTimeline.Proofs.Expr.IntegerValues
import RadarTimeline.Proofs.Expr.Lexing

namespace RadarTimeline.Expr

variable {cs ds ref : List Char} {c : Char} {n : ℕ} {k : ℤ} {source name : String} {token : Token}
  {ts : List Token}

/-- Digits with a sign in front of them, or with none, and the tokens and the tree that they are
read as. -/
inductive SignedDigits : List Char → ℤ → List Token → Tree → Prop
  | plain {ds : List Char} (hdigits : Digits ds) (hne : ds ≠ []) :
    SignedDigits ds (literalValue ds) [.operand (.number (String.ofList ds))]
      (.operand (.number (String.ofList ds)))
  | plus {ds : List Char} (hdigits : Digits ds) (hne : ds ≠ []) :
    SignedDigits ('+' :: ds) (literalValue ds)
      [.operator .add, .operand (.number (String.ofList ds))]
      (.unary .plus (.operand (.number (String.ofList ds))))
  | minus {ds : List Char} (hdigits : Digits ds) (hne : ds ≠ []) :
    SignedDigits ('-' :: ds) (-literalValue ds)
      [.operator .sub, .operand (.number (String.ofList ds))]
      (.unary .neg (.operand (.number (String.ofList ds))))

theorem digits_of_readDigits? (h : Number.readDigits? 10 ds = some n) :
    Digits ds ∧ ds ≠ [] ∧ n = literalValue ds := by
  have hread := h
  unfold Number.readDigits? at h
  split at h
  · contradiction
  · next hcond =>
    simp only [Bool.or_eq_true, List.isEmpty_iff, Bool.not_eq_true', not_or,
      Bool.not_eq_false] at hcond
    have hdigits : Digits ds := fun c hc => List.all_eq_true.1 hcond.2 c hc
    rw [readDigits?_eq (fun c hc => digitValue?_decimal (hdigits c hc)) hcond.1] at hread
    rw [literalValue_digits hdigits]
    exact ⟨hdigits, hcond.1, (Option.some.inj hread).symm⟩

theorem exists_signedDigits (h : Number.readWhole? cs = some k) :
    ∃ ts t, SignedDigits cs k ts t := by
  rw [Number.readWhole?] at h
  generalize hscan : Number.scanSign cs = scanned at h
  obtain ⟨negative, ds⟩ := scanned
  dsimp only at h
  cases hread : Number.readDigits? 10 ds with
  | none =>
    rw [hread] at h
    contradiction
  | some n =>
    rw [hread] at h
    obtain ⟨hdigits, hne, rfl⟩ := digits_of_readDigits? hread
    obtain rfl := Option.some.inj h
    unfold Number.scanSign at hscan
    split at hscan <;> cases hscan
    · exact ⟨_, _, .minus hdigits hne⟩
    · exact ⟨_, _, .plus hdigits hne⟩
    · exact ⟨_, _, .plain hdigits hne⟩

section Text

variable {t : Tree}

theorem SignedDigits.forall_mem {P : Char → Prop} (h : SignedDigits cs k ts t) (hplus : P '+')
    (hminus : P '-') (hdigit : ∀ c, Number.isDigit c = true → P c) : ∀ c ∈ cs, P c := by
  cases h with
  | plain hdigits => exact fun c hc => hdigit c (hdigits c hc)
  | plus hdigits => exact List.forall_mem_cons.2 ⟨hplus, fun c hc => hdigit c (hdigits c hc)⟩
  | minus hdigits => exact List.forall_mem_cons.2 ⟨hminus, fun c hc => hdigit c (hdigits c hc)⟩

theorem forbidden_not_signed : ∀ word ∈ forbiddenWords,
    word.toList.all (fun c => Number.isDigit c || c = '+' || c = '-') = false := by
  decide +kernel

theorem SignedDigits.allowed (h : SignedDigits cs k ts t) : Allowed cs :=
  allowed_of_all forbidden_not_signed
    (h.forall_mem (by decide) (by decide) fun c hc => by simp [hc])

theorem SignedDigits.not_blank (h : SignedDigits cs k ts t) : ∀ c ∈ cs, Text.isBlank c = false :=
  h.forall_mem (by decide) (by decide) fun _ hc => not_blank_of_hexDigit (isHexDigit_of_digit hc)

theorem readDigits?_literal (hdigits : Digits ds) (hne : ds ≠ []) :
    Number.readDigits? 10 ds = some (literalValue ds) := by
  rw [literalValue_digits hdigits]
  exact readDigits?_eq (fun c hc => digitValue?_decimal (hdigits c hc)) hne

theorem SignedDigits.readInteger? (h : SignedDigits cs k ts t) :
    Number.readInteger? cs = some k := by
  cases h with
  | plain hdigits hne => exact readInteger?_literal (.decimal hdigits hne)
  | plus hdigits hne => exact readInteger?_digits rfl hdigits (readDigits?_literal hdigits hne)
  | minus hdigits hne => exact readInteger?_digits rfl hdigits (readDigits?_literal hdigits hne)

theorem SignedDigits.readValue (h : SignedDigits cs k ts t) :
    readValue (String.ofList cs) = .int k := by
  rw [Expr.readValue, String.toList_ofList, trim_eq_self h.not_blank, h.readInteger?]

theorem tokensFrom_digits (hdigits : Digits ds) (hne : ds ≠ []) {fuel : ℕ}
    (hfuel : ds.length ≤ fuel) :
    tokensFrom source fuel ds = .ok [.operand (.number (String.ofList ds))] := by
  have hliteral : IntegerLiteral (String.ofList ds).toList := by
    rw [String.toList_ofList]
    exact .decimal hdigits hne
  have hwrites : Writes [.operand (.number (String.ofList ds))] (ds ++ []) := by
    have hspelled := hliteral.spelled
    rw [String.toList_ofList] at hspelled
    exact .token hspelled gap_nil .nil
  rw [List.append_nil] at hwrites
  exact tokensFrom_writes hwrites trivial hfuel

theorem SignedDigits.tokensFrom (h : SignedDigits cs k ts t) {fuel : ℕ} (hfuel : cs.length ≤ fuel) :
    tokensFrom source fuel cs = .ok ts := by
  cases h with
  | plain hdigits hne => exact tokensFrom_digits hdigits hne hfuel
  | plus hdigits hne =>
    obtain ⟨fuel, rfl⟩ := Nat.exists_eq_add_of_le' (Nat.one_le_of_lt hfuel)
    exact tokensFrom_cons (by decide) rfl
      (tokensFrom_digits hdigits hne (Nat.le_of_succ_le_succ hfuel))
  | minus hdigits hne =>
    obtain ⟨fuel, rfl⟩ := Nat.exists_eq_add_of_le' (Nat.one_le_of_lt hfuel)
    exact tokensFrom_cons (by decide) rfl
      (tokensFrom_digits hdigits hne (Nat.le_of_succ_le_succ hfuel))

theorem SignedDigits.overIntegers (h : SignedDigits cs k ts t) :
    t.OverIntegers ∧ t.NoNegativeExponent ∧ t.integerValue = .ok k := by
  cases h <;>
    simp only [Tree.OverIntegers, Tree.NoNegativeExponent, Tree.integerValue,
      String.toList_ofList, true_and]
  · next hdigits hne => exact ⟨.decimal hdigits hne, trivial⟩
  · next hdigits hne => exact ⟨.decimal hdigits hne, rfl⟩
  · next hdigits hne => exact ⟨.decimal hdigits hne, rfl⟩

theorem SignedDigits.eval {m : Type → Type} [Monad m] [LawfulMonad m] (h : SignedDigits cs k ts t)
    (ctx : Context m) : t.eval ctx = pure (.int k) := by
  obtain ⟨hover, hexponent, hvalue⟩ := h.overIntegers
  rw [eval_integers ctx t hover hexponent, hvalue]
  rfl

theorem SignedDigits.treeOf (h : SignedDigits cs k ts t) (name : String) :
    treeOf source (.operand (.variable name) :: .operator .add :: ts) =
      .ok (.binary .add (.operand (.variable name)) t) := by
  cases h <;> rfl

theorem tokensFrom_sum (href : Token.Spelled token ref) (hoperand : ∀ name, token ≠ .function name)
    (h : SignedDigits cs k ts t) {fuel : ℕ}
    (hfuel : (ref ++ ' ' :: '+' :: ' ' :: cs).length ≤ fuel) :
    Expr.tokensFrom source fuel (ref ++ ' ' :: '+' :: ' ' :: cs) =
      .ok (token :: .operator .add :: ts) := by
  obtain ⟨c, text, rfl, hblank⟩ := href.cons
  simp only [List.length_append, List.length_cons] at hfuel
  obtain ⟨fuel, rfl⟩ := Nat.exists_eq_add_of_le' (by omega : 4 ≤ fuel)
  have hdigits : Expr.tokensFrom source fuel cs = .ok ts := h.tokensFrom (by omega)
  have hstep : nextToken source '+' (' ' :: cs) = .ok (.operator .add, ' ' :: cs) := rfl
  have hplus : Expr.tokensFrom source (fuel + 2) ('+' :: ' ' :: cs) = .ok (.operator .add :: ts) :=
    tokensFrom_cons (by decide) hstep hdigits
  have hnext : nextToken source c (text ++ ' ' :: '+' :: ' ' :: cs) =
    .ok (token, ' ' :: '+' :: ' ' :: cs) :=
    nextToken_spelled href (gap_space _) fun ⟨name, hname⟩ => absurd hname (hoperand name)
  exact tokensFrom_cons hblank hnext hplus

theorem parse_sum (href : Token.Spelled (.operand (.variable name)) ref)
    (h : SignedDigits cs k ts t) :
    parse (String.ofList (ref ++ ' ' :: '+' :: ' ' :: cs)) =
      .ok (.binary .add (.operand (.variable name)) t) := by
  have hplus : Allowed ['+'] := allowed_symbol .add
  have hallowed : Allowed (ref ++ ' ' :: '+' :: ' ' :: cs) := by
    refine allowed_append href.allowed (gap_space _) (allowed_space ?_)
    exact allowed_append hplus (gap_space _) (allowed_space h.allowed)
  rw [parse, checkAllowed_eq hallowed, tokens, String.toList_ofList, String.length_ofList,
    tokensFrom_sum href (fun name h => by cases h) h le_rfl]
  exact h.treeOf name

end Text

end RadarTimeline.Expr
