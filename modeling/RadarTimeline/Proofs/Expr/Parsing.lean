import RadarTimeline.Proofs.Expr.Layout
import Mathlib.Order.Nat

namespace RadarTimeline.Expr

variable {β : Type} {source : String} {ts rest : List Token} {t : Tree} {s need level bound : Nat}

/-- With enough fuel a reading gives a result. -/
def Settles (p : Nat → Except Fault β) (bound : Nat) (r : β) : Prop :=
  ∀ fuel, bound ≤ fuel → p fuel = .ok r

theorem bind_reads {α : Type} {x : Except Fault α} {a : α} {f : α → Except Fault β} {r : β}
    (hx : x = .ok a) (hf : f a = .ok r) : x >>= f = .ok r := by
  rw [hx]
  exact hf

/-- What comes next does not go on with a tree that binds at least so much. -/
def Stops (need : Nat) : List Token → Prop
  | .operator op :: _ => op.strength < need
  | .question :: _ => 0 < need
  | _ => True

theorem Stops.mono {need' : Nat} (h : Stops need rest) (hle : need ≤ need') : Stops need' rest := by
  unfold Stops at *
  split
  · exact Nat.lt_of_lt_of_le h hle
  · exact Nat.lt_of_lt_of_le h hle
  · trivial

-- Between two tokens a reading passes a choice, eleven levels, a power and a unary term at most, so
-- that sixteen steps for each token are enough.

/-- Tokens are read as a tree on a level to the left, and the level then goes on with what
follows. -/
def LevelReads (source : String) (ts : List Token) (t : Tree) (level : Nat) : Prop :=
  ∀ rest, Stops (level + 2) rest → ∀ bound r,
    Settles (fun fuel => levelRest source fuel level t rest) bound r →
    Settles (fun fuel => levelTree source fuel level (ts ++ rest))
      (max (bound + ts.length) (16 * ts.length + 12 - level)) r

/-- Tokens that do not start with what ends arguments. -/
def Opens (ts : List Token) : Prop := ∃ first more, ts = first :: more ∧ first ≠ .closeParen

theorem Opens.ne_nil (h : Opens ts) : ts ≠ [] := by
  obtain ⟨first, more, rfl, -⟩ := h
  exact List.cons_ne_nil first more

theorem Opens.append (h : Opens ts) (more : List Token) : Opens (ts ++ more) := by
  obtain ⟨first, tail, rfl, hfirst⟩ := h
  exact ⟨first, tail ++ more, rfl, hfirst⟩

/-- Tokens that bind with a strength are read as a tree wherever no more than that is needed. -/
structure Reads (source : String) (s : Nat) (ts : List Token) (t : Tree) : Prop where
  opens : Opens ts
  unary : unaryStrength ≤ s → ∀ rest,
    Settles (fun fuel => unaryTree source fuel (ts ++ rest)) (16 * ts.length) (t, rest)
  power : BinaryOp.pow.strength ≤ s → ∀ rest, Stops BinaryOp.pow.strength rest →
    Settles (fun fuel => powerTree source fuel (ts ++ rest)) (16 * ts.length + 1) (t, rest)
  level : ∀ level < leftLevels, level + 1 ≤ s → LevelReads source ts t level
  choice : ∀ rest, Stops 0 rest →
    Settles (fun fuel => choiceTree source fuel (ts ++ rest)) (16 * ts.length + 13) (t, rest)

/-- A level that is not gone on with ends. -/
theorem levelRest_settles (t : Tree) (h : Stops (level + 1) rest) :
    Settles (fun fuel => levelRest source fuel level t rest) 1 (t, rest) := by
  intro fuel hfuel
  obtain ⟨fuel, rfl⟩ := Nat.exists_eq_add_of_le' hfuel
  cases rest with
  | nil => rfl
  | cons next more =>
    cases next with
    | operator op =>
      have hlt : op.strength < level + 1 := h
      rw [op.strength_eq] at hlt
      dsimp only
      rw [levelRest, if_neg (by omega)]
    | _ => rfl

theorem LevelReads.settles (h : LevelReads source ts t level) (hne : ts ≠ [])
    (hstop : Stops (level + 1) rest) (hlevel : level < leftLevels) :
    Settles (fun fuel => levelTree source fuel level (ts ++ rest)) (16 * ts.length + 12 - level)
      (t, rest) := by
  intro fuel hfuel
  have hpos := List.length_pos_iff.2 hne
  have hl : level < 10 := hlevel
  exact h rest (hstop.mono (by omega)) 1 _ (levelRest_settles t hstop) fuel (by omega)

theorem levelReads_of_settles (hne : ts ≠ []) (hlevel : level < leftLevels)
    (h : ∀ rest, Stops (level + 2) rest →
      Settles (fun fuel => levelTree source fuel (level + 1) (ts ++ rest))
        (16 * ts.length + 12 - (level + 1)) (t, rest)) :
    LevelReads source ts t level := by
  intro rest hstop bound r hr fuel hfuel
  have hpos := List.length_pos_iff.2 hne
  have hl : level < 10 := hlevel
  obtain ⟨fuel, rfl⟩ : ∃ k, fuel = k + 1 := ⟨fuel - 1, by omega⟩
  have hnext := h rest hstop fuel (by omega)
  dsimp only at hnext ⊢
  rw [levelTree, if_pos hlevel, hnext]
  exact hr fuel (by omega)

theorem LevelReads.of_le {level' : Nat} (h : LevelReads source ts t level) (hne : ts ≠ [])
    (hlevel : level < leftLevels) (hle : level' ≤ level) : LevelReads source ts t level' := by
  induction hle using Nat.decreasingInduction with
  | self => exact h
  | of_succ k hk ih =>
    exact levelReads_of_settles hne (hk.trans_le hlevel.le) fun rest hstop =>
      ih.settles hne hstop (by omega)

theorem choice_of_level (h : LevelReads source ts t 0) (hne : ts ≠ []) (rest : List Token)
    (hstop : Stops 0 rest) :
    Settles (fun fuel => choiceTree source fuel (ts ++ rest)) (16 * ts.length + 13) (t, rest) := by
  intro fuel hfuel
  obtain ⟨fuel, rfl⟩ : ∃ k, fuel = k + 1 := ⟨fuel - 1, by omega⟩
  have hlevel := h.settles hne (hstop.mono (Nat.zero_le 1)) (by decide) fuel (by omega)
  dsimp only at hlevel ⊢
  rw [choiceTree, hlevel]
  cases rest with
  | nil => rfl
  | cons next more =>
    cases next with
    | question => exact absurd hstop (Nat.lt_irrefl 0)
    | _ => rfl

namespace Reads

theorem of_level (hopens : Opens ts)
    (hlevel : level < leftLevels) (h : LevelReads source ts t level) :
    Reads source (level + 1) ts t := by
  have hl : level < 10 := hlevel
  have hne := hopens.ne_nil
  refine ⟨hopens, fun hu => ?_, fun hp => ?_, fun k _ hk => ?_, ?_⟩
  · exact absurd hu (by simp [unaryStrength, precedence]; omega)
  · exact absurd hp (by simp [BinaryOp.strength_eq, BinaryOp.level]; omega)
  · exact h.of_le hne hlevel (by omega)
  · exact choice_of_level (h.of_le hne hlevel (Nat.zero_le level)) hne

theorem of_power (hopens : Opens ts)
    (h : ∀ rest, Stops BinaryOp.pow.strength rest →
      Settles (fun fuel => powerTree source fuel (ts ++ rest)) (16 * ts.length + 1) (t, rest)) :
    Reads source BinaryOp.pow.strength ts t := by
  have hne := hopens.ne_nil
  -- the last level to the left reads a power
  have hlast : LevelReads source ts t 9 := by
    refine levelReads_of_settles hne (by decide) fun rest hstop fuel hfuel => ?_
    obtain ⟨fuel, rfl⟩ : ∃ k, fuel = k + 1 := ⟨fuel - 1, by omega⟩
    dsimp only
    rw [levelTree, if_neg (by decide)]
    exact h rest hstop fuel (by omega)
  have hlevel : ∀ k < leftLevels, LevelReads source ts t k := fun k hk =>
    hlast.of_le hne (by decide) (Nat.le_of_lt_succ hk)
  refine ⟨hopens, fun hu => absurd hu (by decide), fun _ => h, fun k hk _ => hlevel k hk, ?_⟩
  exact choice_of_level (hlevel 0 (by decide)) hne

theorem of_unary (hopens : Opens ts)
    (h : ∀ rest, Settles (fun fuel => unaryTree source fuel (ts ++ rest)) (16 * ts.length)
      (t, rest)) :
    Reads source s ts t := by
  have hpower : Reads source BinaryOp.pow.strength ts t := by
    refine of_power hopens fun rest hstop fuel hfuel => ?_
    obtain ⟨fuel, rfl⟩ : ∃ k, fuel = k + 1 := ⟨fuel - 1, by omega⟩
    have hbase := h rest fuel (by omega)
    dsimp only at hbase ⊢
    rw [powerTree, hbase]
    cases rest with
    | nil => rfl
    | cons next more =>
      cases next with
      | operator op =>
        cases op with
        | pow => exact absurd hstop (Nat.lt_irrefl _)
        | _ => rfl
      | _ => rfl
  exact ⟨hopens, fun _ => h, fun _ => hpower.power le_rfl,
    fun k hk _ => hpower.level k hk (Nat.succ_le_of_lt (hk.trans (by decide))), hpower.choice⟩

theorem mono {s' : Nat} (h : Reads source s ts t) (hle : s' ≤ s) : Reads source s' ts t :=
  ⟨h.opens, fun hu => h.unary (hu.trans hle), fun hp => h.power (hp.trans hle),
    fun k hk hs => h.level k hk (hs.trans hle), h.choice⟩

theorem next (h : Reads source (level + 2) ts t) (hlevel : level < leftLevels)
    (hstop : Stops (level + 2) rest) :
    Settles (fun fuel => levelTree source fuel (level + 1) (ts ++ rest))
      (16 * ts.length + 12 - (level + 1)) (t, rest) := by
  have hl : level < 10 := hlevel
  rcases Nat.lt_or_ge (level + 1) leftLevels with hnext | hlast
  · exact (h.level (level + 1) hnext le_rfl).settles h.opens.ne_nil hstop hnext
  -- the last level reads powers
  obtain rfl : level = 9 := by
    have : 10 ≤ level + 1 := hlast
    omega
  intro fuel hfuel
  obtain ⟨fuel, rfl⟩ : ∃ k, fuel = k + 1 := ⟨fuel - 1, by omega⟩
  have hpower := h.power le_rfl rest hstop fuel (by omega)
  dsimp only at hpower ⊢
  rw [levelTree, if_neg (by decide)]
  exact hpower

theorem parenthesized (h : Reads source s ts t) :
    Reads source primaryStrength (.openParen :: ts ++ [.closeParen]) t := by
  refine of_unary ⟨_, _, rfl, by decide⟩ fun rest fuel hfuel => ?_
  have hlength : (Token.openParen :: ts ++ [Token.closeParen]).length = ts.length + 2 := by simp
  obtain ⟨fuel, rfl⟩ : ∃ k, fuel = k + 1 := ⟨fuel - 1, by omega⟩
  have hinner := h.choice (.closeParen :: rest) trivial fuel (by omega)
  rw [List.append_assoc, List.singleton_append]
  exact bind_reads hinner rfl

theorem enclosed (h : Reads source s ts t) (hneed : need ≤ primaryStrength) :
    Reads source need (enclose need s ts) t := by
  unfold enclose
  split
  · exact h.parenthesized.mono hneed
  · next hs => exact h.mono (Nat.le_of_not_lt hs)

theorem operand (o : Operand) : Reads source primaryStrength [.operand o] (.operand o) := by
  refine of_unary ⟨_, _, rfl, by simp⟩ fun rest fuel hfuel => ?_
  obtain ⟨fuel, rfl⟩ : ∃ k, fuel = k + 1 := ⟨fuel - 1, by simp at hfuel; omega⟩
  rfl

theorem prefixed (op : UnaryOp) (h : Reads source unaryStrength ts t) :
    Reads source unaryStrength (op.token :: ts) (.unary op t) := by
  refine of_unary ⟨_, _, rfl, by cases op <;> simp [UnaryOp.token]⟩ fun rest fuel hfuel => ?_
  rw [List.length_cons] at hfuel
  obtain ⟨fuel, rfl⟩ : ∃ k, fuel = k + 1 := ⟨fuel - 1, by omega⟩
  have hoperand := h.unary le_rfl rest fuel (by omega)
  cases op <;> exact bind_reads hoperand rfl

variable {left right : List Token} {l r : Tree} {op : BinaryOp}

theorem raised (hbase : Reads source unaryStrength left l)
    (hexponent : Reads source BinaryOp.pow.strength right r) :
    Reads source BinaryOp.pow.strength (left ++ .operator .pow :: right) (.binary .pow l r) := by
  refine of_power (hbase.opens.append _) fun rest hstop fuel hfuel => ?_
  rw [List.length_append, List.length_cons] at hfuel
  obtain ⟨fuel, rfl⟩ : ∃ k, fuel = k + 1 := ⟨fuel - 1, by omega⟩
  have hl := hbase.unary le_rfl (.operator .pow :: (right ++ rest)) fuel (by omega)
  have hr := hexponent.power le_rfl rest hstop fuel (by omega)
  rw [List.append_assoc, List.cons_append]
  exact bind_reads hl (bind_reads hr rfl)

/-- A level goes on with each operator of its own, and so groups them to the left. -/
theorem joined (hlevel : op.level < leftLevels) (hl : Reads source op.strength left l)
    (hr : Reads source (op.strength + 1) right r) :
    Reads source op.strength (left ++ .operator op :: right) (.binary op l r) := by
  rw [op.strength_eq] at *
  have hlt : op.level < 10 := hlevel
  refine of_level (hl.opens.append _) hlevel fun rest hstop bound result hresult => ?_
  -- after the left side the level takes the operator and the right side, and goes on
  have hrest : Settles
      (fun fuel => levelRest source fuel op.level l (.operator op :: (right ++ rest)))
      (max bound (16 * right.length + 12 - (op.level + 1)) + 1) result := by
    intro fuel hfuel
    obtain ⟨fuel, rfl⟩ : ∃ k, fuel = k + 1 := ⟨fuel - 1, by omega⟩
    have hright := hr.next hlevel hstop fuel (by omega)
    have hgoesOn := hresult fuel (by omega)
    dsimp only at hright hgoesOn ⊢
    rw [levelRest, if_pos rfl, hright]
    exact hgoesOn
  have hstops : Stops (op.level + 2) (.operator op :: (right ++ rest)) := by
    change op.strength < op.level + 2
    rw [op.strength_eq]
    exact Nat.lt_succ_self _
  intro fuel hfuel
  rw [List.length_append, List.length_cons] at hfuel
  have hlevelTree := hl.level op.level hlevel le_rfl _ hstops _ _ hrest fuel (by omega)
  dsimp only at hlevelTree ⊢
  rw [List.append_assoc, List.cons_append]
  exact hlevelTree

theorem chosen {condition yes no : List Token} {c y n : Tree} {sy sn : Nat}
    (hc : Reads source 1 condition c) (hy : Reads source sy yes y) (hn : Reads source sn no n) :
    Reads source 0 (condition ++ .question :: yes ++ .colon :: no) (.choice c y n) := by
  refine ⟨(hc.opens.append _).append _, fun h => absurd h (by decide), fun h =>
    absurd h (by decide),
    fun _ _ h => absurd h (Nat.not_succ_le_zero _), fun rest hstop fuel hfuel => ?_⟩
  simp only [List.length_append, List.length_cons] at hfuel
  obtain ⟨fuel, rfl⟩ : ∃ k, fuel = k + 1 := ⟨fuel - 1, by omega⟩
  have hstops : Stops 1 (.question :: (yes ++ .colon :: (no ++ rest))) := Nat.lt_succ_self 0
  have hcondition := (hc.level 0 (by decide) le_rfl).settles hc.opens.ne_nil hstops (by decide) fuel
    (by omega)
  have hyes := hy.choice (.colon :: (no ++ rest)) trivial fuel (by omega)
  have hno := hn.choice rest hstop fuel (by omega)
  rw [show condition ++ .question :: yes ++ .colon :: no ++ rest
    = condition ++ .question :: (yes ++ .colon :: (no ++ rest)) by simp]
  exact bind_reads hcondition (bind_reads hyes (bind_reads hno rfl))

end Reads

theorem moreArguments_settles {args : List Tree}
    (h : ∀ arg ∈ args, Reads source arg.strength arg.layout arg) (rest : List Token) :
    Settles (fun fuel => moreArguments source fuel (moreLayout args ++ .closeParen :: rest))
      (16 * (moreLayout args).length + 1) (args, rest) := by
  induction args with
  | nil =>
    intro fuel hfuel
    obtain ⟨fuel, rfl⟩ := Nat.exists_eq_add_of_le' hfuel
    rfl
  | cons arg args ih =>
    intro fuel hfuel
    simp only [moreLayout, List.length_append, List.length_cons] at hfuel
    obtain ⟨fuel, rfl⟩ : ∃ k, fuel = k + 1 := ⟨fuel - 1, by omega⟩
    have hstop : Stops 0 (moreLayout args ++ .closeParen :: rest) := by
      cases args <;> trivial
    have harg := (h arg List.mem_cons_self).choice _ hstop fuel (by omega)
    have hargs := ih (fun a ha => h a (List.mem_cons_of_mem arg ha)) fuel (by omega)
    rw [moreLayout, List.append_assoc, List.cons_append]
    exact bind_reads harg (bind_reads hargs rfl)

theorem argumentTrees_settles {args : List Tree}
    (h : ∀ arg ∈ args, Reads source arg.strength arg.layout arg) (rest : List Token) :
    Settles (fun fuel => argumentTrees source fuel (argumentsLayout args ++ .closeParen :: rest))
      (16 * (argumentsLayout args).length + 14) (args, rest) := by
  intro fuel hfuel
  obtain ⟨fuel, rfl⟩ : ∃ k, fuel = k + 1 := ⟨fuel - 1, by omega⟩
  cases args with
  | nil => rfl
  | cons arg args =>
    have hreads := h arg List.mem_cons_self
    simp only [argumentsLayout, List.length_append] at hfuel
    have hstop : Stops 0 (moreLayout args ++ .closeParen :: rest) := by
      cases args <;> trivial
    have harg := hreads.choice _ hstop fuel (by omega)
    have hargs := moreArguments_settles (fun a ha => h a (List.mem_cons_of_mem arg ha)) rest fuel
      (by omega)
    obtain ⟨first, more, hfirst, hne⟩ := hreads.opens
    dsimp only at harg hargs ⊢
    rw [argumentsLayout, List.append_assoc]
    rw [hfirst, List.cons_append] at harg ⊢
    rw [argumentTrees]
    · exact bind_reads harg (bind_reads hargs rfl)
    · exact fun _ heq => hne (List.cons.inj heq).1

theorem Reads.called (name : String) {args : List Tree}
    (h : ∀ arg ∈ args, Reads source arg.strength arg.layout arg) :
    Reads source primaryStrength (Tree.call name args).layout (.call name args) := by
  rw [Tree.layout]
  refine of_unary ⟨_, _, rfl, by simp⟩ fun rest fuel hfuel => ?_
  simp only [List.length_append, List.length_cons] at hfuel
  obtain ⟨fuel, rfl⟩ : ∃ k, fuel = k + 1 := ⟨fuel - 1, by omega⟩
  have hargs := argumentTrees_settles h rest fuel (by omega)
  rw [List.append_assoc, List.singleton_append]
  exact bind_reads rfl (bind_reads hargs rfl)

mutual

theorem reads_layout (source : String) :
    (t : Tree) → Reads source t.strength t.layout t
  | .operand o => Reads.operand o
  | .unary op operand => (reads_layout source operand).enclosed (by decide) |>.prefixed op
  | .binary op left right => by
    have hl := reads_layout source left
    have hr := reads_layout source right
    rw [Tree.layout, Tree.strength]
    by_cases hpow : op = .pow
    · subst hpow
      exact .raised (hl.enclosed (by decide)) (hr.enclosed (by decide))
    · have hlevel : op.level < leftLevels := by
        cases op <;> first | decide | exact absurd rfl hpow
      rw [BinaryOp.leftNeed, BinaryOp.rightNeed, if_neg hpow, if_neg hpow]
      exact .joined hlevel (hl.enclosed (by cases op <;> decide))
        (hr.enclosed (by cases op <;> decide))
  | .choice condition yes no =>
    .chosen ((reads_layout source condition).enclosed (by decide)) (reads_layout source yes)
      (reads_layout source no)
  | .call name args => .called name (reads_layouts source args)

theorem reads_layouts (source : String) :
    (args : List Tree) → ∀ arg ∈ args, Reads source arg.strength arg.layout arg
  | [] => List.forall_mem_nil _
  | arg :: args => List.forall_mem_cons.2 ⟨reads_layout source arg, reads_layouts source args⟩

end

theorem treeOf_layout (source : String) (t : Tree) : treeOf source t.layout = .ok t := by
  have hreads := reads_layout source t
  have hchoice := hreads.choice [] trivial (16 * (t.layout.length + 1)) (by omega)
  dsimp only at hchoice
  rw [List.append_nil] at hchoice
  rw [treeOf, if_neg (by simpa using hreads.opens.ne_nil), hchoice]
  rfl

end RadarTimeline.Expr
