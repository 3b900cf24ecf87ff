import RadarTimeline.Expr.Eval
import Mathlib.Data.List.Basic

namespace RadarTimeline.Expr

variable {source : String} {fuel level : Nat} {ts rest : List Token} {t left : Tree}
    {args : List Tree}

def Token.operand? : Token → Option Operand
  | .operand o => some o
  | _ => none

def operandsOf (ts : List Token) : List Operand := ts.filterMap Token.operand?

mutual

/-- The operands of a tree from left to right. -/
def Tree.operands : Tree → List Operand
  | .operand o => [o]
  | .unary _ t => t.operands
  | .binary _ left right => left.operands ++ right.operands
  | .choice condition yes no => condition.operands ++ (yes.operands ++ no.operands)
  | .call _ args => allOperands args

def allOperands : List Tree → List Operand
  | [] => []
  | t :: ts => t.operands ++ allOperands ts

end

theorem operandsOf_cons {token : Token} (h : token.operand? = none) :
    operandsOf (token :: ts) = operandsOf ts :=
  List.filterMap_cons_none h

theorem exists_of_bind_ok {α β : Type} {x : Except Fault α} {f : α → Except Fault β} {b : β}
    (h : x >>= f = .ok b) : ∃ a, x = .ok a ∧ f a = .ok b := by
  cases x with
  | error fault => cases h
  | ok a => exact ⟨a, rfl, h⟩

theorem operandsOf_expect {token : Token} {name : String} (htoken : token.operand? = none)
    (h : expect source token name ts = .ok rest) : operandsOf ts = operandsOf rest := by
  rcases ts with _ | ⟨first, ts⟩
  · cases h
  · rw [expect] at h
    split at h
    · next heq =>
      cases h
      exact operandsOf_cons (heq ▸ htoken)
    · cases h

/-- With so much fuel every part of the grammar moves the operands it reads from the tokens to the
tree. -/
structure Keeps (source : String) (fuel : Nat) : Prop where
  choice : ∀ {ts t rest}, choiceTree source fuel ts = .ok (t, rest) →
    operandsOf ts = t.operands ++ operandsOf rest
  level : ∀ {level ts t rest}, levelTree source fuel level ts = .ok (t, rest) →
    operandsOf ts = t.operands ++ operandsOf rest
  levelRest : ∀ {level left ts t rest}, levelRest source fuel level left ts = .ok (t, rest) →
    left.operands ++ operandsOf ts = t.operands ++ operandsOf rest
  power : ∀ {ts t rest}, powerTree source fuel ts = .ok (t, rest) →
    operandsOf ts = t.operands ++ operandsOf rest
  unary : ∀ {ts t rest}, unaryTree source fuel ts = .ok (t, rest) →
    operandsOf ts = t.operands ++ operandsOf rest
  arguments : ∀ {ts args rest}, argumentTrees source fuel ts = .ok (args, rest) →
    operandsOf ts = allOperands args ++ operandsOf rest
  more : ∀ {ts args rest}, moreArguments source fuel ts = .ok (args, rest) →
    operandsOf ts = allOperands args ++ operandsOf rest

namespace Keeps

variable (h : Keeps source fuel)

include h

theorem choice_succ (hread : choiceTree source (fuel + 1) ts = .ok (t, rest)) :
    operandsOf ts = t.operands ++ operandsOf rest := by
  rw [choiceTree] at hread
  obtain ⟨⟨condition, ts₁⟩, hcondition, hread⟩ := exists_of_bind_ok hread
  rw [h.level hcondition]
  dsimp only at hread
  split at hread
  · obtain ⟨⟨yes, ts₂⟩, hyes, hread⟩ := exists_of_bind_ok hread
    rw [operandsOf_cons rfl, h.choice hyes]
    dsimp only at hread
    split at hread
    · obtain ⟨⟨no, ts₃⟩, hno, hread⟩ := exists_of_bind_ok hread
      rw [operandsOf_cons rfl, h.choice hno]
      cases hread
      simp only [Tree.operands, List.append_assoc]
    · cases hread
  · cases hread
    rfl

theorem level_succ (hread : levelTree source (fuel + 1) level ts = .ok (t, rest)) :
    operandsOf ts = t.operands ++ operandsOf rest := by
  rw [levelTree] at hread
  split at hread
  · obtain ⟨⟨left, ts₁⟩, hleft, hread⟩ := exists_of_bind_ok hread
    rw [h.level hleft]
    exact h.levelRest hread
  · exact h.power hread

theorem levelRest_succ (hread : Expr.levelRest source (fuel + 1) level left ts = .ok (t, rest)) :
    left.operands ++ operandsOf ts = t.operands ++ operandsOf rest := by
  rw [Expr.levelRest.eq_def] at hread
  dsimp only at hread
  split at hread
  · split at hread
    · obtain ⟨⟨right, ts₁⟩, hright, hread⟩ := exists_of_bind_ok hread
      rw [operandsOf_cons rfl, h.level hright, ← h.levelRest hread, Tree.operands,
        List.append_assoc]
    · cases hread
      rfl
  · cases hread
    rfl

theorem power_succ (hread : powerTree source (fuel + 1) ts = .ok (t, rest)) :
    operandsOf ts = t.operands ++ operandsOf rest := by
  rw [powerTree] at hread
  obtain ⟨⟨base, ts₁⟩, hbase, hread⟩ := exists_of_bind_ok hread
  rw [h.unary hbase]
  dsimp only at hread
  split at hread
  · obtain ⟨⟨exponent, ts₂⟩, hexponent, hread⟩ := exists_of_bind_ok hread
    rw [operandsOf_cons rfl, h.power hexponent]
    cases hread
    rw [Tree.operands, List.append_assoc]
  · cases hread
    rfl

theorem unary_succ (hread : unaryTree source (fuel + 1) ts = .ok (t, rest)) :
    operandsOf ts = t.operands ++ operandsOf rest := by
  rw [unaryTree.eq_def] at hread
  dsimp only at hread
  split at hread
  · cases hread
  · next token ts₁ =>
    split at hread
    · next op hop =>
      have htoken : token.operand? = none := by
        cases token <;> first | rfl | cases hop
      obtain ⟨⟨operand, ts₂⟩, hoperand, hread⟩ := exists_of_bind_ok hread
      cases hread
      rw [operandsOf_cons htoken, h.unary hoperand, Tree.operands]
    · split at hread
      · cases hread
        rfl
      · obtain ⟨⟨inner, ts₂⟩, hinner, hread⟩ := exists_of_bind_ok hread
        obtain ⟨ts₃, hclose, hread⟩ := exists_of_bind_ok hread
        cases hread
        rw [operandsOf_cons rfl, h.choice hinner, operandsOf_expect rfl hclose]
      · obtain ⟨ts₂, hopen, hread⟩ := exists_of_bind_ok hread
        obtain ⟨⟨args, ts₃⟩, hargs, hread⟩ := exists_of_bind_ok hread
        cases hread
        rw [operandsOf_cons rfl, operandsOf_expect rfl hopen, h.arguments hargs, Tree.operands]
      · cases hread

theorem arguments_succ (hread : argumentTrees source (fuel + 1) ts = .ok (args, rest)) :
    operandsOf ts = allOperands args ++ operandsOf rest := by
  rw [argumentTrees.eq_def] at hread
  dsimp only at hread
  split at hread
  · cases hread
    exact operandsOf_cons rfl
  · obtain ⟨⟨arg, ts₁⟩, harg, hread⟩ := exists_of_bind_ok hread
    obtain ⟨⟨args, ts₂⟩, hargs, hread⟩ := exists_of_bind_ok hread
    rw [h.choice harg, h.more hargs]
    cases hread
    rw [allOperands, List.append_assoc]

theorem more_succ (hread : moreArguments source (fuel + 1) ts = .ok (args, rest)) :
    operandsOf ts = allOperands args ++ operandsOf rest := by
  rw [moreArguments.eq_def] at hread
  dsimp only at hread
  split at hread
  · obtain ⟨⟨arg, ts₁⟩, harg, hread⟩ := exists_of_bind_ok hread
    obtain ⟨⟨args, ts₂⟩, hargs, hread⟩ := exists_of_bind_ok hread
    rw [operandsOf_cons rfl, h.choice harg, h.more hargs]
    cases hread
    rw [allOperands, List.append_assoc]
  · obtain ⟨ts₁, hclose, hread⟩ := exists_of_bind_ok hread
    rw [operandsOf_expect rfl hclose]
    cases hread
    rfl

end Keeps

theorem keeps (source : String) : ∀ fuel, Keeps source fuel
  | 0 => by constructor <;> exact nofun
  | fuel + 1 =>
    have h := keeps source fuel
    { choice := h.choice_succ
      level := h.level_succ
      levelRest := h.levelRest_succ
      power := h.power_succ
      unary := h.unary_succ
      arguments := h.arguments_succ
      more := h.more_succ }

theorem operands_treeOf (h : treeOf source ts = .ok t) : t.operands = operandsOf ts := by
  rw [treeOf] at h
  split at h
  · cases h
  · obtain ⟨⟨tree, rest⟩, hread, h⟩ := exists_of_bind_ok h
    dsimp only at h
    split at h
    · next hrest =>
      cases h
      rw [(keeps source _).choice hread, List.isEmpty_iff.1 hrest]
      exact (List.append_nil _).symm
    · cases h

end RadarTimeline.Expr
