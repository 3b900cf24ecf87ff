import RadarTimeline.Expr.Eval
import RadarTimeline.Proofs.Expr.IntegerLiterals
import Mathlib

namespace RadarTimeline.Expr

/-- Truth as an integer. -/
def truthValue (p : Prop) [Decidable p] : Int := if p then 1 else 0

def UnaryOp.onInteger : UnaryOp → Int → Int
  | .neg, n => -n
  | .plus, n => n
  | .not, n => truthValue (n = 0)
  | .complement, n => Int.lnot n

/-- What a binary operator makes of integers. Quotients are rounded towards minus infinity, and a
remainder is what they leave. -/
def BinaryOp.onIntegers (op : BinaryOp) (a b : Int) : Except Fault Int :=
  match op with
  | .pow => .ok (a ^ b.toNat)
  | .mul => .ok (a * b)
  | .div => if b = 0 then .error .divideByZero else .ok ⌊(a : ℚ) / b⌋
  | .mod => if b = 0 then .error .divideByZero else .ok (a - b * ⌊(a : ℚ) / b⌋)
  | .add => .ok (a + b)
  | .sub => .ok (a - b)
  | .shiftLeft => if b < 0 then .error .negativeShift else .ok (a * 2 ^ b.toNat)
  | .shiftRight => if b < 0 then .error .negativeShift else .ok ⌊(a : ℚ) / 2 ^ b.toNat⌋
  | .less => .ok (truthValue (a < b))
  | .greater => .ok (truthValue (a > b))
  | .lessEqual => .ok (truthValue (a ≤ b))
  | .greaterEqual => .ok (truthValue (a ≥ b))
  | .equal | .sameText => .ok (truthValue (a = b))
  | .notEqual | .otherText => .ok (truthValue (a ≠ b))
  | .bitAnd => .ok (Int.land a b)
  | .bitXor => .ok (Int.xor a b)
  | .bitOr => .ok (Int.lor a b)
  | .and => .ok (truthValue (a ≠ 0 ∧ b ≠ 0))
  | .or => .ok (truthValue (a ≠ 0 ∨ b ≠ 0))

/-- The value that a left side settles without the right one. -/
def BinaryOp.settled? (op : BinaryOp) (a : Int) : Option Int :=
  if op = .and ∧ a = 0 then some 0 else if op = .or ∧ a ≠ 0 then some 1 else none

def BinaryOp.combine (op : BinaryOp) (left right : Except Fault Int) : Except Fault Int := do
  let a ← left
  match op.settled? a with
  | some n => .ok n
  | none => op.onIntegers a (← right)

/-- Trees of operators over integer literals. -/
def Tree.OverIntegers : Tree → Prop
  | .operand (.number text) => IntegerLiteral text.toList
  | .operand _ | .call .. => False
  | .unary _ t => t.OverIntegers
  | .binary _ left right => left.OverIntegers ∧ right.OverIntegers
  | .choice condition yes no => condition.OverIntegers ∧ yes.OverIntegers ∧ no.OverIntegers

/-- The value of a tree over integer literals, or why it has none. -/
def Tree.integerValue : Tree → Except Fault Int
  | .operand (.number text) => .ok (literalValue text.toList)
  | .operand _ | .call .. => .ok 0
  | .unary op t => t.integerValue.map op.onInteger
  | .binary op left right => op.combine left.integerValue right.integerValue
  | .choice condition yes no => do
    if (← condition.integerValue) ≠ 0 then yes.integerValue else no.integerValue

/-- No power in a tree has a negative exponent. -/
def Tree.NoNegativeExponent : Tree → Prop
  | .operand _ | .call .. => True
  | .unary _ t => t.NoNegativeExponent
  | .binary op left right =>
    (op = .pow → ∀ n, right.integerValue = .ok n → 0 ≤ n) ∧
      left.NoNegativeExponent ∧ right.NoNegativeExponent
  | .choice condition yes no =>
    condition.NoNegativeExponent ∧ yes.NoNegativeExponent ∧ no.NoNegativeExponent

theorem truthValue_congr {p q : Prop} [Decidable p] [Decidable q] (h : p ↔ q) :
    truthValue p = truthValue q := if_congr h rfl rfl

theorem bool_decide (p : Prop) [Decidable p] : Value.bool (decide p) = .int (truthValue p) := by
  by_cases hp : p <;> simp [Value.bool, truthValue, hp]

theorem unaryValue_int (op : UnaryOp) (n : Int) :
    unaryValue op (.int n) = .ok (.int (op.onInteger n)) := by
  cases op with
  | neg => rfl
  | plus => rfl
  | not =>
    have htruth : (!(n != 0)) = decide (n = 0) := by by_cases hn : n = 0 <;> simp [hn]
    rw [UnaryOp.onInteger, ← bool_decide, ← htruth]
    rfl
  | complement =>
    have hlnot : Int.lnot n = -n - 1 := by
      cases n with
      | ofNat n => exact Int.negSucc_eq n |>.trans (by simp; ring)
      | negSucc n => simp [Int.lnot, Int.negSucc_eq]
    rw [UnaryOp.onInteger, hlnot]
    rfl

theorem fdiv_eq_floor (a b : Int) : Int.fdiv a b = ⌊(a : ℚ) / b⌋ := by
  have hpos : ∀ (a : Int) (n : Nat), Int.fdiv a n = ⌊(a : ℚ) / (n : Int)⌋ := by
    intro a n
    rw [Int.fdiv_eq_ediv_of_nonneg a (Int.natCast_nonneg n), Int.cast_natCast,
      Rat.floor_intCast_div_natCast]
  obtain ⟨n, rfl | rfl⟩ := Int.eq_nat_or_neg b
  · exact hpos a n
  · have hneg := hpos (-a) n
    rw [← Int.neg_fdiv_neg, Int.neg_neg, hneg, Int.cast_neg, Int.cast_neg, div_neg, neg_div]

theorem neg_one_pow (n : Nat) : (-1 : Int) ^ n = if n % 2 = 0 then 1 else -1 := by
  split
  · next h => exact (Nat.even_iff.2 h).neg_one_pow
  · next h => exact (Nat.odd_iff.2 (Nat.mod_two_ne_zero.1 h)).neg_one_pow

theorem intPower_eq (a : Int) (n : Nat) : Number.intPower a n = a ^ n := by
  unfold Number.intPower
  split
  · next hn => rw [hn, pow_zero]
  split
  · next hn ha =>
    have ha : a = 0 ∨ a = 1 := by simpa using ha
    rcases ha with rfl | rfl
    · rw [zero_pow hn]
    · rw [one_pow]
  split
  · next ha => rw [ha, neg_one_pow]
  · next hn ha _ =>
    have hcast : ∀ k : Nat, ((Nat.pow k n : Nat) : Int) = (k : Int) ^ n := fun k => Nat.cast_pow k n
    obtain ⟨k, rfl | rfl⟩ := Int.eq_nat_or_neg a
    · rw [if_neg (by simp), Int.natAbs_natCast, hcast]
    · rw [Int.natAbs_neg, Int.natAbs_natCast]
      dsimp only
      rw [hcast]
      rcases Nat.even_or_odd n with heven | hodd
      · rw [if_neg (by simp [Nat.even_iff.1 heven]), heven.neg_pow]
      · have hk : k ≠ 0 := by rintro rfl; exact ha rfl
        rw [if_pos (by simp [Nat.odd_iff.1 hodd]; omega), hodd.neg_pow]

theorem shiftLeft_eq (a : Int) (n : Nat) : Number.shiftLeft a n = a * 2 ^ n := by
  rw [Number.shiftLeft]
  split
  · next ha => rw [ha, zero_mul]
  · exact congrArg (a * ·) (Nat.cast_pow 2 n)

theorem shiftRight_eq (a : Int) (n : Nat) : a >>> n = ⌊(a : ℚ) / 2 ^ n⌋ := by
  have hfloor := Rat.floor_intCast_div_natCast a (2 ^ n)
  rw [Nat.cast_pow, Nat.cast_ofNat] at hfloor
  rw [Int.shiftRight_eq_div_pow, hfloor]

theorem xor_and (a b : Nat) : a ^^^ (a &&& b) = Nat.ldiff a b := by
  refine Nat.eq_of_testBit_eq fun i => ?_
  rw [Nat.testBit_xor, Nat.testBit_and, Nat.testBit_ldiff]
  cases a.testBit i <;> cases b.testBit i <;> rfl

theorem bitwise_bitAnd (a b : Int) : bitwise .bitAnd a b = Int.land a b := by
  cases a <;> cases b <;> simp only [bitwise, Int.land, xor_and, Int.ofNat_eq_natCast]

theorem bitwise_bitOr (a b : Int) : bitwise .bitOr a b = Int.lor a b := by
  cases a <;> cases b <;> simp only [bitwise, Int.lor, xor_and]
  rfl

theorem bitwise_bitXor (a b : Int) : bitwise .bitXor a b = Int.xor a b := by
  cases a <;> cases b <;> rfl

theorem relation_int (a b : Int) :
    relation .equal (.int a) (.int b) = .int (truthValue (a = b)) ∧
    relation .notEqual (.int a) (.int b) = .int (truthValue (a ≠ b)) ∧
    relation .less (.int a) (.int b) = .int (truthValue (a < b)) ∧
    relation .greater (.int a) (.int b) = .int (truthValue (a > b)) ∧
    relation .lessEqual (.int a) (.int b) = .int (truthValue (a ≤ b)) ∧
    relation .greaterEqual (.int a) (.int b) = .int (truthValue (a ≥ b)) := by
  have hcompare : compareValues (.int a) (.int b) = some (compare a b) := rfl
  simp only [relation, hcompare, ← bool_decide]
  have hlt : compare a b = .lt ↔ a < b := Int.compare_eq_lt
  have heq : compare a b = .eq ↔ a = b := compare_eq_iff_eq
  have hgt : compare a b = .gt ↔ b < a := Int.compare_eq_gt
  have hne : (some (compare a b) != some .eq) = !decide (a = b) := by
    rw [bne, Option.some_beq_some, beq_eq_decide]
    simp [heq]
  refine ⟨?_, ?_, ?_, ?_, ?_, ?_⟩ <;> congr 1
  · simp [heq]
  · rw [hne, decide_not]
  · simp [hlt]
  · simp [hgt]
  · simp [hlt, heq, le_iff_lt_or_eq]
  · simp [hgt, heq, le_iff_lt_or_eq, eq_comm (a := b)]

/-- An operator that needs both sides comes to its meaning on the integers. -/
theorem binaryValue_int (op : BinaryOp) (a b : Int) (hexp : op = .pow → 0 ≤ b)
    (hand : op ≠ .and) (hor : op ≠ .or) :
    binaryValue op (.int a) (.int b) = (op.onIntegers a b).map Value.int := by
  have htext : toString a = toString b ↔ a = b := Int.repr_inj
  obtain ⟨hequal, hnotEqual, hless, hgreater, hlessEqual, hgreaterEqual⟩ := relation_int a b
  cases op with
  | and => exact absurd rfl hand
  | or => exact absurd rfl hor
  | add => rfl
  | sub => rfl
  | mul => rfl
  | div =>
    change intArithmetic .div a b = _
    rw [intArithmetic, BinaryOp.onIntegers, fdiv_eq_floor]
    split <;> rfl
  | mod =>
    change intArithmetic .mod a b = _
    rw [intArithmetic, BinaryOp.onIntegers, Int.fmod_def, fdiv_eq_floor]
    split <;> rfl
  | pow =>
    change intArithmetic .pow a b = _
    rw [intArithmetic, if_pos (hexp rfl), intPower_eq]
    rfl
  | shiftLeft =>
    change (if b < 0 then _ else _) = _
    rw [BinaryOp.onIntegers]
    split
    · rfl
    · rw [if_pos rfl, shiftLeft_eq]
      rfl
  | shiftRight =>
    change (if b < 0 then _ else _) = _
    rw [BinaryOp.onIntegers]
    split
    · rfl
    · rw [if_neg (by decide), shiftRight_eq]
      rfl
  | bitAnd => exact congrArg (fun n => Except.ok (Value.int n)) (bitwise_bitAnd a b)
  | bitOr => exact congrArg (fun n => Except.ok (Value.int n)) (bitwise_bitOr a b)
  | bitXor => exact congrArg (fun n => Except.ok (Value.int n)) (bitwise_bitXor a b)
  | equal => exact congrArg Except.ok hequal
  | notEqual => exact congrArg Except.ok hnotEqual
  | less => exact congrArg Except.ok hless
  | greater => exact congrArg Except.ok hgreater
  | lessEqual => exact congrArg Except.ok hlessEqual
  | greaterEqual => exact congrArg Except.ok hgreaterEqual
  | sameText =>
    change Except.ok (Value.bool (decide (toString a = toString b))) = _
    rw [bool_decide, truthValue_congr htext]
    rfl
  | otherText =>
    change Except.ok (Value.bool !decide (toString a = toString b)) = _
    rw [← decide_not, bool_decide, truthValue_congr (not_congr htext)]
    rfl

theorem BinaryOp.combine_settled {op : BinaryOp} {a n : Int} (h : op.settled? a = some n)
    (right : Except Fault Int) : op.combine (.ok a) right = .ok n := by
  simp only [BinaryOp.combine, bind, Except.bind, h]

theorem BinaryOp.combine_open {op : BinaryOp} {a : Int} (h : op.settled? a = none)
    (right : Except Fault Int) : op.combine (.ok a) right = right >>= op.onIntegers a := by
  simp only [BinaryOp.combine, bind, Except.bind, h]

section Evaluation

variable {m : Type → Type} [Monad m] [LawfulMonad m] {α β : Type} {ctx : Context m}
  {left right : Tree} {x y : Except Fault Int}

theorem lift_ok_bind (a : α) (f : α → ExceptT Fault m β) :
    (liftM (Except.ok a : Except Fault α) : ExceptT Fault m α) >>= f = f a :=
  pure_bind a f

theorem lift_error_bind (fault : Fault) (f : α → ExceptT Fault m β) :
    (liftM (Except.error fault : Except Fault α) : ExceptT Fault m α) >>= f
      = liftM (Except.error fault : Except Fault β) :=
  pure_bind (Except.error fault : Except Fault α) (ExceptT.bindCont f)

theorem eval_truth (hr : right.eval ctx = liftM (y.map Value.int)) {f : Int → Except Fault Int}
    (hf : ∀ b, f b = .ok (truthValue (b ≠ 0))) :
    (do let r ← right.eval ctx
        return .bool (← liftM r.truth) : ExceptT Fault m Value)
      = liftM ((y >>= f).map Value.int) := by
  rw [hr]
  cases y with
  | error fault => exact lift_error_bind fault _
  | ok b =>
    refine (lift_ok_bind _ _).trans ((lift_ok_bind _ _).trans ?_)
    have hbool : Value.bool (b != 0) = .int (truthValue (b ≠ 0)) := by
      rw [← bool_decide, decide_not]
      rfl
    change _ = liftM ((f b).map Value.int)
    rw [hf, hbool]
    rfl

theorem eval_and (hl : left.eval ctx = liftM (x.map Value.int))
    (hr : right.eval ctx = liftM (y.map Value.int)) :
    (Tree.binary .and left right).eval ctx = liftM ((BinaryOp.and.combine x y).map Value.int) := by
  rw [Tree.eval, hl]
  cases x with
  | error fault => exact lift_error_bind fault _
  | ok a =>
    refine (lift_ok_bind _ _).trans ((lift_ok_bind _ _).trans ?_)
    by_cases ha : a = 0
    · subst ha
      rfl
    · have hsettled : BinaryOp.and.settled? a = none := by simp [BinaryOp.settled?, ha]
      rw [if_pos (by simpa using ha), BinaryOp.combine_open hsettled]
      exact eval_truth hr fun b => congrArg Except.ok (truthValue_congr (by simp [ha]))

theorem eval_or (hl : left.eval ctx = liftM (x.map Value.int))
    (hr : right.eval ctx = liftM (y.map Value.int)) :
    (Tree.binary .or left right).eval ctx = liftM ((BinaryOp.or.combine x y).map Value.int) := by
  rw [Tree.eval, hl]
  cases x with
  | error fault => exact lift_error_bind fault _
  | ok a =>
    refine (lift_ok_bind _ _).trans ((lift_ok_bind _ _).trans ?_)
    by_cases ha : a = 0
    · have hsettled : BinaryOp.or.settled? a = none := by simp [BinaryOp.settled?, ha]
      rw [if_neg (by simpa using ha), BinaryOp.combine_open hsettled]
      exact eval_truth hr fun b => congrArg Except.ok (truthValue_congr (by simp [ha]))
    · have hsettled : BinaryOp.or.settled? a = some 1 := by simp [BinaryOp.settled?, ha]
      rw [if_pos (by simpa using ha), BinaryOp.combine_settled hsettled]
      rfl

omit [LawfulMonad m] in
theorem eval_strict {op : BinaryOp} (hand : op ≠ .and) (hor : op ≠ .or) (left right : Tree)
    (ctx : Context m) : (Tree.binary op left right).eval ctx = (do
      let l ← left.eval ctx
      liftM (binaryValue op l (← right.eval ctx))) := by
  cases op with
  | and => exact absurd rfl hand
  | or => exact absurd rfl hor
  | _ => rw [Tree.eval]

theorem eval_needed {op : BinaryOp} (hand : op ≠ .and) (hor : op ≠ .or)
    (hl : left.eval ctx = liftM (x.map Value.int)) (hr : right.eval ctx = liftM (y.map Value.int))
    (hexp : op = .pow → ∀ n, y = .ok n → 0 ≤ n) :
    (Tree.binary op left right).eval ctx = liftM ((op.combine x y).map Value.int) := by
  rw [eval_strict hand hor, hl, hr]
  cases x with
  | error fault => exact lift_error_bind fault _
  | ok a =>
    have hsettled : op.settled? a = none := by simp [BinaryOp.settled?, hand, hor]
    refine (lift_ok_bind _ _).trans ?_
    rw [BinaryOp.combine_open hsettled]
    cases y with
    | error fault => exact lift_error_bind fault _
    | ok b =>
      refine (lift_ok_bind _ _).trans ?_
      rw [binaryValue_int op a b (fun hpow => hexp hpow b rfl) hand hor]
      rfl

/-- Evaluation of a tree over integer literals comes to its value. -/
theorem eval_integers (ctx : Context m) : (t : Tree) → t.OverIntegers → t.NoNegativeExponent →
    t.eval ctx = liftM (t.integerValue.map Value.int)
  | .operand (.number text), h, _ => by
    have hread := readValue_literal h
    rw [String.ofList_toList] at hread
    rw [Tree.eval, Operand.value, hread]
    rfl
  | .unary op t, h, hexp => by
    rw [Tree.eval, eval_integers ctx t h hexp, Tree.integerValue]
    cases t.integerValue with
    | error fault => exact lift_error_bind fault _
    | ok n =>
      refine (lift_ok_bind _ _).trans ?_
      rw [unaryValue_int]
      rfl
  | .binary op left right, h, hexp => by
    have hl := eval_integers ctx left h.1 hexp.2.1
    have hr := eval_integers ctx right h.2 hexp.2.2
    rw [Tree.integerValue]
    by_cases hand : op = .and
    · exact hand ▸ eval_and hl hr
    by_cases hor : op = .or
    · exact hor ▸ eval_or hl hr
    exact eval_needed hand hor hl hr hexp.1
  | .choice condition yes no, h, hexp => by
    have hyes := eval_integers ctx yes h.2.1 hexp.2.1
    have hno := eval_integers ctx no h.2.2 hexp.2.2
    rw [Tree.eval, eval_integers ctx condition h.1 hexp.1, Tree.integerValue]
    cases condition.integerValue with
    | error fault => exact lift_error_bind fault _
    | ok n =>
      refine (lift_ok_bind _ _).trans ((lift_ok_bind _ _).trans ?_)
      change _ = liftM ((if n ≠ 0 then yes.integerValue else no.integerValue).map Value.int)
      by_cases hn : n = 0
      · rw [if_neg (by simpa using hn), if_neg (by simpa using hn), hno]
      · rw [if_pos (by simpa using hn), if_pos hn, hyes]

end Evaluation

end RadarTimeline.Expr
