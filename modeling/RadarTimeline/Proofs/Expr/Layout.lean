import RadarTimeline.Expr.Tree

namespace RadarTimeline.Expr

/-- The binary operators by precedence, highest first; those of one line bind alike. -/
def precedence : List (List BinaryOp) :=
  [[.pow],
   [.mul, .div, .mod],
   [.add, .sub],
   [.shiftLeft, .shiftRight],
   [.less, .greater, .lessEqual, .greaterEqual],
   [.equal, .notEqual, .sameText, .otherText],
   [.bitAnd],
   [.bitXor],
   [.bitOr],
   [.and],
   [.or]]

def BinaryOp.strength (op : BinaryOp) : Nat :=
  precedence.length - precedence.findIdx (·.contains op)

def unaryStrength : Nat := precedence.length + 1

/-- Operands and calls never need parentheses. -/
def primaryStrength : Nat := precedence.length + 2

def Tree.strength : Tree → Nat
  | .choice .. => 0
  | .binary op .. => op.strength
  | .unary .. => unaryStrength
  | .operand _ | .call .. => primaryStrength

/-- How tightly a left operand has to bind to go without parentheses. Powers group to the right, all
other operators to the left. -/
def BinaryOp.leftNeed (op : BinaryOp) : Nat := if op = .pow then op.strength + 1 else op.strength

def BinaryOp.rightNeed (op : BinaryOp) : Nat := if op = .pow then op.strength else op.strength + 1

def UnaryOp.token : UnaryOp → Token
  | .neg => .operator .sub
  | .plus => .operator .add
  | .not => .not
  | .complement => .complement

/-- Tokens that bind with a strength, in parentheses if they need a greater one. -/
def enclose (need strength : Nat) (ts : List Token) : List Token :=
  if strength < need then .openParen :: ts ++ [.closeParen] else ts

mutual

/-- The tokens of a tree. -/
def Tree.layout : Tree → List Token
  | .operand o => [.operand o]
  | .unary op operand => op.token :: enclose unaryStrength operand.strength operand.layout
  | .binary op left right =>
    enclose op.leftNeed left.strength left.layout ++
      .operator op :: enclose op.rightNeed right.strength right.layout
  | .choice condition yes no =>
    enclose 1 condition.strength condition.layout ++ .question :: yes.layout ++ .colon :: no.layout
  | .call name args => .function name :: .openParen :: argumentsLayout args ++ [.closeParen]

def argumentsLayout : List Tree → List Token
  | [] => []
  | arg :: args => arg.layout ++ moreLayout args

def moreLayout : List Tree → List Token
  | [] => []
  | arg :: args => .comma :: arg.layout ++ moreLayout args

end

example (a b c : Operand) :
    (Tree.binary .sub (.operand a) (.binary .sub (.operand b) (.operand c))).layout =
      [.operand a, .operator .sub, .openParen, .operand b, .operator .sub, .operand c,
        .closeParen] :=
  rfl

example (a b c : Operand) :
    (Tree.binary .pow (.operand a) (.binary .pow (.operand b) (.operand c))).layout =
      [.operand a, .operator .pow, .operand b, .operator .pow, .operand c] :=
  rfl

theorem BinaryOp.strength_eq (op : BinaryOp) : op.strength = op.level + 1 := by
  cases op <;> rfl

end RadarTimeline.Expr
