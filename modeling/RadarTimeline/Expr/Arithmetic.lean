import RadarTimeline.Expr.Tree
import RadarTimeline.Number.Power
import RadarTimeline.Text.Units

namespace RadarTimeline.Expr

inductive Numeric where
  | int (n : Int)
  | double (x : Float)

def Numeric.toFloat : Numeric → Float
  | .int n => Number.ofInt n
  | .double x => x

def Numeric.value : Numeric → Value
  | .int n => .int n
  | .double x => .double x

/-- A value as a number, or the fault that names the operator. A text is read once more. -/
def Value.numeric (operator : String) : Value → Except Fault Numeric
  | .int n => .ok (.int n)
  | .double x => .ok (.double x)
  | .string s =>
    match readValue s with
    | .int n => .ok (.int n)
    | .double x => .ok (.double x)
    | .string _ => .error (.notNumeric s operator)

def Value.integer (operator : String) (v : Value) : Except Fault Int := do
  match ← v.numeric operator with
  | .int n => .ok n
  | .double _ => .error (.notInteger operator)

/-- Sums, products, quotients and powers of integers. Quotients round down, and the remainder has
the sign of the divisor; a negative power is a double. -/
def intArithmetic (op : BinaryOp) (a b : Int) : Except Fault Value :=
  match op with
  | .sub => .ok (.int (a - b))
  | .mul => .ok (.int (a * b))
  | .div => if b = 0 then .error .divideByZero else .ok (.int (Int.fdiv a b))
  | .mod => if b = 0 then .error .divideByZero else .ok (.int (Int.fmod a b))
  | .pow =>
    if 0 ≤ b then .ok (.int (Number.intPower a b.toNat))
    else .ok (.double (Number.power (Number.ofInt a) (Number.ofInt b)))
  | _ => .ok (.int (a + b))

/-- The same of doubles, which have no remainders. -/
def doubleArithmetic (op : BinaryOp) (x y : Float) : Except Fault Value :=
  match op with
  | .sub => .ok (.double (x - y))
  | .mul => .ok (.double (x * y))
  | .div => if y == 0 then .error .divideByZero else .ok (.double (x / y))
  | .mod => .error (.notInteger op.symbol)
  | .pow => .ok (.double (Number.power x y))
  | _ => .ok (.double (x + y))

def arithmetic (op : BinaryOp) (left right : Value) : Except Fault Value := do
  let a ← left.numeric op.symbol
  let b ← right.numeric op.symbol
  match a, b with
  | .int m, .int n => intArithmetic op m n
  | _, _ => doubleArithmetic op a.toFloat b.toFloat

def shift (op : BinaryOp) (left right : Value) : Except Fault Value := do
  let value ← left.integer op.symbol
  let count ← right.integer op.symbol
  if count < 0 then .error .negativeShift
  else if op = .shiftLeft then .ok (.int (Number.shiftLeft value count.toNat))
  else .ok (.int (value >>> count.toNat))

def bitwise (op : BinaryOp) (m n : Int) : Int :=
  match op, m, n with
  | .bitAnd, .ofNat a, .ofNat b => .ofNat (a &&& b)
  | .bitAnd, .ofNat a, .negSucc b => .ofNat (a ^^^ (a &&& b))
  | .bitAnd, .negSucc a, .ofNat b => .ofNat (b ^^^ (b &&& a))
  | .bitAnd, .negSucc a, .negSucc b => .negSucc (a ||| b)
  | .bitOr, .ofNat a, .ofNat b => .ofNat (a ||| b)
  | .bitOr, .ofNat a, .negSucc b => .negSucc (b ^^^ (b &&& a))
  | .bitOr, .negSucc a, .ofNat b => .negSucc (a ^^^ (a &&& b))
  | .bitOr, .negSucc a, .negSucc b => .negSucc (a &&& b)
  | _, .ofNat a, .ofNat b => .ofNat (a ^^^ b)
  | _, .ofNat a, .negSucc b => .negSucc (a ^^^ b)
  | _, .negSucc a, .ofNat b => .negSucc (a ^^^ b)
  | _, .negSucc a, .negSucc b => .ofNat (a ^^^ b)

/-- Two values compare as integers, as doubles by the sign of their difference, or as texts by their
units. The difference of equal infinities is no number, and no order. -/
def compareValues (left right : Value) : Option Ordering :=
  let reread : Value → Value
    | .string s => readValue s
    | v => v
  let ofDifference (d : Float) : Option Ordering :=
    if d < 0 then some .lt else if 0 < d then some .gt else if d == 0 then some .eq else none
  match reread left, reread right with
  | .int m, .int n => some (compare m n)
  | .int m, .double y => ofDifference (Number.ofInt m - y)
  | .double x, .int n => ofDifference (x - Number.ofInt n)
  | .double x, .double y => ofDifference (x - y)
  | _, _ => some (Text.unitCompare left.text right.text)

def relation (op : BinaryOp) (left right : Value) : Value :=
  let order := compareValues left right
  .bool <| match op with
  | .equal => order = some .eq
  | .notEqual => order != some .eq
  | .less => order = some .lt
  | .greater => order = some .gt
  | .lessEqual => order = some .lt || order = some .eq
  | _ => order = some .gt || order = some .eq

def binaryValue (op : BinaryOp) (left right : Value) : Except Fault Value :=
  match op with
  | .sameText => .ok (.bool (left.text = right.text))
  | .otherText => .ok (.bool (left.text != right.text))
  | .equal | .notEqual | .less | .greater | .lessEqual | .greaterEqual =>
    .ok (relation op left right)
  | .bitAnd | .bitOr | .bitXor => do
    let m ← left.integer op.symbol
    let n ← right.integer op.symbol
    .ok (.int (bitwise op m n))
  | .shiftLeft | .shiftRight => shift op left right
  | .or | .and | .add | .sub | .mul | .div | .mod | .pow => arithmetic op left right

def unaryValue (op : UnaryOp) (operand : Value) : Except Fault Value :=
  match op with
  | .not => operand.truth.map fun b => .bool !b
  | .complement => (operand.integer op.symbol).map fun n => .int (-n - 1)
  | .neg => (operand.numeric op.symbol).map fun
    | .int n => .int (-n)
    | .double x => .double (-x)
  | .plus => (operand.numeric op.symbol).map Numeric.value

/-- An integer made of a double, which has to be finite. -/
def wholeResult (function : String) (x : Float) (n : Int) : Except Fault Value :=
  if x.isFinite then .ok (.int n) else .error (.tooLarge function)

/-- The nearest integer to a finite double; a half goes away from zero. -/
def roundAway (x : Float) : Int := if x < 0 then -Number.round x.abs else Number.round x.abs

/-- The first of some numbers that no later one beats. -/
def pick (beats : Float → Float → Bool) (first : Numeric) (others : List Numeric) : Value :=
  (others.foldl (fun best x => if beats x.toFloat best.toFloat then x else best) first).value

inductive Function where
  | unary (f : Numeric → Except Fault Value)
  | binary (f : Numeric → Numeric → Value)
  | variadic (f : Numeric → List Numeric → Value)

def Function.ofFloat (f : Float → Float) : Function := .unary fun x => .ok (.double (f x.toFloat))

def Function.ofFloats (f : Float → Float → Float) : Function :=
  .binary fun x y => .double (f x.toFloat y.toFloat)

def function? (name : String) : Option Function :=
  match name with
  | "abs" => some <| .unary fun
    | .int n => .ok (.int n.natAbs)
    | .double x => .ok (.double x.abs)
  | "sqrt" => some (.ofFloat Float.sqrt)
  | "sin" => some (.ofFloat Float.sin)
  | "cos" => some (.ofFloat Float.cos)
  | "tan" => some (.ofFloat Float.tan)
  | "exp" => some (.ofFloat Float.exp)
  | "log" => some (.ofFloat Float.log)
  | "log10" => some (.ofFloat Float.log10)
  | "floor" => some (.ofFloat Number.floorFloat)
  | "ceil" => some (.ofFloat Number.ceilFloat)
  | "double" => some (.ofFloat id)
  | "hypot" => some (.ofFloats Number.hypot)
  | "atan2" => some (.ofFloats Float.atan2)
  | "pow" => some (.ofFloats Number.power)
  | "round" => some <| .unary fun
    | .int n => .ok (.int n)
    | .double x => wholeResult name x (roundAway x)
  | "int" => some <| .unary fun
    | .int n => .ok (.int n)
    | .double x => wholeResult name x (Number.truncate x)
  | "min" => some (.variadic (pick fun x y => x < y))
  | "max" => some (.variadic (pick fun x y => y < x))
  | _ => none

/-- A call on evaluated arguments: the function is looked up, its arguments are counted, and only
then read as numbers. -/
def callValue (name : String) (args : List Value) : Except Fault Value :=
  match function? name, args with
  | none, _ => .error (.unknownFunction name)
  | some (.unary f), [x] => do f (← x.numeric name)
  | some (.binary f), [x, y] => do
    let a ← x.numeric name
    let b ← y.numeric name
    .ok (f a b)
  | some (.variadic f), x :: xs => do
    let first ← x.numeric name
    let others ← xs.mapM (Value.numeric name)
    .ok (f first others)
  | some _, [] | some (.binary _), [_] => .error (.tooFewArguments name)
  | some _, _ => .error (.tooManyArguments name)

end RadarTimeline.Expr
