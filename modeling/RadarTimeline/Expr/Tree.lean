import RadarTimeline.Expr.Token

namespace RadarTimeline.Expr

inductive Tree where
  | operand (o : Operand)
  | unary (op : UnaryOp) (operand : Tree)
  | binary (op : BinaryOp) (left right : Tree)
  | choice (condition yes no : Tree)
  | call (name : String) (args : List Tree)
deriving Repr

def BinaryOp.level : BinaryOp → Nat
  | .or => 0
  | .and => 1
  | .bitOr => 2
  | .bitXor => 3
  | .bitAnd => 4
  | .equal | .notEqual | .sameText | .otherText => 5
  | .less | .greater | .lessEqual | .greaterEqual => 6
  | .shiftLeft | .shiftRight => 7
  | .add | .sub => 8
  | .mul | .div | .mod => 9
  | .pow => 10

def leftLevels : Nat := 10

def Token.unary? : Token → Option UnaryOp
  | .operator .sub => some .neg
  | .operator .add => some .plus
  | .not => some .not
  | .complement => some .complement
  | _ => none

/-- A tree and the tokens after it. `source` is named in faults. -/
abbrev Reading := Except Fault (Tree × List Token)

def expect (source : String) (token : Token) (name : String) :
    List Token → Except Fault (List Token)
  | t :: ts => if t = token then .ok ts else .error (.expected name source)
  | [] => .error (.expected name source)

mutual

def choiceTree (source : String) : (fuel : Nat) → List Token → Reading
  | 0, _ => .error (.malformed source)
  | fuel + 1, ts => do
    let (condition, rest) ← levelTree source fuel 0 ts
    match rest with
    | .question :: rest =>
      let (yes, rest) ← choiceTree source fuel rest
      match rest with
      | .colon :: rest =>
        let (no, rest) ← choiceTree source fuel rest
        .ok (.choice condition yes no, rest)
      | _ => .error (.missingColon source)
    | _ => .ok (condition, rest)

def levelTree (source : String) : (fuel : Nat) → (level : Nat) → List Token → Reading
  | 0, _, _ => .error (.malformed source)
  | fuel + 1, level, ts => do
    if level < leftLevels then
      let (left, rest) ← levelTree source fuel (level + 1) ts
      levelRest source fuel level left rest
    else powerTree source fuel ts

def levelRest (source : String) :
    (fuel : Nat) → (level : Nat) → (left : Tree) → List Token → Reading
  | 0, _, _, _ => .error (.malformed source)
  | fuel + 1, level, left, ts => do
    match ts with
    | .operator op :: rest =>
      if op.level = level then
        let (right, rest) ← levelTree source fuel (level + 1) rest
        levelRest source fuel level (.binary op left right) rest
      else .ok (left, ts)
    | _ => .ok (left, ts)

def powerTree (source : String) : (fuel : Nat) → List Token → Reading
  | 0, _ => .error (.malformed source)
  | fuel + 1, ts => do
    let (base, rest) ← unaryTree source fuel ts
    match rest with
    | .operator .pow :: rest =>
      let (exponent, rest) ← powerTree source fuel rest
      .ok (.binary .pow base exponent, rest)
    | _ => .ok (base, rest)

def unaryTree (source : String) : (fuel : Nat) → List Token → Reading
  | 0, _ => .error (.malformed source)
  | fuel + 1, ts => do
    match ts with
    | [] => .error (.missingOperand source)
    | t :: rest =>
      match t.unary? with
      | some op =>
        let (operand, rest) ← unaryTree source fuel rest
        .ok (.unary op operand, rest)
      | none =>
        match t with
        | .operand o => .ok (.operand o, rest)
        | .openParen =>
          let (inner, rest) ← choiceTree source fuel rest
          let rest ← expect source .closeParen ")" rest
          .ok (inner, rest)
        | .function name =>
          let rest ← expect source .openParen "(" rest
          let (args, rest) ← argumentTrees source fuel rest
          .ok (.call name args, rest)
        | _ => .error (.malformed source)

def argumentTrees (source : String) :
    (fuel : Nat) → List Token → Except Fault (List Tree × List Token)
  | 0, _ => .error (.malformed source)
  | fuel + 1, ts => do
    match ts with
    | .closeParen :: rest => .ok ([], rest)
    | _ =>
      let (arg, rest) ← choiceTree source fuel ts
      let (args, rest) ← moreArguments source fuel rest
      .ok (arg :: args, rest)

def moreArguments (source : String) :
    (fuel : Nat) → List Token → Except Fault (List Tree × List Token)
  | 0, _ => .error (.malformed source)
  | fuel + 1, ts => do
    match ts with
    | .comma :: rest =>
      let (arg, rest) ← choiceTree source fuel rest
      let (args, rest) ← moreArguments source fuel rest
      .ok (arg :: args, rest)
    | _ =>
      let rest ← expect source .closeParen ")" ts
      .ok ([], rest)

end

/-- The tree of a whole list of tokens. No more than sixteen steps go by between two tokens. -/
def treeOf (source : String) (ts : List Token) : Except Fault Tree := do
  if ts.isEmpty then .error .empty
  else
    let (tree, rest) ← choiceTree source (16 * (ts.length + 1)) ts
    if rest.isEmpty then .ok tree else .error (.malformed source)

end RadarTimeline.Expr
