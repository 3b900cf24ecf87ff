import RadarTimeline.Expr.Arithmetic

namespace RadarTimeline.Expr

structure Context (m : Type → Type) where
  valueOf : String → m String
  runScript : String → m String
  fillIn : String → m String

variable {m : Type → Type} [Monad m]

def substituted (text : String) : Except Fault Value := do
  checkAllowed text
  .ok (readValue text)

def Operand.value (ctx : Context m) : Operand → ExceptT Fault m Value
  | .number text => pure (readValue text)
  | .braced text => pure (readValue text)
  | .word name => pure (.string name)
  | .variable name => do liftM (substituted (← ExceptT.lift (ctx.valueOf name)))
  | .command script => do liftM (substituted (← ExceptT.lift (ctx.runScript script)))
  | .quoted text => do liftM (substituted (← ExceptT.lift (ctx.fillIn text)))

mutual

/-- The value of a tree. The right side of `&&` and `||` and the branches of a choice are evaluated
only if they decide. -/
def Tree.eval (ctx : Context m) : Tree → ExceptT Fault m Value
  | .operand o => o.value ctx
  | .unary op operand => do liftM (unaryValue op (← operand.eval ctx))
  | .choice condition yes no => do
    if ← liftM (← condition.eval ctx).truth then yes.eval ctx else no.eval ctx
  | .call name args => do liftM (callValue name (← evalAll ctx args))
  | .binary op left right => do
    let l ← left.eval ctx
    match op with
    | .and =>
      if ← liftM l.truth then do
        let r ← right.eval ctx
        return .bool (← liftM r.truth)
      else return .bool false
    | .or =>
      if ← liftM l.truth then return .bool true
      else do
        let r ← right.eval ctx
        return .bool (← liftM r.truth)
    | _ => do liftM (binaryValue op l (← right.eval ctx))

def evalAll (ctx : Context m) : List Tree → ExceptT Fault m (List Value)
  | [] => return []
  | tree :: trees => do
    let value ← tree.eval ctx
    return value :: (← evalAll ctx trees)

end

/-- Reads an expression, which asks the context for nothing. -/
def parse (source : String) : Except Fault Tree := do
  checkAllowed source
  treeOf source (← tokens source)

def evaluate (ctx : Context m) (source : String) : ExceptT Fault m String := do
  let tree ← liftM (parse source)
  return (← tree.eval ctx).text

end RadarTimeline.Expr
