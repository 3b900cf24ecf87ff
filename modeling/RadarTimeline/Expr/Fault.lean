import RadarTimeline.Expr.Value
import RadarTimeline.Json

namespace RadarTimeline.Expr

def Fault.message : Fault → String
  | .forbidden word => "Tried to evaluate expression with forbidden word: " ++ Json.quote word
  | .invalidCharacter c source =>
    s!"invalid character \"{c}\" in expression \"{source}\""
  | .missingClose delimiter => s!"missing close-{delimiter} in expression"
  | .bareword name source => s!"invalid bareword \"{name}\" in expression \"{source}\""
  | .empty => "empty expression"
  | .malformed source => s!"syntax error in expression \"{source}\""
  | .expected token source => s!"expected \"{token}\" in expression \"{source}\""
  | .missingColon source => s!"missing \":\" in expression \"{source}\""
  | .missingOperand source => s!"missing operand in expression \"{source}\""
  | .notBoolean text => s!"expected boolean value but got \"{text}\""
  | .notNumeric text operator =>
    s!"can't use non-numeric string \"{text}\" as operand of \"{operator}\""
  | .notInteger operator => s!"can't use floating-point value as operand of \"{operator}\""
  | .divideByZero => "divide by zero"
  | .negativeShift => "negative shift argument"
  | .tooLarge function => s!"integer value too large to represent in \"{function}\""
  | .unknownFunction name => s!"unknown math function \"{name}\""
  | .tooFewArguments function => s!"too few arguments for math function \"{function}\""
  | .tooManyArguments function => s!"too many arguments for math function \"{function}\""

end RadarTimeline.Expr
