import RadarTimeline.Number.Layout
import RadarTimeline.Number.Reading
import RadarTimeline.Text.Case

namespace RadarTimeline.Expr

inductive Value where
  | int (n : Int)
  | double (x : Float)
  | string (s : String)

/-- Why an expression has no value. -/
inductive Fault where
  | forbidden (word : String)
  | invalidCharacter (c : Char) (source : String)
  | missingClose (delimiter : String)
  | bareword (name source : String)
  | empty
  | malformed (source : String)
  | expected (token source : String)
  | missingColon (source : String)
  | missingOperand (source : String)
  | notBoolean (text : String)
  | notNumeric (text operator : String)
  | notInteger (operator : String)
  | divideByZero
  | negativeShift
  | tooLarge (function : String)
  | unknownFunction (name : String)
  | tooFewArguments (function : String)
  | tooManyArguments (function : String)
deriving Repr, DecidableEq

def Value.bool (b : Bool) : Value := .int (if b then 1 else 0)

/-- What a text stands for. Blanks around a number do not count; a text keeps its blanks. -/
def readValue (text : String) : Value :=
  let body := Text.trim text.toList
  match Number.readInteger? body with
  | some n => .int n
  | none =>
    match Number.readDecimal? body with
    | some x => .double x
    | none => .string text

/-- A double without fraction or exponent gets the fraction `.0`. -/
def doubleText (x : Float) : String :=
  if x.isNaN then "NaN"
  else if x.isInf then (if 0 < x then "Inf" else "-Inf")
  else
    let text := Number.text x
    if (Number.scanSign text.toList).2.all Number.isDigit then text ++ ".0" else text

def Value.text : Value → String
  | .int n => toString n
  | .double x => doubleText x
  | .string s => s

def trueWords : List String := ["true", "yes", "on"]

def falseWords : List String := ["false", "no", "off"]

/-- The truth of a value: numbers that are not zero, and a few words in any letter case. -/
def Value.truth : Value → Except Fault Bool
  | .int n => .ok (n != 0)
  | .double x => .ok (!(x == 0))
  | .string s =>
    let word := Text.lowerString (Text.trimString s)
    if trueWords.contains word then .ok true
    else if falseWords.contains word then .ok false
    else .error (.notBoolean s)

def textTruth (text : String) : Except Fault Bool := (readValue text).truth

end RadarTimeline.Expr
