import RadarTimeline.Expr.Value
import RadarTimeline.Script.Bracket
import RadarTimeline.Text.Search

namespace RadarTimeline.Expr

inductive BinaryOp where
  | or | and | bitOr | bitXor | bitAnd
  | equal | notEqual | sameText | otherText
  | less | greater | lessEqual | greaterEqual
  | shiftLeft | shiftRight | add | sub | mul | div | mod | pow
deriving Repr, DecidableEq

def BinaryOp.all : List BinaryOp :=
  [.or, .and, .bitOr, .bitXor, .bitAnd, .equal, .notEqual, .sameText, .otherText, .less, .greater,
    .lessEqual, .greaterEqual, .shiftLeft, .shiftRight, .add, .sub, .mul, .div, .mod, .pow]

def BinaryOp.symbol : BinaryOp → String
  | .or => "||"
  | .and => "&&"
  | .bitOr => "|"
  | .bitXor => "^"
  | .bitAnd => "&"
  | .equal => "=="
  | .notEqual => "!="
  | .sameText => "eq"
  | .otherText => "ne"
  | .less => "<"
  | .greater => ">"
  | .lessEqual => "<="
  | .greaterEqual => ">="
  | .shiftLeft => "<<"
  | .shiftRight => ">>"
  | .add => "+"
  | .sub => "-"
  | .mul => "*"
  | .div => "/"
  | .mod => "%"
  | .pow => "**"

inductive UnaryOp where
  | neg | plus | not | complement
deriving Repr, DecidableEq

def UnaryOp.symbol : UnaryOp → String
  | .neg => "-"
  | .plus => "+"
  | .not => "!"
  | .complement => "~"

/-- An operand: a number, `$name`, `[script]`, a text in quotes or braces, or a truth word. -/
inductive Operand where
  | number (text : String)
  | variable (name : String)
  | command (script : String)
  | quoted (text : String)
  | braced (text : String)
  | word (name : String)
deriving Repr, DecidableEq

inductive Token where
  | operand (o : Operand)
  | operator (op : BinaryOp)
  | not
  | complement
  | question
  | colon
  | openParen
  | closeParen
  | comma
  | function (name : String)
deriving Repr, DecidableEq

def isLetter (c : Char) : Bool :=
  let n := c.toNat
  (65 ≤ n && n ≤ 90) || (97 ≤ n && n ≤ 122)

def isNameChar (c : Char) : Bool := isLetter c || Number.isDigit c || c = '_'

def isReferenceChar (c : Char) : Bool := isLetter c || Number.isDigit c || c = '_' || c = ':'

/-- The number at the front of a text: hexadecimal digits after `0x`, or a decimal. -/
def splitNumber? (cs : List Char) : Option (List Char × List Char) :=
  let decimal := (Number.scanNumeral? cs).map fun (n, rest) => (n.text, rest)
  match cs with
  | '0' :: x :: rest =>
    let digits := rest.takeWhile Number.isHexDigit
    if (x = 'x' || x = 'X') && !digits.isEmpty then
      some ('0' :: x :: digits, rest.dropWhile Number.isHexDigit)
    else decimal
  | _ => decimal

def splitReference? (cs : List Char) : Option (List Char × List Char) :=
  match cs with
  | '{' :: body =>
    match body.takeWhile (· != '}'), body.dropWhile (· != '}') with
    | c :: name, _ :: rest => some (c :: name, rest)
    | _, _ => none
  | _ =>
    let name := cs.takeWhile isReferenceChar
    if name.isEmpty then none else some (name, cs.dropWhile isReferenceChar)

/-- The text up to the quote that no backslash escapes, and the rest after it. -/
def splitQuoted? : List Char → Option (List Char × List Char)
  | [] => none
  | '\\' :: c :: cs => (splitQuoted? cs).map (Script.cover ['\\', c])
  | c :: cs => if c = '"' then some ([], cs) else (splitQuoted? cs).map (Script.cover [c])

/-- The operator at the front of a text; of two that fit, the longer. -/
def splitOperator? : List Char → Option (Token × List Char)
  | '*' :: '*' :: cs => some (.operator .pow, cs)
  | '<' :: '<' :: cs => some (.operator .shiftLeft, cs)
  | '>' :: '>' :: cs => some (.operator .shiftRight, cs)
  | '<' :: '=' :: cs => some (.operator .lessEqual, cs)
  | '>' :: '=' :: cs => some (.operator .greaterEqual, cs)
  | '=' :: '=' :: cs => some (.operator .equal, cs)
  | '!' :: '=' :: cs => some (.operator .notEqual, cs)
  | '&' :: '&' :: cs => some (.operator .and, cs)
  | '|' :: '|' :: cs => some (.operator .or, cs)
  | '+' :: cs => some (.operator .add, cs)
  | '-' :: cs => some (.operator .sub, cs)
  | '*' :: cs => some (.operator .mul, cs)
  | '/' :: cs => some (.operator .div, cs)
  | '%' :: cs => some (.operator .mod, cs)
  | '<' :: cs => some (.operator .less, cs)
  | '>' :: cs => some (.operator .greater, cs)
  | '!' :: cs => some (.not, cs)
  | '~' :: cs => some (.complement, cs)
  | '&' :: cs => some (.operator .bitAnd, cs)
  | '|' :: cs => some (.operator .bitOr, cs)
  | '^' :: cs => some (.operator .bitXor, cs)
  | '?' :: cs => some (.question, cs)
  | ':' :: cs => some (.colon, cs)
  | _ => none

def nameToken (source : String) (name : List Char) (rest : List Char) : Except Fault Token :=
  let word := String.ofList name
  if word = "eq" then .ok (.operator .sameText)
  else if word = "ne" then .ok (.operator .otherText)
  else if (rest.dropWhile Text.isBlank).head? = some '(' then .ok (.function word)
  else if (trueWords ++ falseWords).contains (Text.lowerString word) then
    .ok (.operand (.word word))
  else .error (.bareword word source)

/-- The token at the front of a text that starts with no blank, and the rest. -/
def nextToken (source : String) (c : Char) (cs : List Char) : Except Fault (Token × List Char) :=
  match splitNumber? (c :: cs) with
  | some (number, rest) => .ok (.operand (.number (String.ofList number)), rest)
  | none =>
    if c = '$' then
      match splitReference? cs with
      | some (name, rest) => .ok (.operand (.variable (String.ofList name)), rest)
      | none => .error (.invalidCharacter c source)
    else if c = '[' then
      match Script.bracketGroup? (c :: cs) with
      | some (group, rest) =>
        .ok (.operand (.command (String.ofList (Script.inside group))), rest)
      | none => .error (.missingClose "bracket")
    else if c = '"' then
      match splitQuoted? cs with
      | some (text, rest) => .ok (.operand (.quoted (String.ofList text)), rest)
      | none => .error (.missingClose "quote")
    else if c = '{' then
      match Script.braceGroup? (c :: cs) with
      | some (group, rest) =>
        .ok (.operand (.braced (String.ofList (Script.inside group))), rest)
      | none => .error (.missingClose "brace")
    else if c = '(' then .ok (.openParen, cs)
    else if c = ')' then .ok (.closeParen, cs)
    else if c = ',' then .ok (.comma, cs)
    else if isLetter c || c = '_' then
      (nameToken source ((c :: cs).takeWhile isNameChar) ((c :: cs).dropWhile isNameChar)).map
        fun token => (token, (c :: cs).dropWhile isNameChar)
    else match splitOperator? (c :: cs) with
      | some (token, rest) => .ok (token, rest)
      | none => .error (.invalidCharacter c source)

/-- The tokens of a text. Every token is at least one character long, so `fuel` equal to the length
of the text is enough. -/
def tokensFrom (source : String) : (fuel : Nat) → List Char → Except Fault (List Token)
  | _, [] => .ok []
  | 0, _ => .ok []
  | fuel + 1, c :: cs =>
    if Text.isBlank c then tokensFrom source fuel cs
    else match nextToken source c cs with
      | .error fault => .error fault
      | .ok (token, rest) => (tokensFrom source fuel rest).map (token :: ·)

def tokens (source : String) : Except Fault (List Token) :=
  tokensFrom source source.length source.toList

/-- Texts that no expression may hold, before or after substitution. -/
def forbiddenWords : List String := ["lambda", "__", "\n", ";", "exec"]

def checkAllowed (text : String) : Except Fault Unit :=
  match forbiddenWords.find? fun word => Text.contains word text with
  | some word => .error (.forbidden word)
  | none => .ok ()

end RadarTimeline.Expr
