import RadarTimeline.Text.Blank
import RadarTimeline.Number.Binary

namespace RadarTimeline.Number

def digitValue? (base : Nat) (c : Char) : Option Nat :=
  let n := c.toNat
  let v :=
    if 48 ≤ n && n ≤ 57 then n - 48
    else if 97 ≤ n && n ≤ 102 then n - 87
    else if 65 ≤ n && n ≤ 70 then n - 55
    else base
  if v < base then some v else none

def isDigit (c : Char) : Bool := (digitValue? 10 c).isSome

def isHexDigit (c : Char) : Bool := (digitValue? 16 c).isSome

/-- The value of a digit string. Characters that are no digits do not count. -/
def digitsValue (base : Nat) (cs : List Char) : Nat :=
  cs.foldl (fun n c => match digitValue? base c with | some d => base * n + d | none => n) 0

/-- The parts of a decimal without sign. -/
structure Numeral where
  whole : List Char
  /-- The digits after the point, if there is a point. -/
  fraction : Option (List Char)
  /-- The exponent with its mark and sign, or nothing. -/
  exponent : List Char
deriving Repr, DecidableEq

def Numeral.text (n : Numeral) : List Char :=
  n.whole ++ (match n.fraction with | some ds => '.' :: ds | none => []) ++ n.exponent

def scanSign : List Char → Bool × List Char
  | '-' :: rest => (true, rest)
  | '+' :: rest => (false, rest)
  | rest => (false, rest)

/-- An exponent at the front of a text, and the rest; a mark without digits is no exponent. -/
def splitExponent (cs : List Char) : List Char × List Char :=
  match cs with
  | mark :: rest =>
    let digits := (scanSign rest).2.takeWhile isDigit
    if (mark = 'e' || mark = 'E') && !digits.isEmpty then
      let count := cs.length - ((scanSign rest).2.dropWhile isDigit).length
      (cs.take count, cs.drop count)
    else ([], cs)
  | [] => ([], [])

def exponentValue (exponent : List Char) : Int :=
  let (negative, digits) := scanSign (exponent.drop 1)
  if negative then -(digitsValue 10 digits : Int) else digitsValue 10 digits

/-- The longest decimal without sign at the front of a text, and what follows it. -/
def scanNumeral? (cs : List Char) : Option (Numeral × List Char) :=
  let whole := cs.takeWhile isDigit
  match cs.dropWhile isDigit with
  | '.' :: rest =>
    let fraction := rest.takeWhile isDigit
    if whole.isEmpty && fraction.isEmpty then none
    else
      let (exponent, rest') := splitExponent (rest.dropWhile isDigit)
      some (⟨whole, some fraction, exponent⟩, rest')
  | rest =>
    if whole.isEmpty then none
    else
      let (exponent, rest') := splitExponent rest
      some (⟨whole, none, exponent⟩, rest')

/-- `digits * 10 ^ exponent`, correctly rounded. Exponents far outside the range of floats are
decided without computing the power. -/
def scaled (digits : Nat) (exponent : Int) : Float :=
  if digits = 0 then 0
  else
    let magnitude := (Nat.log2 digits : Int) * 3 / 10 + exponent
    if 400 < magnitude then infinity
    else if magnitude < -800 then 0
    else Float.ofScientific digits (exponent < 0) exponent.natAbs

def Numeral.value (n : Numeral) : Float :=
  let fraction := n.fraction.getD []
  scaled (digitsValue 10 (n.whole ++ fraction)) (exponentValue n.exponent - fraction.length)

def withSign (negative : Bool) (x : Float) : Float := if negative then -x else x

def readDecimal? (cs : List Char) : Option Float :=
  let (negative, rest) := scanSign cs
  match scanNumeral? rest with
  | some (n, []) => some (withSign negative n.value)
  | _ => none

def readDigits? (base : Nat) (cs : List Char) : Option Nat :=
  if cs.isEmpty || !cs.all (fun c => (digitValue? base c).isSome) then none
  else some (digitsValue base cs)

def readWhole? (cs : List Char) : Option Int :=
  let (negative, rest) := scanSign cs
  (readDigits? 10 rest).map fun n => if negative then -(n : Int) else n

/-- A signed integer that is the whole text, in base ten or, after `0x`, sixteen. -/
def readInteger? (cs : List Char) : Option Int :=
  let (negative, rest) := scanSign cs
  let magnitude := match rest with
    | '0' :: x :: digits =>
      if x = 'x' || x = 'X' then readDigits? 16 digits else readDigits? 10 rest
    | _ => readDigits? 10 rest
  magnitude.map fun n => if negative then -(n : Int) else n

/-- The number a text stands for. Blanks around it do not count and blanks alone are zero; an
unsigned integer may be in base sixteen, eight or two; any other text is no number. -/
def read (cs : List Char) : Float :=
  let body := Text.trim cs
  let based (base : Nat) (digits : List Char) : Float :=
    match readDigits? base digits with
    | some n => ofInt n
    | none => nan
  match body with
  | [] => 0
  | '0' :: 'x' :: digits | '0' :: 'X' :: digits => based 16 digits
  | '0' :: 'o' :: digits | '0' :: 'O' :: digits => based 8 digits
  | '0' :: 'b' :: digits | '0' :: 'B' :: digits => based 2 digits
  | _ =>
    let (negative, rest) := scanSign body
    if rest = "Infinity".toList then withSign negative infinity
    else (readDecimal? body).getD nan

end RadarTimeline.Number
