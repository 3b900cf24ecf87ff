import RadarTimeline.Number.Decimal

namespace RadarTimeline.Number

def digitChars (n : Nat) : List Char := Nat.toDigits 10 n

def zeros (count : Nat) : List Char := List.replicate count '0'

/-- Digits, the point after the first `point` of them, and a fraction unless it is empty. -/
def withPoint (digits : List Char) (point : Nat) : List Char :=
  match digits.drop point with
  | [] => digits
  | fraction => digits.take point ++ '.' :: fraction

/-- A positive decimal. `point` is the number of digits in front of the decimal point. -/
def Decimal.layout (d : Decimal) : List Char :=
  let digits := digitChars d.digits
  let point : Int := digits.length + d.exponent
  if digits.length ≤ point && point ≤ 21 then digits ++ zeros (point - digits.length).toNat
  else if 0 < point && point ≤ 21 then withPoint digits point.toNat
  else if -6 < point && point ≤ 0 then '0' :: '.' :: (zeros (-point).toNat ++ digits)
  else
    let exponent := point - 1
    withPoint digits 1 ++ ['e', if exponent < 0 then '-' else '+'] ++ digitChars exponent.natAbs

/-- The digits of a finite number that is not zero, with its sign. -/
def finiteText (x : Float) : String :=
  let b := Binary.ofFloat x
  let body := b.shortest.layout
  String.ofList (if b.negative then '-' :: body else body)

/-- The text of a number. Both zeros are written `0`. -/
def text (x : Float) : String :=
  if x.isNaN then "NaN"
  else if x.isInf then (if x < 0 then "-Infinity" else "Infinity")
  else if x == 0 then "0"
  else finiteText x

/-- A natural number of `10 ^ -places`, written with a fraction of `places` digits. -/
def placesText (units places : Nat) : List Char :=
  let digits := digitChars units
  let padded := zeros (places + 1 - digits.length) ++ digits
  withPoint padded (padded.length - places)

/-- The number of `10 ^ -places` nearest to a magnitude; a half goes up. -/
def Binary.roundToPlaces (b : Binary) (places : Nat) : Nat :=
  let num := b.mantissa * Nat.pow 2 b.exponent.toNat * Nat.pow 10 places
  (2 * num + b.denominator) / (2 * b.denominator)

/-- A number with a set number of places, rounded from its exact value. From `10 ^ 21` on numbers
are written as `text` writes them. -/
def fixedText (x : Float) (places : Nat) : String :=
  if !x.isFinite || x.abs ≥ 1e21 then text x
  else
    let body := placesText ((Binary.ofFloat x).roundToPlaces places) places
    String.ofList (if x < 0 then '-' :: body else body)

end RadarTimeline.Number
