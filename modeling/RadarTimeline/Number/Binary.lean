namespace RadarTimeline.Number

/-- A finite binary64 number, `± mantissa * 2 ^ exponent`. -/
structure Binary where
  negative : Bool
  mantissa : Nat
  exponent : Int
deriving Repr, DecidableEq

/-- `2 ^ 52`, the weight of the first digit, which is not stored. -/
def Binary.leading : Nat := 0x10000000000000

/-- The parts of a finite number; of `NaN` and the infinities only the sign means anything. -/
def Binary.ofFloat (x : Float) : Binary :=
  let bits := x.toBits.toNat
  let field : Nat := bits / leading % 0x800
  let fraction := bits % leading
  let negative := bits / 0x8000000000000000 == 1
  if field = 0 then ⟨negative, fraction, -1074⟩
  else ⟨negative, leading + fraction, (field : Int) - 1075⟩

/-- The numerator of the value over `2 ^ (-exponent)`, or the value itself. -/
def Binary.numerator (b : Binary) : Int :=
  let scaled : Int := b.mantissa * Nat.pow 2 b.exponent.toNat
  if b.negative then -scaled else scaled

def Binary.denominator (b : Binary) : Nat := Nat.pow 2 (-b.exponent).toNat

theorem Binary.denominator_pos (b : Binary) : 0 < b.denominator := Nat.two_pow_pos _

/-- The greatest integer not above a finite number. -/
def floor (x : Float) : Int :=
  let b := Binary.ofFloat x
  b.numerator / b.denominator

def truncate (x : Float) : Int :=
  let b := Binary.ofFloat x
  b.numerator.tdiv b.denominator

/-- The nearest integer to a finite number; a half goes up. -/
def round (x : Float) : Int :=
  let b := Binary.ofFloat x
  (2 * b.numerator + b.denominator) / (2 * b.denominator)

/-- `some n` exactly when the number is the natural number `n`, as an index has to be. -/
def toIndex? (x : Float) : Option Nat :=
  let b := Binary.ofFloat x
  if x.isFinite && b.numerator % b.denominator == 0 && 0 ≤ b.numerator then
    some (b.numerator / b.denominator).toNat
  else none

def isNegative (x : Float) : Bool := (Binary.ofFloat x).negative

def isWhole (x : Float) : Bool :=
  let b := Binary.ofFloat x
  x.isFinite && b.numerator % b.denominator == 0

def ofInt (n : Int) : Float := Float.ofInt n

def nan : Float := 0 / 0

def infinity : Float := 1 / 0

def withSignOf (x : Float) (n : Int) : Float :=
  if n = 0 && isNegative x then -0.0 else ofInt n

def floorFloat (x : Float) : Float :=
  if x.isFinite then withSignOf x (floor x) else x

/-- The least whole number not below `x`, among the floats. -/
def ceilFloat (x : Float) : Float := -floorFloat (-x)

def roundFloat (x : Float) : Float :=
  if x.isFinite then withSignOf x (round x) else x

end RadarTimeline.Number
