import RadarTimeline.Number.Binary

namespace RadarTimeline.Number

/-- The decimal `digits * 10 ^ exponent`. -/
structure Decimal where
  digits : Nat
  exponent : Int
deriving Repr, DecidableEq

/-- Moves factors of ten from the digits into the exponent. `fuel` bounds the number of digits. -/
def Decimal.strip (d : Decimal) : (fuel : Nat) → Decimal
  | 0 => d
  | fuel + 1 =>
    if d.digits % 10 = 0 && d.digits != 0 then
      Decimal.strip ⟨d.digits / 10, d.exponent + 1⟩ fuel
    else d

/-- A positive number between the ends of the interval of reals that round to it. All three are
numerators over `den`; the ends belong to the interval when `closed` holds. -/
structure Rounding where
  low : Nat
  value : Nat
  high : Nat
  den : Nat
  closed : Bool

def Rounding.ofBinary (b : Binary) : Rounding :=
  let below := if b.mantissa = Binary.leading && b.exponent != -1074 then 1 else 2
  let unit := Nat.pow 2 (b.exponent - 2).toNat
  { low := (4 * b.mantissa - below) * unit
    value := 4 * b.mantissa * unit
    high := (4 * b.mantissa + 2) * unit
    den := Nat.pow 2 (2 - b.exponent).toNat
    closed := b.mantissa % 2 = 0 }

def Rounding.onGrid (r : Rounding) (g : Int) : Rounding :=
  let up := Nat.pow 10 (-g).toNat
  { r with low := r.low * up, value := r.value * up, high := r.high * up,
           den := r.den * Nat.pow 10 g.toNat }

def Rounding.holds (r : Rounding) (n : Nat) : Bool :=
  if r.closed then r.low ≤ n * r.den && n * r.den ≤ r.high
  else r.low < n * r.den && n * r.den < r.high

/-- The whole number of units in the interval that is nearest to the value, a tie going to the even
one. If any is there, one of the two neighbours of the value is. -/
def Rounding.nearest? (r : Rounding) : Option Nat :=
  let n := r.value / r.den
  match r.holds n, r.holds (n + 1) with
  | false, false => none
  | true, false => some n
  | false, true => some (n + 1)
  | true, true =>
    match compare (2 * r.value) ((2 * n + 1) * r.den) with
    | .lt => some n
    | .gt => some (n + 1)
    | .eq => some (if n % 2 = 0 then n else n + 1)

/-- The least `k` with the value below `10 ^ k`, from the number of its binary digits. -/
def Rounding.scale (r : Rounding) (b : Binary) : Int :=
  let guess := ((Nat.log2 b.mantissa : Int) + b.exponent) * 1233 / 4096
  let fits (k : Int) : Bool := r.value * Nat.pow 10 (-k).toNat < r.den * Nat.pow 10 k.toNat
  if fits guess then guess else if fits (guess + 1) then guess + 1 else guess + 2

/-- The decimal with the fewest digits that reads back to a positive finite number, the nearest one
among those. Seventeen digits always suffice; the exact value stands in for a failed search. -/
def Binary.shortest (b : Binary) : Decimal :=
  let r := Rounding.ofBinary b
  let k := r.scale b
  let found := (List.range 17).findSome? fun (n : Nat) =>
    ((r.onGrid (k - (n + 1))).nearest?).map fun digits =>
      Decimal.strip ⟨digits, k - (n + 1)⟩ 18
  found.getD ⟨b.mantissa * Nat.pow 2 b.exponent.toNat * Nat.pow 5 (-b.exponent).toNat,
    -(-b.exponent).toNat⟩

end RadarTimeline.Number
