import RadarTimeline.Number.Binary

namespace RadarTimeline.Number

/-- Powers, with no value where the exponent is no number, or is infinite over `±1`. -/
def power (x y : Float) : Float :=
  if y.isNaN then nan
  else if y.isInf && x.abs == 1 then nan
  else Float.pow x y

/-- Powers of an integer. The bases whose powers stay small are read off the exponent. -/
def intPower (base : Int) (exponent : Nat) : Int :=
  if exponent = 0 then 1
  else if base = 0 || base = 1 then base
  else if base = -1 then (if exponent % 2 = 0 then 1 else -1)
  else
    let magnitude := Nat.pow base.natAbs exponent
    if base < 0 && exponent % 2 = 1 then -(magnitude : Int) else magnitude

/-- A left shift; zero stays zero however far it is shifted. -/
def shiftLeft (value : Int) (count : Nat) : Int :=
  if value = 0 then 0 else value * Nat.pow 2 count

/-- The length of a vector: its parts are scaled by the largest, and what the rounding of the sum
loses is carried to the next summand. -/
def hypot (x y : Float) : Float :=
  let a := x.abs
  let b := y.abs
  if a.isInf || b.isInf then infinity
  else if a.isNaN || b.isNaN then nan
  else
    let largest := if a < b then b else a
    if largest == 0 then 0
    else
      let first := a / largest * (a / largest)
      let sum := 0 + first
      let lost := sum - 0 - first
      let second := b / largest * (b / largest) - lost
      Float.sqrt (sum + second) * largest

end RadarTimeline.Number
