import RadarTimeline.Number.Layout

namespace RadarTimeline

/-- A number in the place of a whole one. -/
inductive Position where
  | whole (n : Int)
  /-- A fraction, a number too large to count with, negative zero, or no finite number at all. -/
  | inexact (x : Float)
deriving Repr, DecidableEq, Inhabited

namespace Position

instance (n : Nat) : OfNat Position n := ⟨.whole n⟩

instance : Coe Nat Position := ⟨fun n => .whole n⟩

instance : Coe Int Position := ⟨.whole⟩

/-- Below `2 ^ 53` every whole number is a float. -/
def exactBound : Nat := 0x20000000000000

def ofFloat (x : Float) : Position :=
  let n := Number.truncate x
  if Number.isWhole x && n.natAbs < exactBound && !(n == 0 && Number.isNegative x) then .whole n
  else .inexact x

def toFloat : Position → Float
  | .whole n => Number.ofInt n
  | .inexact x => x

def text : Position → String
  | .whole n => if n.natAbs < exactBound then toString n else Number.text (Number.ofInt n)
  | .inexact x => Number.text x

instance : ToString Position := ⟨text⟩

def before : Position → Position → Bool
  | .whole m, .whole n => m < n
  | p, q => p.toFloat < q.toFloat

def isPositive (p : Position) : Bool := before 0 p

def next : Position → Position
  | .whole n => .whole (n + 1)
  | .inexact x => .inexact (x + 1)

def toIndex? : Position → Option Nat
  | .whole n => if n < 0 then none else some n.toNat
  | .inexact x => Number.toIndex? x

/-- The index from which a walk over indices starts to find something: a whole one that is negative
comes to index 0. -/
def floorIndex? : Position → Option Nat
  | .whole n => some n.toNat
  | .inexact x => Number.toIndex? x

/-- The rounds that are counted without limit. No run comes near it. -/
def unlimited : Nat := 0x10000000000000000

/-- How many of the rounds 1, 2, 3, … are not past a limit. -/
def rounds : Position → Nat
  | .whole n => n.toNat
  | .inexact x =>
    if x.isFinite then (Number.floor x).toNat else if x < 0 then 0 else unlimited

end Position

end RadarTimeline
