import RadarTimeline.Number.Layout

namespace RadarTimeline

def Interval.Valid (start stop : Float) : Prop :=
  start.isFinite ∧ stop.isFinite ∧ ¬ start < 0 ∧ ¬ stop < start

instance (start stop : Float) : Decidable (Interval.Valid start stop) :=
  inferInstanceAs (Decidable (_ ∧ _))

structure Interval where
  start : Float
  stop : Float
  valid : Interval.Valid start stop

/-- Why two times are no interval. -/
inductive IntervalFault where
  | bounds (start stop : Float)
  | reversed (start stop : Float)

def IntervalFault.message : IntervalFault → String
  | .bounds start stop =>
    s!"Interval bounds must be finite and not negative ({Number.text start}, {Number.text stop})"
  | .reversed start stop =>
    s!"Start of interval must come before end ({Number.text start} > {Number.text stop})"

namespace Interval

def make (start stop : Float) : Except IntervalFault Interval :=
  if h : Valid start stop then .ok ⟨start, stop, h⟩
  else if start.isFinite ∧ stop.isFinite ∧ ¬ start < 0 then .error (.reversed start stop)
  else .error (.bounds start stop)

theorem make_eq_ok_iff {start stop : Float} {iv : Interval} :
    make start stop = .ok iv ↔ iv.start = start ∧ iv.stop = stop := by
  unfold make
  constructor
  · split
    · rintro ⟨⟩
      exact ⟨rfl, rfl⟩
    · split <;> simp
  · rintro ⟨rfl, rfl⟩
    simp [iv.valid]

def length (a : Interval) : Float := a.stop - a.start

def scale (a : Interval) (factor : Float) : Except IntervalFault Interval :=
  make (a.start * factor) (a.stop * factor)

def divide (a : Interval) (divisor : Float) : Except IntervalFault Interval :=
  make (a.start / divisor) (a.stop / divisor)

def sameAs (a b : Interval) : Bool := a.start == b.start && a.stop == b.stop

/-- Neither interval is over when the other starts; to touch at one end is not to overlap. -/
def overlaps (a b : Interval) : Bool :=
  !(decide (a.start ≤ b.stop) && decide (a.stop ≤ b.start)) &&
    !(decide (b.start ≤ a.stop) && decide (b.stop ≤ a.start))

def overlapsSome (a : Interval) (others : List Interval) : Bool := others.any a.overlaps

/-- The first interval lies in the second; they may share ends. -/
def within (a b : Interval) : Bool := decide (b.start ≤ a.start) && decide (a.stop ≤ b.stop)

def withinSome (a : Interval) (others : List Interval) : Bool := others.any a.within

def text (a : Interval) : String :=
  s!"TimeInterval({Number.text a.start}, {Number.text a.stop})"

end Interval

structure OverlapFault where
  detail : String
deriving Repr, DecidableEq

def OverlapFault.message (f : OverlapFault) : String :=
  if f.detail = "" then "The radar transmits while receiving!"
  else "The radar transmits while receiving! " ++ f.detail

def Interval.refuseOverlap (a b : Interval) : Except OverlapFault Unit :=
  if a.overlaps b then .error ⟨s!"{a.text} overlaps {b.text}"⟩ else .ok ()

end RadarTimeline
