import RadarTimeline.Timing.Interval

namespace RadarTimeline

/-- From `time` on the frequency is `frequency` MHz. -/
structure FrequencyChange where
  time : Float
  frequency : Float
deriving Inhabited

structure FrequencyHistory where
  points : Array FrequencyChange := #[]
deriving Inhabited

namespace FrequencyHistory

/-- The first index from `lo` to `hi` whose point is later than a time, if the points ascend. -/
def laterFrom (points : Array FrequencyChange) (time : Float) (lo hi : Nat) : Nat :=
  if _h : lo < hi then
    let mid := (lo + hi) / 2
    match points[mid]? with
    | some p =>
      if p.time ≤ time then laterFrom points time (mid + 1) hi else laterFrom points time lo mid
    | none => lo
  else lo
termination_by hi - lo

/-- The number of points that are not later than a time. -/
def reached (s : FrequencyHistory) (time : Float) : Nat := laterFrom s.points time 0 s.points.size

/-- The last point that is not later than a time. -/
def pointAt? (s : FrequencyHistory) (time : Float) : Option FrequencyChange :=
  match s.reached time with
  | 0 => none
  | n + 1 => s.points[n]?

def insertAt (points : Array FrequencyChange) (i : Nat) (p : FrequencyChange) :
    Array FrequencyChange :=
  if h : i ≤ points.size then points.insertIdx i p h else points.push p

/-- Records a frequency; it replaces one recorded for the same time. -/
def set (s : FrequencyHistory) (time frequency : Float) : FrequencyHistory :=
  let n := s.reached time
  match s.pointAt? time with
  | some p =>
    if p.time == time then ⟨s.points.modify (n - 1) fun q => { q with frequency := frequency }⟩
    else ⟨insertAt s.points n ⟨time, frequency⟩⟩
  | none => ⟨insertAt s.points n ⟨time, frequency⟩⟩

def ofPoints (points : List FrequencyChange) : FrequencyHistory :=
  points.foldl (fun s p => s.set p.time p.frequency) {}

def size (s : FrequencyHistory) : Nat := s.points.size

def times (s : FrequencyHistory) : List Float := s.points.toList.map (·.time)

/-- Frequencies that are told apart. All values without number count as one. -/
def sameFrequency (a b : Float) : Bool := a == b || (a.isNaN && b.isNaN)

/-- The distinct frequencies in order of first use; zero has no sign here. -/
def frequencies (s : FrequencyHistory) : List Float :=
  s.points.toList.foldl (fun seen p =>
    if seen.any (sameFrequency p.frequency) then seen
    else seen ++ [if p.frequency == 0 then 0 else p.frequency]) []

def at? (s : FrequencyHistory) (time : Float) : Option Float := (s.pointAt? time).map (·.frequency)

/-- The frequency in effect when an interval starts, at its start, and each change inside it. There
is none if the interval starts before the first point. -/
def within? (s : FrequencyHistory) (iv : Interval) : Option FrequencyHistory :=
  match s.pointAt? iv.start with
  | none => none
  | some first =>
    let changes := (s.points.toList.drop (s.reached iv.start)).takeWhile
      fun p => !(decide (p.time ≥ iv.stop))
    some (ofPoints (⟨iv.start, first.frequency⟩ :: changes))

/-- The corners of a step line: each point is held to the time of the next, the last to `stop`. -/
def corners (stop : Float) : List FrequencyChange → List FrequencyChange
  | [] => []
  | [p] => [p, ⟨stop, p.frequency⟩]
  | p :: q :: rest => p :: ⟨q.time, p.frequency⟩ :: corners stop (q :: rest)

def line? (s : FrequencyHistory) (iv : Interval) : Option (List FrequencyChange) :=
  (s.within? iv).map fun inside => corners iv.stop inside.points.toList

def tooEarly : String := "TimeInterval begins before first frequency is defined!"

end FrequencyHistory

end RadarTimeline
