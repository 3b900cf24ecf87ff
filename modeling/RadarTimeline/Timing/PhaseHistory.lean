import RadarTimeline.Timing.Interval

namespace RadarTimeline

inductive Phase where
  | deg0 | deg180
deriving Repr, DecidableEq

def Phase.degrees : Phase → Nat
  | .deg0 => 0
  | .deg180 => 180

def Phase.all : List Phase := [.deg0, .deg180]

structure Timed (α : Type) where
  time : Float
  event : α

structure PhaseHistory where
  latestFirst : List (Timed Phase) := []
  used : List Phase := []

namespace PhaseHistory

/-- Puts an event in front of the events that are not later. -/
def insert (e : Timed Phase) : List (Timed Phase) → List (Timed Phase)
  | [] => [e]
  | last :: before => if last.time > e.time then last :: insert e before else e :: last :: before

def set (h : PhaseHistory) (time : Float) (phase : Phase) : PhaseHistory where
  latestFirst := insert ⟨time, phase⟩ h.latestFirst
  used := if h.used.contains phase then h.used else h.used ++ [phase]

/-- Forgets all but the phase the history ends with, which then holds from time 0 on. -/
def restart (h : PhaseHistory) : PhaseHistory :=
  match h.latestFirst with
  | [] => h
  | last :: _ => { h with latestFirst := [⟨0, last.event⟩] }

def events (h : PhaseHistory) : List (Timed Phase) := h.latestFirst.reverse

def at? (h : PhaseHistory) (time : Float) : Option Phase :=
  (h.events.takeWhile fun e => !(decide (e.time > time))).getLast?.map (·.event)

/-- The events in an interval. A phase set before it is carried to its start. -/
def within (h : PhaseHistory) (iv : Interval) : List (Timed Phase) :=
  let before := h.events.filter fun e => e.time < iv.start
  let inside := h.events.filter fun e => !(decide (e.time < iv.start)) && decide (e.time ≤ iv.stop)
  match before.getLast? with
  | some e => ⟨iv.start, e.event⟩ :: inside
  | none => inside

/-- A time between two events, in whole nanoseconds as far as a number can say it. -/
inductive Gap where
  | whole (ns : Nat)
  | infinite
  | undefined
deriving Repr, DecidableEq

namespace Gap

def between (a b : Float) : Gap :=
  let ns := (b - a) / 1e-9
  if ns.isFinite then .whole (Number.round ns).natAbs
  else if ns.isNaN then .undefined
  else .infinite

/-- What remains of a division. That by zero and that of an infinite gap leave nothing defined. -/
def remainder : Gap → Gap → Gap
  | .whole x, .whole (y + 1) => .whole (x % (y + 1))
  | .whole x, .infinite => .whole x
  | _, _ => .undefined

def toFloat : Gap → Float
  | .whole ns => Number.ofInt ns
  | .infinite => Number.infinity
  | .undefined => Number.nan

end Gap

def gaps : List Float → List Gap
  | a :: b :: rest => .between a b :: gaps (b :: rest)
  | _ => []

/-- What a calculation that never ends comes to. -/
structure Endless where
deriving Repr, DecidableEq

/-- An upper bound of the number of divisions, if they end. -/
def divisions : Gap → Gap → Nat
  | _, .whole y => y
  | .whole x, .infinite => x + 1
  | _, .infinite => 1
  | _, .undefined => 0

/-- The greatest common divisor by division with remainder, until nothing remains. An undefined
remainder leaves another one, and so on without end. -/
def commonDivisor (x y : Gap) : Except Endless Gap :=
  match y with
  | .whole 0 => .ok x
  | .undefined => .error ⟨⟩
  | .whole (n + 1) => commonDivisor (.whole (n + 1)) (x.remainder (.whole (n + 1)))
  | .infinite => commonDivisor .infinite (x.remainder .infinite)
termination_by divisions x y
decreasing_by
  · cases x with
    | whole x => exact Nat.mod_lt x n.succ_pos
    | infinite | undefined => exact n.succ_pos
  · cases x with
    | whole x => exact x.lt_succ_self
    | infinite | undefined => exact Nat.one_pos

/-- The time unit of the code sent in an interval, in seconds: the greatest common divisor of the
gaps between its events in whole nanoseconds. A code that never changes its phase after a single
unit has a multiple of it as result. -/
def baudLength (h : PhaseHistory) (iv : Interval) : Except Endless (Option Float) := do
  let times := (h.events.map (·.time)).filter fun t => decide (iv.start ≤ t) && decide (t ≤ iv.stop)
  let divisor ← (gaps times).foldlM commonDivisor (.whole 0)
  return if divisor = .whole 0 then none else some (divisor.toFloat / 1e9)

end PhaseHistory

end RadarTimeline
