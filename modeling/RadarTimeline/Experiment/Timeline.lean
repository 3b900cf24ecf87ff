import RadarTimeline.Controller.Machine

namespace RadarTimeline

open Controller (Machine Snapshot Warning)

structure Overlap where
  transmit : Interval
  channel : Channel
  receive : Interval

structure SubcycleTimeline where
  index : Nat
  interval : Interval
  transmits : List Interval
  receives : List (Channel × List Interval)
  settings : List (Setting × List Interval)
  held : Phase → List Interval
  phaseShifts : List (Timed Phase)
  /-- The time unit of the code of each transmission, if it has a code. -/
  bauds : List (Option Float)
  frequencies : List (Channel × FrequencyHistory)
  overlaps : List Overlap

/-- Where an experiment comes from. -/
structure Source where
  name : String
  site : Site
  script : Option String := none
  program : Option String := none
  tables : Channel → Option String := fun _ => none

structure Experiment where
  source : Source
  cycle : Interval
  filtersStarted : Option Float
  warnings : List Warning
  subcycles : List SubcycleTimeline

/-- Why a replay makes no experiment. The assembly that is endless comes to nothing. -/
inductive AssemblyFault where
  | unfinished
  | interval (fault : IntervalFault)
  | endless

def AssemblyFault.message : AssemblyFault → String
  | .unfinished => "The controller program has not run to its REP"
  | .interval fault => fault.message
  | .endless => "The division for the baud length never ends"

/-- There is no subcycle of that index. -/
structure SelectionFault where
  index : Position
  count : Nat
deriving Repr, DecidableEq

def SelectionFault.message (f : SelectionFault) : String :=
  let last : Int := f.count - 1
  s!"Select a subcycle between 0 and {last}, not {f.index}"

/-- The frequencies of a channel in an interval. A channel without frequency at the start begins
with its first one, and one without any is left out. -/
def FrequencyHistory.inside? (s : FrequencyHistory) (iv : Interval) : Option FrequencyHistory :=
  match s.within? iv with
  | some inside => some inside
  | none =>
    match s.points.toList.filter fun p =>
      decide (p.time ≥ iv.start) && decide (p.time < iv.stop) with
    | [] => none
    | points => some (.ofPoints points)

namespace SubcycleTimeline

/-- Keys with their values, without those that have none. -/
def present {κ α : Type} (keys : List κ) (values : κ → List α) : List (κ × List α) :=
  (keys.map fun k => (k, values k)).filter fun entry => !entry.2.isEmpty

def overlapping (transmits : List Interval) (receives : Channel → List Interval) : List Overlap :=
  Channel.all.flatMap fun c => (receives c).flatMap fun receive =>
    (transmits.filter (·.overlaps receive)).map fun transmit => ⟨transmit, c, receive⟩

def ofSnapshot (m : Machine) (s : Snapshot Line) (bauds : List (Option Float)) : SubcycleTimeline :=
  let transmits := s.periods (.gate .rf)
  let receives (c : Channel) := s.periods (.gate (.channel c))
  { index := s.index
    interval := s.interval
    transmits := transmits
    receives := present Channel.all receives
    settings := present Setting.all fun t => s.periods (.gate (.setting t))
    held := fun p => s.periods (.phase p)
    phaseShifts := m.phases.within s.interval
    bauds := bauds
    frequencies := Channel.all.filterMap fun c => ((m.series.get c).inside? s.interval).map (c, ·)
    overlaps := overlapping transmits receives }

def assemble (m : Machine) (s : Snapshot Line) : Except PhaseHistory.Endless SubcycleTimeline := do
  let bauds ← (s.periods (.gate .rf)).mapM m.phases.baudLength
  return ofSnapshot m s bauds

end SubcycleTimeline

namespace Experiment

def ofMachine (source : Source) (m : Machine) : Except AssemblyFault Experiment :=
  if !m.finished then .error .unfinished
  else match Interval.make 0 m.endTime with
    | .error fault => .error (.interval fault)
    | .ok cycle =>
      match m.subcycles.snapshots.toList.mapM (SubcycleTimeline.assemble m) with
      | .error _ => .error .endless
      | .ok subcycles => .ok
        { source
          cycle
          filtersStarted := m.filtersStarted
          warnings := m.warnings.toList
          subcycles }

def subcycle (e : Experiment) (index : Position) : Except SelectionFault SubcycleTimeline :=
  match index.toIndex?.bind (e.subcycles[·]?) with
  | some timing => .ok timing
  | none => .error ⟨index, e.subcycles.length⟩

def overlaps (e : Experiment) : List Overlap := e.subcycles.flatMap (·.overlaps)

end Experiment

end RadarTimeline
