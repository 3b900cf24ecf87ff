import RadarTimeline.Controller.Fault

namespace RadarTimeline.Controller

structure Snapshot (κ : Type) where
  index : Nat
  interval : Interval
  streams : List (κ × List Interval)

def Snapshot.periods {κ : Type} [BEq κ] (s : Snapshot κ) (key : κ) : List Interval :=
  (s.streams.lookup key).getD []

structure Subcycles (κ : Type) where
  bounds : Stream := {}
  snapshots : Array (Snapshot κ) := #[]

/-- There is no subcycle of that index. -/
structure SubcycleFault where
  index : Position
  recorded : Nat
deriving Repr, DecidableEq

def SubcycleFault.message (f : SubcycleFault) : String :=
  s!"Subcycle {f.index} does not exist ({f.recorded} recorded)"

namespace Subcycles

variable {κ : Type}

def isOn (c : Subcycles κ) : Bool := c.bounds.isOn

def count (c : Subcycles κ) : Nat := c.snapshots.size

def boundsName : String := "SUBCYCLE"

def openAt (c : Subcycles κ) (time : Float) (line : Position) : Except ReplayError (Subcycles κ) :=
  match c.bounds.turnOn time with
  | .ok bounds => .ok { c with bounds }
  | .error fault => .error (.program ⟨.switch boundsName fault, line⟩)

def periodsOf (streams : List (κ × Stream)) : Except IntervalFault (List (κ × List Interval)) :=
  streams.mapM fun (key, s) => do
    return (key, ← s.closed.toList.mapM fun (on, off) => Interval.make on off)

def snapshot (index : Nat) (on off : Float) (streams : List (κ × Stream)) :
    Except IntervalFault (Snapshot κ) := do
  let streams ← periodsOf streams
  return ⟨index, ← Interval.make on off, streams⟩

/-- Closes the subcycle that is open. Times that make no interval are found only after the boundary
has been set, which then stays. -/
def close (name : κ → String) (time : Float) (line : Position) (streams : List (κ × Stream)) :
    EStateM ReplayError (Subcycles κ) (Snapshot κ) := fun c =>
  match streams.find? (·.2.isOn), c.bounds.openedAt with
  | some (key, _), _ => .error (.program ⟨.stillOn (name key) c.count, line⟩) c
  | none, none => .error (.program ⟨.switch boundsName .alreadyOff, line⟩) c
  | none, some on =>
    match c.bounds.turnOff time with
    | .error fault => .error (.program ⟨.switch boundsName fault, line⟩) c
    | .ok bounds =>
      match snapshot c.count on time streams with
      | .ok s => .ok s ⟨bounds, c.snapshots.push s⟩
      | .error fault => .error (.interval fault) { c with bounds }

def intervals (c : Subcycles κ) : List Interval := c.snapshots.toList.map (·.interval)

def subcycle (c : Subcycles κ) (index : Position) : Except SubcycleFault (Snapshot κ) :=
  match index.toIndex?.bind (c.snapshots[·]?) with
  | some s => .ok s
  | none => .error ⟨index, c.count⟩

end Subcycles

end RadarTimeline.Controller
