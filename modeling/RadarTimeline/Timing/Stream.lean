import RadarTimeline.Timing.Interval

namespace RadarTimeline

structure Stream where
  closed : Array (Float × Float) := #[]
  openedAt : Option Float := none
deriving Inhabited

/-- Why a stream cannot be switched. -/
inductive SwitchFault where
  | alreadyOn
  | alreadyOff
  | offBeforeOn
deriving Repr, DecidableEq

def SwitchFault.message (stream : String) : SwitchFault → String
  | .alreadyOn => s!"Data stream {stream} is already on!"
  | .alreadyOff => s!"Data stream {stream} is already off!"
  | .offBeforeOn => s!"Data stream {stream} cannot turn off before it was turned on"

/-- Why a stream has no answer to a question. -/
inductive StreamFault where
  | isOn
  | neverOn
  | neverOff
  | interval (fault : IntervalFault)

def StreamFault.message (stream : String) : StreamFault → String
  | .isOn => s!"Stream {stream} is on. Cannot return open intervals."
  | .neverOn => s!"Stream {stream} has not been turned on yet!"
  | .neverOff => s!"Stream {stream} is on, but has not been turned off yet!"
  | .interval fault => fault.message

namespace Stream

def isOn (s : Stream) : Bool := s.openedAt.isSome

def count (s : Stream) : Nat := s.closed.size + if s.isOn then 1 else 0

def turnOn (s : Stream) (time : Float) : Except SwitchFault Stream :=
  match s.openedAt with
  | some _ => .error .alreadyOn
  | none => .ok { s with openedAt := some time }

def turnOff (s : Stream) (time : Float) : Except SwitchFault Stream :=
  match s.openedAt with
  | none => .error .alreadyOff
  | some on =>
    if time < on then .error .offBeforeOn
    else .ok ⟨s.closed.push (on, time), none⟩

def intervals (s : Stream) : Except StreamFault (List Interval) :=
  if s.isOn then .error .isOn
  else (s.closed.toList.mapM fun (on, off) => Interval.make on off).mapError .interval

def lastOn (s : Stream) : Except StreamFault Float :=
  match s.openedAt, s.closed.back? with
  | some on, _ => .ok on
  | none, some (on, _) => .ok on
  | none, none => .error .neverOn

def lastOff (s : Stream) : Except StreamFault Float :=
  match s.closed.back? with
  | some (_, off) => .ok off
  | none => .error (if s.isOn then .neverOff else .neverOn)

end Stream

end RadarTimeline
