import RadarTimeline.Timing.Stream
import RadarTimeline.Number.Position

namespace RadarTimeline.Controller

inductive Fault where
  | noStatement
  | noCommands
  | invalidTime (token : String)
  | switch (stream : String) (fault : SwitchFault)
  | stillOn (stream : String) (subcycle : Nat)
  | noOscillators (path : Nat)
  | cycleNotStarted
  | noSubcycle
  | afterEnd (mnemonic : String)
  | missingEnd
deriving Repr, DecidableEq

def Fault.detail : Fault → String
  | .noStatement => "Line must start with 'AT' or 'SETTCR'. Use '%' for comments."
  | .noCommands => "Line starting with 'AT' must include time and command(s)!"
  | .invalidTime token => s!"'{token}' is not a valid time"
  | .switch stream fault => fault.message stream
  | .stillOn stream subcycle =>
    s!"Data stream {stream} is still on at the end of subcycle {subcycle}!"
  | .noOscillators path => s!"No local oscillators configured for receiver path {path + 1}"
  | .cycleNotStarted => "The cycle has not been started!"
  | .noSubcycle => "No subcycle has been started yet!"
  | .afterEnd mnemonic => s!"{mnemonic} follows REP"
  | .missingEnd => "The program must end with REP"

/-- The text of an error in a line. Only positive numbers name a line. -/
def errorText (detail : String) (line : Position) : String :=
  if line.isPositive then s!"The .tlan file has errors in line {line}: {detail}"
  else s!"The controller command has errors: {detail}"

/-- A fault and the line of the program it is in, zero if that is not known. -/
structure ProgramError where
  fault : Fault
  line : Position
deriving Repr, DecidableEq

def ProgramError.message (e : ProgramError) : String := errorText e.fault.detail e.line

/-- Why a replay stops. Times that make no interval stop it, too. -/
inductive ReplayError where
  | program (e : ProgramError)
  | interval (f : IntervalFault)

def ReplayError.message : ReplayError → String
  | .program e => e.message
  | .interval f => f.message

end RadarTimeline.Controller
