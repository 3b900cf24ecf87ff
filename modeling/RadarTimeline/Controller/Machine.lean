import RadarTimeline.Controller.Mnemonic
import RadarTimeline.Controller.Statement
import RadarTimeline.Controller.Subcycles
import RadarTimeline.Receiver.Mixer
import RadarTimeline.Timing.FrequencyHistory
import RadarTimeline.Log
import RadarTimeline.Site

namespace RadarTimeline.Controller

/-- A command that was skipped or taken for another. -/
structure Warning where
  line : Position
  mnemonic : String
  message : String
deriving Repr, DecidableEq

structure Machine where
  oscillators : Oscillators
  mixers : ChannelMap Mixer
  series : ChannelMap FrequencyHistory := Vector.replicate 6 {}
  register : Float := 0
  cycle : Stream := {}
  subcycles : Subcycles Line := {}
  lines : LineMap Stream := LineMap.replicate {}
  phases : PhaseHistory := {}
  selections : List (Timed Nat) := []
  filtersStarted : Option Float := none
  finished : Bool := false
  endTime : Float := 0
  warnings : Array Warning := #[]
  log : Array (Log.Level × String) := #[]

def Machine.initial (oscillators : Oscillators) (tables : Channel → Option (List Float)) :
    Machine where
  oscillators := oscillators
  mixers := Vector.ofFn fun c => { table := (tables c).map List.toArray }

abbrev Replay := EStateM ReplayError Machine

namespace Machine

def transmitterAt (m : Machine) (time : Float) : Option Nat :=
  (m.selections.takeWhile fun s => !(decide (s.time > time))).getLast?.map (·.event)

def streams (m : Machine) : List (Line × Stream) :=
  Line.all.map fun line => (line, m.lines.get line)

end Machine

def logDebug (message : String) : Replay Unit :=
  modify fun m => { m with log := m.log.push (.debug, message) }

/-- Records a warning, which does not stop the replay. -/
def warn (c : Command) (message : String) : Replay Unit :=
  modify fun m => { m with
    warnings := m.warnings.push ⟨c.line, c.mnemonic, message⟩
    log := m.log.push (.warn, message) }

def fail {α : Type} (fault : Fault) (line : Position) : Replay α := throw (.program ⟨fault, line⟩)

def switched {α : Type} (name : String) (line : Position) : Except SwitchFault α → Replay α
  | .ok a => pure a
  | .error fault => fail (.switch name fault) line

def turnOn (l : Line) (time : Float) (line : Position) : Replay Unit := do
  let s ← switched l.name line (((← get).lines.get l).turnOn time)
  modify fun m => { m with lines := m.lines.set l s }

def turnOff (l : Line) (time : Float) (line : Position) : Replay Unit := do
  let s ← switched l.name line (((← get).lines.get l).turnOff time)
  modify fun m => { m with lines := m.lines.set l s }

def release (l : Line) (time : Float) (line : Position) : Replay Unit := do
  if ((← get).lines.get l).isOn then turnOff l time line

def hold (l : Line) (time : Float) (line : Position) : Replay Unit := do
  if !((← get).lines.get l).isOn then turnOn l time line

def notePhase (time : Float) (phase : Phase) (line : Position) : Replay Unit :=
  Phase.all.forM fun p => if p = phase then hold (.phase p) time line
    else release (.phase p) time line

def noteFrequency (c : Channel) (time : Float) : Replay Unit :=
  modify fun m =>
    match (m.mixers.get c).frequency with
    | .ok f => { m with series := m.series.set c ((m.series.get c).set time f) }
    | .error _ => m

def retune (c : Channel) (time : Float) (change : Mixer → Mixer) : Replay Unit := do
  modify fun m => { m with mixers := m.mixers.set c (change (m.mixers.get c)) }
  noteFrequency c time

def route (time : Float) (line : Position) (path : Nat) (channels : List Channel) :
    Replay Unit := do
  match (← get).oscillators.onPath? path with
  | none => fail (.noOscillators path) line
  | some (first, second) =>
    channels.forM fun c => retune c time ({ · with first := some first, second := some second })

def selectEntry (time : Float) (index : Nat) : Replay Unit :=
  Channel.all.forM fun c => retune c time ({ · with selected := some (index : Position) })

def insertTimed {α : Type} (e : Timed α) : List (Timed α) → List (Timed α)
  | [] => [e]
  | s :: rest => if s.time > e.time then e :: s :: rest else s :: insertTimed e rest

def startFilters (time : Float) (line : Position) : Replay Unit := do
  match (← get).filtersStarted with
  | some _ => logDebug s!"STFIR on line {line}: filters already started"
  | none => modify fun m => { m with filtersStarted := some time }

def perform (time : Float) (line : Position) : Action → Replay Unit
  | .turnOn g => turnOn (.gate g) time line
  | .turnOff g => turnOff (.gate g) time line
  | .phase p => do
    modify fun m => { m with phases := m.phases.set time p }
    notePhase time p line
  | .allOff => Channel.all.forM fun c => release (.gate (.channel c)) time line
  | .route path channels => route time line path channels
  | .selectEntry index => selectEntry time index
  | .transmit index => modify fun m =>
    { m with selections := insertTimed ⟨time, index⟩ m.selections }
  | .startFilters => startFilters time line
  | .nothing => pure ()

def execute (c : Command) : Replay Unit := do
  let m ← get
  if !m.cycle.isOn then fail .cycleNotStarted c.line
  if !m.subcycles.isOn then fail .noSubcycle c.line
  match Action.ofMnemonic? c.mnemonic with
  | none => warn c s!"Command {c.mnemonic}, called from line {c.line} is not implemented"
  | some action => perform (m.register + c.time) c.line action

/-- Ends the running subcycle. The phase lines are turned off for it, and all lines start anew. -/
def endSubcycle (time : Float) (line : Position) : Replay Unit := do
  Phase.all.forM fun p => release (.phase p) time line
  let m ← get
  match Subcycles.close Line.name time line m.streams m.subcycles with
  | .error e subcycles =>
    set { m with subcycles }
    throw e
  | .ok s subcycles =>
    set { m with subcycles, lines := LineMap.replicate {} }
    logDebug s!"Subcycle {s.index} closed at {Number.text time} s"

def openSubcycle (time : Float) (line : Position) : Replay Unit := do
  match (← get).subcycles.openAt time line with
  | .ok subcycles => modify fun m => { m with subcycles }
  | .error e => throw e

def reopenPhase (time : Float) (line : Position) : Replay Unit := do
  match (← get).phases.at? time with
  | some p => turnOn (.phase p) time line
  | none => pure ()

def openCycle (line : Position) : Replay Unit := do
  let m ← get
  if !m.cycle.isOn then
    let cycle ← switched "CYCLE" line (m.cycle.turnOn 0)
    modify fun m => { m with cycle }
    openSubcycle 0 line

/-- Sets the register; from one positive time to the next is a subcycle. -/
def setRegister (c : Command) : Replay Unit := do
  if c.time > 0 then
    endSubcycle c.time c.line
    openSubcycle c.time c.line
    reopenPhase c.time c.line
  modify fun m => { m with register := c.time }

/-- Ends the cycle at a time that does not count from the register. -/
def finish (c : Command) : Replay Unit := do
  endSubcycle c.time c.line
  let cycle ← switched "CYCLE" c.line ((← get).cycle.turnOff c.time)
  modify fun m => { m with cycle, finished := true, endTime := c.time }

def step (c : Command) : Replay Unit := do
  if (← get).finished then fail (.afterEnd c.mnemonic) c.line
  openCycle c.line
  if c.mnemonic = "SETTCR" then setRegister c
  else if c.mnemonic = "REP" then finish c
  else execute c

/-- What is said of a `SETTCR 0` in the middle of a program. -/
def misplacedReset : String :=
  "SETTCR 0 is only valid as the first command or right before REP; treating it as a continuation"

/-- A `SETTCR 0` that is not right before a `REP`. -/
def isMisplaced (c : Command) (rest : List Command) : Bool :=
  c.mnemonic == "SETTCR" && c.time == 0 && (rest.head?.map (·.mnemonic)) != some "REP"

def stepAll : List Command → Replay Unit
  | [] => pure ()
  | c :: rest => do
    if isMisplaced c rest then warn c misplacedReset
    step c
    stepAll rest

/-- Replays a program, which has to end with `REP`. -/
def run (commands : List Command) : Replay Unit := do
  match commands with
  | [] => pure ()
  | first :: rest => do
    step first
    stepAll rest
  match commands.getLast? with
  | none => fail .missingEnd 0
  | some last =>
    if last.mnemonic != "REP" then fail .missingEnd last.line
    logDebug s!"Program finished after {(← get).subcycles.count} subcycle(s)"

def replayText (text : String) : Replay Unit :=
  match readProgram text with
  | .ok commands => run commands
  | .error e => throw (.program e)

end RadarTimeline.Controller
