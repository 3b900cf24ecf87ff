import RadarTimeline.Console.Evaluation
import RadarTimeline.Experiment.Timeline
import RadarTimeline.Receiver.FrequencyTable

namespace RadarTimeline

open Console (Event)

/-- The module names under which the parts of a load log. -/
structure LogModules where
  experiment : String := "experiment"
  operators : String := "eros"
  language : String := "tcl"
  controller : String := "tarlan"

def LogModules.under (name : String) : LogModules where
  experiment := name
  operators := name ++ ":eros"
  language := name ++ ":eros:tcl"
  controller := name ++ ":tarlan"

/-- What an experiment is loaded with. -/
structure LoadRequest where
  files : FileTree
  limits : Configuration := {}
  site : Site := limits.site
  /-- The antenna, which has the name of the site if none is given. -/
  antenna : Option String := none
  args : List String := []
  modules : LogModules := {}

/-- Why an experiment cannot be loaded. -/
inductive LoadFault where
  | script (halt : Console.Halt)
  | notFound (fault : FileNotFound)
  | noProgram (experiment : String)
  | unreadable (fault : FileFault)
  | replay (error : Controller.ReplayError)
  | assembly (fault : AssemblyFault)

def Console.Halt.message : Console.Halt → String
  | .fault e => e.message
  | .tooDeep => "too many nested evaluations"

def LoadFault.message : LoadFault → String
  | .script halt => halt.message
  | .notFound fault => fault.message
  | .noProgram experiment => s!"Experiment {experiment} loads no controller program"
  | .unreadable fault => fault.message
  | .replay error => error.message
  | .assembly fault => fault.message

abbrev Load := EStateM LoadFault (Array Event)

namespace Load

def log (module : String) (level : Log.Level) (message : String) : Load Unit :=
  modify (·.push (.logged ⟨level, module, message, none⟩))

def lift {ε α : Type} (fault : ε → LoadFault) : Except ε α → Load α
  | .ok a => pure a
  | .error e => throw (fault e)

/-- A replay from a machine; what the machine logs is logged under the module. -/
def replay (module : String) (machine : Controller.Machine) (commands : Controller.Replay Unit) :
    Load Controller.Machine := do
  let logged (m : Controller.Machine) : Array Event :=
    m.log.map fun (level, message) => .logged ⟨level, module, message, none⟩
  match commands.run machine with
  | .ok _ m =>
    modify (· ++ logged m)
    return m
  | .error e m =>
    modify (· ++ logged m)
    throw (.replay e)

def program (module : String) (source : Source) (machine : Controller.Machine) (text : String) :
    Load Experiment := do
  let machine ← replay module machine (Controller.replayText text)
  lift .assembly (Experiment.ofMachine source machine)

end Load

namespace LoadRequest

variable (o : LoadRequest)

def setup : Console.Setup where
  files := o.files
  limits := o.limits
  operatorLog := o.modules.operators
  languageLog := o.modules.language

def console : Console.State :=
  .initial o.site (o.antenna.getD o.site.name) (o.limits.oscillators o.site)

/-- Runs an experiment script; the result is the state it leaves in the root scope. -/
def runScript (path : String) : Load SessionState := fun trace =>
  match Console.runExperiment o.setup path o.args { o.console with trace } with
  | .ok _ s => .ok s.root.state s.trace
  | .error halt s => .error (.script halt) s.trace

def resolve (file ending directory : String) : Except FileNotFound String :=
  match FoundFile.find o.files file ending o.limits.roots with
  | .ok found => .ok found.path
  | .error _ =>
    (FoundFile.find o.files (Path.join directory (Path.base file)) ending []).map (·.path)

/-- The frequencies of a file, or why there are none. -/
def frequencies (file directory : String) : Except String (String × List Float) := do
  let path ← (o.resolve file ".nco" directory).mapError (·.message)
  let text ← (o.files.read path).mapError (·.message)
  return (path, ← (FrequencyTable.parse text).mapError (·.message))

def tables (directory : String) : List (Channel × String) → Load (List (Channel × List Float))
  | [] => return []
  | (c, file) :: rest => do
    match o.frequencies file directory with
    | .ok (path, table) =>
      Load.log "nco" .debug s!"Loaded {table.length} NCO entries from {path}"
      return (c, table) :: (← tables directory rest)
    | .error message =>
      Load.log o.modules.experiment .warn
        s!"No frequencies for channel {Channel.number c}: {message}"
      tables directory rest

def replayFile (machine : Controller.Machine) (path : String) : Load Controller.Machine := do
  let text ← Load.lift .unreadable (o.files.read path)
  let commands ← Load.lift (fun e => .replay (.program e)) (Controller.readProgram text)
  Load.log o.modules.controller .debug s!"Parsed {commands.length} commands from {path}"
  Load.replay o.modules.controller machine (Controller.run commands)

def load (path : String) : Load Experiment := do
  let script ← Load.lift .notFound (FoundFile.find o.files path ".elan" o.limits.roots)
  Load.log o.modules.experiment .info s!"Loading experiment {script.name} from {script.path}"
  let state ← o.runScript script.path
  let compiled := if state.files.receiver != "" then state.files.receiver
    else state.files.transmitter
  if compiled = "" then throw (.noProgram script.name)
  let program ← Load.lift .notFound <|
    o.resolve (FoundFile.programPath compiled) ".tlan" script.directory
  let tables ← o.tables script.directory state.tableFiles
  let machine ← o.replayFile (.initial state.oscillators (tables.lookup ·)) program
  let length := Number.text (machine.endTime / Controller.microsecond)
  Load.log o.modules.experiment .debug s!"Program {program} ran for {length} µs"
  Load.lift .assembly <| Experiment.ofMachine
    { name := script.name
      site := state.site
      script := some script.path
      program := some program
      tables := state.files.tables.get }
    machine

end LoadRequest

end RadarTimeline
