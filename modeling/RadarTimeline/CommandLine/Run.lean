import RadarTimeline.CommandLine.Options
import RadarTimeline.Experiment.Load
import RadarTimeline.Experiment.Report

namespace RadarTimeline.CommandLine

open Console (Event)

/-- Why a command line fails. -/
inductive Fault where
  | usage (fault : UsageFault)
  | subcycle (word : String)
  | selection (fault : SelectionFault)
  | load (fault : LoadFault)

def Fault.message : Fault → String
  | .usage fault => fault.message
  | .subcycle word => s!"Subcycle must be a positive integer, not {word}"
  | .selection fault => fault.message
  | .load fault => fault.message

abbrev Action := EStateM Fault (Array Event)

namespace Action

def print (text : String) : Action Unit := modify (·.push (.printed (text ++ "\n")))

def lift {ε α : Type} (fault : ε → Fault) : Except ε α → Action α
  | .ok a => pure a
  | .error e => throw (fault e)

def load {α : Type} (action : Load α) : Action α := fun trace =>
  match action trace with
  | .ok a trace => .ok a trace
  | .error fault trace => .error (.load fault) trace

def isPrinted : Event → Bool
  | .printed _ => true
  | _ => false

def silently {α : Type} (action : Action α) : Action α := fun trace =>
  match action #[] with
  | .ok a more => .ok a (trace ++ more.filter (!isPrinted ·))
  | .error fault more => .error fault (trace ++ more.filter (!isPrinted ·))

end Action

/-- The index of a subcycle; the words of a command line count them from 1. -/
def readSubcycle (word : String) : Except Fault Nat :=
  match Number.toIndex? (Number.read word.toList) with
  | some (n + 1) => .ok n
  | _ => .error (.subcycle word)

def summary (e : Experiment) : List String :=
  [s!"{e.source.name}: {e.subcycles.length} subcycle(s), " ++
    s!"cycle {microsecondsText e.cycle.stop} µs"] ++
  e.subcycles.map SubcycleTimeline.text ++
  if e.warnings.isEmpty then [] else [s!"{e.warnings.length} unknown mnemonic(s) skipped"]

def display (json : Bool) (subcycle : Option String) (e : Experiment) : Action Unit := do
  match subcycle with
  | some word =>
    let index ← Action.lift id (readSubcycle word)
    let timing ← Action.lift .selection (e.subcycle index)
    Action.print (if json then timing.toJson.pretty else timing.text)
  | none =>
    if json then Action.print e.toJson.pretty
    else (summary e).forM Action.print

def replayFile (options : LoadRequest) (program : String) : Load Experiment := do
  let machine ← options.replayFile (.initial (.ofSite options.site) fun _ => none) program
  Load.lift .assembly <| Experiment.ofMachine
    { name := Path.base program, site := options.site, program := some program } machine

/-- The mnemonics that begin with a word, and what is said of them. -/
def catalog (start : String) : List (String × String) :=
  (Controller.documented start).map fun name => (name, (Controller.describe? name).getD "")

/-- Carries out a command. Only a session shows what its script prints. -/
def Command.run (files : FileTree) (o : Options) : Command → Action Unit
  | .help => Action.print helpText
  | .mnemonics start =>
    if o.json then Action.print (Json.obj ((catalog start).map fun (n, d) => (n, .str d))).pretty
    else (catalog start).forM fun (n, d) => Action.print (Text.padRight 12 n ++ d)
  | .replay program subcycle => do
    display o.json subcycle (← Action.load (replayFile { files, site := o.site } program))
  | .session script args => do
    let state ← Action.load (LoadRequest.runScript { files, site := o.site, args } script)
    Action.print (if o.json then state.toJson.pretty else state.text)
  | .experiment script subcycle => do
    let experiment ← Action.silently <| Action.load <|
      LoadRequest.load { files, site := o.site } script
    display o.json subcycle experiment

structure Outcome where
  settings : Log.Settings := .console
  trace : Array Event := #[]
  result : Except Fault Unit

def run (files : FileTree) (words : List String) : Outcome :=
  match Options.read words with
  | .error fault => { result := .error (.usage fault) }
  | .ok options =>
    match Command.ofWords options.words with
    | .error fault => { settings := options.settings, result := .error (.usage fault) }
    | .ok command =>
      match (command.run files options).run #[] with
      | .ok _ trace => { settings := options.settings, trace, result := .ok () }
      | .error fault trace => { settings := options.settings, trace, result := .error fault }

namespace Outcome

def shown (o : Outcome) : Event → List (Log.Channel × String)
  | .printed text => [(.out, text)]
  | .logged entry => (o.settings.emit entry).map fun (channel, line) => (channel, line ++ "\n")
  | _ => []

def pieces (o : Outcome) : List (Log.Channel × String) := o.trace.toList.flatMap o.shown

def output (o : Outcome) : String :=
  String.join ((o.pieces.filter (·.1 = .out)).map (·.2))

def errors (o : Outcome) : List String := (o.pieces.filter (·.1 != .out)).map (·.2)

def complaint (o : Outcome) : List (Log.Channel × String) :=
  match o.result with
  | .ok _ => []
  | .error fault => o.shown (.logged ⟨.error, "cli", fault.message, none⟩)

end Outcome

end RadarTimeline.CommandLine
