import RadarTimeline.Log
import RadarTimeline.Site

namespace RadarTimeline.CommandLine

open Log (Level)

/-- What is wrong with a command line. -/
inductive UsageFault where
  | badLevel
  | badSite
  | unknownOption (option : String)
  | missing (command what : String)
  | unknownCommand (command : String)
deriving Repr, DecidableEq

def UsageFault.message : UsageFault → String
  | .badLevel => "--log-level takes one of " ++ String.intercalate ", " (Level.all.map Level.name)
  | .badSite => "--radar takes one of " ++ String.intercalate ", " (Site.all.map Site.name)
  | .unknownOption option => s!"Unknown option {option}"
  | .missing command what => s!"{command} needs {what}"
  | .unknownCommand command => s!"Unknown command {command}. Run \"radar-timing help\"."

structure Options where
  json : Bool := false
  colors : Bool := true
  level : Option Level := none
  site : Site := .default
  /-- The words that are no options. -/
  words : List String := []
deriving Repr, DecidableEq

namespace Options

/-- Reads words into options. An option takes the word after it whatever that word is, and of an
option that is given twice the last one counts. -/
def readFrom (o : Options) : List String → Except UsageFault Options
  | [] => .ok o
  | "--json" :: rest => readFrom { o with json := true } rest
  | "--no-color" :: rest => readFrom { o with colors := false } rest
  | ["--log-level"] => .error .badLevel
  | "--log-level" :: word :: rest =>
    match Level.parse? word with
    | some level => readFrom { o with level := some level } rest
    | none => .error .badLevel
  | ["--radar"] => .error .badSite
  | "--radar" :: word :: rest =>
    match Site.parse? word with
    | some site => readFrom { o with site } rest
    | none => .error .badSite
  | word :: rest =>
    if word.startsWith "--" then .error (.unknownOption word)
    else readFrom { o with words := o.words ++ [word] } rest

def read (words : List String) : Except UsageFault Options := readFrom {} words

def settings (o : Options) : Log.Settings :=
  Log.Settings.console.override { colors := some o.colors, level := o.level }

end Options

/-- What a command line asks for. Subcycles are as they were written. -/
inductive Command where
  | help
  | mnemonics (start : String)
  | replay (program : String) (subcycle : Option String)
  | session (script : String) (args : List String)
  | experiment (script : String) (subcycle : Option String)
deriving Repr, DecidableEq

/-- The command that words make; words it has no use for are ignored. -/
def Command.ofWords : List String → Except UsageFault Command
  | [] | "help" :: _ => .ok .help
  | "mnemonics" :: rest => .ok (.mnemonics (rest.headD ""))
  | ["tlan"] => .error (.missing "tlan" "a controller program")
  | "tlan" :: program :: rest => .ok (.replay program rest.head?)
  | ["elan"] => .error (.missing "elan" "an experiment script")
  | "elan" :: script :: args => .ok (.session script args)
  | ["experiment"] => .error (.missing "experiment" "an experiment script")
  | "experiment" :: script :: rest => .ok (.experiment script rest.head?)
  | command :: _ => .error (.unknownCommand command)

def helpText : String := String.intercalate "\n" [
  "",
  "Radar experiment timing",
  "",
  "Commands:",
  "  tlan <file> [subcycle]         Replay a controller program",
  "  elan <file> [args...]          Run an experiment script, show the receiver setup",
  "  experiment <file> [subcycle]   Run a script and replay the program it loads",
  "  mnemonics [prefix]             List controller mnemonics",
  "  help                           Show this help",
  "",
  "Options:",
  s!"  --radar <site>       UHF, VHF, ESR, KIR or SOD (default {Site.default.name})",
  "  --log-level <level>  " ++ String.intercalate ", " (Level.all.map Level.name),
  "  --json               Print JSON instead of text",
  "  --no-color           Plain log output",
  "",
  "Usage:",
  "  radar-timing <command> [options]",
  ""]

end RadarTimeline.CommandLine
