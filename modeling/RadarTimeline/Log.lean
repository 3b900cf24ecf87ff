import RadarTimeline.Json
import RadarTimeline.Text.Case

namespace RadarTimeline

namespace Log

inductive Level where
  | debug | info | warn | error | silent
deriving Repr, DecidableEq

namespace Level

def all : List Level := [.debug, .info, .warn, .error, .silent]

def name : Level → String
  | .debug => "debug"
  | .info => "info"
  | .warn => "warn"
  | .error => "error"
  | .silent => "silent"

/-- An entry is shown by a logger whose level is not above the entry's. -/
def severity : Level → Nat
  | .debug => 0
  | .info => 1
  | .warn => 2
  | .error => 3
  | .silent => 4

def label : Level → String
  | .debug => "DBG"
  | .info => "INF"
  | .warn => "WRN"
  | .error => "ERR"
  | .silent => ""

def color : Level → String
  | .debug => "\x1b[90m"
  | .info => "\x1b[34m"
  | .warn => "\x1b[33m"
  | .error => "\x1b[31m"
  | .silent => ""

def parse? (word : String) : Option Level :=
  all.find? fun level => level.name = Text.lowerString word

end Level

structure Entry where
  level : Level
  module : String
  message : String
  data : Option Json := none

inductive Sink where
  | stdout | stderr
deriving Repr, DecidableEq

def Sink.name : Sink → String
  | .stdout => "stdout"
  | .stderr => "stderr"

inductive Channel where
  | out | warn | err
deriving Repr, DecidableEq

structure Settings where
  level : Level
  timestamps : Bool
  colors : Bool
  sink : Sink
deriving Repr, DecidableEq

/-- Lines without times or colors, and of those none. -/
def Settings.quiet : Settings := ⟨.silent, false, false, .stdout⟩

def Settings.console : Settings := ⟨.info, false, true, .stdout⟩

/-- Settings that a logger or a later configuration replaces. -/
structure Overrides where
  level : Option Level := none
  timestamps : Option Bool := none
  colors : Option Bool := none
  sink : Option Sink := none
deriving Repr, DecidableEq

def Settings.override (s : Settings) (o : Overrides) : Settings :=
  { level := o.level.getD s.level
    timestamps := o.timestamps.getD s.timestamps
    colors := o.colors.getD s.colors
    sink := o.sink.getD s.sink }

def Settings.shows (s : Settings) (level : Level) : Bool := s.level.severity ≤ level.severity

def reset : String := "\x1b[0m"

def cyan : String := "\x1b[36m"

def dataText : Json → String
  | .str s => " " ++ s
  | .num x => " " ++ Number.text x
  | .bool b => if b then " true" else " false"
  | j => "\n" ++ j.pretty

/-- The line of an entry, without its time. -/
def Settings.line (s : Settings) (e : Entry) : String :=
  let label :=
    if s.colors then e.level.color ++ "[" ++ e.level.label ++ "]" ++ reset
    else "[" ++ e.level.label ++ "]"
  let module :=
    if s.colors then cyan ++ "[" ++ e.module ++ "]" ++ reset else "[" ++ e.module ++ "]"
  let parts := [label, module, e.message].filter (· != "")
  String.intercalate " " parts ++ (e.data.map dataText).getD ""

/-- Warnings and errors have streams of their own; the sink takes the rest. -/
def Settings.channel (s : Settings) (level : Level) : Channel :=
  match level with
  | .warn => .warn
  | .error => .err
  | _ => if s.sink = .stderr then .err else .out

/-- The line an entry is shown as, if it is shown. -/
def Settings.emit (s : Settings) (e : Entry) : List (Channel × String) :=
  if s.shows e.level then [(s.channel e.level, s.line e)] else []

def Settings.emitAll (s : Settings) (entries : List Entry) : List (Channel × String) :=
  entries.flatMap s.emit

/-- A named logger. What it overrides no later configuration changes. -/
structure Logger where
  module : String
  overrides : Overrides := {}

def Logger.child (l : Logger) (part : String) : Logger :=
  { l with module := l.module ++ ":" ++ part }

def Logger.settings (l : Logger) (base : Settings) : Settings := base.override l.overrides

end Log

end RadarTimeline
