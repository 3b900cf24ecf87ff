import RadarTimeline.Console.Handler
import RadarTimeline.Controller.Mnemonic
import RadarTimeline.Json

namespace RadarTimeline.Service

inductive Resource where
  | mnemonics | commands
deriving Repr, DecidableEq

namespace Resource

def all : List Resource := [.mnemonics, .commands]

def uri : Resource → String
  | .mnemonics => "timing://mnemonics"
  | .commands => "timing://commands"

def title : Resource → String
  | .mnemonics => "Controller Mnemonics"
  | .commands => "Operator Commands"

def description : Resource → String
  | .mnemonics => "Every documented controller mnemonic with its description"
  | .commands => "Operator commands understood in experiment scripts"

def mimeType (_ : Resource) : String := "application/json"

def ofUri? (uri : String) : Option Resource := all.find? fun r => r.uri = uri

def operatorJson (o : Console.Operator) : Json :=
  let d := o.documentation
  .obj [("name", .str d.name), ("description", .str d.description),
    ("category", .str d.category.name), ("stateful", .bool d.stateful)]

def contents : Resource → Json
  | .mnemonics => .obj (Controller.descriptions.map fun (name, text) => (name, .str text))
  | .commands => .arr (Console.Operator.all.map operatorJson)

def toJson (r : Resource) : Json := .obj [
  ("uri", .str r.uri), ("name", .str r.title), ("description", .str r.description),
  ("mimeType", .str r.mimeType)]

def read (r : Resource) : Json := .obj [
  ("uri", .str r.uri), ("mimeType", .str r.mimeType), ("text", .str r.contents.pretty)]

/-- What is said of a document that is not there. -/
def unknown (uri : String) : String := s!"Unknown resource: {uri}"

end Resource

/-- An argument of a tool, which is a text. -/
structure Parameter where
  name : String
  description : String
  required : Bool := false
  /-- The texts it may be; none stand for any. -/
  choices : List String := []
deriving Repr, DecidableEq

def Parameter.toJson (p : Parameter) : Json := .obj <|
  [("type", .str "string")] ++
  (if p.choices.isEmpty then [] else [("enum", .arr (p.choices.map .str))]) ++
  [("description", .str p.description)]

inductive Tool where
  | analyze | run | describe
deriving Repr, DecidableEq

namespace Tool

def all : List Tool := [.analyze, .run, .describe]

def name : Tool → String
  | .analyze => "analyze_controller_program"
  | .run => "run_console_script"
  | .describe => "describe_mnemonic"

def description : Tool → String
  | .analyze =>
    "Replay a controller program (AT/SETTCR/REP) and return the timeline of every subcycle."
  | .run =>
    "Run an experiment console script; returns its output and the receiver setup it leaves " ++
    "behind. The script may read files it names."
  | .describe =>
    "Describe a controller mnemonic, or list the mnemonics starting with a prefix ending in *."

def parameters : Tool → List Parameter
  | .analyze => [
      { name := "program", description := "Program text", required := true },
      { name := "radar", description := "Radar site for the local oscillators (default UHF)" },
      { name := "format", description := "Output format (default json)",
        choices := ["json", "text"] }]
  | .run => [
      { name := "script", description := "Script text", required := true },
      { name := "radar", description := "Radar site (default UHF)" }]
  | .describe => [
      { name := "mnemonic", description := "Mnemonic such as RFON, or a prefix such as CH*",
        required := true }]

def inputSchema (t : Tool) : Json := .obj [
  ("type", .str "object"),
  ("properties", .obj (t.parameters.map fun p => (p.name, p.toJson))),
  ("required", .arr ((t.parameters.filter (·.required)).map fun p => .str p.name))]

def ofName? (name : String) : Option Tool := all.find? fun t => t.name = name

end Tool

end RadarTimeline.Service
