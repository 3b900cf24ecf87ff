import RadarTimeline.Experiment.Load
import RadarTimeline.Experiment.Report
import RadarTimeline.Service.Offers

namespace RadarTimeline.Service

open Console (Event)

abbrev Arguments := List (String × Json)

structure Answer where
  text : String
  isError : Bool := false
deriving Repr, DecidableEq

inductive ArgumentFault where
  | required (name : String)
  | badSite
deriving Repr, DecidableEq

def ArgumentFault.message : ArgumentFault → String
  | .required name => s!"{name} parameter required"
  | .badSite => "radar must be one of " ++ String.intercalate ", " (Site.all.map Site.name)

/-- A text argument that has to be there and not empty. -/
def Arguments.text (arguments : Arguments) (name : String) : Except ArgumentFault String :=
  match arguments.lookup name with
  | some (.str value) => if value = "" then .error (.required name) else .ok value
  | _ => .error (.required name)

/-- The site of a call. A site that is given has to be one, as `null` is not. -/
def Arguments.site (arguments : Arguments) : Except ArgumentFault Site :=
  match arguments.lookup "radar" with
  | none => .ok .default
  | some (.str word) =>
    match Site.parse? word with
    | some site => .ok site
    | none => .error .badSite
  | some _ => .error .badSite

inductive CallFault where
  | argument (fault : ArgumentFault)
  | load (fault : LoadFault)

def CallFault.message : CallFault → String
  | .argument fault => fault.message
  | .load fault => fault.message

abbrev Action := EStateM CallFault (Array Event)

namespace Action

def argument {α : Type} : Except ArgumentFault α → Action α
  | .ok a => pure a
  | .error fault => throw (.argument fault)

def load {α : Type} (action : Load α) : Action α := fun trace =>
  match action trace with
  | .ok a trace => .ok a trace
  | .error fault trace => .error (.load fault) trace

end Action

def moduleName : String := "mcp"

def modules : LogModules := .under moduleName

/-- The timeline of a program, as JSON unless a text is asked for. -/
def analyze (arguments : Arguments) : Action Answer := do
  let site ← Action.argument arguments.site
  let text ← Action.argument (arguments.text "program")
  let machine := Controller.Machine.initial (.ofSite site) fun _ => none
  let experiment ← Action.load
    (Load.program modules.controller { name := "program", site } machine text)
  match arguments.lookup "format" with
  | some (.str "text") =>
    return { text := String.intercalate "\n" (experiment.subcycles.map (·.text)) }
  | _ => return { text := experiment.toJson.pretty }

def paragraphs (parts : List String) : String := String.intercalate "\n\n" (parts.filter (· != ""))

/-- What a script prints, its result, and the receiver setup it leaves behind. -/
def runScript (files : FileTree) (arguments : Arguments) : Action Answer := do
  let site ← Action.argument arguments.site
  let script ← Action.argument (arguments.text "script")
  let setup := LoadRequest.setup { files, modules }
  let start := { Console.State.initial site site.name with trace := ← get }
  match Console.evaluate setup script "script" start with
  | .error halt s =>
    set s.trace
    throw (.load (.script halt))
  | .ok result s =>
    set s.trace
    let printed := String.ofList (Text.trimEnd (s.output 0).toList)
    return { text := paragraphs [printed, s!"Result: {result}", s.root.state.text] }

def mnemonicLine (name description : String) : String := name ++ ": " ++ description

def describe (arguments : Arguments) : Action Answer := do
  let mnemonic := Text.upperString (← Action.argument (arguments.text "mnemonic"))
  if mnemonic.endsWith "*" then
    match Controller.documented (mnemonic.dropEnd 1).toString with
    | [] => return { text := "No mnemonics found" }
    | names =>
      return { text := String.intercalate "\n" <| names.map fun name =>
        mnemonicLine name ((Controller.describe? name).getD "") }
  else
    match Controller.describe? mnemonic with
    | some text => return { text := mnemonicLine mnemonic text }
    | none => return { text := s!"Unknown mnemonic: {mnemonic}", isError := true }

def Tool.action (files : FileTree) (arguments : Arguments) : Tool → Action Answer
  | .analyze => Service.analyze arguments
  | .run => runScript files arguments
  | .describe => Service.describe arguments

/-- Calls a tool by its name. The events of the call come with its answer. -/
def call (files : FileTree) (name : String) (arguments : Arguments) : Answer × Array Event :=
  match Tool.ofName? name with
  | none => ({ text := s!"Unknown tool: {name}", isError := true }, #[])
  | some tool =>
    match tool.action files arguments #[] with
    | .ok answer trace => (answer, trace)
    | .error fault trace =>
      ({ text := s!"Error: {fault.message}", isError := true },
        trace.push (.logged ⟨.debug, moduleName, s!"Tool {name} failed: {fault.message}", none⟩))

end RadarTimeline.Service
