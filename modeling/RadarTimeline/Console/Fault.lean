import RadarTimeline.Expr.Fault
import RadarTimeline.Files.Search
import RadarTimeline.Script.ListText
import RadarTimeline.Script.Reader
import RadarTimeline.Site

namespace RadarTimeline.Console

/-- How a command was used wrongly. -/
inductive UsageFault where
  | wrongArguments (usage : String)
  | notInteger (text : String)
  | parameterForm (element : String)
  | parameterOrder (name : String)
  | noVariable (name : String)
  | infoSubcommand (name : String)
  | noScript (after : String)
  | extraWords
  | loopExceeded (loop : String) (limit : Position)
  | execForbidden (args : List String)
  | stringSubcommand (name : String)
  | outsideLoop (completion : String)
  | noBlock (name : String)
  | tooManyJumps (limit : Position)
  | ambiguous (word : String) (choices : List String)
  | noChoice (word : String) (choices : List String)
  | noChannel (digits : String)
  | noTarget
  | noOptionValue (option : String)
  | unknownOption (option : String)
  | unknownDevice (name : String)
  | notFrequency (text : String)
  | fixedOscillators (site : Site)
  | unknownPath (path : String) (site : Site)
  | unknownOscillator (name : String)
  | oscillatorNeeded (site : Site)
  | noAddress (address file : String) (entries : Nat)
  | antennaNeeded
  | wrongArgument (text : String)
  | tooManyParameters
  | notSeconds (text : String)
deriving Repr, DecidableEq

def commaList (items : List String) : String := String.intercalate ", " items

def UsageFault.message : UsageFault → String
  | .wrongArguments usage => s!"wrong # args: should be \"{usage}\""
  | .notInteger text => s!"expected integer but got \"{text}\""
  | .parameterForm element => s!"Argument '{element}' must be a name or a name and a default value"
  | .parameterOrder name => s!"non-default argument '{name}' follows default argument"
  | .noVariable name => s!"can't read \"{name}\": no such variable"
  | .infoSubcommand name => s!"info {name} is not supported, only \"info exists varName\""
  | .noScript after => s!"wrong # args: no script following \"{after}\" argument"
  | .extraWords => "wrong # args: extra words after \"else\" clause in \"if\" command"
  | .loopExceeded loop limit => s!"{loop} loop exceeded {limit} iterations"
  | .execForbidden args =>
    "exec is not allowed in experiment scripts (" ++ String.intercalate " " args ++ ")"
  | .stringSubcommand name =>
    s!"unknown or unsupported subcommand \"{name}\": " ++
      "must be equal, length, tolower, toupper or trim"
  | .outsideLoop completion => s!"invoked \"{completion}\" outside of a loop"
  | .noBlock name => s!"Block '{name}' is not defined"
  | .tooManyJumps limit => s!"Experiment jumped between blocks more than {limit} times"
  | .ambiguous word choices => s!"'{word}' is ambiguous: {commaList choices}"
  | .noChoice word choices => s!"'{word}' is none of {commaList choices}"
  | .noChannel digits => s!"There is no channel {digits}"
  | .noTarget => "expected a target and a channel list"
  | .noOptionValue option => s!"Option {option} of loadradar has no value"
  | .unknownOption option => s!"Unknown option {option} of loadradar"
  | .unknownDevice name => s!"Unknown device {name}"
  | .notFrequency text => s!"'{text}' is not a frequency"
  | .fixedOscillators site => s!"Local oscillators cannot be selected at {site.name}"
  | .unknownPath path site => s!"Unknown receiver path {path} at {site.name}"
  | .unknownOscillator name => s!"Unknown local oscillator {name}"
  | .oscillatorNeeded site => s!"The local oscillator must be given at {site.name}"
  | .noAddress address file entries => s!"Address {address} is not in {file} ({entries} entries)"
  | .antennaNeeded => "Must specify antenna (32m or 42m)!"
  | .wrongArgument text => s!"Wrong argument {text}!"
  | .tooManyParameters => "Not more than 3 arguments to upar!"
  | .notSeconds text => s!"expected seconds but got \"{text}\""

/-- Why a command fails. -/
inductive CommandFault where
  | usage (fault : UsageFault)
  | expression (fault : Expr.Fault)
  | list (fault : Script.ListFault)
  | file (fault : FileNotFound)

/-- Why a script fails. A fault in a substituted script keeps the place it was found at. -/
inductive ScriptFault where
  | syntaxFault (fault : Script.ReadFault)
  | command (name : String) (fault : CommandFault)
  | unknownCommand (name : String)
  | unknownVariable (name : String)
  | escape (c : Char)
  | openBracket
  | substituting (script : String) (fault : ScriptFault) (location : Script.Location)
  | insideSubstitution (completion : String)
  | outsideContext (completion : String)

/-- The faults of lists and files do not say which command has them. -/
def CommandFault.message (command : String) : CommandFault → String
  | .usage fault => fault.message
  | .expression fault => fault.message
  | .list fault => s!"{command}: {fault.message}"
  | .file fault => s!"{command}: {fault.message}"

def ScriptFault.message : ScriptFault → String
  | .syntaxFault fault => fault.message
  | .command name fault => fault.message name
  | .unknownCommand name => s!"Function '{name}' is not known in Tcl scope!"
  | .unknownVariable name => s!"Variable '{name}' is not known in Tcl scope!"
  | .escape c => s!"Could not handle escape sequence \\{c}"
  | .openBracket => "Missing close-bracket"
  | .substituting script fault location =>
    s!"Error when substituting '[{script}]':\n" ++ location.text ++ ": " ++ fault.message
  | .insideSubstitution completion => s!"invoked \"{completion}\" inside command substitution"
  | .outsideContext completion => s!"invoked \"{completion}\" outside of its context"

structure ScriptError where
  fault : ScriptFault
  location : Script.Location

def ScriptError.message (e : ScriptError) : String := e.location.text ++ ": " ++ e.fault.message

end RadarTimeline.Console
