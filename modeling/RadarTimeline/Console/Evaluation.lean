import RadarTimeline.Console.Operators

namespace RadarTimeline.Console

def dispatch (call : Call) (name : String) (args : List String) : Option Handler → Act Completion
  | some (.builtin b) => b.run call args
  | some (.procedure p) => call.procedure p args call.entry
  | some (.operator o) => o.run call args
  | none => throwThe Halt
      (.fault ⟨.unknownCommand name, call.command.wordLocation call.command.head⟩)

/-- Runs a command: its words are replaced from left to right, and the first one says what it
does. -/
def carryOut (setup : Setup) (run : Runner) (scope : Nat) (c : Script.Command) :
    Run Completion := do
  let name ← wordValue run scope c c.head
  let args ← c.args.mapM (wordValue run scope c)
  let entry ← Run.addEntry scope (name :: args)
  let handler := (← Run.scope scope).handler? name
  Run.record (.command scope (name :: args) handler)
  match ← (dispatch ⟨setup, run, scope, c, entry⟩ name args handler).run with
  | .error fault => Run.halt (.command name fault) c.location
  | .ok completion =>
    if let some value := completion.value? then
      Run.modifyEntry scope entry fun e => { e with result := value }
    return completion

/-- Runs commands up to the first that does not complete normally. -/
def carryOutAll (command : Script.Command → Run Completion) (last : Completion) :
    List Script.Command → Run Completion
  | [] => return last
  | c :: rest => do
    match ← command c with
    | .normal value => carryOutAll command (.normal value) rest
    | completion => return completion

/-- Runs a script whose commands run theirs with `run`. -/
def runScript (setup : Setup) (run : Runner) : Runner := fun scope script filename line =>
  match Script.readScript script filename line with
  | .error e => Run.halt (.syntaxFault e.fault) e.location
  | .ok commands => carryOutAll (carryOut setup run scope) (.normal "") commands

def runNested (setup : Setup) : Nat → Runner
  | 0 => fun _ _ _ _ => throw .tooDeep
  | depth + 1 => runScript setup (runNested setup depth)

def depthLimit : Nat := 3000

/-- The name of the root scope, and of scripts that come from no file. -/
def consoleName : String := "Console"

/-- The console of a site. Scripts of one site test which antenna they run on. -/
def State.initial (site : Site) (antenna : String) (oscillators : Oscillators := .ofSite site) :
    State where
  scopes := #[{
    parent := none
    name := consoleName
    bindings := [("32p", if antenna = "32p" then "1" else "0"),
      ("42p", if antenna = "42p" then "1" else "0")]
    state := .initial site antenna oscillators }]

/-- The value of a script, unless it completes in a way that has none. -/
def outermost (filename : String) (completion : Completion) : Run String :=
  match completion.value? with
  | some value => return value
  | none => Run.halt (.outsideContext completion.name) ⟨filename, 0, 0, 0⟩

def evaluate (setup : Setup) (script : String) (filename : String := consoleName) : Run String := do
  outermost filename (← runNested setup depthLimit 0 script filename 1)

def runExperiment (setup : Setup) (path : String) (args : List String) : Run String :=
  evaluate setup ("runexperiment " ++ Script.listText (path :: "0" :: args))

namespace State

def root (s : State) : Scope := s.scope 0

end State

end RadarTimeline.Console
