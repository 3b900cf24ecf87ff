import RadarTimeline.Console.Substitution
import RadarTimeline.Expr.Eval

namespace RadarTimeline.Console

/-- What all scripts of a run share. -/
structure Setup where
  files : FileTree
  limits : Configuration := {}
  operatorLog : String := "eros"
  languageLog : String := "tcl"

/-- A running command. -/
structure Call where
  setup : Setup
  run : Runner
  scope : Nat
  command : Script.Command
  entry : Nat

namespace Call

def usage {α : Type} (fault : UsageFault) : Act α := throw (.usage fault)

/-- Refuses arguments that do not match the usage of a command. -/
def refuse {α : Type} (text : String) : Act α := usage (.wrongArguments text)

def require (args : List String) (count : Nat) (text : String) : Act Unit :=
  if args.length < count then refuse text else pure ()

def give (value : String) : Act Completion := return .normal value

def done : Act Completion := give ""

def listElements (text : String) : Act (List String) := liftM (readList text)

variable (call : Call)

def getScope : Act Scope := Run.scope call.scope

def modifyScope (f : Scope → Scope) : Act Unit := Run.modifyScope call.scope f

def modifyState (f : SessionState → SessionState) : Act Unit :=
  call.modifyScope fun s => { s with state := f s.state }

def setVariable (name value : String) : Act Unit :=
  call.modifyScope fun s => { s with bindings := s.bindings.set name value }

def log (level : Log.Level) (message : String) : Act Unit :=
  Run.record (.logged ⟨level, call.setup.operatorLog, message, none⟩)

def logLanguage (level : Log.Level) (message : String) : Act Unit :=
  Run.record (.logged ⟨level, call.setup.languageLog, message, none⟩)

def runScript (script : String) : Act Completion :=
  call.run call.scope script call.command.filename call.command.head.line

def evaluate (expression : String) : Act String := do
  let location := call.command.location
  let context : Expr.Context Run :=
    { valueOf := fun name => variableValue call.scope name location
      runScript := fun script => bracketValue call.run call.scope script location
      fillIn := fun text => substitute call.run call.scope text location }
  match ← (Expr.evaluate context expression).run with
  | .ok value => return value
  | .error fault => throw (.expression fault)

def condition (expression : String) : Act Bool := do
  liftM ((Expr.textTruth (← call.evaluate expression)).mapError CommandFault.expression)

/-- Runs a file in the scope of the command. A file that cannot be read is skipped. -/
def runFile (path : String) : Act Completion := do
  match call.setup.files.read path with
  | .error fault =>
    call.logLanguage .warn s!"Not executing source file {path}: {fault.message}"
    done
  | .ok text => return (← call.run call.scope text path 1).settled

/-- What a call makes of the completion of its body. Only jumps pass it. -/
def leave : Completion → Act Completion
  | .normal _ => done
  | .returned value => give value
  | .jump words => return .jump words
  | c => usage (.outsideLoop c.name)

/-- Calls a procedure in a scope of its own, which is noted in a log entry of the calling scope.
What the body leaves in its state is then taken over. -/
def procedure (p : Procedure) (args : List String) (entry : Nat) : Act Completion := do
  match p.bind? args with
  | none => refuse p.usage
  | some bindings =>
    let child ← Run.openChild call.scope s!"proc {p.name}" bindings
    Run.modifyEntry call.scope entry fun e => { e with call := some child }
    let completion ← (call.run child p.body p.filename p.line : Run Completion)
    let left := (← (Run.scope child : Run Scope)).state
    call.modifyState (·.merge left)
    leave completion

def block (words : List String) (entry : Nat) : Act Completion := do
  let name := words.headD ""
  match (← call.getScope).procedure? name with
  | none => usage (.noBlock name)
  | some p => call.procedure p words.tail entry

def define (name parameters body : String) : Act Unit := do
  let signature ← liftM (Signature.read parameters)
  let line := ((call.command.words[3]?).map (·.line)).getD call.command.head.line
  let p : Procedure := ⟨name, signature, body, call.command.filename, line⟩
  call.modifyScope fun s => { s with procedures := s.procedures.set name p }

end Call

end RadarTimeline.Console
