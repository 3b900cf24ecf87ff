import RadarTimeline.Console.Scope

namespace RadarTimeline.Console

/-- How a script completes. All but `normal` unwind to what they are meant for. -/
inductive Completion where
  | normal (value : String)
  | returned (value : String)
  | broken
  | continued
  | jump (words : List String)
deriving Repr, DecidableEq

namespace Completion

def name : Completion → String
  | .normal _ => "normal"
  | .returned _ => "return"
  | .broken => "break"
  | .continued => "continue"
  | .jump _ => "gotoblock"

def value? : Completion → Option String
  | .normal value | .returned value => some value
  | _ => none

def settled : Completion → Completion
  | .returned value => .normal value
  | c => c

end Completion

inductive Halt where
  | fault (e : ScriptError)
  | tooDeep

abbrev Run := EStateM Halt State

/-- What commands do, which may fail for causes of their own. -/
abbrev Act := ExceptT CommandFault Run

abbrev Runner := (scope : Nat) → (script filename : String) → (line : Position) → Run Completion

namespace Run

def halt {α : Type} (fault : ScriptFault) (location : Script.Location) : Run α :=
  throw (.fault ⟨fault, location⟩)

def record (e : Event) : Run Unit := modify (·.record e)

def scope (id : Nat) : Run Scope := return (← get).scope id

def modifyScope (id : Nat) (f : Scope → Scope) : Run Unit := modify (·.modifyScope id f)

/-- Adds an entry to the log of a scope; the result is its index. -/
def addEntry (id : Nat) (words : List String) : Run Nat := do
  modifyScope id fun s => { s with log := s.log.push { words } }
  return (← scope id).log.size - 1

def modifyEntry (id index : Nat) (f : Invocation → Invocation) : Run Unit :=
  modifyScope id fun s => { s with log := s.log.modify index f }

/-- Opens the scope of a call; the result is its index. -/
def openChild (id : Nat) (name : String) (bindings : List (String × String)) : Run Nat := do
  modify fun s => { s with scopes := s.scopes.push ((s.scope id).child id name bindings) }
  return (← get).scopes.size - 1

def mapFault {α : Type} (f : ScriptError → ScriptError) (run : Run α) : Run α := fun state =>
  match run state with
  | .error (.fault e) state => .error (.fault (f e)) state
  | result => result

end Run

end RadarTimeline.Console
