import RadarTimeline.Console.Handler
import RadarTimeline.Console.Procedure
import RadarTimeline.Log
import RadarTimeline.Session.State

namespace RadarTimeline.Console

abbrev Table (α : Type) := List (String × α)

namespace Table

variable {α : Type}

def get? (t : Table α) (name : String) : Option α := t.lookup name

def set : Table α → String → α → Table α
  | [], name, value => [(name, value)]
  | entry :: rest, name, value =>
    if entry.1 = name then (name, value) :: rest else entry :: set rest name value

def setAll (t : Table α) (entries : List (String × α)) : Table α :=
  entries.foldl (fun t e => t.set e.1 e.2) t

theorem get?_set (t : Table α) (name other : String) (value : α) :
    (t.set name value).get? other = if other = name then some value else t.get? other := by
  fun_induction set t name value <;> simp only [get?, List.lookup_cons] at * <;> grind

end Table

/-- A command that ran, its result, and the scope of the call it made. -/
structure Invocation where
  words : List String
  result : String := ""
  call : Option Nat := none
deriving Repr, DecidableEq

structure Scope where
  parent : Option Nat
  name : String
  bindings : Table String := []
  inherited : Table Procedure := []
  procedures : Table Procedure := []
  log : Array Invocation := #[]
  state : SessionState

instance : Inhabited Scope := ⟨{ parent := none, name := "", state := .initial .default "" }⟩

/-- The procedure a name stands for in a scope; its own come first. -/
def Scope.procedure? (s : Scope) (name : String) : Option Procedure :=
  (s.procedures.get? name).or (s.inherited.get? name)

def Scope.visible (s : Scope) : Table Procedure := s.inherited.setAll s.procedures

def Scope.child (s : Scope) (id : Nat) (name : String) (arguments : List (String × String)) :
    Scope where
  parent := some id
  name := name
  bindings := s.bindings.setAll arguments
  inherited := s.visible
  state := s.state

inductive Handler where
  | builtin (b : Builtin)
  | procedure (p : Procedure)
  | operator (o : Operator)

def Scope.handler? (s : Scope) (name : String) : Option Handler :=
  match Builtin.ofName? name with
  | some b => some (.builtin b)
  | none =>
    match s.procedure? name with
    | some p => some (.procedure p)
    | none => (Operator.ofName? name).map .operator

/-- What a run shows or does, in order. -/
inductive Event where
  | command (scope : Nat) (words : List String) (handler : Option Handler)
  | jump (scope : Nat) (words : List String)
  | printed (text : String)
  | logged (entry : Log.Entry)

/-- There is no scope of that id. -/
structure ScopeFault where
  id : Position
deriving Repr, DecidableEq

def ScopeFault.message (f : ScopeFault) : String := s!"No scope with id {f.id}"

structure State where
  scopes : Array Scope
  trace : Array Event := #[]

namespace State

def scope (s : State) (id : Nat) : Scope := s.scopes.getD id default

def findScope (s : State) (id : Position) : Except ScopeFault Nat :=
  match id.toIndex? with
  | some i => if i < s.scopes.size then .ok i else .error ⟨id⟩
  | none => .error ⟨id⟩

def modifyScope (s : State) (id : Nat) (f : Scope → Scope) : State :=
  { s with scopes := s.scopes.modify id f }

def record (s : State) (e : Event) : State := { s with trace := s.trace.push e }

/-- The words of the logged commands of some names. With `depth` above zero the calls of each
command are searched that deep, where they were made. -/
def callsIn (s : State) (names : List String) : Nat → Nat → List (List String)
  | 0, id =>
    ((s.scope id).log.toList.filter fun e => names.contains (e.words.headD "")).map (·.words)
  | depth + 1, id => (s.scope id).log.toList.flatMap fun e =>
    (if names.contains (e.words.headD "") then [e.words] else []) ++
      (e.call.map (callsIn s names depth)).getD []

/-- The words of every command of some names that ran in a scope and, if `recursive`, in its
calls. -/
def invocationsOf (s : State) (id : Nat) (names : List String) (recursive : Bool) :
    List (List String) :=
  s.callsIn names (if recursive then s.scopes.size else 0) id

def output (s : State) (start : Nat) : String :=
  String.join <| (s.trace.toList.drop start).filterMap fun
    | .printed text => some text
    | _ => none

def entries (s : State) (start : Nat) : List Log.Entry :=
  (s.trace.toList.drop start).filterMap fun
    | .logged entry => some entry
    | _ => none

end State

end RadarTimeline.Console
