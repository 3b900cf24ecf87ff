import RadarTimeline.Console.Fault

namespace RadarTimeline.Console

structure Parameter where
  name : String
  fallback : Option String := none
deriving Repr, DecidableEq

/-- Parameters in order, and whether what is left of the arguments is collected. -/
structure Signature where
  parameters : List Parameter
  collects : Bool
deriving Repr, DecidableEq

/-- A procedure or an experiment block. Its body is located where it was written. -/
structure Procedure where
  name : String
  signature : Signature
  body : String
  filename : String
  line : Position
deriving Repr, DecidableEq

def readList (text : String) : Except CommandFault (List String) :=
  (Script.listElements text).mapError .list

namespace Signature

def collector : String := "args"

def cons (p : Parameter) (s : Signature) : Signature := { s with parameters := p :: s.parameters }

/-- Reads parameters that follow others. After one with a default all have defaults. -/
def readAfter (defaulted : Bool) : List String → Except CommandFault Signature
  | [] => .ok ⟨[], false⟩
  | element :: rest => do
    match ← readList element with
    | [name] =>
      if name = collector && rest.isEmpty then return ⟨[], true⟩
      else if defaulted then throw (.usage (.parameterOrder name))
      else return (← readAfter false rest).cons ⟨name, none⟩
    | [name, fallback] => return (← readAfter true rest).cons ⟨name, some fallback⟩
    | _ => throw (.usage (.parameterForm element))

/-- Reads a parameter list: names, and names with defaults. -/
def read (text : String) : Except CommandFault Signature := do
  readAfter false (← readList text)

/-- The variables of a call; there are none if an argument is missing or left over. -/
def bind? (collects : Bool) : List Parameter → List String → Option (List (String × String))
  | [], [] => some (if collects then [(collector, "")] else [])
  | [], arg :: args =>
    if collects then some [(collector, Script.listText (arg :: args))] else none
  | p :: ps, arg :: args => (bind? collects ps args).map ((p.name, arg) :: ·)
  | p :: ps, [] => p.fallback.bind fun value => (bind? collects ps []).map ((p.name, value) :: ·)

end Signature

namespace Procedure

def bind? (p : Procedure) (args : List String) : Option (List (String × String)) :=
  Signature.bind? p.signature.collects p.signature.parameters args

def usage (p : Procedure) : String :=
  let words := p.signature.parameters.map fun q =>
    if q.fallback.isNone then q.name else s!"?{q.name}?"
  let rest := if p.signature.collects then ["?arg ...?"] else []
  String.intercalate " " (p.name :: words ++ rest)

end Procedure

end RadarTimeline.Console
