import RadarTimeline.Controller.Fault
import RadarTimeline.Number.Reading
import RadarTimeline.Text.Blank

namespace RadarTimeline.Controller

/-- A command, its time in seconds from the time control register, and its line. -/
structure Command where
  time : Float
  mnemonic : String
  line : Position
deriving Inhabited

def microsecond : Float := 1e-6

def Command.text (c : Command) : String :=
  s!"{c.mnemonic} at {Number.text (c.time / microsecond)} µs (line {c.line})"

/-- A time in µs: a number that is finite and not negative. -/
def readTime? (token : List Char) : Option Float :=
  let value := Number.read token
  if value.isFinite && !(decide (value < 0)) then some (value * microsecond) else none

def readTime (token : List Char) (line : Position) : Except ProgramError Float :=
  match readTime? token with
  | some time => .ok time
  | none => .error ⟨.invalidTime (String.ofList token), line⟩

/-- The mnemonics of a token, which are joined by commas. -/
def mnemonics (token : List Char) : List String :=
  ((Text.splitAt (· = ',') token).filter (!·.isEmpty)).map String.ofList

def readWords (line : Position) : List (List Char) → Except ProgramError (List Command)
  | [] => .ok []
  | word :: args =>
    if word = "AT".toList then
      match args with
      | time :: token :: tokens => do
        let time ← readTime time line
        return ((token :: tokens).flatMap mnemonics).map fun mnemonic => ⟨time, mnemonic, line⟩
      | _ => .error ⟨.noCommands, line⟩
    else if word = "SETTCR".toList then
      match args with
      | time :: _ => do return [⟨← readTime time line, "SETTCR", line⟩]
      | [] => .error ⟨.invalidTime "", line⟩
    else .error ⟨.noStatement, line⟩

def readLine (source : List Char) (line : Position) : Except ProgramError (List Command) :=
  readWords line (Text.words (Text.beforeMarker '%' source))

/-- The commands up to the first `REP`, and whether there is one. -/
def untilEnd : List Command → List Command × Bool
  | [] => ([], false)
  | c :: rest =>
    if c.mnemonic = "REP" then ([c], true)
    else
      let (before, found) := untilEnd rest
      (c :: before, found)

/-- The commands of the lines from number `line` on. -/
def readLines (line : Nat) : List (List Char) → Except ProgramError (List Command)
  | [] => .ok []
  | source :: rest => do
    let (commands, found) := untilEnd (← readLine source line)
    if found then return commands else return commands ++ (← readLines (line + 1) rest)

def readProgram (text : String) : Except ProgramError (List Command) :=
  readLines 1 (Text.lines text.toList)

end RadarTimeline.Controller
