import RadarTimeline.Number.Reading
import RadarTimeline.Text.Blank
import RadarTimeline.Number.Position

namespace RadarTimeline.FrequencyTable

/-- What is wrong with a line. Lines are given without comment and outer blanks. -/
inductive Fault where
  | wrongVersion (line : String)
  | missingVersion
  | malformed (line : String)
  | wrongIndex (expected : Nat) (token : String)
  | frequency (token : String)
deriving Repr, DecidableEq

def Fault.kind : Fault → String
  | .wrongVersion _ | .missingVersion => "version"
  | .malformed _ | .wrongIndex _ _ => "malformed"
  | .frequency _ => "frequency"

def versionWords : List String := ["NCOPAR_VS", "0.1"]

def Fault.detail : Fault → String
  | .wrongVersion line => s!"First line must be 'NCOPAR_VS 0.1', got '{line}'"
  | .missingVersion => "Missing 'NCOPAR_VS 0.1' line"
  | .malformed line => s!"Expected 'NCO <index> <frequency>', got '{line}'"
  | .wrongIndex expected token => s!"Expected NCO entry {expected}, got '{token}'"
  | .frequency token => s!"Invalid frequency '{token}'"

/-- A fault and the line it is in, counted from 1. A file without any line has it in line 0. -/
structure Error where
  fault : Fault
  line : Nat
deriving Repr, DecidableEq

def errorText (detail : String) (line : Position) : String := s!"NCO file line {line}: {detail}"

def Error.message (e : Error) : String := errorText e.fault.detail e.line

def code (line : List Char) : List Char := Text.trim (Text.beforeMarker '%' line)

def significant (text : String) : List (Nat × List Char) :=
  ((Text.lines text.toList).mapIdx fun i line => (i + 1, code line)).filter (!·.2.isEmpty)

def tokens (code : List Char) : List String := (Text.words code).map String.ofList

/-- The frequency of a line that holds the entry `index`. -/
def readEntry (index : Nat) (code : List Char) : Except Fault Float :=
  match tokens code with
  | ["NCO", number, frequency] =>
    if Number.toIndex? (Number.read number.toList) = some index then
      let value := Number.read frequency.toList
      if value.isNaN then .error (.frequency frequency) else .ok value
    else .error (.wrongIndex index number)
  | _ => .error (.malformed (String.ofList code))

/-- The frequencies of lines that hold the entries from `index` on. -/
def readEntries (index : Nat) : List (Nat × List Char) → Except Error (List Float)
  | [] => .ok []
  | (line, code) :: rest =>
    match readEntry index code with
    | .error fault => .error ⟨fault, line⟩
    | .ok value => (readEntries (index + 1) rest).map (value :: ·)

def parse (text : String) : Except Error (List Float) :=
  match significant text with
  | [] => .error ⟨.missingVersion, 0⟩
  | (line, code) :: rest =>
    if tokens code = versionWords then readEntries 0 rest
    else .error ⟨.wrongVersion (String.ofList code), line⟩

end RadarTimeline.FrequencyTable
