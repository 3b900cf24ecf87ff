import RadarTimeline.Console.Run

namespace RadarTimeline.Console

/-- A part of a text that is replaced on its own. -/
inductive Piece where
  | literal (c : Char)
  | variable (name : String)
  | command (script : String)
  | fault (f : ScriptFault)

namespace Piece

def escaped : Char → Char
  | 'n' => '\n'
  | 'a' => '\x07'
  | 'b' => '\x08'
  | 'f' => '\x0c'
  | 'r' => '\r'
  | 't' => '\t'
  | 'v' => '\x0b'
  | c => c

def isCodeEscape (c : Char) : Bool :=
  c = 'x' || c = 'u' || c = 'U' || ('0' ≤ c && c ≤ '7')

def isIndent (c : Char) : Bool := c = ' ' || c = '\t'

def isNameChar (c : Char) : Bool := c.isAlphanum || c = '_'

/-- The parts of a qualified name after its first one, and the rest of the text. -/
def qualifiers : List Char → List Char × List Char
  | ':' :: ':' :: c :: cs =>
    if isNameChar c then
      let (more, rest) := qualifiers (cs.dropWhile isNameChar)
      (':' :: ':' :: c :: cs.takeWhile isNameChar ++ more, rest)
    else ([], ':' :: ':' :: c :: cs)
  | cs => ([], cs)
termination_by cs => cs.length
decreasing_by
  have := (List.dropWhile_suffix isNameChar (l := cs)).length_le
  simp; omega

theorem qualifiers_length (cs : List Char) : (qualifiers cs).2.length ≤ cs.length := by
  fun_induction qualifiers cs with
  | case1 c cs _ more rest h ih =>
    have := (List.dropWhile_suffix isNameChar (l := cs)).length_le
    simp_all; omega
  | case2 => simp
  | case3 => simp

/-- The variable named after a dollar sign, in braces or not, and the rest of the text. -/
def reference? : List Char → Option (String × List Char)
  | [] => none
  | c :: cs =>
    if c = '{' then
      match cs.dropWhile (· != '}') with
      | [] => none
      | _ :: rest => some (String.ofList (cs.takeWhile (· != '}')), rest)
    else if isNameChar c then
      let (more, rest) := qualifiers (cs.dropWhile isNameChar)
      some (String.ofList (c :: cs.takeWhile isNameChar ++ more), rest)
    else none

theorem reference?_length {cs rest : List Char} {name : String}
    (h : reference? cs = some (name, rest)) : rest.length < cs.length := by
  have hbrace := fun cs : List Char => (List.dropWhile_suffix (· != '}') (l := cs)).length_le
  have hname := fun cs : List Char => (List.dropWhile_suffix isNameChar (l := cs)).length_le
  fun_cases reference? cs <;> grind [reference?, qualifiers_length]

def ofChars : List Char → List Piece
  | [] => []
  | '\\' :: [] => [.literal '\\']
  | '\\' :: '\n' :: cs => .literal ' ' :: ofChars (cs.dropWhile isIndent)
  | '\\' :: c :: cs =>
    if isCodeEscape c then [.fault (.escape c)] else .literal (escaped c) :: ofChars cs
  | c :: cs =>
    if c = '$' then
      match _h : reference? cs with
      | some (name, rest) => .variable name :: ofChars rest
      | none => .literal '$' :: ofChars cs
    else if c = '[' then
      match _h : Script.bracketGroup? (c :: cs) with
      | some (group, rest) => .command (String.ofList (Script.inside group)) :: ofChars rest
      | none => [.fault .openBracket]
    else .literal c :: ofChars cs
termination_by cs => cs.length
decreasing_by
  · have := (List.dropWhile_suffix isIndent (l := cs)).length_le
    simp only [List.length_cons]; omega
  · simp only [List.length_cons]; omega
  · have := reference?_length _h
    simp only [List.length_cons]; omega
  · simp
  · exact Script.bracketGroup?_length _h
  · simp

end Piece

def variableValue (scope : Nat) (name : String) (location : Script.Location) : Run String := do
  match (← Run.scope scope).bindings.get? name with
  | some value => return value
  | none => Run.halt (.unknownVariable name) location

def bracketValue (run : Runner) (scope : Nat) (script : String) (location : Script.Location) :
    Run String := do
  let completion ← Run.mapFault
    (fun e => ⟨.substituting script e.fault e.location, location⟩)
    (run scope script location.filename location.line)
  match completion.value? with
  | some value => return value
  | none => Run.halt (.insideSubstitution completion.name) location

def Piece.value (run : Runner) (scope : Nat) (location : Script.Location) : Piece → Run String
  | .literal c => return c.toString
  | .variable name => variableValue scope name location
  | .command script => bracketValue run scope script location
  | .fault f => Run.halt f location

def substitute (run : Runner) (scope : Nat) (text : String) (location : Script.Location) :
    Run String := do
  return String.join (← (Piece.ofChars text.toList).mapM (·.value run scope location))

def wordValue (run : Runner) (scope : Nat) (c : Script.Command) (w : Script.Word) : Run String :=
  match w.kind with
  | .braced => return w.text
  | .bracketed => bracketValue run scope w.text (c.wordLocation w)
  | .bare | .quoted => substitute run scope w.text (c.wordLocation w)

end RadarTimeline.Console
