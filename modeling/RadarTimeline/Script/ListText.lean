import RadarTimeline.Script.Bracket
import RadarTimeline.Text.Blank

namespace RadarTimeline.Script

inductive ListFault where
  | openBrace
  | openQuote
deriving Repr, DecidableEq

def ListFault.message : ListFault → String
  | .openBrace => "unmatched open brace in list"
  | .openQuote => "unmatched open quote in list"

/-- The text in front of the first quote that no backslash escapes, and the text after it. -/
def upToQuote? : List Char → Option (List Char × List Char)
  | [] => none
  | '\\' :: c :: cs => (upToQuote? cs).map (cover ['\\', c])
  | c :: cs => if c = '"' then some ([], cs) else (upToQuote? cs).map (cover [c])

/-- The text in front of the first blank that no backslash escapes, and the rest with it. -/
def upToBlank : List Char → List Char × List Char
  | [] => ([], [])
  | '\\' :: c :: cs => cover ['\\', c] (upToBlank cs)
  | c :: cs => if Text.isBlank c then ([], c :: cs) else cover [c] (upToBlank cs)

@[grind →] theorem upToQuote?_length {cs content rest : List Char}
    (h : upToQuote? cs = some (content, rest)) : rest.length < cs.length := by
  fun_induction upToQuote? cs generalizing content rest <;>
    grind [cover, Option.map_eq_some_iff]

theorem upToBlank_length (cs : List Char) : (upToBlank cs).2.length ≤ cs.length := by
  fun_induction upToBlank cs <;> grind [cover]

theorem upToBlank_cons_length {c : Char} (cs : List Char) (h : Text.isBlank c = false) :
    (upToBlank (c :: cs)).2.length ≤ cs.length := by
  unfold upToBlank
  split <;> grind [cover, upToBlank_length]

/-- The elements of a list. A braced or quoted element need not be followed by a blank. -/
def elements : List Char → Except ListFault (List String)
  | [] => .ok []
  | c :: cs =>
    if _hb : Text.isBlank c then elements cs
    else if c = '{' then
      match _h : braceGroup? (c :: cs) with
      | none => .error .openBrace
      | some (group, rest) => (elements rest).map (String.ofList (inside group) :: ·)
    else if c = '"' then
      match _h : upToQuote? cs with
      | none => .error .openQuote
      | some (content, rest) => (elements rest).map (String.ofList content :: ·)
    else
      (elements (upToBlank (c :: cs)).2).map (String.ofList (upToBlank (c :: cs)).1 :: ·)
termination_by cs => cs.length
decreasing_by all_goals grind [upToBlank_cons_length]

def listElements (s : String) : Except ListFault (List String) := elements s.toList

def needsBraces (c : Char) : Bool :=
  Text.isBlank c || ['{', '}', '"', '[', ']', '$', ';', '\\'].contains c

def elementText (s : String) : String :=
  if s = "" then "\x7b\x7d"
  else if s.toList.any needsBraces || s.toList.head? = some '#' then "\x7b" ++ s ++ "\x7d"
  else s

def listText (xs : List String) : String := String.intercalate " " (xs.map elementText)

end RadarTimeline.Script
