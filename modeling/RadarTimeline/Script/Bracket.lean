import RadarTimeline.Text.Units
import RadarTimeline.Number.Position

namespace RadarTimeline.Script

def cover (pre : List Char) (split : List Char × List Char) : List Char × List Char :=
  (pre ++ split.1, split.2)

def closeBrace? (depth : Int) : List Char → Option (List Char × List Char)
  | [] => none
  | '\\' :: c :: cs => (closeBrace? depth cs).map (cover ['\\', c])
  | c :: cs =>
    if c = '{' then (closeBrace? (depth + 1) cs).map (cover [c])
    else if c = '}' then
      if depth - 1 = 0 then some ([c], cs) else (closeBrace? (depth - 1) cs).map (cover [c])
    else (closeBrace? depth cs).map (cover [c])

/-- Splits a text after the bracket that brings the depth back to zero. `braces` is the depth of the
brace group that hides the brackets, zero outside. -/
def closeBracket? (depth : Int) (braces : Nat) : List Char → Option (List Char × List Char)
  | [] => none
  | '\\' :: c :: cs => (closeBracket? depth braces cs).map (cover ['\\', c])
  | c :: cs =>
    if braces = 0 then
      if c = '[' then (closeBracket? (depth + 1) 0 cs).map (cover [c])
      else if c = ']' then
        if depth - 1 = 0 then some ([c], cs) else (closeBracket? (depth - 1) 0 cs).map (cover [c])
      else (closeBracket? depth (if c = '{' then 1 else 0) cs).map (cover [c])
    else if c = '{' then (closeBracket? depth (braces + 1) cs).map (cover [c])
    else if c = '}' then (closeBracket? depth (braces - 1) cs).map (cover [c])
    else (closeBracket? depth braces cs).map (cover [c])

/-- The brace group at the start of a text, delimiters included, and the text after it. -/
def braceGroup? (cs : List Char) : Option (List Char × List Char) := closeBrace? 0 cs

/-- The bracket group at the start of a text, delimiters included, and the text after it. -/
def bracketGroup? (cs : List Char) : Option (List Char × List Char) := closeBracket? 0 0 cs

theorem closeBrace?_append {depth : Int} {cs : List Char} {split : List Char × List Char}
    (h : closeBrace? depth cs = some split) : split.1 ++ split.2 = cs := by
  fun_induction closeBrace? depth cs generalizing split <;> grind [cover, Option.map_eq_some_iff]

theorem closeBracket?_append {depth : Int} {braces : Nat} {cs : List Char}
    {split : List Char × List Char} (h : closeBracket? depth braces cs = some split) :
    split.1 ++ split.2 = cs := by
  fun_induction closeBracket? depth braces cs generalizing split <;>
    grind [cover, Option.map_eq_some_iff]

theorem closeBrace?_ne_nil {depth : Int} {cs : List Char} {split : List Char × List Char}
    (h : closeBrace? depth cs = some split) : split.1 ≠ [] := by
  fun_induction closeBrace? depth cs generalizing split <;> grind [cover, Option.map_eq_some_iff]

theorem closeBracket?_ne_nil {depth : Int} {braces : Nat} {cs : List Char}
    {split : List Char × List Char} (h : closeBracket? depth braces cs = some split) :
    split.1 ≠ [] := by
  fun_induction closeBracket? depth braces cs generalizing split <;>
    grind [cover, Option.map_eq_some_iff]

@[grind →] theorem braceGroup?_append {cs group rest : List Char}
    (h : braceGroup? cs = some (group, rest)) :
    group ++ rest = cs := closeBrace?_append h

@[grind →] theorem bracketGroup?_append {cs group rest : List Char}
    (h : bracketGroup? cs = some (group, rest)) : group ++ rest = cs := closeBracket?_append h

@[grind →] theorem bracketGroup?_ne_nil {cs group rest : List Char}
    (h : bracketGroup? cs = some (group, rest)) : group ≠ [] := closeBracket?_ne_nil h

@[grind →] theorem braceGroup?_length {cs group rest : List Char}
    (h : braceGroup? cs = some (group, rest)) :
    rest.length < cs.length := by
  have := List.length_pos_iff.2 (closeBrace?_ne_nil h)
  have := congrArg List.length (braceGroup?_append h)
  simp at *; omega

@[grind →] theorem bracketGroup?_length {cs group rest : List Char}
    (h : bracketGroup? cs = some (group, rest)) : rest.length < cs.length := by
  have := List.length_pos_iff.2 (bracketGroup?_ne_nil h)
  have := congrArg List.length (bracketGroup?_append h)
  simp at *; omega

def inside (group : List Char) : List Char := (group.drop 1).dropLast

/-- The unit index at which a search that starts at a unit index stops. An index before the text
starts at its beginning, and a number that is no index finds nothing. -/
def closeIndex? (search : List Char → Option (List Char × List Char)) (text : String)
    (start : Position) : Option Nat := do
  let start ← start.floorIndex?
  let (rest, half) := Text.dropUnits start text.toList
  let (group, _) ← search rest
  return start + half + Text.unitLength group - 1

end RadarTimeline.Script
