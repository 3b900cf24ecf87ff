import RadarTimeline.Number.Layout
import RadarTimeline.Number.Reading

namespace RadarTimeline

inductive Json where
  | null
  | bool (b : Bool)
  | num (x : Float)
  | str (s : String)
  | arr (items : List Json)
  | obj (members : List (String × Json))
deriving Inhabited

namespace Json

def nat (n : Nat) : Json := .num (Number.ofInt n)

def int (n : Int) : Json := .num (Number.ofInt n)

def ofOption : Option Json → Json
  | some j => j
  | none => .null

/-- Lower-case hexadecimal digits of a number below `2 ^ 16`. -/
def hex4 (n : Nat) : List Char :=
  [n / 0x1000 % 16, n / 0x100 % 16, n / 16 % 16, n % 16].map Nat.digitChar

def escapeChar (c : Char) : List Char :=
  match c with
  | '"' => ['\\', '"']
  | '\\' => ['\\', '\\']
  | '\n' => ['\\', 'n']
  | '\r' => ['\\', 'r']
  | '\t' => ['\\', 't']
  | _ =>
    if c.toNat = 8 then ['\\', 'b']
    else if c.toNat = 12 then ['\\', 'f']
    else if c.toNat < 0x20 then '\\' :: 'u' :: hex4 c.toNat
    else [c]

/-- A text in quotes; beyond the controls nothing but quotes and backslashes is escaped. -/
def quote (s : String) : String :=
  String.ofList ('"' :: (s.toList.flatMap escapeChar ++ ['"']))

/-- The index a member name spells, in its only spelling. -/
def indexKey? (key : String) : Option Nat :=
  match Number.readDigits? 10 key.toList with
  | some n => if toString n = key && n < 0xFFFFFFFF then some n else none
  | none => none

/-- Inserts a member by its index, in front of the members that are not named by an index. -/
def insertMember (index : Nat) (entry : String × Json) :
    List (String × Json) → List (String × Json)
  | [] => [entry]
  | m :: ms =>
    match indexKey? m.1 with
    | some i => if i ≤ index then m :: insertMember index entry ms else entry :: m :: ms
    | none => entry :: m :: ms

def ordered (members : List (String × Json)) : List (String × Json) :=
  members.foldl (fun sorted m => match indexKey? m.1 with
    | some i => insertMember i m sorted
    | none => sorted ++ [m]) []

def newline (depth : Nat) : String := String.ofList ('\n' :: List.replicate (2 * depth) ' ')

/-- Items on lines of their own; no items stay on one line. -/
def block (opening closing : String) (depth : Nat) (items : List String) : String :=
  if items.isEmpty then opening ++ closing
  else
    opening ++ newline (depth + 1) ++ String.intercalate ("," ++ newline (depth + 1)) items
      ++ newline depth ++ closing

mutual

/-- The text of a value nested `depth` deep, indented by two spaces a level. -/
def prettyAt (depth : Nat) : Json → String
  | .null => "null"
  | .bool b => if b then "true" else "false"
  | .num x => if x.isFinite then Number.text x else "null"
  | .str s => quote s
  | .arr items => block "[" "]" depth (prettyItems (depth + 1) items)
  | .obj members => block "\x7b" "\x7d" depth (prettyMembers (depth + 1) members)

def prettyItems (depth : Nat) : List Json → List String
  | [] => []
  | item :: items => prettyAt depth item :: prettyItems depth items

def prettyMembers (depth : Nat) : List (String × Json) → List String
  | [] => []
  | (key, value) :: members =>
    (quote key ++ ": " ++ prettyAt depth value) :: prettyMembers depth members

end

mutual

def sorted : Json → Json
  | .arr items => .arr (sortedItems items)
  | .obj members => .obj (ordered (sortedMembers members))
  | j => j

def sortedItems : List Json → List Json
  | [] => []
  | item :: items => sorted item :: sortedItems items

def sortedMembers : List (String × Json) → List (String × Json)
  | [] => []
  | (key, value) :: members => (key, sorted value) :: sortedMembers members

end

def pretty (j : Json) : String := prettyAt 0 j.sorted

end Json

end RadarTimeline
