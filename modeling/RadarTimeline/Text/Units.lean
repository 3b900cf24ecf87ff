namespace RadarTimeline.Text

def unitCount (c : Char) : Nat := if c.toNat < 0x10000 then 1 else 2

def unitLength (cs : List Char) : Nat := cs.foldl (fun n c => n + unitCount c) 0

def charUnits (c : Char) : List Nat :=
  let n := c.toNat
  if n < 0x10000 then [n] else [0xD800 + (n - 0x10000) / 0x400, 0xDC00 + (n - 0x10000) % 0x400]

def units (cs : List Char) : List Nat := cs.flatMap charUnits

def unitCompare (a b : String) : Ordering := compare (units a.toList) (units b.toList)

/-- The text from a unit on. A position inside a pair is taken to be just after its character, with
the length of the half that is left out. -/
def dropUnits : Nat → List Char → List Char × Nat
  | 0, cs => (cs, 0)
  | _ + 1, [] => ([], 0)
  | n + 1, c :: cs =>
    if n = 0 && unitCount c = 2 then (cs, 1) else dropUnits (n + 1 - unitCount c) cs

/-- `count` units of a text filled up with spaces on the right, as a table's columns need. -/
def padRight (count : Nat) (s : String) : String :=
  s ++ String.ofList (List.replicate (count - unitLength s.toList) ' ')

def unitAt? : List Char → Nat → Option Char
  | [], _ => none
  | c :: _, 0 => if unitCount c = 1 then some c else none
  | c :: cs, i + 1 =>
    if unitCount c = 1 then unitAt? cs i else if i = 0 then none else unitAt? cs (i - 1)

end RadarTimeline.Text
