import RadarTimeline.Text.CaseTable

namespace RadarTimeline.Text

def mapped? (table : Array (Nat × Nat × Nat × Nat)) (n : Nat) : Option Char :=
  (table.find? fun (first, last, step, _) => first ≤ n && n ≤ last && (n - first) % step = 0).map
    fun (first, _, _, target) => Char.ofNat (target + (n - first))

def mapChar (singles : Array (Nat × Nat × Nat × Nat)) (sequences : Array (Nat × List Nat))
    (c : Char) : List Char :=
  match sequences.find? fun (n, _) => n = c.toNat with
  | some (_, target) => target.map Char.ofNat
  | none => [(mapped? singles c.toNat).getD c]

def upperChar (c : Char) : List Char :=
  if c.toNat < 0x80 then [c.toUpper] else mapChar CaseTable.upper CaseTable.upperSequences c

def lowerChar (c : Char) : List Char :=
  if c.toNat < 0x80 then [c.toLower] else mapChar CaseTable.lower CaseTable.lowerSequences c

def inRanges (ranges : Array (Nat × Nat)) (c : Char) : Bool :=
  ranges.any fun (first, last) => first ≤ c.toNat && c.toNat ≤ last

/-- The first character that is not to be skipped is a letter with case. -/
def startsCased (cs : List Char) : Bool :=
  match cs.dropWhile (inRanges CaseTable.ignorable) with
  | [] => false
  | c :: _ => inRanges CaseTable.cased c

def lowerAfter (before : List Char) : List Char → List Char
  | [] => []
  | c :: cs =>
    let image :=
      if c = 'Σ' then
        if startsCased before && !startsCased cs then ['ς'] else ['σ']
      else lowerChar c
    image ++ lowerAfter (c :: before) cs

def upper (cs : List Char) : List Char := cs.flatMap upperChar

def lower (cs : List Char) : List Char := lowerAfter [] cs

def upperString (s : String) : String := String.ofList (upper s.toList)

def lowerString (s : String) : String := String.ofList (lower s.toList)

end RadarTimeline.Text
