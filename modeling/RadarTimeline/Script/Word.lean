import RadarTimeline.Number.Position

namespace RadarTimeline.Script

/-- A stretch of a source line. Lines and columns count from one; zero or less means unknown. -/
structure Location where
  filename : String
  line : Position
  first : Position
  last : Position
deriving Repr, DecidableEq

/-- A location as messages show it, without the parts that are unknown. -/
def Location.text (l : Location) : String :=
  let line := if l.line.isPositive then s!", line {l.line}" else ""
  let columns :=
    if !l.first.isPositive then ""
    else if l.first.before l.last then s!", chars {l.first}–{l.last}"
    else s!", char {l.first}"
  l.filename ++ line ++ columns

inductive WordKind where
  | bare | quoted | braced | bracketed
deriving Repr, DecidableEq

def WordKind.name : WordKind → String
  | .bare => "bare"
  | .quoted => "quoted"
  | .braced => "braced"
  | .bracketed => "bracketed"

/-- A word: the text between its delimiters, and the place of the whole word. -/
structure Word where
  kind : WordKind
  text : String
  line : Position
  first : Int
  last : Int
deriving Repr, DecidableEq

/-- A word as it is written in a command. A bracketed word is shown without its brackets. -/
def Word.source (w : Word) : String :=
  match w.kind with
  | .quoted => "\"" ++ w.text ++ "\""
  | .braced => "\x7b" ++ w.text ++ "\x7d"
  | .bare | .bracketed => w.text

/-- A command is never empty. -/
structure Command where
  filename : String
  head : Word
  args : List Word
deriving Repr, DecidableEq

namespace Command

def words (c : Command) : List Word := c.head :: c.args

def last (c : Command) : Word := c.args.getLastD c.head

def location (c : Command) : Location :=
  ⟨c.filename, c.head.line, c.head.first, c.last.last⟩

def wordLocation (c : Command) (w : Word) : Location := ⟨c.filename, w.line, w.first, w.last⟩

def source (c : Command) : String := String.intercalate " " (c.words.map Word.source)

end Command

end RadarTimeline.Script
