import RadarTimeline.Console.Call

namespace RadarTimeline.Console

def controllers : List String :=
  ["transmitter", "receiver", "ion line receiver", "plasma line receiver"]

def choose (choices : List String) (word : String) : Act String :=
  match choices.filter (·.startsWith word) with
  | [choice] => return choice
  | [] => Call.usage (.noChoice word choices)
  | several => Call.usage (.ambiguous word several)

def receiverLine? (word : String) : Option String :=
  if word = "" then none
  else if "plasmaline".startsWith word then some "plasmaline"
  else if "ionline".startsWith word then some "ionline"
  else none

def digitRuns (cs : List Char) : List (List Char) :=
  (Text.splitAt (!Number.isDigit ·) cs).filter (!·.isEmpty)

def readChannel (digits : List Char) : Act Channel :=
  match Channel.ofNumber? (Number.digitsValue 10 digits) with
  | some c => return c
  | none => Call.usage (.noChannel (String.ofList digits))

/-- The channels of a channel list, such as `1,2`. -/
def readChannels (text : String) : Act (List Channel) := (digitRuns text.toList).mapM readChannel

def channelsText (channels : List Channel) : String :=
  commaList (channels.map fun c => toString (Channel.number c))

def optionLetter (option : String) : String :=
  ((Text.unitAt? option.toList 1).map fun c => Text.lowerString c.toString).getD ""

structure ChannelWords where
  options : List String
  target : String
  channels : List Channel

/-- Reads arguments; the receiver may be missing. -/
def ChannelWords.read (args : List String) : Act ChannelWords := do
  match args.reverse with
  | list :: target :: before =>
    let receiver := before.head?.bind receiverLine?
    let options := (if receiver.isSome then before.tail else before).reverse
    return ⟨options.map optionLetter, target, ← readChannels list⟩
  | _ => Call.usage .noTarget

def frequencyChange (site : Site) (options : List String) (what : String) : String :=
  let test := options.contains "t"
  let verb :=
    if options.contains "v" then (if test then "Verbose test" else "Verbose load")
    else if test then "Test" else "Load"
  let correct := if options.contains "e" || site = .esr then "and correct " else ""
  let uncorrected := if options.contains "u" || site != .esr then " uncorrected" else ""
  s!"{verb} {correct}{what}{uncorrected}"

def pathNames : Site → List (String × Nat)
  | .uhf => [("i", 1), ("ion", 1), ("1", 1), ("p", 2), ("pla", 2), ("2", 2)]
  | .vhf => [("I", 1), ("A", 1), ("II", 2), ("B", 2)]
  | .esr =>
    [("P1", 1), ("U32", 1), ("32U", 1), ("U32m", 1), ("U", 1),
     ("P2", 2), ("D32", 2), ("32D", 2), ("D32m", 2), ("D", 2),
     ("P3", 3), ("U42", 3), ("42U", 3), ("U42m", 3),
     ("P4", 4), ("D42", 4), ("42D", 4), ("D42m", 4)]
  | .kir | .sod => []

end RadarTimeline.Console
