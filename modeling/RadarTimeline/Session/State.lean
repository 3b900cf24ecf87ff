import RadarTimeline.Controller.Line
import RadarTimeline.Json
import RadarTimeline.Site

namespace RadarTimeline

/-- Files that were loaded; an empty name stands for none. -/
structure SessionFiles where
  receiver : String := ""
  transmitter : String := ""
  filter : String := ""
  correlator : String := ""
  tables : ChannelMap (Option String) := Vector.replicate 6 none
deriving DecidableEq

/-- When devices started, in seconds, or `-1`. -/
structure StartTimes where
  e : Int := -1
  b : Int := -1
  r : Int := -1
  t : Int := -1
  c : Int := -1
deriving Repr, DecidableEq

def StartTimes.entries (s : StartTimes) : List (Char × Int) :=
  [('e', s.e), ('b', s.b), ('r', s.r), ('t', s.t), ('c', s.c)]

structure SessionState where
  site : Site
  antenna : String
  oscillators : Oscillators
  files : SessionFiles := {}
  args : List String := []
  startTimes : StartTimes := {}

namespace SessionState

def initial (site : Site) (antenna : String) (oscillators : Oscillators := .ofSite site) :
    SessionState where
  site := site
  antenna := antenna
  oscillators := oscillators

/-- Takes over what a call has left; site, antenna and arguments are the caller's. -/
def merge (caller call : SessionState) : SessionState :=
  { caller with
    oscillators := call.oscillators
    files := call.files
    startTimes := call.startTimes }

def tableFiles (s : SessionState) : List (Channel × String) :=
  Channel.all.filterMap fun c =>
    match s.files.tables.get c with
    | some "" | none => none
    | some file => some (c, file)

def orDash (file : String) : String := if file = "" then "-" else file

def frequenciesText (frequencies : List (Option Float)) : String :=
  String.intercalate ", " (frequencies.map fun f => (f.map Number.text).getD "")

def text (s : SessionState) : String :=
  String.intercalate "\n" <|
    [s!"Radar: {s.site.name} (antenna {s.antenna})",
     s!"lo1: {frequenciesText s.oscillators.first} MHz",
     s!"lo2: {frequenciesText s.oscillators.second} MHz",
     s!"Receiver program: {orDash s.files.receiver}",
     s!"Transmitter program: {orDash s.files.transmitter}"] ++
    s.tableFiles.map fun (c, file) => s!"{Channel.name c} NCO file: {file}"

end SessionState

def tableFilesJson (files : Channel → Option String) : Json :=
  .obj (Channel.all.filterMap fun c => (files c).map fun file =>
  (toString (Channel.number c), .str file))

def frequenciesJson (frequencies : List (Option Float)) : Json :=
  .arr (frequencies.map fun f => Json.ofOption (f.map .num))

def SessionState.toJson (s : SessionState) : Json := .obj [
  ("radar", .str s.site.name),
  ("antenna", .str s.antenna),
  ("oscillators", .obj [("lo1", frequenciesJson s.oscillators.first),
    ("lo2", frequenciesJson s.oscillators.second)]),
  ("files", .obj [("rbin", .str s.files.receiver), ("tbin", .str s.files.transmitter),
    ("filter", .str s.files.filter), ("fil", .str s.files.correlator),
    ("nco", tableFilesJson s.files.tables.get)]),
  ("argv", .arr (s.args.map .str)),
  ("startTimes", .obj (s.startTimes.entries.map fun (device, time) =>
    (device.toString, .int time)))]

end RadarTimeline
