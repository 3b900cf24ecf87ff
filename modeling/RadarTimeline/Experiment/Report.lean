import RadarTimeline.Experiment.Timeline
import RadarTimeline.Session.State
import RadarTimeline.Text.Units

namespace RadarTimeline

def microsecondsText (seconds : Float) : String :=
  Number.text (Number.roundFloat (seconds / Controller.microsecond * 1000) / 1000)

def windowsText (windows : List Interval) : String :=
  String.intercalate ", " <| windows.map fun w =>
    s!"{microsecondsText w.start}-{microsecondsText w.stop}"

def Interval.toJson (iv : Interval) : Json := .obj [("begin", .num iv.start), ("end", .num iv.stop)]

def windowsJson (windows : List Interval) : Json := .arr (windows.map Interval.toJson)

namespace SubcycleTimeline

def frequencyText (p : FrequencyChange) : String :=
  s!"{Number.text p.frequency} MHz at {microsecondsText p.time}"

def overlapText (o : Overlap) : String :=
  s!"  overlap RF {windowsText [o.transmit]} with {Channel.name o.channel} " ++
    windowsText [o.receive]

def baudLines (timing : SubcycleTimeline) : List String :=
  match timing.bauds.filterMap id with
  | [] => []
  | bauds => ["  baud    " ++ String.intercalate ", " (bauds.map microsecondsText)]

def frequencyLine (c : Channel) (series : FrequencyHistory) : String :=
  s!"  f({Channel.name c}) " ++ String.intercalate ", " (series.points.toList.map frequencyText)

/-- A subcycle in lines. Subcycles are counted from 1 here. -/
def lines (timing : SubcycleTimeline) : List String :=
  [s!"Subcycle {timing.index + 1}: {windowsText [timing.interval]} µs",
   s!"  RF      {windowsText timing.transmits}"] ++
  timing.receives.map (fun (c, windows) => s!"  {Channel.name c}     {windowsText windows}") ++
  timing.settings.map (fun (s, windows) => s!"  {Text.padRight 8 s.name}{windowsText windows}") ++
  timing.baudLines ++
  timing.frequencies.map (fun (c, series) => frequencyLine c series) ++
  timing.overlaps.map overlapText

def text (timing : SubcycleTimeline) : String := String.intercalate "\n" timing.lines

def phaseShiftJson (e : Timed Phase) : Json :=
  .obj [("time", .num e.time), ("event", .nat e.event.degrees)]

def pointJson (p : FrequencyChange) : Json :=
  .obj [("time", .num p.time), ("frequency", .num p.frequency)]

def overlapJson (o : Overlap) : Json :=
  .obj [("transmit", o.transmit.toJson), ("channel", .nat (Channel.number o.channel)),
    ("receive", o.receive.toJson)]

def channelKey (c : Channel) : String := toString (Channel.number c)

def toJson (timing : SubcycleTimeline) : Json := .obj [
  ("index", .nat timing.index),
  ("interval", timing.interval.toJson),
  ("transmits", windowsJson timing.transmits),
  ("receives", .obj (timing.receives.map fun (c, windows) => (channelKey c, windowsJson windows))),
  ("settings", .obj (timing.settings.map fun (s, windows) => (s.name, windowsJson windows))),
  ("phaseShifts", .arr (timing.phaseShifts.map phaseShiftJson)),
  ("baudLengths", .arr (timing.bauds.map fun baud => Json.ofOption (baud.map .num))),
  ("frequencies", .obj (timing.frequencies.map fun (c, series) =>
    (channelKey c, .arr (series.points.toList.map pointJson)))),
  ("overlaps", .arr (timing.overlaps.map overlapJson))]

end SubcycleTimeline

def members (entries : List (String × Option Json)) : List (String × Json) :=
  entries.filterMap fun (key, value) => value.map (key, ·)

def Source.toJson (s : Source) : Json := .obj <| members [
  ("name", some (.str s.name)),
  ("radar", some (.str s.site.name)),
  ("script", s.script.map .str),
  ("program", s.program.map .str),
  ("ncoFiles", some (tableFilesJson s.tables))]

def Controller.Warning.toJson (w : Controller.Warning) : Json :=
  .obj [("line", .num w.line.toFloat), ("mnemonic", .str w.mnemonic), ("message", .str w.message)]

def Experiment.toJson (e : Experiment) : Json := .obj [
  ("source", e.source.toJson),
  ("cycle", e.cycle.toJson),
  ("filtersStartedAt", Json.ofOption (e.filtersStarted.map .num)),
  ("warnings", .arr (e.warnings.map (·.toJson))),
  ("subcycles", .arr (e.subcycles.map SubcycleTimeline.toJson))]

end RadarTimeline
