import RadarTimeline.Site

namespace RadarTimeline.Console

inductive Builtin where
  | set | incr | append | lappend | global | info | expr | ifElse | for_ | while_ | foreach
  | return_ | break_ | continue_ | proc | eval | subst | source | exec | puts | list | llength
  | lindex | join | split | string
deriving Repr, DecidableEq

namespace Builtin

def all : List Builtin :=
  [.set, .incr, .append, .lappend, .global, .info, .expr, .ifElse, .for_, .while_, .foreach,
   .return_, .break_, .continue_, .proc, .eval, .subst, .source, .exec, .puts, .list, .llength,
   .lindex, .join, .split, .string]

def name : Builtin → String
  | .set => "set"
  | .incr => "incr"
  | .append => "append"
  | .lappend => "lappend"
  | .global => "global"
  | .info => "info"
  | .expr => "expr"
  | .ifElse => "if"
  | .for_ => "for"
  | .while_ => "while"
  | .foreach => "foreach"
  | .return_ => "return"
  | .break_ => "break"
  | .continue_ => "continue"
  | .proc => "proc"
  | .eval => "eval"
  | .subst => "subst"
  | .source => "source"
  | .exec => "exec"
  | .puts => "puts"
  | .list => "list"
  | .llength => "llength"
  | .lindex => "lindex"
  | .join => "join"
  | .split => "split"
  | .string => "string"

def ofName? (name : String) : Option Builtin := all.find? fun b => b.name = name

end Builtin

inductive Operator where
  | runexperiment | argv | block | callblock | gotoblock | loadfile
  | loadradar | armradar | startradar | stopradar | isradar | isSite (site : Site)
    | getstarttime | sync
  | selectlo | loadfrequency | readfrequencyfile | setfrequency | transferlo | setpanelpath
  | loadfilter | startdata | stopdata | disablerecording | writeexperimentfile
  | upar | timestamp | disp | logbook | mount
deriving Repr, DecidableEq

inductive Category where
  | experiment | radar | frequency | data | info
deriving Repr, DecidableEq

def Category.name : Category → String
  | .experiment => "experiment"
  | .radar => "radar"
  | .frequency => "frequency"
  | .data => "data"
  | .info => "info"

/-- What is said of an operator. -/
structure Documentation where
  name : String
  description : String
  category : Category
  stateful : Bool
deriving Repr, DecidableEq

namespace Operator

def all : List Operator :=
  [.runexperiment, .argv, .block, .callblock, .gotoblock, .loadfile, .loadradar, .armradar,
   .startradar, .stopradar, .isradar] ++ Site.all.map .isSite ++
  [.getstarttime, .sync, .selectlo, .loadfrequency, .readfrequencyfile, .setfrequency,
   .transferlo, .setpanelpath, .loadfilter, .startdata, .stopdata, .disablerecording,
   .writeexperimentfile, .upar, .timestamp, .disp, .logbook, .mount]

def siteDocumentation : Site → Documentation
  | .uhf => ⟨"isuhf", "1 at the UHF radar", .radar, false⟩
  | .vhf => ⟨"isvhf", "1 at the VHF radar", .radar, false⟩
  | .esr => ⟨"isesr", "1 at the ESR radar", .radar, false⟩
  | .kir => ⟨"iskir", "1 at Kiruna", .radar, false⟩
  | .sod => ⟨"issod", "1 at Sodankylä", .radar, false⟩

def documentation : Operator → Documentation
  | .runexperiment =>
    ⟨"runexperiment", "Run an experiment script: runexperiment <file> <start time> ?args ...?",
      .experiment, true⟩
  | .argv => ⟨"argv", "Arguments given to runexperiment after the start time", .experiment, false⟩
  | .block => ⟨"block", "Define an experiment block: block name args body", .experiment, true⟩
  | .callblock =>
    ⟨"callblock", "Call an experiment block and keep what it loaded", .experiment, true⟩
  | .gotoblock =>
    ⟨"gotoblock", "Terminate the running block and start another one", .experiment, true⟩
  | .loadfile => ⟨"loadfile", "Run a script file in the calling scope", .experiment, true⟩
  | .loadradar =>
    ⟨"loadradar",
      "Load a compiled controller program: " ++
        "loadradar <controller> -f <file> ?-l <loops>? ?-s <sync>?",
      .radar, true⟩
  | .armradar => ⟨"armradar", "Arm a radar controller to wait for its start pulse", .radar, false⟩
  | .startradar => ⟨"startradar", "Start the radar controllers at a time", .radar, false⟩
  | .stopradar => ⟨"stopradar", "Stop one or all radar controllers", .radar, false⟩
  | .isradar =>
    ⟨"isradar", "Radar name without arguments, otherwise 1 if the radar is one of them",
      .radar, false⟩
  | .isSite site => siteDocumentation site
  | .getstarttime =>
    ⟨"getstarttime", "Start time of a device, -1 when it has not started", .radar, false⟩
  | .sync => ⟨"sync", "Wait for a synchronisation point", .radar, false⟩
  | .selectlo =>
    ⟨"selectlo", "Set a local oscillator frequency: selectlo ?lo1|lo2? <path> <MHz>",
      .frequency, true⟩
  | .loadfrequency =>
    ⟨"loadfrequency",
      "Load an NCO file into channels: loadfrequency ?options? ?receiver? <file> <channels>",
      .frequency, true⟩
  | .readfrequencyfile =>
    ⟨"readfrequencyfile", "Frequency stored at an address of an NCO file", .frequency, false⟩
  | .setfrequency => ⟨"setfrequency", "Set channel frequencies directly", .frequency, false⟩
  | .transferlo => ⟨"transferlo", "Transfer control of the local oscillators", .frequency, false⟩
  | .setpanelpath =>
    ⟨"setpanelpath", "Route VHF antenna panels to the AD converters", .frequency, false⟩
  | .loadfilter =>
    ⟨"loadfilter", "Load a filter into channels: loadfilter ?receiver? <file> <channels> ?options?",
      .data, true⟩
  | .startdata =>
    ⟨"startdata",
      "Start correlator and recorder: startdata ?receiver? <corrfile> <expid> <iper> ?antenna?",
      .data, true⟩
  | .stopdata => ⟨"stopdata", "Stop correlator and recorder", .data, false⟩
  | .disablerecording =>
    ⟨"disablerecording", "Stop recording ion line, plasma line or both", .data, false⟩
  | .writeexperimentfile =>
    ⟨"writeexperimentfile", "Copy experiment files next to the data", .data, false⟩
  | .upar => ⟨"upar", "User parameters; reads always give 0", .info, false⟩
  | .timestamp => ⟨"timestamp", "Format a time in seconds since 1970 (UTC)", .info, false⟩
  | .disp => ⟨"disp", "Show text on the operator display", .info, false⟩
  | .logbook => ⟨"logbook", "Write into the logbook", .info, false⟩
  | .mount => ⟨"mount", "Mount a disk; experiment scripts should not", .info, false⟩

def name (o : Operator) : String := o.documentation.name

def ofName? (name : String) : Option Operator := all.find? fun o => o.name = name

end Operator

end RadarTimeline.Console
