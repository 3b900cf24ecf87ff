import RadarTimeline.Console.CoreCommands
import RadarTimeline.Console.Channels
import RadarTimeline.Console.Timestamp
import RadarTimeline.Receiver.FrequencyTable

namespace RadarTimeline.Console.Operator

open Call (give done require usage)

variable (call : Call)

def flag (b : Bool) : String := if b then "1" else "0"

def getState : Act SessionState := return (← call.getScope).state

def logInfo (message : String) : Act Unit := call.log .info message

/-- Follows jumps between the blocks of an experiment, at most `remaining` of them. Each has an
entry of its own in the log. -/
def followJumps : Nat → Completion → Act Completion
  | 0, .jump _ => usage (.tooManyJumps call.setup.limits.jumpLimit)
  | remaining + 1, .jump words => do
    let entry ← Run.addEntry call.scope words
    Run.record (.jump call.scope words)
    followJumps remaining (← call.block words entry)
  | _, completion => return completion.settled

/-- Runs an experiment: the first argument names its script, and those after the second are given to
it. -/
def runExperiment (args : List String) : Act Completion := do
  require args 1 "runexperiment file ?starttime? ?arg ...?"
  let limits := call.setup.limits
  let file ← liftM <|
    (FoundFile.find call.setup.files (args.headD "") ".elan" limits.roots).mapError
      CommandFault.file
  call.modifyState fun s => { s with args := args.drop 2 }
  logInfo call s!"Running experiment {file.name} ({file.path})"
  let text := (call.setup.files.read file.path).toOption.getD ""
  let completion ← (call.run call.scope text file.path 1 : Run Completion)
  followJumps call limits.jumpLimit.rounds completion

def defineBlock : List String → Act Completion
  | [name, parameters, body] => do
    call.define name parameters body
    call.log .debug s!"Defined BLOCK {name}"
    done
  | _ => Call.refuse "block name args body"

def openBlock (args : List String) : Act Completion := do
  require args 1 "callblock name ?arg ...?"
  let name := args.headD ""
  logInfo call s!"Enters BLOCK {name}"
  call.block args call.entry

def gotoBlock (args : List String) : Act Completion := do
  require args 1 "gotoblock name ?arg ...?"
  logInfo call ("Terminate current BLOCK and call " ++ String.intercalate " " args)
  return .jump args

/-- An option of `loadradar` with its value. -/
def loadOption (controller option value : String) : Act Unit := do
  match Text.unitAt? option.toList 1 with
  | some 'f' =>
    call.modifyState fun s =>
      let files :=
        if controller = "transmitter" then { s.files with transmitter := value }
        else { s.files with receiver := value }
      { s with files }
    logInfo call s!"Load compiled controller program {value}"
  | some 'l' => logInfo call s!"Set loop counter to {value}"
  | some 's' =>
    let period := Number.text (Number.read value.toList / 10)
    logInfo call s!"Set synchronisation period to {period} µs"
  | _ => usage (.unknownOption option)

def loadOptions (controller : String) : List String → Act Unit
  | option :: value :: rest => do
    loadOption call controller option value
    loadOptions controller rest
  | _ => pure ()

def loadRadar : List String → Act Completion
  | [] => Call.refuse "loadradar controller ?-option value ...?"
  | which :: options => do
    let controller ← choose controllers which
    if options.length % 2 ≠ 0 then usage (.noOptionValue (options.getLastD ""))
    logInfo call s!"Load {controller} controller"
    loadOptions call controller options
    done

def armRadar (args : List String) : Act Completion := do
  require args 1 "armradar controller"
  let controller := args.headD ""
  logInfo call
    s!"Set {controller} controller start address and registers and wait for a start pulse"
  done

def startRadar : List String → Act Completion
  | [] => Call.refuse "startradar timespec ?integrationperiod?"
  | time :: rest => do
    let time := if (Text.upperString time).startsWith "E" then "ETIME" else time
    let period := match rest with
      | period :: _ => s!", integration period {period} s"
      | [] => ""
    logInfo call s!"Radar controllers will start at {time}{period}"
    done

def stopRadar (args : List String) : Act Completion := do
  let word := args.headD "all"
  let controller := match word.toList with
    | '-' :: rest => String.ofList rest
    | _ => word
  if "all".startsWith controller then logInfo call "Stop all radar controllers"
  else
    let controller ← choose controllers controller
    logInfo call s!"Stop {controller} controller"
  done

def testSite (args : List String) : Act Completion := do
  let site := (← getState call).site
  give (if args.isEmpty then site.name else flag (args.contains site.name))

def getStartTime : List String → Act Completion
  | [] => Call.refuse "getstarttime device"
  | device :: _ => do
    let letter := (Text.unitAt? device.toList 0).map fun c => Text.lowerString c.toString
    let times := (← getState call).startTimes.entries
    match times.find? fun entry => some entry.1.toString == letter with
    | some (_, time) => give (toString time)
    | none => usage (.unknownDevice device)

inductive OscillatorKind where
  | first | second
deriving Repr, DecidableEq

def OscillatorKind.name : OscillatorKind → String
  | .first => "lo1"
  | .second => "lo2"

def OscillatorKind.setIn (kind : OscillatorKind) (o : Oscillators) (index : Nat)
    (frequency : Float) :
    Oscillators :=
  match kind with
  | .first => { o with first := Oscillators.setEntry o.first index frequency }
  | .second => { o with second := Oscillators.setEntry o.second index frequency }

def selectedOscillator (site : Site) (args : List String) : Act OscillatorKind :=
  match args with
  | name :: _ :: _ :: _ =>
    match name.toList.getLast? with
    | some '1' => return .first
    | some '2' => return .second
    | _ => usage (.unknownOscillator name)
  | _ =>
    match site with
    | .uhf => return .second
    | .esr => return .first
    | _ => usage (.oscillatorNeeded site)

def selectLo (args : List String) : Act Completion := do
  match args.reverse with
  | token :: path :: _ =>
    let site := (← getState call).site
    let frequency := Number.read token.toList
    if !frequency.isFinite then usage (.notFrequency token)
    if (pathNames site).isEmpty then usage (.fixedOscillators site)
    match (pathNames site).lookup path with
    | none => usage (.unknownPath path site)
    | some number =>
      let kind ← selectedOscillator site args
      call.modifyState fun s =>
        { s with oscillators := kind.setIn s.oscillators (number - 1) frequency }
      let value := Number.text frequency
      logInfo call <| "Select local oscillator frequencies: " ++
        s!"{kind.name}, path {path}, frequency {value} MHz"
      done
  | _ => Call.refuse "selectlo ?oscillator? path frequency"

def loadFrequency (args : List String) : Act Completion := do
  require args 2 "loadfrequency ?options? ?receiver? file channels"
  let a ← ChannelWords.read args
  call.modifyState fun s =>
    let tables := a.channels.foldl (fun t c => t.set c (some a.target)) s.files.tables
    { s with files := { s.files with tables } }
  let what := s!"frequencies from file {a.target} into channels {channelsText a.channels}"
  logInfo call (frequencyChange (← getState call).site a.options what)
  done

/-- The frequencies of a file, or why there are none. -/
def readTable (file : String) : Except String (List Float) := do
  let found ← (FoundFile.find call.setup.files file ".nco" call.setup.limits.roots).mapError
    (·.message)
  let text ← (call.setup.files.read found.path).mapError (·.message)
  (FrequencyTable.parse text).mapError (·.message)

def readFrequencyFile : List String → Act Completion
  | file :: address :: rest => do
    if !rest.isEmpty then call.log .warn "Only one frequency address is read at a time"
    match readTable call file with
    | .error message =>
      call.log .warn s!"Frequencies were not loaded from {file}: {message}"
      done
    | .ok table =>
      match (Number.toIndex? (Number.read address.toList)).bind (table[·]?) with
      | some frequency => give (Expr.doubleText frequency)
      | none => usage (.noAddress address file table.length)
  | _ => Call.refuse "readfrequencyfile file address"

def setFrequency (args : List String) : Act Completion := do
  require args 2 "setfrequency ?options? ?receiver? channels frequency"
  let swapped := match args.reverse with
    | frequency :: channels :: before => (channels :: frequency :: before).reverse
    | _ => args
  let a ← ChannelWords.read swapped
  let what := s!"frequencies in channels {channelsText a.channels} to {a.target} MHz"
  logInfo call (frequencyChange (← getState call).site a.options what)
  done

def panelPath? : String → Option String
  | "split" => some "Send data from panel I and II to ADC 1 and from III and IV to ADC 2"
  | "alla" => some "Send data from all panels to ADC 1"
  | "allb" => some "Send data from all panels to ADC 2"
  | _ => none

def setPanelPath (args : List String) : Act Completion := do
  if (← getState call).site = .vhf then
    match args with
    | [] => logInfo call "Query panel path"
    | path :: _ =>
      match panelPath? (Text.lowerString path) with
      | some message => logInfo call message
      | none => call.log .warn s!"Did not understand panel path {path}"
  done

def filterUsage : String := "loadfilter ?receiver? file channels ?options?"

def loadFilter (args : List String) : Act Completion := do
  require args 2 filterUsage
  let line := receiverLine? (args.headD "")
  match if line.isSome then args.tail else args with
  | file :: list :: options =>
    call.modifyState fun s => { s with files := { s.files with filter := file } }
    let verb := if options.contains "-T" then "Would check (not load)" else "Load"
    let receiver := line.getD "ionline"
    let channels ← readChannels list
    logInfo call s!"{verb} filter {file} for {receiver} into channels {channelsText channels}"
    done
  | _ => Call.refuse filterUsage

def startData (args : List String) : Act Completion := do
  let named := ["ion", "-ion", "pla", "-pla"].contains (args.headD "")
  let receiver := if named then args.headD "" else "ion"
  match if named then args.tail else args with
  | file :: experiment :: period :: rest =>
    let state ← getState call
    if state.site != .esr && receiver.endsWith "pla" then done
    else if state.site = .esr && rest.isEmpty then usage .antennaNeeded
    else
      let antenna := rest.headD state.antenna
      call.modifyState fun s => { s with files := { s.files with correlator := file } }
      logInfo call <| s!"Loading {file} into correlator, expid {experiment}, " ++
        s!"integration time {period}, antenna {antenna}"
      done
  | _ => Call.refuse "startdata ?receiver? corrfile expid iper ?antenna?"

def disableRecording (args : List String) : Act Completion := do
  if (← getState call).site != .esr then logInfo call "Disabled recording"
  else match args.headD "ion" with
    | "pla" => logInfo call "Disabled recording of plasma line"
    | "ion" => logInfo call "Disabled recording of ion line"
    | "all" => logInfo call "Disabled recording of both plasma and ion line"
    | which => usage (.wrongArgument which)
  done

def writeExperimentFile : List String → Act Completion
  | [] => Call.refuse "writeexperimentfile files ?directory?"
  | files :: rest => do
    let directory := rest.headD "the data directory"
    let names := commaList (← Call.listElements files)
    logInfo call s!"Copy files to {directory}: {names}"
    done

def userParameter (args : List String) : Act Completion := do
  require args 1 "upar ?index? name ?value?"
  if 3 < args.length then usage .tooManyParameters
  match args with
  | "alias" :: rest =>
    let name := rest.headD ""
    let second := rest.tail.headD ""
    logInfo call s!"Create alias {second} of user parameter {name}"
    done
  | [name] =>
    logInfo call s!"Return user parameter {name}; always zero here"
    give "0"
  | [_, name] =>
    logInfo call s!"Return user parameter {name}"
    done
  | _ :: name :: value :: _ =>
    logInfo call s!"Set user parameter {name} to {value}"
    done
  | [] => done

def writeTimestamp (args : List String) : Act Completion := do
  match args.getLast? with
  | none => Call.refuse "timestamp ?options? seconds"
  | some token =>
    let seconds := Number.read token.toList
    if seconds.isNaN then usage (.notSeconds token)
    else give (if seconds < 0 then "" else timestampText seconds args.dropLast)

/-- Logs a message, which is all an operator does. -/
def tell (level : Log.Level) (message : String) : Act Completion := do
  call.log level message
  done

def run (args : List String) : Operator → Act Completion
  | .runexperiment => runExperiment call args
  | .argv => do give (String.intercalate " " (← getState call).args)
  | .block => defineBlock call args
  | .callblock => openBlock call args
  | .gotoblock => gotoBlock call args
  | .loadfile =>
    match args with
    | [] => Call.refuse "loadfile fileName"
    | path :: _ => call.runFile path
  | .loadradar => loadRadar call args
  | .armradar => armRadar call args
  | .startradar => startRadar call args
  | .stopradar => stopRadar call args
  | .isradar => testSite call args
  | .isSite site => do give (flag ((← getState call).site = site))
  | .getstarttime => getStartTime call args
  | .sync => tell call .info ("Called SYNC " ++ String.intercalate " " args)
  | .selectlo => selectLo call args
  | .loadfrequency => loadFrequency call args
  | .readfrequencyfile => readFrequencyFile call args
  | .setfrequency => setFrequency call args
  | .transferlo => tell call .info "Transfers control of the local oscillators; not checked here"
  | .setpanelpath => setPanelPath call args
  | .loadfilter => loadFilter call args
  | .startdata => startData call args
  | .stopdata => tell call .info "Stop data access by stopping both correlator and recorder"
  | .disablerecording => disableRecording call args
  | .writeexperimentfile => writeExperimentFile call args
  | .upar => userParameter call args
  | .timestamp => writeTimestamp args
  | .disp =>
    tell call .info ("Display: " ++ String.intercalate " " (args.filter (!·.startsWith "-")))
  | .logbook => tell call .info ("Print into logbook: " ++ String.intercalate " " args)
  | .mount =>
    tell call .warn <| "Mounts disk " ++ String.intercalate " " args ++
      ". This should not be done in an experiment script!"

end RadarTimeline.Console.Operator
