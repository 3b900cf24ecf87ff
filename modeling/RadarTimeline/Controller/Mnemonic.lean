import RadarTimeline.Controller.Line
import RadarTimeline.Text.Case

namespace RadarTimeline.Controller

/-- What a mnemonic does. Some are known but of no interest for timing. -/
inductive Action where
  | turnOn (gate : Gate)
  | turnOff (gate : Gate)
  | phase (phase : Phase)
  | allOff
  | route (path : Nat) (channels : List Channel)
  | selectEntry (index : Nat)
  | transmit (index : Nat)
  | startFilters
  | nothing
deriving Repr, DecidableEq

def selectableEntries : Nat := 1024

def transmitterFrequencies : Nat := 16

def controllerBits : Nat := 32

def leftChannels : List Channel := Channel.all.take 3

def rightChannels : List Channel := Channel.all.drop 3

def fixedActions : List (String × Action) :=
  [("RFON", .turnOn .rf), ("RFOFF", .turnOff .rf),
   ("RXPROT", .turnOn (.setting .rxprot)), ("RXPOFF", .turnOff (.setting .rxprot)),
   ("LOPROT", .turnOn (.setting .loprot)), ("LOPOFF", .turnOff (.setting .loprot)),
   ("CALON", .turnOn (.setting .cal)), ("CAL100", .turnOn (.setting .cal)),
   ("CALOFF", .turnOff (.setting .cal)), ("CAL0", .turnOff (.setting .cal)),
   ("BEAMON", .turnOn (.setting .beam)), ("BEAMOFF", .turnOff (.setting .beam)),
   ("PHA0", .phase .deg0), ("PHA180", .phase .deg180), ("ALLOFF", .allOff),
   ("STFIR", .startFilters), ("AD1L", .route 0 leftChannels), ("AD1R", .route 0 rightChannels),
   ("AD2L", .route 1 leftChannels), ("AD2R", .route 1 rightChannels)]

def channelActions (c : Channel) : List (String × Action) :=
  [(Channel.name c, .turnOn (.channel c)), (Channel.name c ++ "OFF", .turnOff (.channel c))]

def silentMnemonics : List String :=
  ["TRANS", "RECEV", "RXSYNC", "CHQPULS", "TXSYNC", "BUFLIP", "STC", "BRX4", "BRX4OFF", "BTX4",
   "BTX4OFF", "BRX5", "BRX5OFF", "BTX5", "BTX5OFF"]

def actions : List (String × Action) :=
  fixedActions ++ Channel.all.flatMap channelActions ++
  silentMnemonics.map (·, .nothing) ++
  (List.range transmitterFrequencies).map (fun i => (s!"F{i}", .transmit i)) ++
  (List.range selectableEntries).map (fun i => (s!"NCOSEL{i}", .selectEntry i))

def Action.ofMnemonic? (mnemonic : String) : Option Action := actions.lookup mnemonic

def fixedDescriptions : List (String × String) :=
  [("CHQPULS", "High output on bit 31 for 2 us, used for synchronization with external hardware."),
   ("RXPROT", "Enable receiver protector, bit 12 high"),
   ("RXPOFF", "Disable receiver protector, bit 12 low"),
   ("LOPROT", "Enable local oscillator protector, bit 6 high"),
   ("LOPOFF", "Disable local oscillator protector, bit 6 low"),
   ("BEAMON", "Enable beam in klystron, bit 13 high"),
   ("BEAMOFF", "Disable beam in klystron, bit 13 low"),
   ("RFON", "Enable RF output, bit 11 high"),
   ("RFOFF", "Disable RF output, bit 11 low"),
   ("PHA0", "Set proper phase, bit 4 low"),
   ("PHA180", "Set proper phase, bit 4 high"),
   ("CALON", "Main site and receivers: enable noise source for calibration, bit 15 high"),
   ("CAL100", "Enable noise source for calibration, bit 15 high"),
   ("CALOFF", "Main site and receivers: disable noise source, bit 15 low"),
   ("CAL0", "Disable noise source for calibration, bit 15 low"),
   ("HCALON",
     "Remote receivers: enable noise source in the horizontal wave guide only, high bit 1 high"),
   ("HCALOFF",
     "Remote receivers: disable noise source in the horizontal wave guide only, high bit 1 low"),
   ("VCALON",
     "Remote receivers: enable noise source in the vertical wave guide only, high bit 1 high"),
   ("VCALOFF",
     "Remote receivers: disable noise source in the vertical wave guide only, high bit 1 low"),
   ("STC",
     "Interrupt the crate computer to signal that new data are available, bit 8 high strobed"),
   ("BUFLIP", "Change side of buffer memory in channel boards, bit 17 high strobed"),
   ("ALLOFF", "Close sampling gate on all channel boards, bits 10-15 low"),
   ("REP", "End of the controller program, repeat the cycle"),
   ("SETTCR", "Set the reference time of the time control register"),
   ("RXSYNC", "A 2 us pulse on bit 31 on the front of the receiver controller"),
   ("TXSYNC", "A 2 us pulse on bit 31 on the front of the transmitter controller"),
   ("AD1L", "Route input from AD 1 to channel boards 1, 2, 3"),
   ("AD1R", "Route input from AD 1 to channel boards 4, 5, 6"),
   ("AD2L", "Route input from AD 2 to channel boards 1, 2, 3"),
   ("AD2R", "Route input from AD 2 to channel boards 4, 5, 6"),
   ("STFIR",
     "Start the FIR filters on the channel boards, required before using them, bit 16 strobed"),
   ("TRANS", "Not documented"),
   ("RECEV", "Not documented")]

def channelDescriptions (c : Channel) : List (String × String) :=
  let n := Channel.number c
  let bit := n + 9
  [(s!"CH{n}", s!"Open sampling gate on channel board {n}, bit {bit} high"),
   (s!"CH{n}OFF", s!"Close sampling gate on channel board {n}, bit {bit} low")]

def bitDescriptions (bit : Nat) : List (String × String) :=
  let careful := "No checks are made. Use with caution."
  [(s!"BRX{bit}", s!"Set bit {bit} on receiver controller. No checks are made."),
   (s!"BRX{bit}OFF", s!"Clear bit {bit} on receiver controller. No checks are made."),
   (s!"BTX{bit}", s!"Set bit {bit} on transmitter controller. {careful}"),
   (s!"BTX{bit}OFF", s!"Clear bit {bit} on transmitter controller. {careful}")]

def descriptions : List (String × String) :=
  fixedDescriptions ++
  (List.range transmitterFrequencies).map
    (fun i => (s!"F{i}", "Set transmitter frequency, bits 0-3 high")) ++
  (List.range selectableEntries).map (fun i => (s!"NCOSEL{i}",
    "Load the frequency defined in the requested memory into the NCO plus strobe bit 29")) ++
  Channel.all.flatMap channelDescriptions ++
  (List.range controllerBits).flatMap bitDescriptions

def describe? (mnemonic : String) : Option String := descriptions.lookup mnemonic

def documented (start : String) : List String :=
  let start := Text.upperString start
  (descriptions.map (·.1)).filter (·.startsWith start)

/-- The mnemonics that can be executed but are not documented. -/
def undocumented : List String :=
  (actions.map (·.1)).filter fun name => (describe? name).isNone

end RadarTimeline.Controller
