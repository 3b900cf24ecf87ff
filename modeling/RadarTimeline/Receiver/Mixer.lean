import RadarTimeline.Number.Position

namespace RadarTimeline

/-- What is known of the oscillators of a channel. -/
structure Mixer where
  first : Option Float := none
  second : Option Float := none
  table : Option (Array Float) := none
  /-- The entry asked for, whether the table has it or not. -/
  selected : Option Position := none
deriving Inhabited

/-- Why a channel has no center frequency. -/
inductive MixerFault where
  | noOscillators
  | noTable
  | noSelection
  | noEntry (index : Position)
deriving Repr, DecidableEq

def MixerFault.message : MixerFault → String
  | .noOscillators => "Local oscillator frequencies are not set"
  | .noTable => "No NCO table has been loaded"
  | .noSelection => "No NCO entry has been selected"
  | .noEntry index => s!"NCO entry {index} is not in the loaded table"

namespace Mixer

def frequency (m : Mixer) : Except MixerFault Float :=
  match m.first, m.second with
  | some first, some second =>
    match m.table with
    | none => .error .noTable
    | some table =>
      match m.selected with
      | none => .error .noSelection
      | some index =>
        match index.toIndex?.bind (table[·]?) with
        | none => .error (.noEntry index)
        | some shift => .ok (first + second - shift)
  | _, _ => .error .noOscillators

/-- All parts are known, and the selected index is below the size of the table. -/
def isComplete (m : Mixer) : Bool :=
  match m.first, m.second, m.table, m.selected with
  | some _, some _, some table, some index => index.before table.size
  | _, _, _, _ => false

end Mixer

end RadarTimeline
