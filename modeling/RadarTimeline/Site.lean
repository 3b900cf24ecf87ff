import RadarTimeline.Text.Case
import RadarTimeline.Number.Position

namespace RadarTimeline

inductive Site where
  | uhf | vhf | esr | kir | sod
deriving Repr, DecidableEq

namespace Site

def all : List Site := [.uhf, .vhf, .esr, .kir, .sod]

def name : Site → String
  | .uhf => "UHF"
  | .vhf => "VHF"
  | .esr => "ESR"
  | .kir => "KIR"
  | .sod => "SOD"

def parse? (word : String) : Option Site :=
  all.find? fun site => site.name = Text.upperString word

end Site

/-- Local oscillator frequencies in MHz, one of each kind for every receiver path that has one. A
single first oscillator serves all paths. -/
structure Oscillators where
  first : List (Option Float)
  second : List (Option Float)
deriving Inhabited

namespace Oscillators

/-- The oscillators of a site. The remote sites receive through the chain of the main one. -/
def ofSite : Site → Oscillators
  | .uhf | .kir | .sod => ⟨[some 812], [some 128, some 122]⟩
  | .vhf => ⟨[some 298, some 298], [some 84, some 84]⟩
  | .esr =>
    ⟨[some 419, some 435, some 419, some 435], [some 81.25, some 81.25, some 81.25, some 81.25]⟩

def entry? (frequencies : List (Option Float)) (path : Nat) : Option Float :=
  frequencies[path]?.join

def onPath? (o : Oscillators) (path : Nat) : Option (Float × Float) := do
  let first ← match o.first with
    | [shared] => shared
    | first => entry? first path
  return (first, ← entry? o.second path)

/-- Gives a path a frequency. The paths before it that a list does not reach have none. -/
def setEntry (frequencies : List (Option Float)) (path : Nat) (frequency : Float) :
    List (Option Float) :=
  (frequencies ++ List.replicate (path + 1 - frequencies.length) none).set path (some frequency)

end Oscillators

/-- What bounds a run and where it looks for files. -/
structure Configuration where
  site : Site := .uhf
  oscillators : Site → Oscillators := .ofSite
  loopLimit : Position := 1000
  jumpLimit : Position := 100
  roots : List String := ["/kst/exp", "kst/exp"]

def Site.default : Site := ({} : Configuration).site

end RadarTimeline
