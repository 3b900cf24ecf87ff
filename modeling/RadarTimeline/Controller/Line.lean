import RadarTimeline.Timing.PhaseHistory

namespace RadarTimeline

abbrev Channel := Fin 6

def Channel.number (c : Channel) : Nat := c.val + 1

def Channel.name (c : Channel) : String := s!"CH{Channel.number c}"

def Channel.all : List Channel := [0, 1, 2, 3, 4, 5]

def Channel.ofNumber? (n : Nat) : Option Channel :=
  Channel.all.find? fun c => Channel.number c = n

abbrev ChannelMap (α : Type) := Vector α 6

namespace ChannelMap

def set {α : Type} (m : ChannelMap α) (c : Channel) (a : α) : ChannelMap α :=
  Vector.set m c a c.isLt

theorem get_set {α : Type} (m : ChannelMap α) (c other : Channel) (a : α) :
    (m.set c a).get other = if other = c then a else m.get other := by
  have get_eq (v : ChannelMap α) (i : Channel) : v.get i = v[i.val] := rfl
  rw [set, get_eq, get_eq, Vector.getElem_set]
  simp [Fin.ext_iff, eq_comm]

end ChannelMap

inductive Setting where
  | rxprot | loprot | cal | beam
deriving Repr, DecidableEq

namespace Setting

def all : List Setting := [.rxprot, .loprot, .cal, .beam]

def name : Setting → String
  | .rxprot => "RXPROT"
  | .loprot => "LOPROT"
  | .cal => "CAL"
  | .beam => "BEAM"

end Setting

/-- What commands switch on and off. -/
inductive Gate where
  | rf
  | setting (s : Setting)
  | channel (c : Channel)
deriving Repr, DecidableEq

def Gate.name : Gate → String
  | .rf => "RF"
  | .setting s => s.name
  | .channel c => Channel.name c

def Gate.all : List Gate := .rf :: Setting.all.map .setting ++ Channel.all.map .channel

/-- What is on or off. The line of a phase is on while the transmitter holds that phase. -/
inductive Line where
  | gate (g : Gate)
  | phase (p : Phase)
deriving Repr, DecidableEq

namespace Line

def name : Line → String
  | .gate g => g.name
  | .phase .deg0 => "+"
  | .phase .deg180 => "-"

def all : List Line := Gate.all.map .gate ++ Phase.all.map .phase

def named? (name : String) : Option Line := all.find? fun line => line.name = name

end Line

/-- The place of a line in the order of `all`. -/
def Line.index : Line → Fin 13
  | .gate .rf => 0
  | .gate (.setting .rxprot) => 1
  | .gate (.setting .loprot) => 2
  | .gate (.setting .cal) => 3
  | .gate (.setting .beam) => 4
  | .gate (.channel c) => ⟨5 + c, by omega⟩
  | .phase .deg0 => 11
  | .phase .deg180 => 12

theorem Line.all_index (line : Line) : Line.all[line.index.val]? = some line := by
  match line with
  | .gate .rf | .gate (.setting .rxprot) | .gate (.setting .loprot) | .gate (.setting .cal)
  | .gate (.setting .beam) | .phase .deg0 | .phase .deg180 => rfl
  | .gate (.channel c) => revert c; decide

theorem Line.index_inj {a b : Line} : a.index = b.index ↔ a = b :=
  ⟨fun h => Option.some.inj (by rw [← Line.all_index a, h, Line.all_index b]), fun h => h ▸ rfl⟩

structure LineMap (α : Type) where
  values : Vector α 13
deriving Inhabited

namespace LineMap

def replicate {α : Type} (a : α) : LineMap α := ⟨Vector.replicate 13 a⟩

def get {α : Type} (m : LineMap α) (line : Line) : α := m.values[line.index]

def set {α : Type} (m : LineMap α) (line : Line) (a : α) : LineMap α := ⟨m.values.set line.index a⟩

theorem get_replicate {α : Type} (a : α) (line : Line) : (replicate a).get line = a := by
  simp [get, replicate]

theorem get_set {α : Type} (m : LineMap α) (line other : Line) (a : α) :
    (m.set line a).get other = if other = line then a else m.get other := by
  simp [get, set, Vector.getElem_set, ← Line.index_inj, Fin.ext_iff, eq_comm]

end LineMap

end RadarTimeline
