import RadarTimeline.Proofs.Console.Scopes
import Mathlib.Data.List.Induction

namespace RadarTimeline

/-- A state without the arguments of its experiment: where it is and what is loaded. -/
def SessionState.holdings (s : SessionState) : SessionState := { s with args := [] }

namespace Console

namespace Operator

/-- The oscillator that arguments name by the last character of the first, or that of the site. -/
def oscillatorNamed? (site : Site) : List String → Option OscillatorKind
  | name :: _ :: _ :: _ =>
    if name.toList.getLast? = some '1' then some .first
    else if name.toList.getLast? = some '2' then some .second
    else none
  | _ => if site = .uhf then some .second else if site = .esr then some .first else none

/-- The last argument is the frequency, the one before it the path. -/
def loadedOscillator (args : List String) (s : SessionState) : SessionState :=
  match args.reverse with
  | token :: path :: _ =>
    match (pathNames s.site).lookup path, oscillatorNamed? s.site args with
    | some number, some kind =>
      let frequency := Number.read token.toList
      { s with oscillators := kind.setIn s.oscillators (number - 1) frequency }
    | _, _ => s
  | _ => s

def listedChannels (text : String) : List Channel :=
  (digitRuns text.toList).filterMap fun digits => Channel.ofNumber? (Number.digitsValue 10 digits)

/-- The last argument lists the channels, the one before it is the file. -/
def loadedTables (args : List String) (s : SessionState) : SessionState :=
  match args.reverse with
  | list :: file :: _ =>
    let tables := (listedChannels list).foldl (fun t c => t.set c (some file)) s.files.tables
    { s with files := { s.files with tables } }
  | _ => s

def loadedFilter (args : List String) (s : SessionState) : SessionState :=
  match if (receiverLine? (args.headD "")).isSome then args.tail else args with
  | file :: _ => { s with files := { s.files with filter := file } }
  | [] => s

/-- Every option with the letter `f` loads its value. -/
def loadedPrograms (transmitter : Bool) : List String → SessionState → SessionState
  | option :: value :: rest, s =>
    loadedPrograms transmitter rest <|
      if Text.unitAt? option.toList 1 ≠ some 'f' then s
      else if transmitter then { s with files := { s.files with transmitter := value } }
      else { s with files := { s.files with receiver := value } }
  | _, s => s

/-- The file comes first, or after the receiver. Away from ESR there is no plasma line. -/
def loadedCorrelator (args : List String) (s : SessionState) : SessionState :=
  let named := ["ion", "-ion", "pla", "-pla"].contains (args.headD "")
  let receiver := if named then args.headD "" else "ion"
  match if named then args.tail else args with
  | file :: _ =>
    if s.site ≠ .esr ∧ receiver.endsWith "pla" = true then s
    else { s with files := { s.files with correlator := file } }
  | [] => s

/-- What an operator makes of what is loaded, if it does not fail. -/
def loaded (args : List String) (s : SessionState) : Operator → SessionState
  | .selectlo => loadedOscillator args s
  | .loadfrequency => loadedTables args s
  | .loadfilter => loadedFilter args s
  | .loadradar => loadedPrograms ("transmitter".startsWith (args.headD "")) args.tail s
  | .startdata => loadedCorrelator args s
  | _ => s

variable (args xs : List String) (s : SessionState)

theorem loadedOscillator_withArgs :
    loadedOscillator args { s with args := xs } = { loadedOscillator args s with args := xs } := by
  unfold loadedOscillator
  split
  · dsimp only
    split <;> rfl
  · rfl

theorem loadedTables_withArgs :
    loadedTables args { s with args := xs } = { loadedTables args s with args := xs } := by
  unfold loadedTables
  split <;> rfl

theorem loadedFilter_withArgs :
    loadedFilter args { s with args := xs } = { loadedFilter args s with args := xs } := by
  unfold loadedFilter
  split <;> rfl

theorem loadedPrograms_withArgs (transmitter : Bool) :
    loadedPrograms transmitter args { s with args := xs } =
      { loadedPrograms transmitter args s with args := xs } := by
  induction args using List.twoStepInduction generalizing s with
  | nil => rfl
  | singleton option => rfl
  | cons_cons option value rest ih _ =>
    rw [loadedPrograms, loadedPrograms, ← ih]
    congr 1
    split_ifs <;> rfl

theorem loadedCorrelator_withArgs :
    loadedCorrelator args { s with args := xs } = { loadedCorrelator args s with args := xs } := by
  unfold loadedCorrelator
  dsimp only
  split
  · split_ifs <;> rfl
  · rfl

theorem loaded_withArgs (o : Operator) :
    o.loaded args { s with args := xs } = { o.loaded args s with args := xs } := by
  cases o with
  | selectlo => exact loadedOscillator_withArgs args xs s
  | loadfrequency => exact loadedTables_withArgs args xs s
  | loadfilter => exact loadedFilter_withArgs args xs s
  | loadradar => exact loadedPrograms_withArgs args.tail xs s _
  | startdata => exact loadedCorrelator_withArgs args xs s
  | _ => rfl

theorem loadedPrograms_place (transmitter : Bool) :
    (loadedPrograms transmitter args s).site = s.site ∧
      (loadedPrograms transmitter args s).antenna = s.antenna := by
  induction args using List.twoStepInduction generalizing s with
  | nil => exact ⟨rfl, rfl⟩
  | singleton option => exact ⟨rfl, rfl⟩
  | cons_cons option value rest ih _ =>
    rw [loadedPrograms]
    refine ⟨(ih _).1.trans ?_, (ih _).2.trans ?_⟩ <;> split_ifs <;> rfl

theorem loaded_place (o : Operator) :
    (o.loaded args s).site = s.site ∧ (o.loaded args s).antenna = s.antenna := by
  cases o with
  | selectlo =>
    rw [loaded, loadedOscillator]
    split
    · dsimp only
      split <;> exact ⟨rfl, rfl⟩
    · exact ⟨rfl, rfl⟩
  | loadfrequency =>
    rw [loaded, loadedTables]
    split <;> exact ⟨rfl, rfl⟩
  | loadfilter =>
    rw [loaded, loadedFilter]
    split <;> exact ⟨rfl, rfl⟩
  | loadradar => exact loadedPrograms_place args.tail s _
  | startdata =>
    rw [loaded, loadedCorrelator]
    dsimp only
    split
    · split_ifs <;> exact ⟨rfl, rfl⟩
    · exact ⟨rfl, rfl⟩
  | _ => exact ⟨rfl, rfl⟩

/-- The operators that load. -/
def Loads (o : Operator) : Prop :=
  o ∈ [selectlo, loadfrequency, loadfilter, loadradar, startdata]

theorem loaded_of_not_loads {o : Operator} (h : ¬ o.Loads) : o.loaded args s = s := by
  cases o <;> first | rfl | exact absurd (by simp [Loads]) h

end Operator

/-- What a session has loaded after an event. Only commands that an operator carries out load. -/
def Event.load (s : SessionState) : Event → SessionState
  | .command _ words (some (.operator o)) => o.loaded words.tail s
  | _ => s

theorem Event.load_holdings (e : Event) (s : SessionState) :
    e.load s.holdings = (e.load s).holdings := by
  unfold Event.load
  split
  · exact Operator.loaded_withArgs _ _ s _
  · rfl

theorem Event.load_place (e : Event) (s : SessionState) :
    (e.load s).site = s.site ∧ (e.load s).antenna = s.antenna := by
  unfold Event.load
  split
  · exact Operator.loaded_place _ s _
  · exact ⟨rfl, rfl⟩

end Console

end RadarTimeline
