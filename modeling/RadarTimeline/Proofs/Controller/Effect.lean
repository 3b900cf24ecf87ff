import RadarTimeline.Proofs.Controller.Replay

namespace RadarTimeline.Controller

/-- What only the boundaries of subcycles change, and the oscillators, which nothing changes. -/
structure Frame where
  oscillators : Oscillators
  register : Float
  cycle : Stream
  subcycles : Subcycles Line
  finished : Bool
  endTime : Float

/-- The part of a machine that decides about subcycles and their lines. -/
structure Core extends Frame where
  lines : LineMap Stream
  phases : PhaseHistory

namespace Machine

def frame (m : Machine) : Frame :=
  ⟨m.oscillators, m.register, m.cycle, m.subcycles, m.finished, m.endTime⟩

def core (m : Machine) : Core := ⟨m.frame, m.lines, m.phases⟩

end Machine

namespace Action

/-- How an action switches a line. -/
def toggle : Action → Line → Toggle
  | turnOn g, .gate g' => if g' = g then .on else .keep
  | turnOff g, .gate g' => if g' = g then .off else .keep
  | phase p, .phase p' => if p' = p then .hold else .release
  | allOff, .gate (.channel _) => .release
  | _, _ => .keep

def history (a : Action) (time : Float) (h : PhaseHistory) : PhaseHistory :=
  match a with
  | phase p => h.set time p
  | _ => h

/-- A route needs the oscillators of its path. -/
def Fed (o : Oscillators) : Action → Prop
  | route path _ => (o.onPath? path).isSome
  | _ => True

end Action

/-- The action of a command; one that is not known does nothing. -/
def Command.action (c : Command) : Action := (Action.ofMnemonic? c.mnemonic).getD .nothing

variable {α : Type} {m m' : Machine} {time : Float} {pos : Position}

/-- A step that succeeds and does not touch the core. -/
def Silent (x : Replay Unit) : Prop := ∀ m, ∃ m', x m = .ok () m' ∧ m'.core = m.core

theorem silent_pure : Silent (pure ()) := fun m => ⟨m, rfl, rfl⟩

theorem silent_modify {f : Machine → Machine} (h : ∀ m, (f m).core = m.core) :
    Silent (modify f) := fun m => ⟨f m, rfl, h m⟩

theorem Silent.bind {x : Replay Unit} {f : Unit → Replay Unit} (hx : Silent x)
    (hf : Silent (f ())) : Silent (x >>= f) := by
  intro m
  obtain ⟨m₁, h₁, hm₁⟩ := hx m
  obtain ⟨m₂, h₂, hm₂⟩ := hf m₁
  exact ⟨m₂, bind_eq_ok.2 ⟨(), m₁, h₁, h₂⟩, hm₂.trans hm₁⟩

theorem silent_forM {f : α → Replay Unit} (h : ∀ a, Silent (f a)) (l : List α) :
    Silent (l.forM f) := by
  induction l with
  | nil => exact silent_pure
  | cons a l ih => exact (h a).bind ih

theorem Silent.core_eq {x : Replay Unit} (hx : Silent x) (h : x m = .ok () m') :
    m'.core = m.core := by
  obtain ⟨m₁, h₁, hm₁⟩ := hx m
  rw [h] at h₁
  cases h₁
  exact hm₁

theorem silent_logDebug (message : String) : Silent (logDebug message) :=
  silent_modify fun _ => rfl

theorem silent_warn (c : Command) (message : String) : Silent (warn c message) :=
  silent_modify fun _ => rfl

theorem silent_retune (c : Channel) (time : Float) (change : Mixer → Mixer) :
    Silent (retune c time change) := by
  apply Silent.bind
  · exact silent_modify fun _ => rfl
  · apply silent_modify
    intro m
    cases (m.mixers.get c).frequency <;> rfl

theorem silent_selectEntry (index : Nat) : Silent (selectEntry time index) :=
  silent_forM (fun c => silent_retune c time _) _

theorem silent_startFilters : Silent (startFilters time pos) := by
  intro m
  cases h : m.filtersStarted with
  | none =>
    refine ⟨{ m with filtersStarted := some time }, ?_, rfl⟩
    rw [startFilters, get_bind, h]
    rfl
  | some since =>
    obtain ⟨m', h', hm'⟩ := silent_logDebug s!"STFIR on line {pos}: filters already started" m
    refine ⟨m', ?_, hm'⟩
    rw [startFilters, get_bind, h]
    exact h'

theorem route_apply (path : Nat) (channels : List Channel) :
    route time pos path channels m =
      match m.oscillators.onPath? path with
      | none => .error (.program ⟨.noOscillators path, pos⟩) m
      | some (first, second) =>
        channels.forM (fun c => retune c time
          ({ · with first := some first, second := some second })) m := by
  rw [route, get_bind]
  cases m.oscillators.onPath? path <;> rfl

theorem switchLines_iff {ls : List Line} (hls : ls.Nodup) (f : Line → Toggle) {k : Core} :
    (∃ m', ls.forM (fun l => switchLine (f l) l time pos) m = .ok () m' ∧ m'.core = k) ↔
      (∀ l, (if l ∈ ls then f l else .keep).apply time (m.lines.get l) = .ok (k.lines.get l)) ∧
        k = { m.core with lines := k.lines } := by
  constructor
  · rintro ⟨m', h, rfl⟩
    obtain ⟨lines, rfl, hl⟩ := (forM_switchLine_eq_ok hls f).1 h
    exact ⟨hl, rfl⟩
  · rintro ⟨hl, hk⟩
    exact ⟨_, (forM_switchLine_eq_ok hls f).2 ⟨k.lines, rfl, hl⟩, hk.symm⟩

theorem switchLine_iff (t : Toggle) (x : Line) {k : Core} :
    (∃ m', switchLine t x time pos m = .ok () m' ∧ m'.core = k) ↔
      (∀ l, (if l = x then t else .keep).apply time (m.lines.get l) = .ok (k.lines.get l)) ∧
        k = { m.core with lines := k.lines } := by
  have h := @switchLines_iff m time pos [x] (List.nodup_singleton x) (fun _ => t) k
  simp only [List.mem_singleton] at h
  rw [← h]
  refine exists_congr fun m' => and_congr_left fun _ => ?_
  change _ ↔ (switchLine t x time pos >>= fun _ => pure ()) m = _
  rw [bind_eq_ok]
  constructor
  · exact fun h => ⟨(), m', h, rfl⟩
  · rintro ⟨_, m₁, h, ⟨⟩⟩
    exact h

theorem notePhase_eq (p : Phase) :
    notePhase time p pos = [Line.phase .deg0, .phase .deg180].forM fun l =>
      switchLine (Action.toggle (.phase p) l) l time pos := by
  cases p <;> simp only [notePhase, Phase.all, hold_eq, release_eq] <;> rfl

theorem releaseChannels_eq :
    (Channel.all.forM fun c => release (.gate (.channel c)) time pos) =
      (Channel.all.map fun c => Line.gate (.channel c)).forM fun l =>
        switchLine .release l time pos := by
  simp only [release_eq]
  rfl

theorem channel_mem_all (c : Channel) : c ∈ Channel.all := by
  revert c
  decide

/-- An action takes a core to another at a time. -/
structure Performs (a : Action) (time : Float) (k k' : Core) : Prop where
  fed : a.Fed k.oscillators
  lines : ∀ l, (a.toggle l).apply time (k.lines.get l) = .ok (k'.lines.get l)
  rest : k' = { k with lines := k'.lines, phases := a.history time k.phases }

theorem performs_of_keep {a : Action} {k k' : Core} (ht : ∀ l, a.toggle l = .keep)
    (hh : a.history time k.phases = k.phases) :
    Performs a time k k' ↔ a.Fed k.oscillators ∧ k' = k := by
  constructor
  · rintro ⟨hf, hl, hk⟩
    refine ⟨hf, ?_⟩
    have he : k'.lines = k.lines := LineMap.ext_get fun l => by
      have := hl l
      rw [ht] at this
      exact (Except.ok.inj this).symm
    rw [hk, he, hh]
  · rintro ⟨hf, rfl⟩
    refine ⟨hf, fun l => by rw [ht]; rfl, ?_⟩
    rw [hh]

theorem performs_silent {a : Action} {x : Replay Unit} {k : Core} (hx : Silent x)
    (ht : ∀ l, a.toggle l = .keep) (hh : a.history time m.phases = m.phases)
    (hf : a.Fed m.oscillators) :
    (∃ m', x m = .ok () m' ∧ m'.core = k) ↔ Performs a time m.core k := by
  rw [performs_of_keep ht hh]
  constructor
  · rintro ⟨m', h, rfl⟩
    exact ⟨hf, hx.core_eq h⟩
  · rintro ⟨-, rfl⟩
    exact hx m

theorem toggle_turnOn (g : Gate) (l : Line) :
    (Action.turnOn g).toggle l = if l = .gate g then .on else .keep := by
  cases l <;> simp [Action.toggle]

theorem toggle_turnOff (g : Gate) (l : Line) :
    (Action.turnOff g).toggle l = if l = .gate g then .off else .keep := by
  cases l <;> simp [Action.toggle]

theorem toggle_allOff (l : Line) :
    Action.allOff.toggle l =
      if l ∈ Channel.all.map (fun c => Line.gate (.channel c)) then .release else .keep := by
  rcases l with (_ | _ | c) | _
  case gate.channel =>
    rw [if_pos (List.mem_map.2 ⟨c, channel_mem_all c, rfl⟩)]
    rfl
  all_goals
    rw [if_neg (by simp)]
    rfl

theorem toggle_phase (p : Phase) (l : Line) :
    (Action.phase p).toggle l =
      if l ∈ [Line.phase .deg0, .phase .deg180] then (Action.phase p).toggle l else .keep := by
  rcases l with g | p'
  · rfl
  · cases p' <;> rfl

/-- To perform an action succeeds exactly if its route is fed and each line can be switched as the
action says. -/
theorem perform_iff {a : Action} {k : Core} :
    (∃ m', perform time pos a m = .ok () m' ∧ m'.core = k) ↔ Performs a time m.core k := by
  cases a with
  | turnOn g =>
    rw [perform, turnOn_eq, switchLine_iff]
    simp only [← toggle_turnOn]
    exact ⟨fun h => ⟨trivial, h.1, h.2⟩, fun h => ⟨h.lines, h.rest⟩⟩
  | turnOff g =>
    rw [perform, turnOff_eq, switchLine_iff]
    simp only [← toggle_turnOff]
    exact ⟨fun h => ⟨trivial, h.1, h.2⟩, fun h => ⟨h.lines, h.rest⟩⟩
  | phase p =>
    change (∃ m', notePhase time p pos { m with phases := m.phases.set time p } = _ ∧ _) ↔ _
    rw [notePhase_eq, switchLines_iff (by decide)]
    simp only [← toggle_phase]
    exact ⟨fun h => ⟨trivial, h.1, h.2⟩, fun h => ⟨h.lines, h.rest⟩⟩
  | allOff =>
    rw [perform, releaseChannels_eq, switchLines_iff (by decide)]
    simp only [← toggle_allOff]
    exact ⟨fun h => ⟨trivial, h.1, h.2⟩, fun h => ⟨h.lines, h.rest⟩⟩
  | route path channels =>
    rw [perform, route_apply]
    cases h : m.oscillators.onPath? path with
    | none =>
      have hf : ¬ (Action.route path channels).Fed m.oscillators := by simp [Action.Fed, h]
      exact ⟨fun ⟨_, h', _⟩ => (nomatch h'), fun h' => (hf h'.fed).elim⟩
    | some pair =>
      have hf : (Action.route path channels).Fed m.oscillators := by simp [Action.Fed, h]
      exact performs_silent (silent_forM (fun c => silent_retune c time _) channels)
        (fun _ => rfl) rfl hf
  | selectEntry index =>
    exact performs_silent (silent_selectEntry index) (fun _ => rfl) rfl trivial
  | transmit index =>
    exact performs_silent (silent_modify fun _ => rfl) (fun _ => rfl) rfl trivial
  | startFilters => exact performs_silent silent_startFilters (fun _ => rfl) rfl trivial
  | nothing => exact performs_silent silent_pure (fun _ => rfl) rfl trivial

def dispatch (c : Command) (time : Float) : Replay Unit :=
  match Action.ofMnemonic? c.mnemonic with
  | none => warn c s!"Command {c.mnemonic}, called from line {c.line} is not implemented"
  | some action => perform time c.line action

theorem execute_eq (c : Command) (m : Machine) :
    execute c m =
      if m.cycle.isOn then
        if m.subcycles.isOn then dispatch c (m.core.register + c.time) m
        else .error (.program ⟨.noSubcycle, c.line⟩) m
      else .error (.program ⟨.cycleNotStarted, c.line⟩) m := by
  rw [execute, get_bind]
  cases m.cycle.isOn <;> cases m.subcycles.isOn <;> rfl

theorem execute_apply {c : Command} (hc : m.cycle.isOn) (hs : m.subcycles.isOn) {k : Core} :
    (∃ m', execute c m = .ok () m' ∧ m'.core = k) ↔
      Performs c.action (m.core.register + c.time) m.core k := by
  rw [execute_eq, if_pos hc, if_pos hs, dispatch, Command.action]
  cases Action.ofMnemonic? c.mnemonic with
  | none => exact performs_silent (silent_warn c _) (fun _ => rfl) rfl trivial
  | some action => exact perform_iff

end RadarTimeline.Controller
