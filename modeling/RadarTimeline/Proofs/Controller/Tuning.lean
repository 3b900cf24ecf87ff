import RadarTimeline.Proofs.Controller.Coherence
import RadarTimeline.Proofs.Controller.Untouched
import RadarTimeline.Proofs.Number.Magnitude
import RadarTimeline.Proofs.Timing.FrequencyRecord

namespace RadarTimeline.Controller

namespace Action

def pathTo? (ch : Channel) : Action → Option Nat
  | route path channels => if ch ∈ channels then some path else none
  | _ => none

def entry? : Action → Option Nat
  | selectEntry index => some index
  | _ => none

def tunes (ch : Channel) (a : Action) : Bool := (a.pathTo? ch).isSome || a.entry?.isSome

end Action

def lastOf {α β : Type} (f : α → Option β) (l : List α) : Option β := (l.filterMap f).getLast?

def fed (o : Oscillators) (ch : Channel) (actions : List Action) : Option (Float × Float) :=
  (lastOf (Action.pathTo? ch) actions).bind o.onPath?

/-- The frequency of a channel after actions, if it is routed and its table has the last entry
selected. -/
def tuned (o : Oscillators) (table : Option (List Float)) (ch : Channel) (actions : List Action) :
    Option Float := do
  let oscillators ← fed o ch actions
  let shift ← (← table)[← lastOf Action.entry? actions]?
  return oscillators.1 + oscillators.2 - shift

def recorded? (o : Oscillators) (table : Option (List Float)) (ch : Channel) (before : List Action)
    (e : Timed Action) : Option FrequencyChange :=
  if e.event.tunes ch then (tuned o table ch (before ++ [e.event])).map (⟨e.time, ·⟩) else none

def recordings (o : Oscillators) (table : Option (List Float)) (ch : Channel)
    (before : List Action) :
    List (Timed Action) → List FrequencyChange
  | [] => []
  | e :: rest =>
    (recorded? o table ch before e).toList ++ recordings o table ch (before ++ [e.event]) rest

namespace Call

/-- The action of a call that sets no boundary. -/
def action? : Call → Option Action
  | step c =>
    if c.mnemonic = "SETTCR" ∨ c.mnemonic = "REP" then none else Action.ofMnemonic? c.mnemonic
  | execute c => Action.ofMnemonic? c.mnemonic

def executed? (m : Machine) (call : Call) : Option (Timed Action) :=
  if succeeds (call.replay m) then call.action?.map (⟨m.register + call.command.time, ·⟩) else none

end Call

def executed : Machine → List Call → List (Timed Action)
  | _, [] => []
  | m, call :: calls => (call.executed? m).toList ++ executed (after call.replay m) calls

/-- The part of a machine that frequencies depend on. -/
structure Tuner where
  oscillators : Oscillators
  mixers : ChannelMap Mixer
  series : ChannelMap FrequencyHistory
  register : Float

def Machine.tuner (m : Machine) : Tuner := ⟨m.oscillators, m.mixers, m.series, m.register⟩

variable {α β : Type} {m m' : Machine} {time : Float} {pos : Position} {c : Command} {call : Call}

/-- A step leaves the tuner alone, also when it fails. -/
def Untuned (x : Replay α) : Prop := ∀ m, (after x m).tuner = m.tuner

theorem beside_tuner : Beside Machine.tuner :=
  ⟨fun _ _ => rfl, fun _ _ => rfl, fun _ _ => rfl, fun _ _ => rfl⟩

theorem untuned_modify {f : Machine → Machine} (h : ∀ m, (f m).tuner = m.tuner) :
    Untuned (modify f : Replay Unit) := leaves_modify h

theorem untuned_warn (c : Command) (message : String) : Untuned (warn c message) :=
  untuned_modify fun _ => rfl

theorem untuned_finish : Untuned (finish c) := by
  rw [finish_eq]
  refine Leaves.bind beside_tuner.endSubcycle fun _ m => ?_
  unfold after endCycle
  cases m.cycle.turnOff c.time <;> rfl

/-- A step sets the register to a time, or leaves the whole tuner alone. -/
def SetsRegister (time : Float) (x : Replay α) : Prop :=
  ∀ m, (after x m).tuner = m.tuner ∨ (after x m).tuner = { m.tuner with register := time }

theorem Untuned.setsRegister {x : Replay α} (hx : Untuned x) : SetsRegister time x :=
  fun m => .inl (hx m)

theorem Untuned.bind_setsRegister {x : Replay α} {f : α → Replay β} (hx : Untuned x)
    (hf : ∀ a, SetsRegister time (f a)) : SetsRegister time (x >>= f) := by
  intro m
  rcases after_bind x f m with ⟨a, m₁, h, heq⟩ | heq
  · rw [heq, ← hx m, after_of_ok h]
    exact hf a m₁
  · rw [heq]
    exact .inl (hx m)

theorem setsRegister_setRegister (c : Command) : SetsRegister c.time (setRegister c) := by
  have hset : SetsRegister c.time (modify fun m => { m with register := c.time } : Replay Unit) :=
    fun m => .inr rfl
  by_cases ht : c.time > 0
  · rw [setRegister_of_pos ht]
    exact Untuned.bind_setsRegister beside_tuner.endSubcycle fun _ =>
      Untuned.bind_setsRegister beside_tuner.openSubcycle fun _ =>
        Untuned.bind_setsRegister beside_tuner.reopenPhase fun _ => hset
  · intro m
    rw [after_of_ok (setRegister_of_not_pos ht)]
    exact .inr rfl

theorem untuned_execute (ha : Action.ofMnemonic? c.mnemonic = none) : Untuned (execute c) := by
  intro m
  unfold after
  rw [execute_eq, dispatch, ha]
  split_ifs
  · exact untuned_warn c _ m
  · rfl
  · rfl

/-- A call without an action leaves all channels as they are tuned. -/
theorem setsRegister_replay (ha : call.action? = none) :
    SetsRegister call.command.time call.replay := by
  cases call with
  | execute c => exact (untuned_execute ha).setsRegister
  | step c =>
    intro m
    change (after (step c) m).tuner = _ ∨ (after (step c) m).tuner = _
    cases hf : m.finished with
    | true =>
      rw [after_of_error (step_of_finished hf)]
      exact .inl rfl
    | false =>
      rw [after, step_of_unfinished hf]
      refine Untuned.bind_setsRegister beside_tuner.openCycle (fun _ => ?_) m
      split_ifs with hs hr
      · exact setsRegister_setRegister c
      · exact untuned_finish.setsRegister
      · rw [Call.action?, if_neg (not_or.2 ⟨hs, hr⟩)] at ha
        exact (untuned_execute ha).setsRegister

variable {b : Bool} {a : Action}

theorem execute_cases (ha : Action.ofMnemonic? c.mnemonic = some a) :
    m.cycle.isOn = true ∧ m.subcycles.isOn = true ∧
        execute c m = perform (m.register + c.time) c.line a m ∨
      ¬ (m.cycle.isOn = true ∧ m.subcycles.isOn = true) ∧
        ∃ e, execute c m = .error (.program e) m := by
  rw [execute_eq, dispatch, ha]
  split_ifs with hc hs
  · exact .inl ⟨hc, hs, rfl⟩
  · exact .inr ⟨fun h => hs h.2, _, rfl⟩
  · exact .inr ⟨fun h => hc h.1, _, rfl⟩

/-- A call performs its action, maybe after it has opened the cycle, or it is refused. -/
theorem Stage.replay_cases (h : Stage m.frame b) (ha : call.action? = some a) :
    (∃ m₁, m₁.tuner = m.tuner ∧ (m.cycle.isOn = true → m₁ = m) ∧
        call.replay m = perform (m.register + call.command.time) call.command.line a m₁) ∨
      ¬ (m.cycle.isOn = true ∧ m.subcycles.isOn = true) ∧
        ∃ e, call.replay m = .error (.program e) m := by
  cases call with
  | execute c =>
    exact (execute_cases ha).imp_left fun ⟨_, _, h⟩ => ⟨m, rfl, fun _ => rfl, h⟩
  | step c =>
    change Call.action? (.step c) = _ at ha
    rw [Call.action?] at ha
    split_ifs at ha with hc
    obtain ⟨hs, hr⟩ := not_or.1 hc
    have hexecute : ∀ m₁ : Machine, m₁.cycle.isOn = true → m₁.finished = false →
        step c m₁ = execute c m₁ := by
      intro m₁ hon hf
      rw [step_of_begun hon hf, if_neg hs, if_neg hr]
    change (∃ m₁, _ ∧ _ ∧ step c m = _) ∨ _ ∧ ∃ e, step c m = _
    cases h with
    | fresh h =>
      let m₀ : Machine := { m with cycle := ⟨#[], some 0⟩, subcycles := ⟨⟨#[], some 0⟩, #[]⟩ }
      have hstep : step c m = execute c m₀ :=
        (step_of_new h.cycle h.subcycles h.unfinished).trans (hexecute m₀ rfl h.unfinished)
      refine .inl ⟨m₀, rfl, fun hon => ?_, ?_⟩
      · rw [show m.cycle = {} from h.cycle] at hon
        cases hon
      · rw [hstep]
        exact ((execute_cases ha).resolve_right fun h => h.1 ⟨rfl, rfl⟩).2.2
    | running h =>
      rw [hexecute m h.isOn h.unfinished]
      exact (execute_cases ha).imp_left fun ⟨_, _, h⟩ => ⟨m, rfl, fun _ => rfl, h⟩
    | done h =>
      refine .inr ⟨fun hon => ?_, _, step_of_finished h.finished⟩
      have := hon.1
      rw [show m.cycle = _ from h.cycle] at this
      cases this

/-- Records the frequency of a mixer, if it has one. -/
def noted (mixer : Mixer) (time : Float) (s : FrequencyHistory) : FrequencyHistory :=
  match mixer.frequency with
  | .ok f => s.set time f
  | .error _ => s

variable (time) in
theorem noteFrequency_apply (ch : Channel) (m : Machine) :
    ∃ m', noteFrequency ch time m = .ok () m' ∧
      m'.tuner = { m.tuner with series := m'.series } ∧
      ∀ other, m'.series.get other =
        if other = ch then noted (m.mixers.get ch) time (m.series.get ch)
        else m.series.get other := by
  refine ⟨_, rfl, ?_⟩
  dsimp only
  rw [noted]
  cases (m.mixers.get ch).frequency with
  | ok f => exact ⟨rfl, fun other => ChannelMap.get_set _ _ _ _⟩
  | error fault =>
    refine ⟨rfl, fun other => ?_⟩
    dsimp only
    split_ifs with h
    · rw [h]
    · rfl

/-- Retuned channels have their frequencies recorded, and the others stay as they are. -/
theorem forM_retune {channels : List Channel} (hnd : channels.Nodup) (change : Mixer → Mixer)
    (m : Machine) :
    ∃ m', channels.forM (fun ch => retune ch time change) m = .ok () m' ∧
      m'.tuner = { m.tuner with mixers := m'.mixers, series := m'.series } ∧
      ∀ ch,
        (m'.mixers.get ch = if ch ∈ channels then change (m.mixers.get ch) else m.mixers.get ch) ∧
        m'.series.get ch =
          if ch ∈ channels then noted (change (m.mixers.get ch)) time (m.series.get ch)
          else m.series.get ch := by
  induction channels generalizing m with
  | nil => exact ⟨m, rfl, rfl, fun ch => by simp⟩
  | cons x channels ih =>
    obtain ⟨hx, hnd⟩ := List.nodup_cons.1 hnd
    let m₁ : Machine := { m with mixers := m.mixers.set x (change (m.mixers.get x)) }
    obtain ⟨m₂, hnote, htuner₂, hseries⟩ := noteFrequency_apply time x m₁
    have hmixers : m₂.mixers = m₁.mixers := congrArg Tuner.mixers htuner₂
    obtain ⟨m', hrest, htuner, hget⟩ := ih hnd m₂
    refine ⟨m', ?_, ?_, fun ch => ?_⟩
    · have hset : (modify fun m => { m with mixers := m.mixers.set x (change (m.mixers.get x)) } :
          Replay Unit) m = .ok () m₁ := rfl
      have hretune : retune x time change m = .ok () m₂ := (bind_of_ok hset).trans hnote
      exact (bind_of_ok hretune).trans hrest
    · rw [htuner, htuner₂]
      rfl
    · obtain ⟨hm, hs⟩ := hget ch
      have hold : ∀ other, m₁.series.get other = m.series.get other := fun _ => rfl
      rw [hm, hs, hseries, hmixers, ChannelMap.get_set, ChannelMap.get_set]
      simp only [hold]
      -- the first channel is not among the others
      by_cases hch : ch = x
      · subst hch
        simp [hx]
      · simp [hch]

theorem nodup_of_route {mnemonic : String} {path : ℕ} {channels : List Channel}
    (h : Action.ofMnemonic? mnemonic = some (.route path channels)) : channels.Nodup := by
  obtain ⟨before, rest, hl, -⟩ := List.lookup_eq_some_iff.1 h
  have hmem : (mnemonic, Action.route path channels) ∈ actions := by
    rw [hl]
    simp
  simp only [actions, List.mem_append, List.mem_map, List.mem_flatMap, channelActions] at hmem
  have hleft : leftChannels.Nodup := by decide
  have hright : rightChannels.Nodup := by decide
  simp [fixedActions] at hmem
  rcases hmem with ⟨-, -, rfl⟩ | ⟨-, -, rfl⟩ | ⟨-, -, rfl⟩ | ⟨-, -, rfl⟩ <;> assumption

/-- What is known of the oscillators of a channel after actions. -/
def mixerAfter (o : Oscillators) (table : Option (List Float)) (ch : Channel)
    (actions : List Action) :
    Mixer where
  first := (fed o ch actions).map (·.1)
  second := (fed o ch actions).map (·.2)
  table := table.map List.toArray
  selected := (lastOf Action.entry? actions).map fun index : ℕ => (index : Position)

theorem toIndex?_coe (n : ℕ) : (n : Position).toIndex? = some n := by
  simp [Position.toIndex?]

/-- A channel has a frequency exactly if it is tuned, and it is that one. -/
theorem noted_mixerAfter (o : Oscillators) (table : Option (List Float)) (ch : Channel)
    (actions : List Action) (s : FrequencyHistory) :
    noted (mixerAfter o table ch actions) time s =
      match tuned o table ch actions with
      | some f => s.set time f
      | none => s := by
  rw [noted, tuned, Mixer.frequency, mixerAfter]
  cases fed o ch actions with
  | none => rfl
  | some oscillators =>
    cases table with
    | none => rfl
    | some entries =>
      cases lastOf Action.entry? actions with
      | none => rfl
      | some index =>
        simp only [Option.map_some, toIndex?_coe, Option.bind_some, List.getElem?_toArray,
          Option.bind_eq_bind]
        cases entries[index]? <;> rfl

theorem lastOf_concat {f : α → Option β} (l : List α) (x : α) :
    lastOf f (l ++ [x]) = (f x).or (lastOf f l) := by
  rw [lastOf, List.filterMap_append, List.getLast?_append, lastOf]
  cases h : f x <;> simp [h]

section After

variable {o : Oscillators} {table : Option (List Float)} {ch : Channel} {actions : List Action}

theorem mixerAfter_of_not_tunes (h : a.tunes ch = false) :
    mixerAfter o table ch (actions ++ [a]) = mixerAfter o table ch actions := by
  rw [Action.tunes, Bool.or_eq_false_iff, Option.isSome_eq_false_iff, Option.isSome_eq_false_iff,
    Option.isNone_iff_eq_none, Option.isNone_iff_eq_none] at h
  rw [mixerAfter, fed, lastOf_concat, lastOf_concat, h.1, h.2, Option.none_or, Option.none_or]
  rfl

theorem mixerAfter_route {path : ℕ} {channels : List Channel} {oscillators : Float × Float}
    (hch : ch ∈ channels) (hp : o.onPath? path = some oscillators) :
    mixerAfter o table ch (actions ++ [.route path channels]) =
      { mixerAfter o table ch actions with
        first := some oscillators.1
        second := some oscillators.2 } := by
  have hpath : (Action.route path channels).pathTo? ch = some path := if_pos hch
  have hfed : fed o ch (actions ++ [.route path channels]) = some oscillators := by
    rw [fed, lastOf_concat, hpath]
    exact hp
  rw [mixerAfter, hfed, lastOf_concat]
  rfl

theorem mixerAfter_selectEntry (index : ℕ) :
    mixerAfter o table ch (actions ++ [.selectEntry index]) =
      { mixerAfter o table ch actions with selected := some (index : Position) } := by
  rw [mixerAfter, fed, lastOf_concat, lastOf_concat]
  rfl

theorem recordings_concat (es : List (Timed Action)) (e : Timed Action) (before : List Action) :
    recordings o table ch before (es ++ [e]) =
      recordings o table ch before es ++
        (recorded? o table ch (before ++ es.map (·.event)) e).toList := by
  induction es generalizing before with
  | nil => simp [recordings]
  | cons x es ih => simp [recordings, ih]

end After

/-- A machine is tuned by the actions executed so far, and its histories hold what they record. -/
structure Tuned (o : Oscillators)
    (tables : Channel → Option (List Float)) (es : List (Timed Action)) (m : Machine) : Prop where
  oscillators : m.oscillators = o
  mixers : ∀ ch, m.mixers.get ch = mixerAfter o (tables ch) ch (es.map (·.event))
  series : ∀ ch, (m.series.get ch).Holds (recordings o (tables ch) ch [] es)
  register : m.register.isFinite

section Tuned

variable {o : Oscillators} {tables : Channel → Option (List Float)} {es : List (Timed Action)}

theorem Tuned.of_tuner (h : Tuned o tables es m) (ht : m'.tuner = m.tuner) :
    Tuned o tables es m' := by
  have hs : m'.series = m.series := congrArg Tuner.series ht
  have hm : m'.mixers = m.mixers := congrArg Tuner.mixers ht
  refine ⟨(congrArg Tuner.oscillators ht).trans h.oscillators, fun ch => ?_, fun ch => ?_, ?_⟩
  · rw [hm, h.mixers]
  · rw [hs]
    exact h.series ch
  · rw [show m'.register = m.register from congrArg Tuner.register ht]
    exact h.register

theorem Tuned.concat_of_not_tunes (h : Tuned o tables es m) (ha : ∀ ch, a.tunes ch = false)
    (time : Float) : Tuned o tables (es ++ [⟨time, a⟩]) m := by
  refine ⟨h.oscillators, fun ch => ?_, fun ch => ?_, h.register⟩
  · rw [List.map_append, List.map_singleton, mixerAfter_of_not_tunes (ha ch), h.mixers]
  · rw [recordings_concat, recorded?, if_neg (by simp [ha])]
    simpa using h.series ch

/-- Channels that an action retunes have what it records added to their histories. -/
theorem Tuned.retuned (h : Tuned o tables es m) {channels : List Channel} (hnd : channels.Nodup)
    (change : Mixer → Mixer) (hch : ∀ ch, a.tunes ch = decide (ch ∈ channels))
    (hchange : ∀ ch ∈ channels, mixerAfter o (tables ch) ch (es.map (·.event) ++ [a]) =
      change (mixerAfter o (tables ch) ch (es.map (·.event))))
    (ht : time ≤ time) :
    ∃ m', channels.forM (fun ch => retune ch time change) m = .ok () m' ∧
      Tuned o tables (es ++ [⟨time, a⟩]) m' := by
  obtain ⟨m', hm', htuner, hget⟩ := forM_retune hnd change m
  refine ⟨m', hm', ?_, fun ch => ?_, fun ch => ?_, ?_⟩
  · exact (congrArg Tuner.oscillators htuner).trans h.oscillators
  · rw [(hget ch).1, h.mixers, List.map_append, List.map_singleton]
    split_ifs with hmem
    · exact (hchange ch hmem).symm
    · exact (mixerAfter_of_not_tunes (by simp [hch, hmem])).symm
  · rw [(hget ch).2, h.mixers, recordings_concat, recorded?, List.nil_append]
    split_ifs with hmem htunes htunes
    · rw [← hchange ch hmem, noted_mixerAfter]
      cases tuned o (tables ch) ch (es.map (·.event) ++ [a]) with
      | none => simpa using h.series ch
      | some f => exact (h.series ch).set ht f
    · exact absurd (by simp [hch, hmem]) htunes
    · exact absurd htunes (by simp [hch, hmem])
    · simpa using h.series ch
  · rw [show m'.register = m.register from congrArg Tuner.register htuner]
    exact h.register

/-- An action that is executed is the last one, and one that fails has changed no frequency. -/
def performed {ε σ : Type} (r : EStateM.Result ε σ Unit) (e : Timed Action) : List (Timed Action) :=
  if succeeds r then [e] else []

theorem Tuned.perform_untuned (h : Tuned o tables es m) {x : Replay Unit} (hx : Untuned x)
    (ha : ∀ ch, a.tunes ch = false) :
    Tuned o tables (es ++ performed (x m) ⟨time, a⟩) (after x m) := by
  refine Tuned.of_tuner (m := m) ?_ (hx m)
  rw [performed]
  split_ifs
  · exact h.concat_of_not_tunes ha time
  · rwa [List.append_nil]

theorem Tuned.perform_ok (h : Tuned o tables (es ++ [⟨time, a⟩]) m') {x : Replay Unit}
    (hx : x m = .ok () m') : Tuned o tables (es ++ performed (x m) ⟨time, a⟩) (after x m) := by
  rw [after_of_ok hx, hx]
  exact h

theorem untuned_startFilters : Untuned (startFilters time pos) := by
  intro m
  unfold after
  rw [startFilters, get_bind]
  cases m.filtersStarted <;> rfl

theorem tunes_route (path : ℕ) (channels : List Channel) (ch : Channel) :
    (Action.route path channels).tunes ch = decide (ch ∈ channels) := by
  by_cases h : ch ∈ channels <;> simp [Action.tunes, Action.pathTo?, Action.entry?, h]

theorem perform_of_not_fed {path : ℕ} {channels : List Channel}
    (hp : m.oscillators.onPath? path = none) :
    perform time pos (.route path channels) m = .error (.program ⟨.noOscillators path, pos⟩) m := by
  rw [perform, route_apply, hp]

theorem Tuned.perform (h : Tuned o tables es m) (ht : time ≤ time)
    (hnd : ∀ path channels, a = .route path channels → channels.Nodup) :
    Tuned o tables (es ++ performed (perform time pos a m) ⟨time, a⟩)
      (after (perform time pos a) m) := by
  cases a with
  | turnOn g =>
    rw [Controller.perform, turnOn_eq]
    exact h.perform_untuned (beside_tuner.switchLine _ _) fun _ => rfl
  | turnOff g =>
    rw [Controller.perform, turnOff_eq]
    exact h.perform_untuned (beside_tuner.switchLine _ _) fun _ => rfl
  | phase p =>
    have hphase : Untuned (Controller.perform time pos (.phase p)) := by
      refine Leaves.bind (untuned_modify fun _ => rfl) fun _ => ?_
      rw [notePhase_eq]
      exact leaves_forM (fun l => beside_tuner.switchLine _ l) _
    exact h.perform_untuned hphase fun _ => rfl
  | allOff =>
    rw [Controller.perform, releaseChannels_eq]
    exact h.perform_untuned (leaves_forM (fun l => beside_tuner.switchLine _ l) _) fun _ => rfl
  | route path channels =>
    cases hp : o.onPath? path with
    | none =>
      have hfail : Controller.perform time pos (.route path channels) m = _ :=
        perform_of_not_fed (h.oscillators ▸ hp : m.oscillators.onPath? path = none)
      rw [after_of_error hfail, hfail]
      change Tuned o tables (es ++ []) m
      rwa [List.append_nil]
    | some oscillators =>
      obtain ⟨m', hm', hnext⟩ := h.retuned (hnd path channels rfl)
        ({ · with first := some oscillators.1, second := some oscillators.2 })
        (tunes_route path channels)
        (fun ch hmem => mixerAfter_route hmem hp) ht
      refine hnext.perform_ok ?_
      rw [Controller.perform, route_apply, h.oscillators, hp]
      exact hm'
  | selectEntry index =>
    obtain ⟨m', hm', hnext⟩ := h.retuned (a := .selectEntry index) (by decide : Channel.all.Nodup)
      ({ · with selected := some (index : Position) })
      (fun ch => by simp [Action.tunes, Action.entry?, channel_mem_all])
      (fun ch _ => mixerAfter_selectEntry index) ht
    exact hnext.perform_ok hm'
  | transmit index => exact h.perform_untuned (untuned_modify fun _ => rfl) fun _ => rfl
  | startFilters => exact h.perform_untuned untuned_startFilters fun _ => rfl
  | nothing => exact h.perform_untuned (leaves_pure ()) fun _ => rfl

theorem nodup_of_action (ha : call.action? = some a) (path : ℕ) (channels : List Channel)
    (h : a = .route path channels) : channels.Nodup := by
  subst h
  cases call with
  | execute c => exact nodup_of_route ha
  | step c =>
    rw [Call.action?] at ha
    split_ifs at ha
    exact nodup_of_route ha

/-- A call that is executed adds its action to those before, and no other call changes a
frequency. -/
theorem Tuned.replay (h : Tuned o tables es m) (hs : Stage m.frame b) (ht : call.command.Timely) :
    Tuned o tables (es ++ (call.executed? m).toList) (after call.replay m) := by
  cases ha : call.action? with
  | none =>
    have hnone : call.executed? m = none := by
      rw [Call.executed?, ha]
      split_ifs <;> rfl
    rw [hnone, Option.toList_none, List.append_nil]
    rcases setsRegister_replay ha m with htuner | htuner
    · exact h.of_tuner htuner
    · exact .of_tuner (m := { m with register := call.command.time })
        ⟨h.oscillators, h.mixers, h.series, ht.1⟩ htuner
  | some a =>
    have hexecuted : ∀ r, call.replay m = r → (call.executed? m).toList =
        performed r ⟨m.register + call.command.time, a⟩ := by
      rintro r rfl
      rw [Call.executed?, ha, performed]
      split_ifs <;> rfl
    rcases hs.replay_cases ha with ⟨m₁, htuner, -, hperform⟩ | ⟨-, e, hfail⟩
    · rw [hexecuted _ hperform, after, hperform]
      exact (h.of_tuner htuner).perform (Number.add_le_self h.register ht.1) (nodup_of_action ha)
    · rw [hexecuted _ hfail, after_of_error hfail]
      change Tuned o tables (es ++ []) m
      rwa [List.append_nil]

theorem Tuned.reached {calls : List Call} (h : Tuned o tables es m) (hs : Stage m.frame b)
    (ht : ∀ call ∈ calls, call.command.Timely) :
    Tuned o tables (es ++ executed m calls) (reached m calls) := by
  induction calls generalizing m b es with
  | nil =>
    rw [executed, List.append_nil]
    exact h
  | cons call calls ih =>
    obtain ⟨hc, hcs⟩ := List.forall_mem_cons.1 ht
    rw [executed, ← List.append_assoc]
    exact ih (h.replay hs hc) (hs.leads hc).after hcs

theorem tuned_initial (o : Oscillators) (tables : Channel → Option (List Float)) :
    Tuned o tables [] (Machine.initial o tables) := by
  refine ⟨rfl, fun ch => ?_, fun ch => ?_, (by decide : (0 : Float).isFinite)⟩
  · exact Vector.getElem_ofFn ch.isLt
  · have hnew : (Machine.initial o tables).series.get ch = {} := Vector.getElem_replicate ch.isLt
    rw [hnew]
    exact FrequencyHistory.holds_new

/-- Over any calls with finite times, in any order of time, the history of a channel holds exactly
what its routes and selections record. A route without oscillators on its path fails and changes
nothing for any channel. -/
theorem series_hold_recordings {calls : List Call} (ht : ∀ call ∈ calls, call.command.Timely) :
    let m₀ := Machine.initial o tables
    let m := Controller.reached m₀ calls
    (∀ ch, (m.series.get ch).Holds (recordings o (tables ch) ch [] (executed m₀ calls))) ∧
      ∀ (call : Call) (path : ℕ) (channels : List Channel),
        call.action? = some (.route path channels) → o.onPath? path = none →
        ∃ e m', call.replay m = .error (.program e) m' ∧ m'.tuner = m.tuner ∧
          (m.cycle.isOn = true → m.subcycles.isOn = true →
            e = ⟨.noOscillators path, call.command.line⟩ ∧ m' = m) := by
  intro m₀ m
  have hstage := (stage_initial o tables).reached ht
  have htuned := (tuned_initial o tables).reached (stage_initial o tables) ht
  refine ⟨htuned.series, fun call path channels ha hp => ?_⟩
  rcases hstage.replay_cases ha with ⟨m₁, htuner, hsame, hperform⟩ | ⟨hoff, e, hfail⟩
  · have hosc : m₁.oscillators = o := (congrArg Tuner.oscillators htuner).trans htuned.oscillators
    rw [perform_of_not_fed (by rw [hosc]; exact hp)] at hperform
    exact ⟨_, m₁, hperform, htuner, fun hon _ => ⟨rfl, hsame hon⟩⟩
  · exact ⟨e, m, hfail, rfl, fun hon hsub => (hoff ⟨hon, hsub⟩).elim⟩

/-- Channels on the left are routed, then an entry is selected at an earlier time, and a route to a
path without oscillators fails. -/
def tunedCalls : List Call :=
  [.step ⟨2, "AD1L", 1⟩, .step ⟨1, "NCOSEL1", 2⟩, .step ⟨3, "AD2L", 3⟩]

theorem tunedCalls_hold :
    (∀ call ∈ tunedCalls, call.command.Timely) ∧
      ((reached (Machine.initial ⟨[some 812], [some 128]⟩ fun _ => some [10, 20])
        tunedCalls).series.get 0).Holds
        (recordings ⟨[some 812], [some 128]⟩ (some [10, 20]) 0 []
          (executed (Machine.initial ⟨[some 812], [some 128]⟩ fun _ => some [10, 20]) tunedCalls)) ∧
      FrequencyHistory.lastAt (recordings ⟨[some 812], [some 128]⟩ (some [10, 20]) 0 []
        (executed (Machine.initial ⟨[some 812], [some 128]⟩ fun _ => some [10, 20]) tunedCalls)) 1 =
          some 920 := by
  have ht : ∀ call ∈ tunedCalls, call.command.Timely := by decide
  exact ⟨ht, (series_hold_recordings ht).1 0, by decide +kernel⟩

end Tuned

end RadarTimeline.Controller
