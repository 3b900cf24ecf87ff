import RadarTimeline.Proofs.Controller.Effect
import RadarTimeline.Proofs.Controller.Snapshot

namespace RadarTimeline

/-- How the end of a subcycle switches a line. Gates have to be off by themselves. -/
def Line.closing : Line → Toggle
  | .gate _ => .keep
  | .phase _ => .release

/-- The lines with which a subcycle starts: only that of the phase in effect is on. -/
def PhaseHistory.reopened (h : PhaseHistory) (time : Float) : LineMap Stream :=
  match h.at? time with
  | some p => (LineMap.replicate {}).set (.phase p) ⟨#[], some time⟩
  | none => LineMap.replicate {}

namespace Controller

/-- The subcycle that started at `since` can end at a time and leaves a snapshot of its lines. -/
structure Closes (k : Core) (time since : Float) (lines : LineMap Stream) (s : Snapshot Line) :
    Prop where
  running : k.subcycles.bounds.openedAt = some since
  inTime : ¬ time < since
  released : ∀ l, (Line.closing l).apply time (k.lines.get l) = .ok (lines.get l)
  off : ∀ l, (lines.get l).isOn = false
  index : s.index = k.subcycles.count
  ends : s.interval.ends = (since, time)
  streams : Subcycles.periodsOf (Line.all.map fun l => (l, lines.get l)) = .ok s.streams

theorem Closes.periods {k : Core} {time since : Float} {lines : LineMap Stream} {s : Snapshot Line}
    (h : Closes k time since lines s) (l : Line) :
    (s.periods l).map Interval.ends = (lines.get l).closed.toList :=
  Subcycles.periodsOf_lookup h.streams l.mem_all

namespace Core

def closed (k : Core) (time since : Float) (s : Snapshot Line) : Core :=
  { k with
    subcycles :=
      ⟨⟨k.subcycles.bounds.closed.push (since, time), none⟩, k.subcycles.snapshots.push s⟩
    lines := LineMap.replicate {} }

def opened (k : Core) (time : Float) : Core :=
  { k with
    register := time
    subcycles := ⟨⟨k.subcycles.bounds.closed, some time⟩, k.subcycles.snapshots⟩
    lines := k.phases.reopened time }

def ended (k : Core) (time begun : Float) : Core :=
  { k with
    cycle := ⟨k.cycle.closed.push (begun, time), none⟩
    finished := true
    endTime := time }

/-- The core of a new machine whose first command has opened the cycle. -/
def begun (o : Oscillators) : Core where
  oscillators := o
  register := 0
  cycle := ⟨#[], some 0⟩
  subcycles := ⟨⟨#[], some 0⟩, #[]⟩
  finished := false
  endTime := 0
  lines := LineMap.replicate {}
  phases := {}

/-- A cycle and a subcycle are running. -/
structure Running (k : Core) : Prop where
  cycle : k.cycle.isOn
  subcycle : k.subcycles.isOn
  unfinished : k.finished = false

end Core

/-- What one command does to a core when it succeeds. -/
inductive Step (k : Core) (c : Command) : Core → Prop
  | act {k' : Core} (hs : c.mnemonic ≠ "SETTCR") (hr : c.mnemonic ≠ "REP")
      (h : Performs c.action (k.register + c.time) k k') : Step k c k'
  | reset (hs : c.mnemonic = "SETTCR") (ht : ¬ c.time > 0) : Step k c { k with register := c.time }
  | split (hs : c.mnemonic = "SETTCR") (ht : c.time > 0) {since : Float} {lines : LineMap Stream}
      {s : Snapshot Line} (h : Closes k c.time since lines s) :
      Step k c ((k.closed c.time since s).opened c.time)
  | finish (hr : c.mnemonic = "REP") {begun since : Float} {lines : LineMap Stream}
      {s : Snapshot Line} (hc : k.cycle.openedAt = some begun) (hb : ¬ c.time < begun)
      (h : Closes k c.time since lines s) :
      Step k c ((k.closed c.time since s).ended c.time begun)

/-- What a list of commands does to a core when all succeed. -/
inductive Steps : Core → List Command → Core → Prop
  | nil (k : Core) : Steps k [] k
  | cons {k k₁ k' : Core} {c : Command} {cs : List Command} (running : k.Running)
      (first : Step k c k₁) (rest : Steps k₁ cs k') : Steps k (c :: cs) k'

variable {m m' : Machine} {time : Float} {pos : Position} {c : Command} {k : Core}

theorem releasePhases_eq :
    (Phase.all.forM fun p => release (.phase p) time pos) =
      [Line.phase .deg0, .phase .deg180].forM fun l => switchLine l.closing l time pos := by
  simp only [Phase.all, release_eq]
  rfl

theorem closing_eq (l : Line) :
    (if l ∈ [Line.phase .deg0, .phase .deg180] then l.closing else .keep) = l.closing := by
  rcases l with g | p
  · rfl
  · cases p <;> rfl

/-- The end of a subcycle after its phases have been released. -/
def recordSubcycle (time : Float) (pos : Position) : Replay Unit := fun m =>
  match Subcycles.close Line.name time pos m.streams m.subcycles with
  | .error e subcycles => .error e { m with subcycles := subcycles }
  | .ok s subcycles => .ok ()
      { m with
        subcycles := subcycles
        lines := LineMap.replicate {}
        log := m.log.push (.debug, s!"Subcycle {s.index} closed at {Number.text time} s") }

theorem endSubcycle_eq :
    endSubcycle time pos =
      ([Line.phase .deg0, .phase .deg180].forM fun l => switchLine l.closing l time pos) >>=
        fun _ => recordSubcycle time pos := by
  rw [← releasePhases_eq]
  unfold endSubcycle
  congr 1
  funext _ m
  rw [get_bind, recordSubcycle]
  cases Subcycles.close Line.name time pos m.streams m.subcycles <;> rfl

theorem recordSubcycle_iff :
    (∃ m', recordSubcycle time pos m = .ok () m' ∧ m'.core = k) ↔
      ∃ s sub, Subcycles.close Line.name time pos m.streams m.subcycles = .ok s sub ∧
        k = { m.core with subcycles := sub, lines := LineMap.replicate {} } := by
  unfold recordSubcycle
  cases h : Subcycles.close Line.name time pos m.streams m.subcycles with
  | error e sub => simp
  | ok s sub =>
    constructor
    · rintro ⟨_, ⟨⟩, rfl⟩
      exact ⟨s, sub, rfl, rfl⟩
    · rintro ⟨_, _, ⟨⟩, rfl⟩
      exact ⟨_, rfl, rfl⟩

theorem endSubcycle_iff :
    (∃ m', endSubcycle time pos m = .ok () m' ∧ m'.core = k) ↔
      ∃ since lines s, Closes m.core time since lines s ∧ k = m.core.closed time since s := by
  rw [endSubcycle_eq]
  have hphases : [Line.phase .deg0, .phase .deg180].Nodup := by decide
  simp only [bind_eq_ok, forM_switchLine_eq_ok hphases Line.closing, closing_eq]
  constructor
  · rintro ⟨m', ⟨_, _, ⟨lines, rfl, hl⟩, h⟩, rfl⟩
    obtain ⟨s, sub, hc, hk⟩ := recordSubcycle_iff.1 ⟨m', h, rfl⟩
    obtain ⟨hoff, since, hrun, ht, hs, rfl⟩ := Subcycles.close_eq_ok_iff.1 hc
    obtain ⟨hindex, hends, hstreams⟩ := Subcycles.snapshot_eq_ok_iff.1 hs
    refine ⟨since, lines, s, ⟨hrun, ht, hl, fun l => ?_, hindex, hends, hstreams⟩, hk⟩
    exact hoff (l, lines.get l) (List.mem_map.2 ⟨l, l.mem_all, rfl⟩)
  · rintro ⟨since, lines, s, h, rfl⟩
    have hs := Subcycles.snapshot_eq_ok_iff.2 ⟨h.index, h.ends, h.streams⟩
    have hoff : ∀ x ∈ Line.all.map fun l => (l, lines.get l), x.2.isOn = false := by
      intro x hx
      obtain ⟨l, -, rfl⟩ := List.mem_map.1 hx
      exact h.off l
    have hc : Subcycles.close Line.name time pos _ m.subcycles = .ok s _ :=
      Subcycles.close_eq_ok_iff.2 ⟨hoff, since, h.running, h.inTime, hs, rfl⟩
    obtain ⟨m', h', hk⟩ := recordSubcycle_iff (m := { m with lines := lines }).2 ⟨s, _, hc, rfl⟩
    exact ⟨m', ⟨(), _, ⟨lines, rfl, h.released⟩, h'⟩, hk⟩

theorem openSubcycle_of_off (h : m.subcycles.bounds.openedAt = none) :
    openSubcycle time pos m =
      .ok () { m with
        subcycles := ⟨⟨m.subcycles.bounds.closed, some time⟩, m.subcycles.snapshots⟩ } := by
  rw [openSubcycle, get_bind, Subcycles.openAt, Stream.turnOn, h]
  rfl

theorem reopenPhase_of_new (h : m.lines = LineMap.replicate {}) :
    reopenPhase time pos m = .ok () { m with lines := m.phases.reopened time } := by
  obtain ⟨os, mx, se, re, cy, su, lines, ph, sel, fi, fin, en, wa, lo⟩ := m
  change lines = _ at h
  subst h
  rw [reopenPhase, get_bind]
  simp only [PhaseHistory.reopened]
  cases ph.at? time with
  | none => rfl
  | some p =>
    simp only [turnOn_eq, switchLine, LineMap.get_replicate]
    rfl

theorem openNext (time : Float) (pos : Position) (hb : m.subcycles.bounds.openedAt = none)
    (hl : m.lines = LineMap.replicate {}) :
    ∃ m', (openSubcycle time pos >>= fun _ => reopenPhase time pos >>= fun _ =>
      (modify fun m => { m with register := time } : Replay Unit)) m = .ok () m' ∧
        m'.core = m.core.opened time := by
  refine ⟨{ m with
    register := time
    subcycles := ⟨⟨m.subcycles.bounds.closed, some time⟩, m.subcycles.snapshots⟩
    lines := m.phases.reopened time }, ?_, rfl⟩
  refine bind_eq_ok.2 ⟨(), _, openSubcycle_of_off hb, ?_⟩
  exact bind_eq_ok.2 ⟨(), _, reopenPhase_of_new hl, rfl⟩

theorem split_iff :
    (∃ m', (endSubcycle time pos >>= fun _ => openSubcycle time pos >>= fun _ =>
      reopenPhase time pos >>= fun _ =>
        (modify fun m => { m with register := time } : Replay Unit)) m = .ok () m' ∧ m'.core = k) ↔
      ∃ since lines s, Closes m.core time since lines s ∧
        k = (m.core.closed time since s).opened time := by
  constructor
  · rintro ⟨m', h, rfl⟩
    obtain ⟨_, m₁, h₁, h⟩ := bind_eq_ok.1 h
    obtain ⟨since, lines, s, hcl, hk⟩ := endSubcycle_iff.1 ⟨m₁, h₁, rfl⟩
    obtain ⟨m₂, h₂, hk₂⟩ := openNext time pos
      (congrArg (·.subcycles.bounds.openedAt) hk) (congrArg Core.lines hk)
    rw [h₂] at h
    cases h
    exact ⟨since, lines, s, hcl, by rw [hk₂, hk]⟩
  · rintro ⟨since, lines, s, hcl, rfl⟩
    obtain ⟨m₁, h₁, hk⟩ := endSubcycle_iff.2 ⟨since, lines, s, hcl, rfl⟩
    obtain ⟨m₂, h₂, hk₂⟩ := openNext time pos
      (congrArg (·.subcycles.bounds.openedAt) hk) (congrArg Core.lines hk)
    exact ⟨m₂, bind_eq_ok.2 ⟨(), m₁, h₁, h₂⟩, by rw [hk₂, hk]⟩

theorem setRegister_of_pos (ht : c.time > 0) :
    setRegister c = endSubcycle c.time c.line >>= fun _ => openSubcycle c.time c.line >>= fun _ =>
      reopenPhase c.time c.line >>= fun _ => modify fun m => { m with register := c.time } := by
  unfold setRegister
  rw [if_pos ht]

theorem setRegister_of_not_pos (ht : ¬ c.time > 0) :
    setRegister c m = .ok () { m with register := c.time } := by
  unfold setRegister
  rw [if_neg ht]
  rfl

theorem not_end_of_setTime (hs : c.mnemonic = "SETTCR") : c.mnemonic ≠ "REP" := by
  rw [hs]
  decide

theorem not_setTime_of_end (hr : c.mnemonic = "REP") : c.mnemonic ≠ "SETTCR" :=
  fun hs => not_end_of_setTime hs hr

theorem setRegister_iff (hs : c.mnemonic = "SETTCR") :
    (∃ m', setRegister c m = .ok () m' ∧ m'.core = k) ↔ Step m.core c k := by
  have hr := not_end_of_setTime hs
  by_cases ht : c.time > 0
  · rw [setRegister_of_pos ht, split_iff]
    constructor
    · rintro ⟨since, lines, s, h, rfl⟩
      exact .split hs ht h
    · intro h
      cases h with
      | act hs' => exact (hs' hs).elim
      | reset _ ht' => exact (ht' ht).elim
      | split _ _ h => exact ⟨_, _, _, h, rfl⟩
      | finish hr' => exact (hr hr').elim
  · rw [setRegister_of_not_pos ht]
    constructor
    · rintro ⟨_, ⟨⟩, rfl⟩
      exact .reset hs ht
    · intro h
      cases h with
      | act hs' => exact (hs' hs).elim
      | reset => exact ⟨_, rfl, rfl⟩
      | split _ ht' => exact (ht ht').elim
      | finish hr' => exact (hr hr').elim

def endCycle (time : Float) (pos : Position) : Replay Unit := fun m =>
  match m.cycle.turnOff time with
  | .ok cycle => .ok () { m with cycle := cycle, finished := true, endTime := time }
  | .error fault => .error (.program ⟨.switch "CYCLE" fault, pos⟩) m

theorem finish_eq : finish c = endSubcycle c.time c.line >>= fun _ => endCycle c.time c.line := by
  unfold finish
  congr 1
  funext _ m
  rw [get_bind, endCycle]
  cases m.cycle.turnOff c.time <;> rfl

theorem endCycle_iff :
    (∃ m', endCycle time pos m = .ok () m' ∧ m'.core = k) ↔
      ∃ begun, m.cycle.openedAt = some begun ∧ ¬ time < begun ∧ k = m.core.ended time begun := by
  unfold endCycle
  have hoff : m.cycle.turnOff time = Toggle.off.apply time m.cycle := rfl
  cases h : m.cycle.turnOff time with
  | error fault =>
    constructor
    · rintro ⟨_, ⟨⟩, -⟩
    · rintro ⟨begun, hb, ht, -⟩
      rw [hoff, Toggle.apply_off_eq_ok.2 ⟨begun, hb, ht, rfl⟩] at h
      cases h
  | ok cycle =>
    obtain ⟨begun, hb, ht, rfl⟩ := Toggle.apply_off_eq_ok.1 (hoff ▸ h)
    constructor
    · rintro ⟨_, ⟨⟩, rfl⟩
      exact ⟨begun, hb, ht, rfl⟩
    · rintro ⟨begun', hb', -, rfl⟩
      rw [hb] at hb'
      cases hb'
      exact ⟨_, rfl, rfl⟩

theorem finish_iff (hr : c.mnemonic = "REP") :
    (∃ m', finish c m = .ok () m' ∧ m'.core = k) ↔ Step m.core c k := by
  have hs := not_setTime_of_end hr
  rw [finish_eq]
  constructor
  · rintro ⟨m', h, rfl⟩
    obtain ⟨_, m₁, h₁, h⟩ := bind_eq_ok.1 h
    obtain ⟨since, lines, s, hcl, hk⟩ := endSubcycle_iff.1 ⟨m₁, h₁, rfl⟩
    obtain ⟨begun, hb, ht, hk'⟩ := endCycle_iff.1 ⟨m', h, rfl⟩
    rw [hk', hk]
    have hc : m₁.cycle = m.cycle := congrArg (·.cycle) hk
    exact .finish hr ((congrArg Stream.openedAt hc).symm.trans hb) ht hcl
  · intro h
    cases h with
    | act _ hr' => exact (hr' hr).elim
    | reset hs' => exact (hs hs').elim
    | split hs' => exact (hs hs').elim
    | finish _ hb ht hcl =>
      obtain ⟨m₁, h₁, hk⟩ := endSubcycle_iff.2 ⟨_, _, _, hcl, rfl⟩
      have hc : m₁.cycle = m.cycle := congrArg (·.cycle) hk
      obtain ⟨m₂, h₂, hk₂⟩ := endCycle_iff.2 ⟨_, (congrArg Stream.openedAt hc).trans hb, ht, rfl⟩
      exact ⟨m₂, bind_eq_ok.2 ⟨(), m₁, h₁, h₂⟩, by rw [hk₂, hk]⟩

theorem openCycle_of_on (h : m.cycle.isOn) : openCycle pos m = .ok () m := by
  rw [openCycle, get_bind, h]
  rfl

theorem openCycle_of_off (h : m.cycle.openedAt = none) :
    openCycle pos m = openSubcycle 0 pos { m with cycle := ⟨m.cycle.closed, some 0⟩ } := by
  rw [openCycle, get_bind, Stream.isOn, h, Stream.turnOn, h]
  rfl

theorem step_of_begun (hc : m.cycle.isOn) (hf : m.finished = false) :
    step c m =
      (if c.mnemonic = "SETTCR" then setRegister c
        else if c.mnemonic = "REP" then finish c else execute c) m := by
  rw [step, get_bind, hf]
  exact bind_of_ok (openCycle_of_on hc)

theorem step_iff (hm : m.core.Running) :
    (∃ m', step c m = .ok () m' ∧ m'.core = k) ↔ Step m.core c k := by
  rw [step_of_begun hm.cycle hm.unfinished]
  by_cases hs : c.mnemonic = "SETTCR"
  · rw [if_pos hs]
    exact setRegister_iff hs
  rw [if_neg hs]
  by_cases hr : c.mnemonic = "REP"
  · rw [if_pos hr]
    exact finish_iff hr
  · rw [if_neg hr, execute_apply (m := m) hm.cycle hm.subcycle]
    constructor
    · exact .act hs hr
    · intro h
      cases h with
      | act _ _ h => exact h
      | reset hs' => exact (hs hs').elim
      | split hs' => exact (hs hs').elim
      | finish hr' => exact (hr hr').elim

theorem Performs.running {a : Action} {k' : Core} (h : Performs a time k k') (hk : k.Running) :
    k'.Running := by
  rw [h.rest]
  exact ⟨hk.cycle, hk.subcycle, hk.unfinished⟩

theorem Step.running_or_finished {k' : Core} (h : Step k c k') (hk : k.Running) :
    k'.Running ∨ k'.finished = true := by
  cases h with
  | act _ _ h => exact .inl (h.running hk)
  | reset => exact .inl ⟨hk.cycle, hk.subcycle, hk.unfinished⟩
  | split => exact .inl ⟨hk.cycle, rfl, hk.unfinished⟩
  | finish => exact .inr rfl

theorem step_of_finished (h : m.finished = true) :
    step c m = .error (.program ⟨.afterEnd c.mnemonic, c.line⟩) m := by
  rw [step, get_bind, h]
  rfl

/-- The commands after the first are replayed one by one; a warning among them changes no core. -/
theorem stepAll_iff {cs : List Command} (hm : m.core.Running ∨ m.finished = true) :
    (∃ m', stepAll cs m = .ok () m' ∧ m'.core = k) ↔ Steps m.core cs k := by
  induction cs generalizing m with
  | nil =>
    constructor
    · rintro ⟨_, ⟨⟩, rfl⟩
      exact .nil _
    · intro h
      cases h
      exact ⟨m, rfl, rfl⟩
  | cons c cs ih =>
    -- a warning comes before the step, which finds the same core
    obtain ⟨m₀, h₀, hk₀⟩ : ∃ m₀, stepAll (c :: cs) m = (step c >>= fun _ => stepAll cs) m₀ ∧
        m₀.core = m.core := by
      by_cases hw : isMisplaced c cs
      · obtain ⟨m₀, h₀, hk₀⟩ := silent_warn c misplacedReset m
        refine ⟨m₀, ?_, hk₀⟩
        simp only [stepAll, hw, if_true, bind, EStateM.bind, h₀]
      · refine ⟨m, ?_, rfl⟩
        simp only [stepAll, hw]
        rfl
    rw [h₀, ← hk₀]
    constructor
    · rintro ⟨m', h, rfl⟩
      obtain ⟨_, m₁, h₁, h⟩ := bind_eq_ok.1 h
      rcases hm with hm | hm
      · rw [← hk₀] at hm
        have hst := (step_iff hm).1 ⟨m₁, h₁, rfl⟩
        exact .cons hm hst ((ih (hst.running_or_finished hm)).1 ⟨m', h, rfl⟩)
      · have hf : m₀.finished = true := (congrArg (·.finished) hk₀).trans hm
        rw [step_of_finished hf] at h₁
        cases h₁
    · intro h
      cases h with
      | cons hm hst rest =>
        obtain ⟨m₁, h₁, rfl⟩ := (step_iff hm).2 hst
        obtain ⟨m', h', hk⟩ := (ih (hst.running_or_finished hm)).2 rest
        exact ⟨m', bind_eq_ok.2 ⟨(), m₁, h₁, h'⟩, hk⟩

/-- The last test of a replay. -/
def checkEnd (cs : List Command) : Replay Unit := fun m =>
  match cs.getLast? with
  | none => .error (.program ⟨.missingEnd, 0⟩) m
  | some last =>
    if last.mnemonic = "REP" then
      logDebug s!"Program finished after {m.subcycles.count} subcycle(s)" m
    else .error (.program ⟨.missingEnd, last.line⟩) m

theorem checkEnd_iff {cs : List Command} :
    (∃ m', checkEnd cs m = .ok () m' ∧ m'.core = k) ↔
      (∃ last, cs.getLast? = some last ∧ last.mnemonic = "REP") ∧ k = m.core := by
  unfold checkEnd
  cases cs.getLast? with
  | none => simp
  | some last =>
    by_cases hr : last.mnemonic = "REP"
    · simp only [hr, if_true, Option.some.injEq, exists_eq_left', true_and]
      constructor
      · rintro ⟨m', h, rfl⟩
        exact (silent_logDebug _).core_eq h
      · rintro rfl
        exact silent_logDebug _ m
    · simp [hr]

theorem run_cons (c : Command) (cs : List Command) :
    run (c :: cs) = step c >>= fun _ => stepAll cs >>= fun _ => checkEnd (c :: cs) := by
  unfold run
  simp only
  congr 1
  funext _
  congr 1
  funext _ m
  unfold checkEnd
  cases (c :: cs).getLast? with
  | none => rfl
  | some last =>
    by_cases hr : last.mnemonic = "REP"
    · simp only [hr, bne_self_eq_false, Bool.false_eq_true, if_false, if_true]
      rfl
    · have hb : (last.mnemonic != "REP") = true := by simpa using hr
      simp only [hr, hb, if_false, if_true]
      rfl

theorem step_of_new (hc : m.cycle = {}) (hs : m.subcycles = {}) (hf : m.finished = false) :
    step c m = step c { m with cycle := ⟨#[], some 0⟩, subcycles := ⟨⟨#[], some 0⟩, #[]⟩ } := by
  obtain ⟨os, mx, se, re, cy, su, li, ph, sel, fi, fin, en, wa, lo⟩ := m
  change cy = _ at hc
  change su = _ at hs
  change fin = _ at hf
  subst hc hs hf
  rfl

theorem step_initial (o : Oscillators) (tables : Channel → Option (List Float)) (c : Command) :
    ∃ m, m.core = Core.begun o ∧ step c (Machine.initial o tables) = step c m :=
  ⟨_, rfl, step_of_new rfl rfl rfl⟩

/-- A program is replayed exactly if all of its commands are steps and the last one is `REP`. -/
theorem run_iff {o : Oscillators} {tables : Channel → Option (List Float)} {cs : List Command} :
    (∃ m', run cs (Machine.initial o tables) = .ok () m' ∧ m'.core = k) ↔
      Steps (Core.begun o) cs k ∧ ∃ last, cs.getLast? = some last ∧ last.mnemonic = "REP" := by
  cases cs with
  | nil =>
    constructor
    · rintro ⟨_, ⟨⟩, -⟩
    · rintro ⟨-, _, ⟨⟩, -⟩
  | cons c cs =>
    obtain ⟨m, hm, hst⟩ := step_initial o tables c
    have hrun : m.core.Running := by
      rw [hm]
      exact ⟨rfl, rfl, rfl⟩
    rw [run_cons, ← hm]
    constructor
    · rintro ⟨m', h, rfl⟩
      obtain ⟨_, m₁, h₁, h⟩ := bind_eq_ok.1 h
      obtain ⟨_, m₂, h₂, h⟩ := bind_eq_ok.1 h
      rw [hst] at h₁
      have hs := (step_iff hrun).1 ⟨m₁, h₁, rfl⟩
      obtain ⟨hlast, hk⟩ := checkEnd_iff.1 ⟨m', h, rfl⟩
      rw [hk]
      exact ⟨.cons hrun hs ((stepAll_iff (hs.running_or_finished hrun)).1 ⟨m₂, h₂, rfl⟩), hlast⟩
    · rintro ⟨hs, hlast⟩
      cases hs with
      | cons _ hs rest =>
        obtain ⟨m₁, h₁, rfl⟩ := (step_iff hrun).2 hs
        obtain ⟨m₂, h₂, rfl⟩ := (stepAll_iff (hs.running_or_finished hrun)).2 rest
        obtain ⟨m', h', hk⟩ := checkEnd_iff.2 ⟨hlast, rfl⟩
        exact ⟨m', bind_eq_ok.2 ⟨(), m₁, hst ▸ h₁, bind_eq_ok.2 ⟨(), m₂, h₂, h'⟩⟩, hk⟩

end Controller

end RadarTimeline
