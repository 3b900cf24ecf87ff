import RadarTimeline.Proofs.Controller.Failure
import RadarTimeline.Proofs.Controller.Times

namespace RadarTimeline.Controller

/-- A call from outside: a command that may set boundaries, or one to be executed in a subcycle. -/
inductive Call where
  | step (c : Command)
  | execute (c : Command)

namespace Call

def command : Call → Command
  | step c => c
  | execute c => c

def replay : Call → Replay Unit
  | step c => Controller.step c
  | execute c => Controller.execute c

/-- The time of the command counts from the register. -/
def Relative : Call → Prop
  | step c => c.mnemonic ≠ "SETTCR" ∧ c.mnemonic ≠ "REP"
  | execute _ => True

end Call

/-- The machine after calls; one that fails keeps what it did before. -/
def reached (m : Machine) (calls : List Call) : Machine :=
  calls.foldl (fun m call => after call.replay m) m

/-- One of the calls fails as times make no interval. -/
def overflows : Machine → List Call → Bool
  | _, [] => false
  | m, call :: calls => failsInterval (call.replay m) || overflows (after call.replay m) calls

/-- Times that count from the register resolve to finite numbers. -/
def FiniteTimes : Machine → List Call → Prop
  | _, [] => True
  | m, call :: calls =>
    (call.Relative → (m.register + call.command.time).isFinite) ∧
      FiniteTimes (after call.replay m) calls

/-- The first snapshot begins at zero and each other where the one before ends. -/
structure Contiguous (snapshots : Array (Snapshot Line)) : Prop where
  first : ∀ s : Snapshot Line, snapshots[0]? = some s → s.interval.start = 0
  next : ∀ (i : Nat) (s s' : Snapshot Line), snapshots[i]? = some s → snapshots[i + 1]? = some s' →
    s'.interval.start = s.interval.stop

/-- The end of the last snapshot, zero if there is none. -/
def lastEnd (snapshots : Array (Snapshot Line)) : Float :=
  (snapshots.back?.map (·.interval.stop)).getD 0

theorem lastEnd_push (snapshots : Array (Snapshot Line)) (s : Snapshot Line) :
    lastEnd (snapshots.push s) = s.interval.stop := by
  rw [lastEnd, Array.back?_push]
  rfl

theorem contiguous_empty : Contiguous #[] := ⟨by simp, by simp⟩

theorem Contiguous.push {snapshots : Array (Snapshot Line)} {s : Snapshot Line}
    (h : Contiguous snapshots) (hs : s.interval.start = lastEnd snapshots) :
    Contiguous (snapshots.push s) := by
  refine ⟨fun s' h0 => ?_, fun i a b ha hb => ?_⟩
  · rw [Array.getElem?_push] at h0
    split_ifs at h0 with he
    · cases h0
      rw [Array.eq_empty_of_size_eq_zero he.symm] at hs
      exact hs
    · exact h.first s' h0
  · rw [Array.getElem?_push] at ha hb
    split_ifs at hb with he
    · cases hb
      rw [if_neg (by omega)] at ha
      rw [hs, lastEnd, Array.back?_eq_getElem?, ← he, Nat.add_sub_cancel, ha]
      rfl
    · have hlt := (Array.getElem?_eq_some_iff.1 hb).1
      rw [if_neg (by omega)] at ha
      exact h.next i a b ha hb

/-- What holds after any calls: the cycle is entered once, and snapshots follow each other. -/
structure Recorded (f : Frame) : Prop where
  entries : f.cycle.count ≤ 1
  indexed : Subcycles.Indexed f.subcycles.snapshots
  contiguous : Contiguous f.subcycles.snapshots

/-- All is over: the cycle is one interval, up to the end of the last snapshot. -/
structure Over (f : Frame) : Prop where
  cycle : f.cycle.isOn = false
  subcycle : f.subcycles.isOn = false
  last : ∃ s, f.subcycles.snapshots.back? = some s ∧ s.interval.stop = f.endTime
  whole : ∃ iv, f.cycle.intervals = .ok [iv] ∧ iv.ends = (0, f.endTime)

/-- Cycle, subcycles, register and end go together. -/
structure Coherent (f : Frame) : Prop extends Recorded f where
  together : f.cycle.isOn = f.subcycles.isOn
  running : ∀ since, f.subcycles.bounds.openedAt = some since →
    since = lastEnd f.subcycles.snapshots
  register : (f.register == 0) = true ∨ f.subcycles.bounds.openedAt = some f.register ∨
    f.finished = true ∧ ∃ s, f.subcycles.snapshots.back? = some s ∧ s.interval.start = f.register
  completed : f.finished = true → Over f

/-- No command has opened the cycle yet. -/
structure New (f : Frame) : Prop where
  cycle : f.cycle = {}
  subcycles : f.subcycles = {}
  register : f.register = 0
  unfinished : f.finished = false

/-- The cycle runs. There is no subcycle in it after one could not be recorded. -/
structure Open (f : Frame) : Prop where
  cycle : f.cycle = ⟨#[], some 0⟩
  unfinished : f.finished = false
  indexed : Subcycles.Indexed f.subcycles.snapshots
  contiguous : Contiguous f.subcycles.snapshots
  begun : ∀ since ∈ f.subcycles.bounds.openedAt, since = lastEnd f.subcycles.snapshots ∧
    ((f.register == 0) = true ∨ f.register = since) ∧ since.isFinite ∧ ¬ since < 0
  notNegative : ¬ f.register < 0

/-- The cycle has ended with its last subcycle. -/
structure Done (f : Frame) : Prop where
  cycle : f.cycle = ⟨#[(0, f.endTime)], none⟩
  stopped : f.subcycles.bounds.openedAt = none
  finished : f.finished = true
  indexed : Subcycles.Indexed f.subcycles.snapshots
  contiguous : Contiguous f.subcycles.snapshots
  last : ∃ s, f.subcycles.snapshots.back? = some s ∧ s.interval.stop = f.endTime ∧
    ((f.register == 0) = true ∨ s.interval.start = f.register)
  whole : Interval.Valid 0 f.endTime
  notNegative : ¬ f.register < 0

/-- A frame that calls have led to, and whether one of them has left a subcycle unrecorded. -/
inductive Stage (f : Frame) : Bool → Prop
  | fresh (h : New f) : Stage f false
  | running (h : Open f) : Stage f !f.subcycles.isOn
  | done (h : Done f) : Stage f false

variable {f : Frame} {b : Bool} {m : Machine} {c : Command} {time : Float} {pos : Position}

theorem Stage.recorded (h : Stage f b) : Recorded f := by
  cases h with
  | fresh h =>
    obtain ⟨hc, hs, -, -⟩ := h
    refine ⟨by rw [hc]; decide, ?_, ?_⟩
    · rw [hs]
      exact Subcycles.indexed_empty
    · rw [hs]
      exact contiguous_empty
  | running h => exact ⟨by rw [h.cycle]; decide, h.indexed, h.contiguous⟩
  | done h => exact ⟨by rw [h.cycle]; exact Nat.le_refl 1, h.indexed, h.contiguous⟩

theorem Done.isOver (h : Done f) : Over f := by
  obtain ⟨s, hs, hstop, -⟩ := h.last
  refine ⟨by rw [h.cycle]; rfl, ?_, ⟨s, hs, hstop⟩, ⟨0, f.endTime, h.whole⟩, ?_, rfl⟩
  · rw [Subcycles.isOn, Stream.isOn, h.stopped]
    rfl
  · rw [h.cycle]
    exact Stream.intervals_of_off rfl rfl

theorem New.coherent (h : New f) : Coherent f where
  toRecorded := (Stage.fresh h).recorded
  together := by rw [h.cycle, h.subcycles]; rfl
  running := by
    intro since hs
    rw [h.subcycles] at hs
    cases hs
  register := .inl (by rw [h.register]; decide)
  completed := by
    intro hf
    rw [h.unfinished] at hf
    cases hf

theorem Open.coherent (h : Open f) (hs : f.subcycles.isOn) : Coherent f where
  toRecorded := (Stage.running h).recorded
  together := by rw [hs, h.cycle]; rfl
  running := fun since hs => (h.begun since hs).1
  register := by
    obtain ⟨since, hsince⟩ := Option.isSome_iff_exists.1 hs
    rcases (h.begun since hsince).2.1 with hr | hr
    · exact .inl hr
    · rw [hr]
      exact .inr (.inl hsince)
  completed := by
    intro hf
    rw [h.unfinished] at hf
    cases hf

theorem Done.coherent (h : Done f) : Coherent f where
  toRecorded := (Stage.done h).recorded
  together := h.isOver.cycle.trans h.isOver.subcycle.symm
  running := by
    intro since hs
    rw [h.stopped] at hs
    cases hs
  register := by
    obtain ⟨s, hs, -, hr | hr⟩ := h.last
    · exact .inl hr
    · exact .inr (.inr ⟨h.finished, s, hs, hr⟩)
  completed := fun _ => h.isOver

theorem Stage.coherent_iff (h : Stage f b) : Coherent f ↔ b = false := by
  cases h with
  | fresh h => exact iff_of_true h.coherent rfl
  | done h => exact iff_of_true h.coherent rfl
  | running h =>
    rw [Bool.not_eq_false']
    constructor
    · intro hc
      rw [← hc.together, h.cycle]
      rfl
    · exact h.coherent

/-- The stage after a step that was taken at a stage. -/
def Leads (b : Bool) : EStateM.Result ReplayError Machine Unit → Prop
  | .ok _ m => Stage m.frame b
  | .error (.program _) m => Stage m.frame b
  | .error (.interval _) m => Stage m.frame true

theorem Leads.after {x : Replay Unit} (h : Leads b (x m)) :
    Stage (after x m).frame (b || failsInterval (x m)) := by
  unfold Controller.after
  cases hx : x m with
  | ok _ m' =>
    rw [hx] at h
    change Stage m'.frame (b || false)
    rw [Bool.or_false]
    exact h
  | error e m' =>
    rw [hx] at h
    cases e with
    | program e =>
      change Stage m'.frame (b || false)
      rw [Bool.or_false]
      exact h
    | interval fault =>
      change Stage m'.frame (b || true)
      rw [Bool.or_true]
      exact h

theorem Stage.leads_execute (h : Stage m.frame b) (c : Command) : Leads b (execute c m) := by
  obtain ⟨hf, hi⟩ := execute_frame c m
  rw [← hf] at h
  unfold Controller.after at h
  cases hx : execute c m with
  | ok _ m' =>
    rw [hx] at h
    exact h
  | error e m' =>
    rw [hx] at h hi
    cases e with
    | program e => exact h
    | interval fault => cases hi

theorem Open.stopped (h : Open f) (bounds : Array (Float × Float)) :
    Open { f with subcycles := ⟨⟨bounds, none⟩, f.subcycles.snapshots⟩ } :=
  ⟨h.cycle, h.unfinished, h.indexed, h.contiguous, fun _ hs => (nomatch hs), h.notNegative⟩

theorem Open.recorded {since : Float} {s : Snapshot Line} (h : Open f)
    (hb : f.subcycles.bounds.openedAt = some since) (hi : s.index = f.subcycles.count)
    (he : s.interval.ends = (since, time)) (bounds : Array (Float × Float)) :
    Open { f with subcycles := ⟨⟨bounds, none⟩, f.subcycles.snapshots.push s⟩ } := by
  refine ⟨h.cycle, h.unfinished, h.indexed.push hi, h.contiguous.push ?_, fun _ hs => (nomatch hs),
    h.notNegative⟩
  rw [← (h.begun since hb).1]
  exact (Prod.mk.inj he).1

theorem Open.next (h : Open f) (ht : time = lastEnd f.subcycles.snapshots) (hf : time.isFinite)
    (hz : ¬ time < 0) :
    Open { f with
      register := time
      subcycles := ⟨⟨f.subcycles.bounds.closed, some time⟩, f.subcycles.snapshots⟩ } := by
  refine ⟨h.cycle, h.unfinished, h.indexed, h.contiguous, fun since hs => ?_, hz⟩
  cases hs
  exact ⟨ht, .inr rfl, hf, hz⟩

/-- At a boundary what follows a recorded subcycle decides about the stage. -/
theorem Open.leads_boundary {next : Replay Unit} (h : Open m.frame)
    (hnext : ∀ (m₁ : Machine) (since : Float) (s : Snapshot Line),
      m.frame.subcycles.bounds.openedAt = some since → s.interval.ends = (since, time) →
      m₁.frame = { m.frame with subcycles :=
        ⟨⟨m.frame.subcycles.bounds.closed.push (since, time), none⟩,
          m.frame.subcycles.snapshots.push s⟩ } →
      Open m₁.frame → m₁.lines = LineMap.replicate {} →
      ∃ m₂, next m₁ = .ok () m₂ ∧ Stage m₂.frame false) :
    Leads (!m.subcycles.isOn) ((endSubcycle time pos >>= fun _ => next) m) := by
  have he := endSubcycle_ending time pos m
  cases hx : endSubcycle time pos m with
  | error e m₁ =>
    rw [bind_of_error hx]
    rw [hx] at he
    -- a refusal changes nothing; an end that is not recorded has set its boundary
    cases he with
    | refused hf =>
      change Stage m₁.frame _
      rw [hf]
      exact .running h
    | unrecorded hb hf =>
      change Stage m₁.frame true
      rw [hf]
      exact .running (h.stopped _)
  | ok u m₁ =>
    rw [bind_of_ok hx]
    rw [hx] at he
    cases he with
    | @recorded _ since s hb hi hends hf hl =>
      have ho := h.recorded hb hi hends (m.frame.subcycles.bounds.closed.push (since, time))
      rw [← hf] at ho
      obtain ⟨m₂, h₂, hs⟩ := hnext m₁ since s hb hends hf ho hl
      have hon : m.subcycles.isOn = true := congrArg Option.isSome hb
      rw [h₂, hon]
      exact hs

theorem Open.leads_setRegister (h : Open m.frame) (ht : c.Timely) :
    Leads (!m.subcycles.isOn) (setRegister c m) := by
  by_cases hp : c.time > 0
  · rw [setRegister_of_pos hp]
    refine h.leads_boundary fun m₁ since s hb hends hf ho hl => ?_
    obtain ⟨m₂, h₂, hk⟩ := openNext c.time c.line
      (congrArg (·.subcycles.bounds.openedAt) hf) hl
    have hframe : m₂.frame = (m₁.core.opened c.time).toFrame := congrArg Core.toFrame hk
    refine ⟨m₂, h₂, ?_⟩
    rw [hframe]
    refine .running (ho.next ?_ ht.1 ht.2)
    rw [hf, lastEnd_push]
    exact (Prod.mk.inj hends).2.symm
  · rw [setRegister_of_not_pos hp]
    refine .running ⟨h.cycle, h.unfinished, h.indexed, h.contiguous, fun since hs => ?_, ht.2⟩
    obtain ⟨hlast, -, hfin, hz⟩ := h.begun since hs
    exact ⟨hlast, .inl (Number.beq_of_not_lt ht.1 (by decide) ht.2 hp), hfin, hz⟩

theorem Open.leads_finish (h : Open m.frame) (ht : c.Timely) :
    Leads (!m.subcycles.isOn) (finish c m) := by
  rw [finish_eq]
  refine h.leads_boundary fun m₁ since s hb hends hf ho _ => ?_
  obtain ⟨m₂, h₂, hk⟩ : ∃ m₂, endCycle c.time c.line m₁ = .ok () m₂ ∧
      m₂.core = m₁.core.ended c.time 0 :=
    endCycle_iff.2 ⟨0, congrArg Stream.openedAt ho.cycle, ht.2, rfl⟩
  have hframe : m₂.frame = (m₁.core.ended c.time 0).toFrame := congrArg Core.toFrame hk
  refine ⟨m₂, h₂, ?_⟩
  rw [hframe]
  have hlast : m₁.frame.subcycles.snapshots.back? = some s := by
    rw [hf]
    exact Array.back?_push
  have hregister : m₁.frame.register = m.frame.register := by rw [hf]
  refine .done ⟨?_, congrArg (·.subcycles.bounds.openedAt) hf, rfl, ho.indexed, ho.contiguous,
    ⟨s, hlast, (Prod.mk.inj hends).2, ?_⟩, ⟨by decide, ht.1, by decide, ht.2⟩, ho.notNegative⟩
  · change (⟨m₁.frame.cycle.closed.push (0, c.time), none⟩ : Stream) = _
    rw [ho.cycle]
    rfl
  · change (m₁.frame.register == 0) = true ∨ _ = m₁.frame.register
    rw [hregister, (Prod.mk.inj hends).1]
    exact (h.begun since hb).2.1.imp_right Eq.symm

theorem Open.isOn (h : Open f) : f.cycle.isOn := by
  rw [h.cycle]
  rfl

theorem Open.leads_step (h : Open m.frame) (ht : c.Timely) :
    Leads (!m.subcycles.isOn) (step c m) := by
  rw [step_of_begun h.isOn h.unfinished]
  by_cases hs : c.mnemonic = "SETTCR"
  · rw [if_pos hs]
    exact h.leads_setRegister ht
  rw [if_neg hs]
  by_cases hr : c.mnemonic = "REP"
  · rw [if_pos hr]
    exact h.leads_finish ht
  · rw [if_neg hr]
    exact (Stage.running h).leads_execute c

theorem New.opened (h : New f) :
    Open { f with cycle := ⟨#[], some 0⟩, subcycles := ⟨⟨#[], some 0⟩, #[]⟩ } := by
  refine ⟨rfl, h.unfinished, Subcycles.indexed_empty, contiguous_empty, fun since hs => ?_, ?_⟩
  · cases hs
    exact ⟨rfl, .inl (by rw [h.register]; decide), by decide, by decide⟩
  · rw [h.register]
    decide

/-- Each call leads from stage to stage, and to one without a subcycle only if it fails as times
make no interval. -/
theorem Stage.leads (h : Stage m.frame b) {call : Call} (ht : call.command.Timely) :
    Leads b (call.replay m) := by
  cases call with
  | execute c => exact h.leads_execute c
  | step c =>
    cases h with
    | fresh h =>
      change Leads false (step c m)
      -- the step is taken as if the cycle had been open before
      rw [step_of_new h.cycle h.subcycles h.unfinished]
      exact Open.leads_step (m := { m with
        cycle := ⟨#[], some 0⟩, subcycles := ⟨⟨#[], some 0⟩, #[]⟩ }) h.opened ht
    | running h => exact h.leads_step ht
    | done h =>
      change Leads false (step c m)
      rw [step_of_finished h.finished]
      exact .done h

theorem Stage.reached {calls : List Call} (h : Stage m.frame b)
    (ht : ∀ call ∈ calls, call.command.Timely) :
    Stage (reached m calls).frame (b || overflows m calls) := by
  induction calls generalizing m b with
  | nil =>
    rw [overflows, Bool.or_false]
    exact h
  | cons call calls ih =>
    obtain ⟨hc, hcs⟩ := List.forall_mem_cons.1 ht
    rw [overflows, ← Bool.or_assoc]
    exact ih (h.leads hc).after hcs

theorem stage_initial (o : Oscillators) (tables : Channel → Option (List Float)) :
    Stage (Machine.initial o tables).frame false := .fresh ⟨rfl, rfl, rfl, rfl⟩

theorem Done.after_eq (h : Done m.frame) (call : Call) : after call.replay m = m := by
  cases call with
  | step c => exact after_of_error (step_of_finished h.finished)
  | execute c =>
    have hc : m.cycle.isOn = false := by
      rw [show m.cycle = _ from h.cycle]
      rfl
    refine after_of_error (e := .program ⟨.cycleNotStarted, c.line⟩) ?_
    change execute c m = _
    rw [execute_eq, hc]
    rfl

theorem Done.reached_eq (h : Done m.frame) (calls : List Call) : reached m calls = m := by
  induction calls with
  | nil => rfl
  | cons call calls ih =>
    rw [reached, List.foldl_cons, h.after_eq call]
    exact ih

theorem Stage.reached_eq (h : Stage m.frame b) (hf : m.finished = true) (calls : List Call) :
    Controller.reached m calls = m := by
  have hne : m.frame.finished ≠ false := fun h => Bool.noConfusion (hf.symm.trans h)
  cases h with
  | fresh h => exact (hne h.unfinished).elim
  | running h => exact (hne h.unfinished).elim
  | done h => exact h.reached_eq calls

theorem Stage.notNegative (h : Stage f b) : ¬ f.register < 0 := by
  cases h with
  | fresh h =>
    rw [h.register]
    decide
  | running h => exact h.notNegative
  | done h => exact h.notNegative

section Calm

variable (hm : ∀ l, (m.lines.get l).Bounded)

include hm

theorem Stage.calm_execute (h : Stage m.frame b) (ht : c.Timely)
    (hf : (m.register + c.time).isFinite) : Calm (execute c) m := by
  have hkept : ∀ k : Core, (k.toFrame = m.frame ∧ ∀ l, (k.lines.get l).Bounded) →
      Kept (fun k => k.toFrame = m.frame ∧ ∀ l, (k.lines.get l).Bounded) (k.register + c.time) := by
    rintro k ⟨hk, -⟩
    rw [hk]
    exact (kept_frame _ _).and (kept_bounded hf (Number.not_add_lt_zero h.notNegative ht.2))
  obtain ⟨⟨-, hlines⟩, hi⟩ := Kept.execute hkept m ⟨rfl, hm⟩
  exact ⟨hi, hlines⟩

theorem Open.calm_setRegister (h : Open m.frame) (ht : c.Timely) : Calm (setRegister c) m := by
  by_cases hp : c.time > 0
  · rw [setRegister_of_pos hp]
    have hend := endSubcycle_calm c.time c.line hm
      (fun since hs => (h.begun since hs).2.2) ht.1 ht.2
    refine hend.bind fun m₁ h₁ _ => ?_
    have he := endSubcycle_ending c.time c.line m
    rw [h₁] at he
    cases he with
    | recorded _ _ _ hf hl =>
      obtain ⟨m₂, h₂, hk⟩ := openNext c.time c.line
        (congrArg (·.subcycles.bounds.openedAt) hf) hl
      refine calm_of_ok h₂ fun l => ?_
      rw [show m₂.lines = m₁.phases.reopened c.time from congrArg Core.lines hk]
      exact reopened_bounded _ ht.1 ht.2 l
  · exact calm_of_ok (setRegister_of_not_pos hp) hm

theorem Open.calm_finish (h : Open m.frame) (ht : c.Timely) : Calm (finish c) m := by
  rw [finish_eq]
  have hend := endSubcycle_calm c.time c.line hm
    (fun since hs => (h.begun since hs).2.2) ht.1 ht.2
  refine hend.bind fun m₁ _ hm₁ => ?_
  unfold Calm after endCycle
  cases m₁.cycle.turnOff c.time with
  | ok cycle => exact ⟨rfl, hm₁⟩
  | error fault => exact ⟨rfl, hm₁⟩

theorem Open.calm_step (h : Open m.frame) (ht : c.Timely)
    (hf : (Call.step c).Relative → (m.register + c.time).isFinite) : Calm (step c) m := by
  refine calm_of_eq (step_of_begun h.isOn h.unfinished) ?_
  by_cases hs : c.mnemonic = "SETTCR"
  · rw [if_pos hs]
    exact h.calm_setRegister hm ht
  rw [if_neg hs]
  by_cases hr : c.mnemonic = "REP"
  · rw [if_pos hr]
    exact h.calm_finish hm ht
  · rw [if_neg hr]
    exact (Stage.running h).calm_execute hm ht (hf ⟨hs, hr⟩)

theorem Stage.calm (h : Stage m.frame b) {call : Call} (ht : call.command.Timely)
    (hf : call.Relative → (m.register + call.command.time).isFinite) : Calm call.replay m := by
  cases call with
  | execute c => exact h.calm_execute hm ht (hf trivial)
  | step c =>
    cases h with
    | fresh h =>
      refine calm_of_eq (step_of_new h.cycle h.subcycles h.unfinished) ?_
      exact h.opened.calm_step (m := { m with
        cycle := ⟨#[], some 0⟩, subcycles := ⟨⟨#[], some 0⟩, #[]⟩ }) hm ht hf
    | running h => exact h.calm_step hm ht hf
    | done h => exact calm_of_error (step_of_finished h.finished) hm

end Calm

theorem Stage.not_overflows {calls : List Call} (h : Stage m.frame b)
    (hm : ∀ l, (m.lines.get l).Bounded) (ht : ∀ call ∈ calls, call.command.Timely)
    (hf : FiniteTimes m calls) : overflows m calls = false := by
  induction calls generalizing m b with
  | nil => rfl
  | cons call calls ih =>
    obtain ⟨hc, hcs⟩ := List.forall_mem_cons.1 ht
    obtain ⟨hi, hm'⟩ := h.calm hm hc hf.1
    rw [overflows, hi, Bool.false_or]
    exact ih (h.leads hc).after hm' hcs hf.2

variable {o : Oscillators} {tables : Channel → Option (List Float)} {calls : List Call}

/-- After any calls, failed or not, the snapshots follow each other in a cycle entered once. The
state is coherent exactly as long as no call has failed as times make no interval, which takes a
time that overflows, and after the end of the cycle calls change nothing. -/
theorem reached_coherent_iff (ht : ∀ call ∈ calls, call.command.Timely) :
    let m₀ := Machine.initial o tables
    let m := reached m₀ calls
    Recorded m.frame ∧ (Coherent m.frame ↔ overflows m₀ calls = false) ∧
      (FiniteTimes m₀ calls → Coherent m.frame) ∧
      (m.finished = true → ∀ later, reached m later = m) := by
  intro m₀ m
  have hstage : Stage m.frame (overflows m₀ calls) := by
    have := (stage_initial o tables).reached ht
    rw [Bool.false_or] at this
    exact this
  refine ⟨hstage.recorded, hstage.coherent_iff, fun hf => hstage.coherent_iff.2 ?_,
    hstage.reached_eq⟩
  refine (stage_initial o tables).not_overflows (fun l => ?_) ht hf
  rw [Machine.initial, LineMap.get_replicate]
  exact Stream.bounded_new

/-- A cycle whose first end is refused, as the transmitter is on, and that is left after the
second. -/
def retriedEnd : List Call :=
  [.step ⟨1, "RFON", 1⟩, .step ⟨4, "REP", 2⟩, .execute ⟨3, "RFOFF", 3⟩, .step ⟨4, "REP", 4⟩,
    .execute ⟨5, "RFON", 5⟩]

theorem retriedEnd_coherent :
    (∀ call ∈ retriedEnd, call.command.Timely) ∧
      Coherent (reached (Machine.initial ⟨[some 812], [some 128]⟩ fun _ => none) retriedEnd).frame ∧
      (reached (Machine.initial ⟨[some 812], [some 128]⟩ fun _ => none) retriedEnd).finished =
        true := by
  have ht : ∀ call ∈ retriedEnd, call.command.Timely := by decide
  exact ⟨ht, (reached_coherent_iff ht).2.1.2 (by decide +kernel), by decide +kernel⟩

theorem overflowing_not_together :
    (∀ call ∈ overflowing.map Call.step, call.command.Timely) ∧
      (reached (Machine.initial ⟨[some 812], [some 128]⟩ fun _ => none)
        (overflowing.map .step)).cycle.isOn = true ∧
      (reached (Machine.initial ⟨[some 812], [some 128]⟩ fun _ => none)
        (overflowing.map .step)).subcycles.isOn = false := by
  decide +kernel

end RadarTimeline.Controller
