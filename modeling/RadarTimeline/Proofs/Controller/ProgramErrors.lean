import RadarTimeline.Proofs.Controller.SourceLines
import RadarTimeline.Proofs.Controller.Tuning

namespace RadarTimeline.Controller

def heeded (m : Machine) : List Command → Machine
  | [] => m
  | c :: rest => if isMisplaced c rest then after (warn c misplacedReset) m else m

/-- From a machine with commands to go, steps that succeed lead to another with fewer. -/
inductive Visits : Machine → List Command → Machine → List Command → Prop
  | here (m : Machine) (cs : List Command) : Visits m cs m cs
  | next {m m₁ m' : Machine} {c : Command} {rest cs : List Command} (ok : step c m = .ok () m₁)
      (tail : Visits (heeded m₁ rest) rest m' cs) : Visits m (c :: rest) m' cs

/-- How the replay of the commands of a text ends, and the line of its error. -/
inductive Verdict (m₀ : Machine) (lines : List (List Char)) :
    EStateM.Result ReplayError Machine Unit → Prop
  | unreadable {k : ℕ} {e : ProgramError} (first : Unreadable lines k e)
      (line : e.line = ((k + 1 : ℕ) : Position)) : Verdict m₀ lines (.error (.program e) m₀)
  | stopped {program rest : List Command} {c : Command} {m m' : Machine} {e : ProgramError}
      (read : Readable lines program) (reach : Visits m₀ program m (c :: rest))
      (fails : step c m = .error (.program e) m') (line : e.line = c.line)
      (source : c.Sourced lines) (fault : ∀ mnemonic, e.fault ≠ .afterEnd mnemonic) :
      Verdict m₀ lines (.error (.program e) m')
  | unended {program : List Command} {last : Command} {m : Machine} (read : Readable lines program)
      (reach : Visits m₀ program m []) (last_eq : program.getLast? = some last)
      (notEnd : last.mnemonic ≠ "REP") (source : last.Sourced lines) :
      Verdict m₀ lines (.error (.program ⟨.missingEnd, last.line⟩) m)
  | empty (read : Readable lines []) : Verdict m₀ lines (.error (.program ⟨.missingEnd, 0⟩) m₀)
  | ended {program : List Command} {last : Command} {m m' : Machine} (read : Readable lines program)
      (reach : Visits m₀ program m []) (last_eq : program.getLast? = some last)
      (isEnd : last.mnemonic = "REP") (core : m'.core = m.core) : Verdict m₀ lines (.ok () m')

/-- What a step to a command may ask has an answer: the frequency of a mixer that is complete, the
intervals of a line that is off at the end of a subcycle, and when that subcycle was opened. -/
structure Answers (m : Machine) (c : Command) : Prop where
  frequency : ∀ ch, (m.mixers.get ch).isComplete = true ↔ ∃ f, (m.mixers.get ch).frequency = .ok f
  intervals : ∀ (l : Line) (s : Stream), l.closing.apply c.time (m.lines.get l) = .ok s →
    s.isOn = false → ∃ ivs, s.intervals = .ok ivs
  opened : ∀ bounds, m.subcycles.bounds.turnOff c.time = .ok bounds →
    ∃ since, bounds.lastOn = .ok since

variable {α β : Type} {m m' : Machine} {time : Float} {pos : Position} {c : Command}
  {lines : List (List Char)}

/-- The program errors of a step have a line, and none is that a command follows the end. -/
def Blames (pos : Position) (x : Replay α) : Prop :=
  ∀ m e m', x m = .error (.program e) m' → e.line = pos ∧ ∀ mnemonic, e.fault ≠ .afterEnd mnemonic

theorem Blames.bind {x : Replay α} {f : α → Replay β} (hx : Blames pos x)
    (hf : ∀ a, Blames pos (f a)) :
    Blames pos (x >>= f) := by
  intro m e m' h
  cases hxm : x m with
  | ok a m₁ =>
    rw [bind_of_ok hxm] at h
    exact hf a m₁ e m' h
  | error e₁ m₁ =>
    rw [bind_of_error hxm] at h
    cases h
    exact hx m e m' hxm

theorem Silent.blames {x : Replay Unit} (hx : Silent x) : Blames pos x := by
  intro m e m' h
  obtain ⟨m₁, h₁, -⟩ := hx m
  rw [h₁] at h
  cases h

theorem blames_forM {f : α → Replay Unit} (h : ∀ a, Blames pos (f a)) (l : List α) :
    Blames pos (l.forM f) := by
  induction l with
  | nil => exact silent_pure.blames
  | cons a l ih => exact (h a).bind fun _ => ih

theorem blames_modify (f : Machine → Machine) : Blames pos (modify f : Replay Unit) := by
  rintro m e m' ⟨⟩

theorem blames_switchLine (t : Toggle) (l : Line) : Blames pos (switchLine t l time pos) := by
  intro m e m' h
  unfold switchLine at h
  cases ht : t.apply time (m.lines.get l) with
  | ok s =>
    rw [ht] at h
    cases h
  | error fault =>
    rw [ht] at h
    cases h
    exact ⟨rfl, fun _ => Fault.noConfusion⟩

theorem close_blames {κ : Type} {name : κ → String} {streams : List (κ × Stream)} {e : ProgramError}
    {c c' : Subcycles κ} (h : Subcycles.close name time pos streams c = .error (.program e) c') :
    e.line = pos ∧ ∀ mnemonic, e.fault ≠ .afterEnd mnemonic := by
  unfold Subcycles.close at h
  split at h
  · cases h
    exact ⟨rfl, fun _ => Fault.noConfusion⟩
  · cases h
    exact ⟨rfl, fun _ => Fault.noConfusion⟩
  · split at h
    · cases h
      exact ⟨rfl, fun _ => Fault.noConfusion⟩
    · split at h <;> cases h

theorem blames_endSubcycle : Blames pos (endSubcycle time pos) := by
  rw [endSubcycle_eq]
  refine (blames_forM (fun l => blames_switchLine _ l) _).bind fun _ m e m' h => ?_
  unfold recordSubcycle at h
  cases hc : Subcycles.close Line.name time pos m.streams m.subcycles with
  | ok s sub =>
    rw [hc] at h
    cases h
  | error e sub =>
    rw [hc] at h
    cases h
    exact close_blames hc

theorem blames_openSubcycle : Blames pos (openSubcycle time pos) := by
  intro m e m' h
  rw [openSubcycle, get_bind, Subcycles.openAt] at h
  cases ht : m.subcycles.bounds.turnOn time with
  | ok bounds =>
    rw [ht] at h
    cases h
  | error fault =>
    rw [ht] at h
    cases h
    exact ⟨rfl, fun _ => Fault.noConfusion⟩

theorem blames_reopenPhase : Blames pos (reopenPhase time pos) := by
  intro m e m' h
  rw [reopenPhase, get_bind] at h
  cases hp : m.phases.at? time with
  | none =>
    rw [hp] at h
    cases h
  | some p =>
    rw [hp] at h
    change turnOn (.phase p) time pos m = _ at h
    rw [turnOn_eq] at h
    exact blames_switchLine _ _ m e m' h

theorem blames_setRegister : Blames c.line (setRegister c) := by
  by_cases ht : c.time > 0
  · rw [setRegister_of_pos ht]
    exact blames_endSubcycle.bind fun _ => blames_openSubcycle.bind fun _ =>
      blames_reopenPhase.bind fun _ => blames_modify _
  · intro m e m' h
    rw [setRegister_of_not_pos ht] at h
    cases h

theorem blames_finish : Blames c.line (finish c) := by
  rw [finish_eq]
  refine blames_endSubcycle.bind fun _ m e m' h => ?_
  unfold endCycle at h
  cases ht : m.cycle.turnOff c.time with
  | ok cycle =>
    rw [ht] at h
    cases h
  | error fault =>
    rw [ht] at h
    cases h
    exact ⟨rfl, fun _ => Fault.noConfusion⟩

theorem blames_perform (a : Action) : Blames pos (perform time pos a) := by
  cases a with
  | turnOn g =>
    rw [perform, turnOn_eq]
    exact blames_switchLine _ _
  | turnOff g =>
    rw [perform, turnOff_eq]
    exact blames_switchLine _ _
  | phase p =>
    refine Blames.bind (blames_modify _) fun _ => ?_
    rw [notePhase_eq]
    exact blames_forM (fun l => blames_switchLine _ l) _
  | allOff =>
    rw [perform, releaseChannels_eq]
    exact blames_forM (fun l => blames_switchLine _ l) _
  | route path channels =>
    intro m e m' h
    rw [perform, route_apply] at h
    cases hp : m.oscillators.onPath? path with
    | none =>
      rw [hp] at h
      cases h
      exact ⟨rfl, fun _ => Fault.noConfusion⟩
    | some oscillators =>
      rw [hp] at h
      exact (silent_forM (fun ch => silent_retune ch time _) channels).blames m e m' h
  | selectEntry index => exact (silent_selectEntry index).blames
  | transmit index => exact blames_modify _
  | startFilters => exact silent_startFilters.blames
  | nothing => exact silent_pure.blames

theorem blames_execute : Blames c.line (execute c) := by
  intro m e m' h
  rw [execute_eq, dispatch] at h
  split_ifs at h
  · cases ha : Action.ofMnemonic? c.mnemonic with
    | none =>
      rw [ha] at h
      exact (silent_warn c _).blames m e m' h
    | some a =>
      rw [ha] at h
      exact blames_perform a m e m' h
  · cases h
    exact ⟨rfl, fun _ => Fault.noConfusion⟩
  · cases h
    exact ⟨rfl, fun _ => Fault.noConfusion⟩

theorem step_blames (hc : m.cycle.isOn) (hf : m.finished = false) {e : ProgramError}
    (h : step c m = .error (.program e) m') :
    e.line = c.line ∧ ∀ mnemonic, e.fault ≠ .afterEnd mnemonic := by
  rw [step_of_begun hc hf] at h
  split_ifs at h
  · exact blames_setRegister m e m' h
  · exact blames_finish m e m' h
  · exact blames_execute m e m' h

variable {o : Oscillators} {tables : Channel → Option (List Float)} {rest cs : List Command}

/-- A machine whose steps have all succeeded and that may go on. -/
structure Ready (o : Oscillators)
    (tables : Channel → Option (List Float)) (m : Machine) : Prop where
  isOpen : Open m.frame
  running : m.core.Running
  bounded : ∀ l, (m.lines.get l).Bounded
  small : Number.Below 953 m.register.toModel.unpack
  tuned : ∃ es, Tuned o tables es m

theorem Ready.warned (h : Ready o tables m) (c : Command) (message : String) :
    Ready o tables (after (warn c message) m) := by
  obtain ⟨es, ht⟩ := h.tuned
  exact ⟨h.isOpen, h.running, h.bounded, h.small, es, ht.of_tuner (untuned_warn c message m)⟩

theorem Ready.heeded (h : Ready o tables m) (cs : List Command) : Ready o tables (heeded m cs) := by
  cases cs with
  | nil => exact h
  | cons c rest =>
    rw [Controller.heeded]
    split_ifs
    · exact h.warned _ _
    · exact h

theorem Step.running {k k' : Core} (h : Step k c k') (hk : k.Running) (hr : c.mnemonic ≠ "REP") :
    k'.Running := by
  cases h with
  | act _ _ h => exact h.running hk
  | reset => exact ⟨hk.cycle, hk.subcycle, hk.unfinished⟩
  | split => exact ⟨hk.cycle, rfl, hk.unfinished⟩
  | finish hr' => exact (hr hr').elim

theorem Step.register {k k' : Core} (h : Step k c k') :
    k'.register = k.register ∨ k'.register = c.time := by
  cases h with
  | act _ _ h => exact .inl (by rw [h.rest])
  | reset => exact .inr rfl
  | split => exact .inr rfl
  | finish => exact .inl rfl

theorem Stage.isOpen {b : Bool} (h : Stage m.frame b) (hr : m.core.Running) : Open m.frame := by
  cases h with
  | fresh h =>
    have hon : m.frame.cycle.isOn := hr.cycle
    rw [h.cycle] at hon
    cases hon
  | running h => exact h
  | done h =>
    have hf : m.frame.finished = false := hr.unfinished
    rw [h.finished] at hf
    cases hf

/-- A step to a command leads on, or fails in the line of the command. -/
inductive Sound (o : Oscillators) (tables : Channel → Option (List Float)) (c : Command) :
    EStateM.Result ReplayError Machine Unit → Prop
  | goes {m : Machine} (ready : c.mnemonic ≠ "REP" → Ready o tables m) : Sound o tables c (.ok () m)
  | fails {e : ProgramError} {m : Machine} (line : e.line = c.line)
      (fault : ∀ mnemonic, e.fault ≠ .afterEnd mnemonic) : Sound o tables c (.error (.program e) m)

theorem Ready.step (h : Ready o tables m) (hc : c.Sourced lines) : Sound o tables c (step c m) := by
  have hstage := Stage.running h.isOpen
  have hleads : Leads _ (Call.replay (.step c) m) := hstage.leads hc.timely
  obtain ⟨hinterval, hbounded⟩ : Calm (Call.replay (.step c)) m :=
    hstage.calm h.bounded hc.timely fun _ => Number.isFinite_add
      (h.small.mono (by decide)) (hc.small.mono (by decide))
  obtain ⟨es, ht⟩ := h.tuned
  have htuned : Tuned o tables _ (after (Call.replay (.step c)) m) := ht.replay hstage hc.timely
  change Leads _ (Controller.step c m) at hleads
  change failsInterval (Controller.step c m) = false at hinterval
  change ∀ l, ((after (Controller.step c) m).lines.get l).Bounded at hbounded
  change Tuned o tables _ (after (Controller.step c) m) at htuned
  cases hx : Controller.step c m with
  | error e m' =>
    cases e with
    | program e =>
      obtain ⟨hline, hfault⟩ := step_blames h.running.cycle h.running.unfinished hx
      exact .fails hline hfault
    | interval fault =>
      rw [hx] at hinterval
      cases hinterval
  | ok u m' =>
    rw [hx] at hleads
    rw [after_of_ok hx] at hbounded htuned
    have hstep : Step m.core c m'.core := (step_iff h.running).1 ⟨m', hx, rfl⟩
    refine .goes fun hr => ?_
    have hrunning := hstep.running h.running hr
    refine ⟨Stage.isOpen hleads hrunning, hrunning, hbounded, ?_, _, htuned⟩
    rcases hstep.register with hregister | hregister
    · rw [show m'.register = m.register from hregister]
      exact h.small
    · rw [show m'.register = c.time from hregister]
      exact hc.small

variable (o tables) in
theorem bounded_initial (l : Line) : ((Machine.initial o tables).lines.get l).Bounded := by
  rw [Machine.initial, LineMap.get_replicate]
  exact Stream.bounded_new

variable (o tables) in
/-- The first command of a new machine opens the cycle, and all goes on as if it had been open. -/
theorem sound_initial (hc : c.Sourced lines) :
    Sound o tables c (step c (Machine.initial o tables)) := by
  let m : Machine := { Machine.initial o tables with
    cycle := ⟨#[], some 0⟩
    subcycles := ⟨⟨#[], some 0⟩, #[]⟩ }
  have hnew : New (Machine.initial o tables).frame := ⟨rfl, rfl, rfl, rfl⟩
  have hready : Ready o tables m :=
    { isOpen := hnew.opened
      running := ⟨rfl, rfl, rfl⟩
      bounded := bounded_initial o tables
      small := (by decide : Number.Below 953 (0 : Float).toModel.unpack)
      tuned := ⟨[], (tuned_initial o tables).of_tuner rfl⟩ }
  rw [step_of_new rfl rfl rfl]
  exact hready.step hc

/-- How a replay of commands ends: all steps succeed, or the first that does not fails in its
line. -/
inductive Outcome (m : Machine) (cs : List Command) :
    EStateM.Result ReplayError Machine Unit → Prop
  | passed {m' : Machine} (reach : Visits m cs m' []) : Outcome m cs (.ok () m')
  | stopped {c : Command} {rest : List Command} {m₁ m' : Machine} {e : ProgramError}
      (reach : Visits m cs m₁ (c :: rest)) (fails : step c m₁ = .error (.program e) m')
      (line : e.line = c.line) (fault : ∀ mnemonic, e.fault ≠ .afterEnd mnemonic) :
      Outcome m cs (.error (.program e) m')

theorem Outcome.step {r : EStateM.Result ReplayError Machine Unit} (h : step c m = .ok () m')
    (hr : Outcome (heeded m' cs) cs r) : Outcome m (c :: cs) r := by
  cases hr with
  | passed reach => exact .passed (.next h reach)
  | stopped reach fails line fault => exact .stopped (.next h reach) fails line fault

theorem stepAll_cons (c : Command) (cs : List Command) (m : Machine) :
    stepAll (c :: cs) m = (step c >>= fun _ => stepAll cs) (heeded m (c :: cs)) := by
  rw [heeded]
  by_cases hw : isMisplaced c cs
  · simp only [stepAll, hw, if_true, bind, EStateM.bind]
    rfl
  · simp only [stepAll, hw]
    rfl

/-- Steps to commands of a text, of which only the last can be `REP`, do not stop but in a line. -/
theorem outcome (hm : Sound o tables c (step c m)) (hcs : ∀ d ∈ cs, d.Sourced lines)
    (hend : ∀ d ∈ (c :: cs).dropLast, d.mnemonic ≠ "REP") :
    Outcome m (c :: cs) ((step c >>= fun _ => stepAll cs) m) := by
  induction cs generalizing c m with
  | nil =>
    cases hx : step c m with
    | error e m' =>
      rw [bind_of_error hx]
      rw [hx] at hm
      cases hm with
      | fails line fault => exact .stopped (.here _ _) hx line fault
    | ok u m' =>
      rw [bind_of_ok hx]
      exact .passed (.next hx (.here _ _))
  | cons d cs ih =>
    obtain ⟨hd, hcs⟩ := List.forall_mem_cons.1 hcs
    rw [List.dropLast_cons_cons] at hend
    obtain ⟨hc, hend⟩ := List.forall_mem_cons.1 hend
    cases hx : step c m with
    | error e m' =>
      rw [bind_of_error hx]
      rw [hx] at hm
      cases hm with
      | fails line fault => exact .stopped (.here _ _) hx line fault
    | ok u m' =>
      rw [bind_of_ok hx, stepAll_cons]
      rw [hx] at hm
      cases hm with
      | goes ready => exact .step hx (ih (((ready hc).heeded _).step hd) hcs hend)

theorem checkEnd_verdict {program : List Command} {m₀ : Machine} (hread : Readable lines program)
    (hne : program ≠ []) (hreach : Visits m₀ program m []) :
    Verdict m₀ lines (checkEnd program m) := by
  have hlast : program.getLast? = some (program.getLast hne) := List.getLast?_eq_some_getLast hne
  unfold checkEnd
  rw [hlast]
  by_cases hr : (program.getLast hne).mnemonic = "REP"
  · simp only [hr, if_true]
    obtain ⟨m', h', hcore⟩ :=
      silent_logDebug s!"Program finished after {m.subcycles.count} subcycle(s)" m
    rw [h']
    exact .ended hread hreach hlast hr hcore
  · simp only [hr, if_false]
    exact .unended hread hreach hlast hr (hread.sourced _ (List.getLast_mem hne))

theorem Visits.mem {program : List Command} {m₀ : Machine} (h : Visits m₀ program m cs) :
    ∀ d ∈ cs, d ∈ program := by
  induction h with
  | here => exact fun d hd => hd
  | next _ _ ih => exact fun d hd => List.mem_cons_of_mem _ (ih d hd)

theorem run_verdict {program : List Command} (hread : Readable lines program) :
    Verdict (Machine.initial o tables) lines (run program (Machine.initial o tables)) := by
  cases program with
  | nil => exact .empty hread
  | cons c cs =>
    have hsourced := hread.sourced
    have houtcome := outcome (sound_initial o tables
      (hsourced c List.mem_cons_self)) (fun d hd => hsourced d (List.mem_cons_of_mem c hd))
        hread.dropLast
    rw [run_cons, ← bind_assoc]
    cases hx : (Controller.step c >>= fun _ => stepAll cs) (Machine.initial o tables) with
    | ok u m =>
      rw [bind_of_ok hx]
      rw [hx] at houtcome
      cases houtcome with
      | passed reach => exact checkEnd_verdict hread (List.cons_ne_nil c cs) reach
    | error e m =>
      rw [bind_of_error hx]
      rw [hx] at houtcome
      cases houtcome with
      | stopped reach fails line fault =>
        exact .stopped hread reach fails line (hsourced _ (reach.mem _ List.mem_cons_self)) fault

theorem isComplete_mixerAfter (o : Oscillators) (table : Option (List Float)) (ch : Channel)
    (actions : List Action) : (mixerAfter o table ch actions).isComplete = true ↔
      ∃ f, (mixerAfter o table ch actions).frequency = .ok f := by
  rw [Mixer.isComplete, Mixer.frequency, mixerAfter]
  cases fed o ch actions with
  | none => simp
  | some oscillators =>
    cases table with
    | none => simp
    | some entries =>
      cases lastOf Action.entry? actions with
      | none => simp
      | some index =>
        simp only [Option.map_some, toIndex?_coe, Option.bind_some, List.getElem?_toArray]
        by_cases h : index < entries.length
        · simp [Position.before, h]
        · simp [Position.before, h]

theorem answers (hbounded : ∀ l, (m.lines.get l).Bounded) {es : List (Timed Action)}
    (htuned : Tuned o tables es m) (hc : c.Timely) : Answers m c := by
  refine ⟨fun ch => ?_, fun l s hs hoff => ?_, fun bounds hb => ?_⟩
  · rw [htuned.mixers ch]
    exact isComplete_mixerAfter _ _ _ _
  · obtain ⟨ivs, hivs⟩ := Interval.exists_map_ends_iff.2 ((hbounded l).apply hc.1 hc.2 hs).closed
    exact ⟨ivs, Stream.intervals_of_off hoff hivs⟩
  · obtain ⟨since, -, -, rfl⟩ := Toggle.apply_off_eq_ok.1 hb
    refine ⟨since, ?_⟩
    rw [Stream.lastOn, Array.back?_push]

/-- All machines but the first from which a step is taken are ready. -/
theorem Visits.ready {program : List Command} {m₀ : Machine} (h : Visits m₀ program m (c :: rest))
    (hfirst : ∀ d ds, program = d :: ds → Sound o tables d (Controller.step d m₀))
    (hsourced : ∀ d ∈ program, d.Sourced lines)
    (hend : ∀ d ∈ program.dropLast, d.mnemonic ≠ "REP") :
    m = m₀ ∨ Ready o tables m := by
  generalize hcs : c :: rest = cs at h
  induction h with
  | here => exact .inl rfl
  | @next m₀ m₁ m d ds cs ok tail ih =>
    right
    -- as a command is left, this one is not the last and does not end the cycle
    obtain ⟨d', ds, rfl⟩ : ∃ d' ds', ds = d' :: ds' := by
      rw [← List.ne_nil_iff_exists_cons]
      rintro rfl
      cases tail
      cases hcs
    rw [List.dropLast_cons_cons] at hend
    obtain ⟨hd, hend⟩ := List.forall_mem_cons.1 hend
    obtain ⟨-, hsourced⟩ := List.forall_mem_cons.1 hsourced
    have hready : Ready o tables (heeded m₁ (d' :: ds)) := by
      have := hfirst d _ rfl
      rw [ok] at this
      cases this with
      | goes ready => exact (ready hd).heeded _
    refine (ih ?_ hsourced hend hcs).elim (fun h => h ▸ hready) id
    rintro e es ⟨⟩
    exact hready.step (hsourced _ List.mem_cons_self)

theorem Verdict.line_eq_zero_iff {m₀ : Machine} {e : ProgramError}
    (h : Verdict m₀ lines (.error (.program e) m)) : e.line = 0 ↔ Readable lines [] := by
  cases h with
  | unreadable first line =>
    rw [line]
    exact iff_of_false (numbered_ne_zero _) fun h => h.not_unreadable first
  | stopped _ _ _ line source =>
    rw [line]
    exact iff_of_false source.line_ne_zero fun h => h.not_sourced _ source
  | unended _ _ _ _ source => exact iff_of_false source.line_ne_zero fun h => h.not_sourced _ source
  | empty read => exact iff_of_true rfl read

/-- A program text is replayed without an error, or it fails with that of a line: of the first that
does not parse up to the first `REP`, if there is one, else of the command whose step fails or of
the last. All that the replay asks on the way has an answer. -/
theorem replayText_verdict (text : String) (o : Oscillators)
    (tables : Channel → Option (List Float)) :
    let m₀ := Machine.initial o tables
    let lines := Text.lines text.toList
    Verdict m₀ lines (replayText text m₀) ∧
      (∀ program k e, Readable lines program → ¬ Unreadable lines k e) ∧
      (∀ e m, replayText text m₀ = .error (.program e) m → (e.line = 0 ↔ Readable lines [])) ∧
      ∀ program m c rest, Readable lines program → Visits m₀ program m (c :: rest) →
        Answers m c := by
  intro m₀ lines
  have hverdict : Verdict m₀ lines (replayText text m₀) := by
    unfold replayText
    rcases readProgram_cases text with ⟨k, e, hr, hk⟩ | ⟨program, hr, hread⟩ <;> rw [hr]
    · exact .unreadable hk hk.line
    · exact run_verdict hread
  refine ⟨hverdict, fun _ _ _ h => h.not_unreadable, fun e m h =>
    ?_, fun program m c rest hread hvisits => ?_⟩
  · rw [h] at hverdict
    exact hverdict.line_eq_zero_iff
  · have htimely : c.Timely := (hread.sourced c (hvisits.mem c List.mem_cons_self)).timely
    have hfirst : ∀ d ds, program = d :: ds → Sound o tables d (step d m₀) := by
      rintro d ds rfl
      exact sound_initial o tables (hread.sourced d List.mem_cons_self)
    rcases hvisits.ready hfirst hread.sourced hread.dropLast with rfl | hready
    · exact answers (bounded_initial o tables) (tuned_initial o tables) htimely
    · obtain ⟨es, htuned⟩ := hready.tuned
      exact answers hready.bounded htuned htimely

end RadarTimeline.Controller
