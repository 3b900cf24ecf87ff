import RadarTimeline.Proofs.Controller.AnyCalls

namespace RadarTimeline.Controller

variable {α β : Type} {keep : Bool} {m m' : Machine} {time : Float} {pos : Position} {c : Command}

/-- A machine without its warnings and its log, and maybe without its register. -/
def Machine.muted (keep : Bool) (m : Machine) : Machine :=
  { m with register := bif keep then m.register else 0, warnings := #[], log := #[] }

theorem muted_muted (m : Machine) : (m.muted keep).muted keep = m.muted keep := by
  cases keep <;> rfl

def muffled (keep : Bool) : EStateM.Result ReplayError Machine α →
    EStateM.Result ReplayError Machine α
  | .ok a m => .ok a (m.muted keep)
  | .error e m => .error e (m.muted keep)

/-- A step does the same from a muted machine, as far as can be seen. -/
def Heedless (keep : Bool) (x : Replay α) : Prop :=
  ∀ m, muffled keep (x (m.muted keep)) = muffled keep (x m)

theorem Heedless.congr {x : Replay α} (hx : Heedless keep x) (h : m.muted keep = m'.muted keep) :
    muffled keep (x m) = muffled keep (x m') := by
  rw [← hx m, h, hx m']

theorem muffled_cases {r r' : EStateM.Result ReplayError Machine α}
    (h : muffled keep r = muffled keep r') :
    (∃ a m m', r = .ok a m ∧ r' = .ok a m' ∧ m.muted keep = m'.muted keep) ∨
      ∃ e m m', r = .error e m ∧ r' = .error e m' ∧ m.muted keep = m'.muted keep := by
  cases r with
  | ok a m =>
    cases r' with
    | ok b m' =>
      obtain ⟨rfl, hm⟩ := EStateM.Result.ok.inj h
      exact .inl ⟨_, m, m', rfl, rfl, hm⟩
    | error e' m' => cases h
  | error e m =>
    cases r' with
    | ok b m' => cases h
    | error e' m' =>
      obtain ⟨rfl, hm⟩ := EStateM.Result.error.inj h
      exact .inr ⟨_, m, m', rfl, rfl, hm⟩

theorem muffled_bind {x x' : Replay α} {f g : α → Replay β}
    (h : muffled keep (x m) = muffled keep (x' m'))
    (hf : ∀ a n n', x m = .ok a n → x' m' = .ok a n' → n.muted keep = n'.muted keep →
      muffled keep (f a n) = muffled keep (g a n')) :
    muffled keep ((x >>= f) m) = muffled keep ((x' >>= g) m') := by
  rcases muffled_cases h with ⟨a, n, n', h₁, h₂, hn⟩ | ⟨e, n, n', h₁, h₂, hn⟩
  · rw [bind_of_ok h₁, bind_of_ok h₂]
    exact hf a n n' h₁ h₂ hn
  · rw [bind_of_error h₁, bind_of_error h₂]
    exact congrArg (EStateM.Result.error e) hn

theorem Heedless.bind {x : Replay α} {f : α → Replay β} (hx : Heedless keep x)
    (hf : ∀ a, Heedless keep (f a)) : Heedless keep (x >>= f) :=
  fun m => muffled_bind (hx m) fun a _ _ _ _ hn => (hf a).congr hn

theorem heedless_pure (a : α) : Heedless keep (pure a : Replay α) :=
  fun m => congrArg (EStateM.Result.ok a) (muted_muted m)

theorem heedless_warn (c : Command) (message : String) : Heedless keep (warn c message) :=
  fun m => congrArg (EStateM.Result.ok ()) (muted_muted m)

/-- A step that is heedless and does not warn. -/
structure Silenced (keep : Bool) (x : Replay α) : Prop where
  heedless : Heedless keep x
  warnings : Leaves Machine.warnings x

theorem Silenced.bind {x : Replay α} {f : α → Replay β} (hx : Silenced keep x)
    (hf : ∀ a, Silenced keep (f a)) :
    Silenced keep (x >>= f) :=
  ⟨hx.heedless.bind fun a => (hf a).heedless, hx.warnings.bind fun a => (hf a).warnings⟩

theorem silenced_pure (a : α) : Silenced keep (pure a : Replay α) :=
  ⟨heedless_pure a, fun _ => rfl⟩

theorem silenced_modify {f : Machine → Machine}
    (hf : ∀ m, (f (m.muted keep)).muted keep = (f m).muted keep)
    (hw : ∀ m, (f m).warnings = m.warnings) : Silenced keep (modify f : Replay Unit) :=
  ⟨fun m => congrArg (EStateM.Result.ok ()) (hf m), hw⟩

theorem silenced_forM {f : α → Replay Unit} (h : ∀ a, Silenced keep (f a)) (l : List α) :
    Silenced keep (l.forM f) := by
  induction l with
  | nil => exact silenced_pure ()
  | cons a l ih => exact (h a).bind fun _ => ih

theorem beside_warnings : Beside Machine.warnings :=
  ⟨fun _ _ => rfl, fun _ _ => rfl, fun _ _ => rfl, fun _ _ => rfl⟩

theorem silenced_switchLine (t : Toggle) (l : Line) : Silenced keep (switchLine t l time pos) := by
  refine ⟨fun m => ?_, beside_warnings.switchLine t l⟩
  unfold switchLine
  rw [show (m.muted keep).lines = m.lines from rfl]
  cases keep <;> cases t.apply time (m.lines.get l) <;> rfl

theorem silenced_recordSubcycle : Silenced keep (recordSubcycle time pos) := by
  refine ⟨fun m => ?_, beside_warnings.recordSubcycle⟩
  unfold recordSubcycle
  rw [show (m.muted keep).streams = m.streams from rfl, show (m.muted keep).subcycles =
    m.subcycles from rfl]
  cases keep <;> cases Subcycles.close Line.name time pos m.streams m.subcycles <;> rfl

theorem silenced_endSubcycle : Silenced keep (endSubcycle time pos) := by
  rw [endSubcycle_eq]
  exact (silenced_forM (fun l => silenced_switchLine _ l) _).bind fun _ => silenced_recordSubcycle

theorem silenced_openSubcycle : Silenced keep (openSubcycle time pos) := by
  refine ⟨fun m => ?_, beside_warnings.openSubcycle⟩
  rw [openSubcycle, get_bind, get_bind, show (m.muted keep).subcycles = m.subcycles from rfl]
  cases keep <;> cases m.subcycles.openAt time pos <;> rfl

theorem silenced_reopenPhase : Silenced keep (reopenPhase time pos) := by
  refine ⟨fun m => ?_, beside_warnings.reopenPhase⟩
  rw [reopenPhase, get_bind, get_bind, show (m.muted keep).phases = m.phases from rfl]
  cases m.phases.at? time with
  | none => exact heedless_pure () m
  | some p =>
    simp only [turnOn_eq]
    exact (silenced_switchLine .on (.phase p)).heedless m

theorem silenced_setRegister (c : Command) : Silenced keep (setRegister c) := by
  have hset : Silenced keep (modify fun m => { m with register := c.time } : Replay Unit) :=
    silenced_modify (fun m => by cases keep <;> rfl) fun _ => rfl
  by_cases ht : c.time > 0
  · rw [setRegister_of_pos ht]
    exact silenced_endSubcycle.bind fun _ => silenced_openSubcycle.bind fun _ =>
      silenced_reopenPhase.bind fun _ => hset
  · have heq : setRegister c = modify fun m => { m with register := c.time } :=
      funext fun m => setRegister_of_not_pos ht
    rw [heq]
    exact hset

theorem silenced_endCycle : Silenced keep (endCycle time pos) := by
  constructor
  · intro m
    unfold endCycle
    rw [show (m.muted keep).cycle = m.cycle from rfl]
    cases keep <;> cases m.cycle.turnOff time <;> rfl
  · intro m
    unfold after endCycle
    cases m.cycle.turnOff time <;> rfl

theorem silenced_finish (c : Command) : Silenced keep (finish c) := by
  rw [finish_eq]
  exact silenced_endSubcycle.bind fun _ => silenced_endCycle

theorem silenced_retune (ch : Channel) (change : Mixer → Mixer) :
    Silenced keep (retune ch time change) := by
  have hset : Silenced keep (modify fun m =>
      { m with mixers := m.mixers.set ch (change (m.mixers.get ch)) } : Replay Unit) :=
    silenced_modify (fun m => by cases keep <;> rfl) fun _ => rfl
  refine hset.bind fun _ => silenced_modify (fun m => ?_) fun m => ?_
  · rw [show (m.muted keep).mixers = m.mixers from rfl]
    cases keep <;> cases (m.mixers.get ch).frequency <;> rfl
  · cases (m.mixers.get ch).frequency <;> rfl

theorem silenced_perform (a : Action) : Silenced keep (perform time pos a) := by
  cases a with
  | turnOn gate =>
    rw [perform, turnOn_eq]
    exact silenced_switchLine _ _
  | turnOff gate =>
    rw [perform, turnOff_eq]
    exact silenced_switchLine _ _
  | phase p =>
    refine Silenced.bind (silenced_modify (fun m => by cases keep <;> rfl) fun _ => rfl) fun _ => ?_
    rw [notePhase_eq]
    exact silenced_forM (fun l => silenced_switchLine _ l) _
  | allOff =>
    rw [perform, releaseChannels_eq]
    exact silenced_forM (fun l => silenced_switchLine _ l) _
  | route path channels =>
    have hall : ∀ first second : Float, Silenced keep (channels.forM fun ch => retune ch time
        ({ · with first := some first, second := some second })) :=
      fun _ _ => silenced_forM (fun ch => silenced_retune ch _) channels
    constructor
    · intro m
      rw [perform, route_apply, route_apply, show (m.muted keep).oscillators =
        m.oscillators from rfl]
      cases m.oscillators.onPath? path with
      | none => cases keep <;> rfl
      | some pair => exact (hall pair.1 pair.2).heedless m
    · intro m
      unfold after
      rw [perform, route_apply]
      cases m.oscillators.onPath? path with
      | none => rfl
      | some pair => exact (hall pair.1 pair.2).warnings m
  | selectEntry index => exact silenced_forM (fun ch => silenced_retune ch _) _
  | transmit index => exact silenced_modify (fun m => by cases keep <;> rfl) fun _ => rfl
  | startFilters =>
    constructor
    · intro m
      rw [perform, startFilters, get_bind, get_bind,
        show (m.muted keep).filtersStarted = m.filtersStarted from rfl]
      cases keep <;> cases m.filtersStarted <;> rfl
    · intro m
      unfold after
      rw [perform, startFilters, get_bind]
      cases m.filtersStarted <;> rfl
  | nothing => exact silenced_pure ()

/-- Of the register only its value counts for a command that is executed. -/
theorem heedless_execute (c : Command) : Heedless true (execute c) := by
  intro m
  have hdispatch : ∀ time, Heedless true (dispatch c time) := by
    intro time
    unfold dispatch
    cases Action.ofMnemonic? c.mnemonic with
    | none => exact heedless_warn c _
    | some a => exact (silenced_perform a).heedless
  rw [execute_eq, execute_eq, show (m.muted true).cycle = m.cycle from rfl,
    show (m.muted true).subcycles = m.subcycles from rfl,
    show (m.muted true).core.register = m.core.register from rfl]
  split_ifs
  · exact hdispatch _ m
  · rfl
  · rfl

theorem silenced_openCycle : Silenced keep (openCycle pos) := by
  refine ⟨fun m => ?_, beside_warnings.openCycle⟩
  have hopen : Silenced keep (openSubcycle 0 pos) := silenced_openSubcycle
  cases h : m.cycle.openedAt with
  | some since =>
    have hon : m.cycle.isOn = true := congrArg Option.isSome h
    rw [openCycle_of_on hon, openCycle_of_on (m := m.muted keep) hon]
    exact heedless_pure () m
  | none =>
    rw [openCycle_of_off h, openCycle_of_off (m := m.muted keep) h]
    exact hopen.heedless { m with cycle := ⟨m.cycle.closed, some 0⟩ }

theorem heedless_step (c : Command) : Heedless true (step c) := by
  intro m
  cases hf : m.finished with
  | true =>
    rw [step_of_finished hf, step_of_finished (m := m.muted true) hf]
    exact congrArg (EStateM.Result.error _) (muted_muted m)
  | false =>
    rw [step_of_unfinished hf, step_of_unfinished (m := m.muted true) hf]
    refine silenced_openCycle.heedless.bind (fun _ => ?_) m
    split_ifs
    · exact (silenced_setRegister c).heedless
    · exact (silenced_finish c).heedless
    · exact heedless_execute c

/-- The warning with which a command that is not known is skipped. -/
def Command.unknown? (c : Command) : Option Warning :=
  if c.mnemonic = "SETTCR" ∨ c.mnemonic = "REP" then none
  else if (Action.ofMnemonic? c.mnemonic).isSome then none
  else some ⟨c.line, c.mnemonic,
    s!"Command {c.mnemonic}, called from line {c.line} is not implemented"⟩

theorem execute_warnings (hs : c.mnemonic ≠ "SETTCR") (hr : c.mnemonic ≠ "REP")
    (h : execute c m = .ok () m') :
    m'.warnings.toList = m.warnings.toList ++ c.unknown?.toList := by
  rw [execute_eq] at h
  split_ifs at h
  rw [dispatch] at h
  rw [Command.unknown?, if_neg (not_or.2 ⟨hs, hr⟩)]
  cases ha : Action.ofMnemonic? c.mnemonic with
  | none =>
    rw [ha] at h
    cases h
    exact Array.toList_push
  | some a =>
    rw [ha] at h
    have hperform : Silenced true (perform (m.core.register + c.time) c.line a) :=
      silenced_perform a
    have hw := hperform.warnings m
    rw [after_of_ok h] at hw
    rw [hw]
    exact (List.append_nil _).symm

/-- A step that succeeds adds a warning exactly if its command is not known. -/
theorem step_warnings (h : step c m = .ok () m') :
    m'.warnings.toList = m.warnings.toList ++ c.unknown?.toList := by
  cases hf : m.finished with
  | true =>
    rw [step_of_finished hf] at h
    cases h
  | false =>
    rw [step_of_unfinished hf] at h
    obtain ⟨_, m₁, h₁, h₂⟩ := bind_eq_ok.1 h
    have hopen : Silenced true (openCycle c.line) := silenced_openCycle
    rw [← hopen.warnings m, after_of_ok h₁]
    have hset : Silenced true (setRegister c) := silenced_setRegister c
    have hfinish : Silenced true (finish c) := silenced_finish c
    split_ifs at h₂ with hs hr
    · rw [← hset.warnings m₁, after_of_ok h₂, Command.unknown?, if_pos (.inl hs),
        Option.toList_none, List.append_nil]
    · rw [← hfinish.warnings m₁, after_of_ok h₂, Command.unknown?, if_pos (.inr hr),
        Option.toList_none, List.append_nil]
    · exact execute_warnings hs hr h₂

end RadarTimeline.Controller
