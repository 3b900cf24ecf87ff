import RadarTimeline.Proofs.Controller.Transition

namespace RadarTimeline.Controller

variable {α β γ : Type} {part : Machine → γ} {m : Machine} {time : Float} {pos : Position}
    {c : Command}

theorem after_bind (x : Replay α) (f : α → Replay β) (m : Machine) :
    (∃ a m₁, x m = .ok a m₁ ∧ after (x >>= f) m = after (f a) m₁) ∨
      after (x >>= f) m = after x m := by
  cases h : x m with
  | ok a m₁ => exact .inl ⟨a, m₁, rfl, by rw [after, bind_of_ok h]; rfl⟩
  | error e m₁ => exact .inr (by rw [after_of_error (bind_of_error h), after_of_error h])

/-- A step is refused after the end of the cycle; otherwise it opens the cycle and does what its
mnemonic says. -/
theorem step_of_unfinished (hf : m.finished = false) :
    step c m = (openCycle c.line >>= fun _ =>
      if c.mnemonic = "SETTCR" then setRegister c
      else if c.mnemonic = "REP" then finish c else execute c) m := by
  rw [step, get_bind, hf]
  rfl

/-- A step leaves a part of the machine alone, also when it fails. -/
def Leaves (part : Machine → γ) (x : Replay α) : Prop := ∀ m, part (after x m) = part m

theorem Leaves.bind {x : Replay α} {f : α → Replay β} (hx : Leaves part x)
    (hf : ∀ a, Leaves part (f a)) :
    Leaves part (x >>= f) := by
  intro m
  rcases after_bind x f m with ⟨a, m₁, h, heq⟩ | heq
  · rw [heq, hf a, ← hx m, after_of_ok h]
  · rw [heq, hx]

theorem leaves_pure (a : α) : Leaves part (pure a : Replay α) := fun _ => rfl

theorem leaves_modify {f : Machine → Machine} (h : ∀ m, part (f m) = part m) :
    Leaves part (modify f : Replay Unit) := h

theorem leaves_forM {f : α → Replay Unit} (h : ∀ a, Leaves part (f a)) (l : List α) :
    Leaves part (l.forM f) := by
  induction l with
  | nil => exact leaves_pure ()
  | cons a l ih => exact (h a).bind fun _ => ih

/-- A part of a machine beside its cycle and what is divided into subcycles. -/
structure Beside (part : Machine → γ) : Prop where
  lines : ∀ m lines, part { m with lines := lines } = part m
  subcycles : ∀ m subcycles, part { m with subcycles := subcycles } = part m
  cycle : ∀ m cycle, part { m with cycle := cycle } = part m
  log : ∀ m log, part { m with log := log } = part m

namespace Beside

variable (h : Beside part)
include h

theorem switchLine (t : Toggle) (l : Line) : Leaves part (switchLine t l time pos) := by
  intro m
  unfold after Controller.switchLine
  cases t.apply time (m.lines.get l) with
  | ok st => exact h.lines m _
  | error fault => rfl

theorem recordSubcycle : Leaves part (recordSubcycle time pos) := by
  intro m
  unfold after Controller.recordSubcycle
  cases Subcycles.close Line.name time pos m.streams m.subcycles with
  | ok s subcycles => exact (h.log _ _).trans ((h.lines _ _).trans (h.subcycles m subcycles))
  | error e subcycles => exact h.subcycles m subcycles

theorem endSubcycle : Leaves part (endSubcycle time pos) := by
  rw [endSubcycle_eq]
  exact (leaves_forM (fun l => h.switchLine _ l) _).bind fun _ => h.recordSubcycle

theorem openSubcycle : Leaves part (openSubcycle time pos) := by
  intro m
  unfold after
  rw [Controller.openSubcycle, get_bind]
  cases m.subcycles.openAt time pos with
  | ok subcycles => exact h.subcycles m subcycles
  | error e => rfl

theorem reopenPhase : Leaves part (reopenPhase time pos) := by
  intro m
  unfold after
  rw [Controller.reopenPhase, get_bind]
  cases m.phases.at? time with
  | none => rfl
  | some p =>
    simp only [turnOn_eq]
    exact h.switchLine _ _ m

theorem openCycle : Leaves part (openCycle pos) := by
  intro m
  cases hopened : m.cycle.openedAt with
  | some since =>
    have hon : m.cycle.isOn = true := congrArg Option.isSome hopened
    rw [after_of_ok (openCycle_of_on hon)]
  | none =>
    rw [after, openCycle_of_off hopened]
    exact (h.openSubcycle _).trans (h.cycle m _)

end Beside

end RadarTimeline.Controller
