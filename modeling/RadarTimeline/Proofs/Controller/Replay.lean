import RadarTimeline.Controller.Machine
import RadarTimeline.Proofs.Timing.Toggle
import Mathlib.Data.List.Nodup

namespace RadarTimeline

theorem LineMap.ext_get {α : Type} {a b : LineMap α} (h : ∀ l, a.get l = b.get l) : a = b := by
  obtain ⟨v⟩ := a
  obtain ⟨w⟩ := b
  have hv : v = w := by
    ext i hi
    have hl : ∀ j : Fin 13, ∃ l ∈ Line.all, l.index = j := by decide
    obtain ⟨l, -, hj⟩ := hl ⟨i, hi⟩
    have := h l
    simp only [get, hj] at this
    exact this
  rw [hv]

theorem LineMap.set_get {α : Type} (a : LineMap α) (l : Line) : a.set l (a.get l) = a := by
  apply LineMap.ext_get
  intro l'
  rw [get_set]
  split_ifs with h
  · rw [h]
  · rfl

namespace Controller

variable {α β : Type} {m m' : Machine} {time : Float} {pos : Position}

theorem bind_eq_ok {x : Replay α} {f : α → Replay β} {b : β} :
    (x >>= f) m = .ok b m' ↔ ∃ a m₁, x m = .ok a m₁ ∧ f a m₁ = .ok b m' := by
  change EStateM.bind x f m = .ok b m' ↔ _
  unfold EStateM.bind
  cases x m <;> simp

def succeeds {ε σ : Type} : EStateM.Result ε σ α → Bool
  | .ok _ _ => true
  | .error _ _ => false

theorem exists_ok {ε σ : Type} {r : EStateM.Result ε σ Unit} (h : succeeds r = true) :
    ∃ s, r = .ok () s := by
  cases r with
  | ok _ s => exact ⟨s, rfl⟩
  | error => cases h

theorem bind_of_ok {x : Replay α} {f : α → Replay β} {a : α} (h : x m = .ok a m') :
    (x >>= f) m = f a m' := by
  change EStateM.bind x f m = _
  rw [EStateM.bind, h]

theorem bind_of_error {x : Replay α} {f : α → Replay β} {e : ReplayError} (h : x m = .error e m') :
    (x >>= f) m = .error e m' := by
  change EStateM.bind x f m = _
  rw [EStateM.bind, h]

theorem get_bind (f : Machine → Replay α) (m : Machine) : (get >>= f) m = f m m := rfl

def after (x : Replay α) (m : Machine) : Machine :=
  match x m with
  | .ok _ m' => m'
  | .error _ m' => m'

theorem after_of_ok {x : Replay α} {a : α} (h : x m = .ok a m') : after x m = m' := by
  rw [after, h]

theorem after_of_error {x : Replay α} {e : ReplayError} (h : x m = .error e m') :
    after x m = m' := by
  rw [after, h]

def switchLine (t : Toggle) (l : Line) (time : Float) (pos : Position) : Replay Unit := fun m =>
  match t.apply time (m.lines.get l) with
  | .ok s => .ok () { m with lines := m.lines.set l s }
  | .error fault => .error (.program ⟨.switch l.name fault, pos⟩) m

theorem turnOn_eq (l : Line) : turnOn l time pos = switchLine .on l time pos := by
  funext m
  change _ = match (m.lines.get l).turnOn time with | .ok s => _ | .error fault => _
  rw [turnOn, get_bind]
  cases (m.lines.get l).turnOn time <;> rfl

theorem turnOff_eq (l : Line) : turnOff l time pos = switchLine .off l time pos := by
  funext m
  change _ = match (m.lines.get l).turnOff time with | .ok s => _ | .error fault => _
  rw [turnOff, get_bind]
  cases (m.lines.get l).turnOff time <;> rfl

theorem switchLine_self {t : Toggle} {l : Line}
    (h : t.apply time (m.lines.get l) = .ok (m.lines.get l)) :
    switchLine t l time pos m = .ok () m := by
  unfold switchLine
  rw [h]
  change EStateM.Result.ok () { m with lines := m.lines.set l (m.lines.get l) } = _
  rw [LineMap.set_get]

theorem release_eq (l : Line) : release l time pos = switchLine .release l time pos := by
  funext m
  by_cases h : (m.lines.get l).isOn
  · have hr : release l time pos m = turnOff l time pos m := by
      change (if (m.lines.get l).isOn then turnOff l time pos else pure ()) m = _
      rw [if_pos h]
    rw [hr, turnOff_eq]
    simp only [switchLine, Toggle.apply, h, if_true]
  · have hr : release l time pos m = .ok () m := by
      change (if (m.lines.get l).isOn then turnOff l time pos else pure ()) m = _
      rw [if_neg h]
      rfl
    rw [hr, switchLine_self]
    simp only [Toggle.apply, h, Bool.false_eq_true, if_false]

theorem hold_eq (l : Line) : hold l time pos = switchLine .hold l time pos := by
  funext m
  by_cases h : (m.lines.get l).isOn
  · have hr : hold l time pos m = .ok () m := by
      change (if !(m.lines.get l).isOn then turnOn l time pos else pure ()) m = _
      rw [h]
      rfl
    rw [hr, switchLine_self]
    simp only [Toggle.apply, h, if_true]
  · have hr : hold l time pos m = turnOn l time pos m := by
      change (if !(m.lines.get l).isOn then turnOn l time pos else pure ()) m = _
      simp [h]
    rw [hr, turnOn_eq]
    simp only [switchLine, Toggle.apply, h, Bool.false_eq_true, if_false]

theorem switchLine_eq_ok {t : Toggle} {l : Line} :
    switchLine t l time pos m = .ok () m' ↔
      ∃ s, t.apply time (m.lines.get l) = .ok s ∧ m' = { m with lines := m.lines.set l s } := by
  unfold switchLine
  cases t.apply time (m.lines.get l) <;> simp [eq_comm]

/-- Lines that are switched one after the other are switched as if each were alone. -/
theorem forM_switchLine_eq_ok {ls : List Line} (hls : ls.Nodup) (f : Line → Toggle) :
    ls.forM (fun l => switchLine (f l) l time pos) m = .ok () m' ↔
      ∃ lines, m' = { m with lines := lines } ∧
        ∀ l, (if l ∈ ls then f l else .keep).apply time (m.lines.get l) = .ok (lines.get l) := by
  induction ls generalizing m with
  | nil =>
    constructor
    · intro h
      cases h
      exact ⟨_, rfl, fun l => by simp [Toggle.apply]⟩
    · rintro ⟨lines, rfl, h⟩
      have he : lines = m.lines :=
        LineMap.ext_get fun l => by simpa [Toggle.apply, eq_comm] using h l
      rw [he]
      rfl
  | cons x ls ih =>
    obtain ⟨hx, hls⟩ := List.nodup_cons.1 hls
    change (switchLine (f x) x time pos >>= fun _ => ls.forM _) m = _ ↔ _
    rw [bind_eq_ok]
    constructor
    · rintro ⟨_, m₁, h₁, h⟩
      obtain ⟨s, hs, rfl⟩ := switchLine_eq_ok.1 h₁
      -- the rest does not switch `x` again and finds the other lines as they were
      obtain ⟨lines, rfl, hl⟩ := (ih hls).1 h
      refine ⟨lines, rfl, fun l => ?_⟩
      have := hl l
      rw [LineMap.get_set] at this
      by_cases hlx : l = x
      · subst hlx
        rw [if_pos rfl, if_neg hx] at this
        rw [if_pos List.mem_cons_self, hs]
        exact this
      · rw [if_neg hlx] at this
        simpa [hlx] using this
    · rintro ⟨lines, rfl, hl⟩
      have hs := hl x
      rw [if_pos List.mem_cons_self] at hs
      refine ⟨(), _, switchLine_eq_ok.2 ⟨_, hs, rfl⟩, (ih hls).2 ⟨lines, rfl, fun l => ?_⟩⟩
      rw [LineMap.get_set]
      by_cases hlx : l = x
      · subst hlx
        rw [if_neg hx, if_pos rfl]
        rfl
      · rw [if_neg hlx]
        simpa [hlx] using hl l

end Controller

end RadarTimeline
