import RadarTimeline.Timing.Stream
import Mathlib.Data.List.Forall2

namespace RadarTimeline

/-- One way to switch a stream. To hold and to release never find a stream in the wrong state. -/
inductive Toggle where
  | on | off | hold | release | keep
deriving DecidableEq

namespace Toggle

def apply (t : Toggle) (time : Float) (s : Stream) : Except SwitchFault Stream :=
  match t with
  | on => s.turnOn time
  | off => s.turnOff time
  | hold => if s.isOn then .ok s else s.turnOn time
  | release => if s.isOn then s.turnOff time else .ok s
  | keep => .ok s

variable {time : Float} {s s' : Stream}

theorem apply_on_eq_ok :
    on.apply time s = .ok s' ↔ s.openedAt = none ∧ s' = ⟨s.closed, some time⟩ := by
  obtain ⟨closed, _ | since⟩ := s <;> simp [apply, Stream.turnOn, eq_comm]

theorem apply_off_eq_ok :
    off.apply time s = .ok s' ↔
      ∃ since, s.openedAt = some since ∧ ¬ time < since ∧
        s' = ⟨s.closed.push (since, time), none⟩ := by
  obtain ⟨closed, _ | since⟩ := s
  · simp [apply, Stream.turnOff]
  · by_cases h : time < since <;> simp [apply, Stream.turnOff, h, eq_comm]

theorem apply_hold_eq_ok :
    hold.apply time s = .ok s' ↔
      s.openedAt.isSome ∧ s' = s ∨ s.openedAt = none ∧ s' = ⟨s.closed, some time⟩ := by
  obtain ⟨closed, _ | since⟩ := s <;> simp [apply, Stream.turnOn, Stream.isOn, eq_comm]

theorem apply_release_eq_ok :
    release.apply time s = .ok s' ↔
      s.openedAt = none ∧ s' = s ∨
        ∃ since, s.openedAt = some since ∧ ¬ time < since ∧
          s' = ⟨s.closed.push (since, time), none⟩ := by
  obtain ⟨closed, _ | since⟩ := s
  · simp [apply, Stream.isOn, eq_comm]
  · by_cases h : time < since <;> simp [apply, Stream.turnOff, Stream.isOn, h, eq_comm]

theorem closed_of_release (h : release.apply time s = .ok s') :
    s'.openedAt = none ∧
      s'.closed.toList = s.closed.toList ++ (s.openedAt.map (·, time)).toList := by
  rcases apply_release_eq_ok.1 h with ⟨ho, rfl⟩ | ⟨since, ho, -, rfl⟩
  · exact ⟨ho, by simp [ho]⟩
  · exact ⟨rfl, by simp [ho]⟩

theorem exists_release (h : ∀ since ∈ s.openedAt, ¬ time < since) :
    ∃ s', release.apply time s = .ok s' := by
  cases ho : s.openedAt with
  | none => exact ⟨_, apply_release_eq_ok.2 (.inl ⟨ho, rfl⟩)⟩
  | some since => exact ⟨_, apply_release_eq_ok.2 (.inr ⟨since, ho, h since ho, rfl⟩)⟩

end Toggle

/-- The closed periods of a stream are intervals, and so can be the open one. -/
structure Stream.Bounded (s : Stream) : Prop where
  closed : ∀ p ∈ s.closed.toList, Interval.Valid p.1 p.2
  opened : ∀ since ∈ s.openedAt, since.isFinite ∧ ¬ since < 0

theorem Stream.bounded_new : ({} : Stream).Bounded := ⟨by simp, by simp⟩

/-- A stream that is switched at a time that is finite and not negative stays bounded. -/
theorem Stream.Bounded.apply {s s' : Stream} {time : Float} {t : Toggle} (h : s.Bounded)
    (hf : time.isFinite) (hz : ¬ time < 0) (ha : t.apply time s = .ok s') : s'.Bounded := by
  have hon : (⟨s.closed, some time⟩ : Stream).Bounded := by
    refine ⟨h.closed, fun since hs => ?_⟩
    cases hs
    exact ⟨hf, hz⟩
  have hoff : ∀ since, s.openedAt = some since → ¬ time < since →
      (⟨s.closed.push (since, time), none⟩ : Stream).Bounded := by
    intro since ho ht
    refine ⟨fun p hp => ?_, by simp⟩
    rw [Array.toList_push, List.mem_append, List.mem_singleton] at hp
    rcases hp with hp | rfl
    · exact h.closed p hp
    · exact ⟨(h.opened since ho).1, hf, (h.opened since ho).2, ht⟩
  cases t with
  | on =>
    obtain ⟨-, rfl⟩ := Toggle.apply_on_eq_ok.1 ha
    exact hon
  | off =>
    obtain ⟨since, ho, ht, rfl⟩ := Toggle.apply_off_eq_ok.1 ha
    exact hoff since ho ht
  | hold =>
    rcases Toggle.apply_hold_eq_ok.1 ha with ⟨-, rfl⟩ | ⟨-, rfl⟩
    · exact h
    · exact hon
  | release =>
    rcases Toggle.apply_release_eq_ok.1 ha with ⟨-, rfl⟩ | ⟨since, ho, ht, rfl⟩
    · exact h
    · exact hoff since ho ht
  | keep =>
    cases ha
    exact h

theorem bind_eq_ok_iff {ε α β : Type} {x : Except ε α} {f : α → Except ε β} {b : β} :
    x >>= f = .ok b ↔ ∃ a, x = .ok a ∧ f a = .ok b := by
  cases x <;> simp [bind, Except.bind]

theorem mapM_eq_ok_iff {ε α β : Type} {f : α → Except ε β} {l : List α} {out : List β} :
    l.mapM f = .ok out ↔ List.Forall₂ (fun a b => f a = .ok b) l out := by
  induction l generalizing out with
  | nil => simp [pure, Except.pure, eq_comm, List.forall₂_nil_left_iff]
  | cons a l ih =>
    rw [List.mapM_cons, bind_eq_ok_iff, List.forall₂_cons_left_iff]
    refine exists_congr fun b => ?_
    rw [bind_eq_ok_iff]
    constructor
    · rintro ⟨hb, rest, hrest, h⟩
      cases h
      exact ⟨rest, hb, ih.1 hrest, rfl⟩
    · rintro ⟨rest, hb, hrest, rfl⟩
      exact ⟨hb, rest, ih.2 hrest, rfl⟩

namespace Interval

def ends (a : Interval) : Float × Float := (a.start, a.stop)

theorem mapM_make_eq_ok_iff {l : List (Float × Float)} {ivs : List Interval} :
    (l.mapM fun (on, off) => make on off) = .ok ivs ↔ ivs.map ends = l := by
  rw [mapM_eq_ok_iff, eq_comm, ← List.forall₂_eq_eq_eq, List.forall₂_map_right_iff]
  have h (p : Float × Float) (a : Interval) : make p.1 p.2 = .ok a ↔ p = a.ends := by
    rw [make_eq_ok_iff, ends, Prod.ext_iff, eq_comm, @eq_comm _ a.stop]
  exact iff_of_eq (congrArg (List.Forall₂ · l ivs) (funext₂ fun p a => propext (h p a)))

theorem exists_map_ends_iff {l : List (Float × Float)} :
    (∃ ivs : List Interval, ivs.map ends = l) ↔ ∀ p ∈ l, Valid p.1 p.2 := by
  constructor
  · rintro ⟨ivs, rfl⟩ p hp
    obtain ⟨a, -, rfl⟩ := List.mem_map.1 hp
    exact a.valid
  · intro h
    induction l with
    | nil => exact ⟨[], rfl⟩
    | cons p l ih =>
      obtain ⟨ivs, hivs⟩ := ih fun q hq => h q (List.mem_cons_of_mem p hq)
      exact ⟨⟨p.1, p.2, h p List.mem_cons_self⟩ :: ivs, by rw [List.map_cons, hivs]; rfl⟩

end Interval

theorem Stream.intervals_of_off {s : Stream} (h : s.isOn = false) {ivs : List Interval}
    (hi : ivs.map Interval.ends = s.closed.toList) : s.intervals = .ok ivs := by
  rw [intervals, h, Interval.mapM_make_eq_ok_iff.2 hi]
  rfl

end RadarTimeline
