import RadarTimeline.Proofs.Controller.Program

namespace RadarTimeline.Controller

variable {lines lines' : LineMap Stream} {h : PhaseHistory} {held : Option (Timed Phase)}
    {time : Float}
  {p : Phase} {ms : List (Timed (Option Phase))}

/-- Of the lines of the phases that of the held one is on, since it was taken up. -/
def Holds (lines : LineMap Stream) (held : Option (Timed Phase)) : Prop :=
  ∀ p, (lines.get (.phase p)).openedAt = (held.filter (·.event = p)).map (·.time)

/-- The periods of phases that have ended and those that will. -/
def PhaseSpan (lines : LineMap Stream) (h : PhaseHistory) (held : Option (Timed Phase))
    (ms : List (Timed (Option Phase))) (span : Float × Float) : Prop :=
  (∃ p, span ∈ (lines.get (.phase p)).closed.toList) ∨ span ∈ phasePeriods h held ms

theorem Holds.openedAt_eq_some (hh : Holds lines held) {q : Phase} {since : Float} :
    (lines.get (.phase q)).openedAt = some since ↔ ∃ e ∈ held, e.event = q ∧ e.time = since := by
  rw [hh q]
  simp [Option.map_eq_some_iff, Option.filter_eq_some_iff, and_assoc]

theorem mem_ended {span : Float × Float} :
    span ∈ ((held.filter (·.event ≠ p)).map (·.time, time)).toList ↔
      ∃ e ∈ held, e.event ≠ p ∧ (e.time, time) = span := by
  simp [Option.map_eq_some_iff, Option.filter_eq_some_iff, and_assoc]

theorem holds_new (time : Float) (h : PhaseHistory) :
    Holds (h.reopened time) ((h.at? time).map (⟨time, ·⟩)) := by
  intro p
  rw [PhaseHistory.reopened]
  cases h.at? time with
  | none => rw [LineMap.get_replicate]; rfl
  | some q =>
    rw [LineMap.get_set]
    by_cases hpq : p = q
    · subst hpq
      simp [Option.filter_some]
    · rw [if_neg (by simpa using hpq), LineMap.get_replicate]
      simp [Option.filter_some, Ne.symm hpq]

theorem closed_reopened (time : Float) (h : PhaseHistory) (l : Line) :
    ((h.reopened time).get l).closed = #[] := by
  rw [PhaseHistory.reopened]
  cases h.at? time with
  | none => rw [LineMap.get_replicate]
  | some q =>
    rw [LineMap.get_set, LineMap.get_replicate]
    split_ifs <;> rfl

/-- A command for a phase can be performed if it does not come before the held phase, unless that is
the same. -/
theorem exists_apply_phase (hh : Holds lines held)
    (hv : ∀ e ∈ held, e.event ≠ p → ¬ time < e.time) (q : Phase) :
    ∃ s, (Action.toggle (.phase p) (.phase q)).apply time (lines.get (.phase q)) = .ok s := by
  rw [Action.toggle]
  by_cases hqp : q = p
  · rw [if_pos hqp]
    cases ho : (lines.get (.phase q)).openedAt with
    | none => exact ⟨_, Toggle.apply_hold_eq_ok.2 (.inr ⟨ho, rfl⟩)⟩
    | some since => exact ⟨_, Toggle.apply_hold_eq_ok.2 (.inl ⟨by simp [ho], rfl⟩)⟩
  · rw [if_neg hqp]
    apply Toggle.exists_release
    intro since ho
    obtain ⟨e, he, rfl, rfl⟩ := hh.openedAt_eq_some.1 ho
    exact hv e he hqp

section Change

variable (hh : Holds lines held) (ha : ∀ q, (Action.toggle (.phase p) (.phase q)).apply time
  (lines.get (.phase q)) = .ok (lines'.get (.phase q)))

include hh ha

/-- The phase asked for is held from now on or, if it was so already, since it was taken up. -/
theorem holds_next : Holds lines' (some (heldNext held time p)) := by
  intro q
  have hq := ha q
  rw [Action.toggle] at hq
  rw [Option.filter_some]
  by_cases hqp : q = p
  · subst hqp
    rw [if_pos rfl] at hq
    have hs := hh q
    rcases Toggle.apply_hold_eq_ok.1 hq with ⟨hon, hl⟩ | ⟨ho, hl⟩
    -- a line that is on is that of the held phase, which stays
    · rw [hl]
      rw [hs] at hon
      rw [hs]
      cases held with
      | none => cases hon
      | some e =>
        by_cases he : e.event = q
        · simp [heldNext, he, Option.filter_some]
        · simp [he, Option.filter_some] at hon
    · rw [hl]
      rw [ho] at hs
      cases held with
      | none => simp [heldNext]
      | some e =>
        by_cases he : e.event = q
        · simp [he, Option.filter_some] at hs
        · simp [heldNext, he]
  · rw [if_neg hqp] at hq
    have hne : (heldNext held time p).event = p := by
      unfold heldNext
      split
      · split_ifs with he
        · exact he
        · rfl
      · rfl
    rw [hne, if_neg (by simpa using Ne.symm hqp)]
    exact (Toggle.closed_of_release hq).1

theorem closed_next (span : Float × Float) :
    (∃ q, span ∈ (lines'.get (.phase q)).closed.toList) ↔
      (∃ q, span ∈ (lines.get (.phase q)).closed.toList) ∨
        span ∈ ((held.filter (·.event ≠ p)).map (·.time, time)).toList := by
  -- the line of another phase than `p` gains a period exactly if that phase was held
  have hone : ∀ q, span ∈ (lines'.get (.phase q)).closed.toList ↔
      span ∈ (lines.get (.phase q)).closed.toList ∨
        ∃ e ∈ held, e.event = q ∧ q ≠ p ∧ (e.time, time) = span := by
    intro q
    have hq := ha q
    rw [Action.toggle] at hq
    by_cases hqp : q = p
    · rw [if_pos hqp] at hq
      have hl : (lines'.get (.phase q)).closed = (lines.get (.phase q)).closed := by
        rcases Toggle.apply_hold_eq_ok.1 hq with ⟨-, hl⟩ | ⟨-, hl⟩ <;> rw [hl]
      rw [hl]
      simp [hqp]
    · rw [if_neg hqp] at hq
      rw [(Toggle.closed_of_release hq).2, List.mem_append]
      simp only [Option.mem_toList, Option.map_eq_some_iff, Option.mem_def, hh.openedAt_eq_some]
      refine or_congr_right ⟨?_, ?_⟩
      · rintro ⟨_, ⟨e, he, heq, rfl⟩, hs⟩
        exact ⟨e, he, heq, hqp, hs⟩
      · rintro ⟨e, he, heq, -, hs⟩
        exact ⟨_, ⟨e, he, heq, rfl⟩, hs⟩
  simp only [hone, exists_or]
  rw [mem_ended]
  refine or_congr_right ⟨?_, ?_⟩
  · rintro ⟨q, e, he, rfl, hne, hs⟩
    exact ⟨e, he, hne, hs⟩
  · rintro ⟨e, he, hne, hs⟩
    exact ⟨_, e, he, rfl, hne, hs⟩

theorem phaseSpan_change {span : Float × Float} :
    PhaseSpan lines h held (⟨time, some p⟩ :: ms) span ↔
      PhaseSpan lines' (h.set time p) (some (heldNext held time p)) ms span := by
  rw [PhaseSpan, PhaseSpan, closed_next hh ha span, phasePeriods, List.mem_append, or_assoc]

end Change

theorem phaseSpan_new {span : Float × Float} :
    PhaseSpan (h.reopened time) h ((h.at? time).map (⟨time, ·⟩)) ms span ↔
      span ∈ phasePeriods h ((h.at? time).map (⟨time, ·⟩)) ms := by
  unfold PhaseSpan
  refine or_iff_right ?_
  rintro ⟨p, hp⟩
  rw [closed_reopened] at hp
  cases hp

theorem phaseSpan_boundary {span : Float × Float} :
    PhaseSpan lines h held (⟨time, none⟩ :: ms) span ↔
      ((∃ p, span ∈ (lines.get (.phase p)).closed.toList) ∨
        span ∈ (held.map (·.time, time)).toList) ∨
      span ∈ phasePeriods h ((h.at? time).map (⟨time, ·⟩)) ms := by
  rw [PhaseSpan, phasePeriods, List.mem_append, or_assoc]

end RadarTimeline.Controller
