import RadarTimeline.Proofs.Controller.Program
import RadarTimeline.Proofs.Number.Order

namespace RadarTimeline.Controller

variable {cs : List Command} {g : Gate} {es : List (Timed Command)} {register : Float}
  {held : Option Float} {span : Float × Float}

theorem mem_boundaryTimes {time : Float} (h : time ∈ boundaryTimes cs) :
    ∃ c ∈ cs, c.time = time := by
  induction cs with
  | nil => cases h
  | cons c cs ih =>
    rw [boundaryTimes] at h
    split_ifs at h
    · rcases List.mem_cons.1 h with rfl | h
      · exact ⟨c, List.mem_cons_self, rfl⟩
      · obtain ⟨c', hc', ht⟩ := ih h
        exact ⟨c', List.mem_cons_of_mem _ hc', ht⟩
    · obtain ⟨c', hc', ht⟩ := ih h
      exact ⟨c', List.mem_cons_of_mem _ hc', ht⟩

theorem not_lt_zero_of_mem_parts (hr : ¬ register < 0) (ht : ∀ c ∈ cs, c.Timely) :
    ∀ part ∈ parts register cs, ∀ e ∈ part, ¬ e.time < 0 := by
  induction cs generalizing register with
  | nil => simp [parts]
  | cons c cs ih =>
    obtain ⟨hc, hcs⟩ := List.forall_mem_cons.1 ht
    rw [parts]
    split_ifs
    · exact List.forall_mem_cons.2 ⟨by simp, ih hc.2 hcs⟩
    · exact ih hc.2 hcs
    · cases hp : parts register cs with
      | nil => exact (parts_ne_nil _ _ hp).elim
      | cons part rest =>
        have := ih hr hcs
        rw [hp, List.forall_mem_cons] at this
        rw [List.modifyHead_cons, List.forall_mem_cons, List.forall_mem_cons]
        exact ⟨⟨Number.not_add_lt_zero hr hc.2, this.1⟩, this.2⟩

theorem start_of_mem_periods (h : span ∈ periods g held es) :
    held = some span.1 ∨ ∃ e ∈ es, e.time = span.1 := by
  induction es generalizing held with
  | nil => cases h
  | cons e es ih =>
    have htail : ∀ {held' : Option Float}, (held' = some e.time ∨ held' = held ∨ held' = none) →
        span ∈ periods g held' es → held = some span.1 ∨ ∃ e' ∈ e :: es, e'.time = span.1 := by
      intro held' hheld' hspan
      rcases ih hspan with hs | ⟨e', he', hs⟩
      · rcases hheld' with h' | h' | h'
        · rw [h'] at hs
          exact .inr ⟨e, List.mem_cons_self, Option.some.inj hs⟩
        · exact .inl (h' ▸ hs)
        · rw [h'] at hs
          cases hs
      · exact .inr ⟨e', List.mem_cons_of_mem _ he', hs⟩
    rw [periods] at h
    cases ht : g.toggle e.event.mnemonic <;> rw [ht] at h
    case on => exact htail (.inl rfl) h
    case off | release =>
      rcases List.mem_append.1 h with h | h
      · obtain ⟨since, hs, rfl⟩ := Option.map_eq_some_iff.1 (Option.mem_toList.1 h)
        exact .inl hs
      · exact htail (.inr (.inr rfl)) h
    case hold | keep => exact htail (.inr (.inl rfl)) h

theorem not_lt_zero_of_mem_phaseMarks (hr : ¬ register < 0) (ht : ∀ c ∈ cs, c.Timely) :
    ∀ m ∈ phaseMarks register cs, ¬ m.time < 0 := by
  induction cs generalizing register with
  | nil => simp [phaseMarks]
  | cons c cs ih =>
    obtain ⟨hc, hcs⟩ := List.forall_mem_cons.1 ht
    rw [phaseMarks]
    split_ifs
    · exact List.forall_mem_cons.2 ⟨hc.2, ih hc.2 hcs⟩
    · exact ih hc.2 hcs
    · exact List.forall_mem_cons.2 ⟨hc.2, ih hr hcs⟩
    · cases phaseOf? c.mnemonic with
      | none => exact ih hr hcs
      | some p => exact List.forall_mem_cons.2 ⟨Number.not_add_lt_zero hr hc.2, ih hr hcs⟩

theorem heldNext_cases (held : Option (Timed Phase)) (time : Float) (p : Phase) :
    heldNext held time p ∈ held ∨ (heldNext held time p).time = time := by
  unfold heldNext
  cases held with
  | none => exact .inr rfl
  | some e =>
    by_cases he : e.event = p
    · exact .inl (by simp [he])
    · exact .inr (by simp [he])

theorem start_of_mem_phasePeriods {h : PhaseHistory} {held : Option (Timed Phase)}
    {ms : List (Timed (Option Phase))} (hs : span ∈ phasePeriods h held ms) :
    (∃ e ∈ held, e.time = span.1) ∨ ∃ m ∈ ms, m.time = span.1 := by
  induction ms generalizing h held with
  | nil => cases hs
  | cons m ms ih =>
    obtain ⟨time, _ | p⟩ := m
    · rcases List.mem_append.1 hs with hs | hs
      · obtain ⟨e, he, rfl⟩ := Option.map_eq_some_iff.1 (Option.mem_toList.1 hs)
        exact .inl ⟨e, he, rfl⟩
      · rcases ih hs with ⟨e, he, ht⟩ | ⟨m, hm, ht⟩
        · obtain ⟨q, -, rfl⟩ := Option.map_eq_some_iff.1 he
          exact .inr ⟨_, List.mem_cons_self, ht⟩
        · exact .inr ⟨m, List.mem_cons_of_mem _ hm, ht⟩
    · rcases List.mem_append.1 hs with hs | hs
      · obtain ⟨e, he, rfl⟩ := Option.map_eq_some_iff.1 (Option.mem_toList.1 hs)
        exact .inl ⟨e, (Option.filter_eq_some_iff.1 he).1, rfl⟩
      · rcases ih hs with ⟨e, he, ht⟩ | ⟨m, hm, ht⟩
        · cases he
          rcases heldNext_cases held time p with he | he
          · exact .inl ⟨_, he, ht⟩
          · exact .inr ⟨_, List.mem_cons_self, he.symm.trans ht⟩
        · exact .inr ⟨m, List.mem_cons_of_mem _ hm, ht⟩

/-- The times of a program: of the commands that can be executed, counted from the register, and of
the boundaries. -/
def resolved (register : Float) : List Command → List Float
  | [] => []
  | c :: cs =>
    if c.mnemonic = "SETTCR" then
      if c.time > 0 then c.time :: resolved c.time cs else resolved c.time cs
    else if c.mnemonic = "REP" then c.time :: resolved register cs
    else match Action.ofMnemonic? c.mnemonic with
      | some _ => (register + c.time) :: resolved register cs
      | none => resolved register cs

/-- A transmission in a second subcycle at times that are finite, but not if counted from its
start. -/
def overflowing : List Command :=
  [⟨1.7e308, "SETTCR", 1⟩, ⟨1.7e308, "RFON", 2⟩, ⟨1.7e308, "RFOFF", 3⟩, ⟨1.7e308, "REP", 4⟩]

end RadarTimeline.Controller
