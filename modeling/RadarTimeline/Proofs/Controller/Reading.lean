import RadarTimeline.Proofs.Controller.Program

namespace RadarTimeline

theorem Gate.toggle_end (g : Gate) : g.toggle "REP" = .keep := by
  have h : ∀ g ∈ all, g.toggle "REP" = .keep := by decide +kernel
  exact h g g.mem_all

theorem PhaseHistory.reopened_gate (h : PhaseHistory) (time : Float) (g : Gate) :
    (h.reopened time).get (.gate g) = {} := by
  unfold reopened
  cases h.at? time with
  | none => exact LineMap.get_replicate _ _
  | some p =>
    rw [LineMap.get_set, if_neg Line.noConfusion]
    exact LineMap.get_replicate _ _

namespace Controller

variable {k k' : Core} {c : Command} {cs : List Command} {g : Gate} {st st' : Stream}
  {e : Timed Command} {es : List (Timed Command)} {s : Snapshot Line}

/-- A snapshot has the periods that a gate, as it is before some commands, has after them. -/
structure Reads (g : Gate) (st : Stream) (es : List (Timed Command)) (s : Snapshot Line) :
    Prop where
  alternates : Alternates g st.openedAt es
  periods : (s.periods (.gate g)).map Interval.ends =
    st.closed.toList ++ Controller.periods g st.openedAt es

theorem alternates_cons (h : (g.toggle e.event.mnemonic).apply e.time st = .ok st') :
    Alternates g st.openedAt (e :: es) ↔ Alternates g st'.openedAt es := by
  rw [Alternates]
  cases ht : g.toggle e.event.mnemonic with
  | on =>
    rw [ht] at h
    obtain ⟨ho, rfl⟩ := Toggle.apply_on_eq_ok.1 h
    exact and_iff_right ho
  | off =>
    rw [ht] at h
    obtain ⟨since, ho, -, rfl⟩ := Toggle.apply_off_eq_ok.1 h
    exact and_iff_right (by simp [ho])
  | release =>
    rw [ht] at h
    rcases Toggle.apply_release_eq_ok.1 h with ⟨ho, rfl⟩ | ⟨since, -, -, rfl⟩
    · rw [ho]
    · rfl
  | hold => exact (g.toggle_ne_hold _ ht).elim
  | keep =>
    rw [ht] at h
    cases h
    rfl

/-- What a command closes at once, the others need not close any more. -/
theorem periods_cons (h : (g.toggle e.event.mnemonic).apply e.time st = .ok st') :
    st.closed.toList ++ periods g st.openedAt (e :: es) =
      st'.closed.toList ++ periods g st'.openedAt es := by
  rw [periods]
  cases ht : g.toggle e.event.mnemonic with
  | on =>
    rw [ht] at h
    obtain ⟨-, rfl⟩ := Toggle.apply_on_eq_ok.1 h
    rfl
  | off =>
    rw [ht] at h
    obtain ⟨since, ho, -, rfl⟩ := Toggle.apply_off_eq_ok.1 h
    simp [ho]
  | release =>
    rw [ht] at h
    rcases Toggle.apply_release_eq_ok.1 h with ⟨ho, rfl⟩ | ⟨since, ho, -, rfl⟩ <;> simp [ho]
  | hold => exact (g.toggle_ne_hold _ ht).elim
  | keep =>
    rw [ht] at h
    cases h
    rfl

theorem Reads.cons (hs : Reads g st' es s)
    (h : (g.toggle e.event.mnemonic).apply e.time st = .ok st') : Reads g st (e :: es) s :=
  ⟨(alternates_cons h).2 hs.alternates, by rw [hs.periods, periods_cons h]⟩

theorem Performs.gate {time : Float} (h : Performs c.action time k k') (g : Gate) :
    (g.toggle c.mnemonic).apply time (k.lines.get (.gate g)) = .ok (k'.lines.get (.gate g)) := by
  rw [← (action_means c g).1]
  exact h.lines (.gate g)

theorem Closes.reads {time since : Float} {lines : LineMap Stream}
    (h : Closes k time since lines s) (g : Gate) : Reads g (k.lines.get (.gate g)) [] s := by
  have hg : lines.get (.gate g) = k.lines.get (.gate g) :=
    (Except.ok.inj (h.released (.gate g))).symm
  have hoff := h.off (.gate g)
  rw [hg, Stream.isOn, Option.isSome_eq_false_iff, Option.isNone_iff_eq_none] at hoff
  refine ⟨hoff, ?_⟩
  rw [h.periods, hg, Controller.periods, List.append_nil]

theorem Closes.reads_end {time since : Float} {lines : LineMap Stream}
    (h : Closes k time since lines s) (hr : c.mnemonic = "REP") (t : Float) (g : Gate) :
    Reads g (k.lines.get (.gate g)) [⟨t, c⟩] s := by
  refine (h.reads g).cons ?_
  rw [hr, g.toggle_end]
  rfl

/-- The rest of a replay adds a snapshot for each part of the rest of its program. -/
theorem Steps.reads (h : Steps k cs k') (hk : k.Running) (hf : k'.finished = true) :
    ∃ part rest s ss, parts k.register cs = part :: rest ∧
      k'.subcycles.snapshots.toList = k.subcycles.snapshots.toList ++ s :: ss ∧
      (∀ g, Reads g (k.lines.get (.gate g)) part s) ∧
      List.Forall₂ (fun s part => ∀ g, Reads g {} part s) ss rest := by
  -- the first part goes on the gates as they are, later ones on new gates
  induction h with
  | nil k =>
    rw [hk.unfinished] at hf
    cases hf
  | @cons k k₁ k' c cs _ first rest ih =>
    have hrun := first.running_or_finished hk
    cases first with
    | act hs hr hp =>
      obtain ⟨part, tail, s, ss, hparts, hsnaps, hhead, htail⟩ := ih (hp.running hk) hf
      rw [hp.rest] at hparts hsnaps
      refine ⟨⟨k.register + c.time, c⟩ :: part, tail, s, ss, ?_, hsnaps, fun g => ?_, htail⟩
      · rw [parts_act hs, hparts]
        rfl
      · exact (hhead g).cons (hp.gate g)
    | reset hs ht =>
      obtain ⟨part, tail, s, ss, hparts, hsnaps, hhead, htail⟩ :=
        ih ⟨hk.cycle, hk.subcycle, hk.unfinished⟩ hf
      refine ⟨part, tail, s, ss, ?_, hsnaps, hhead, htail⟩
      rw [parts_reset hs ht]
      exact hparts
    | @split hs ht since lines s₀ hcl =>
      obtain ⟨part, tail, s, ss, hparts, hsnaps, hhead, htail⟩ :=
        ih ⟨hk.cycle, rfl, hk.unfinished⟩ hf
      refine ⟨[], part :: tail, s₀, s :: ss, ?_, ?_, hcl.reads, .cons (fun g => ?_) htail⟩
      · rw [parts_split hs ht]
        exact congrArg _ hparts
      · rw [hsnaps]
        simp [Core.opened, Core.closed]
      · have := hhead g
        rw [Core.opened, PhaseHistory.reopened_gate] at this
        exact this
    | @finish hr begun since lines s₀ hc hb hcl =>
      cases rest with
      | cons running => exact absurd running.unfinished (by simp [Core.ended])
      | nil =>
        refine ⟨[⟨k.register + c.time, c⟩], [], s₀, [], ?_, ?_, hcl.reads_end hr _, .nil⟩
        · rw [parts_act (not_setTime_of_end hr)]
          rfl
        · simp [Core.ended, Core.closed]

theorem Steps.finished {last : Command} (h : Steps k cs k') (hl : cs.getLast? = some last)
    (hr : last.mnemonic = "REP") : k'.finished = true := by
  induction h with
  | nil => cases hl
  | @cons k k₁ k' c cs _ first rest ih =>
    cases rest with
    | nil =>
      cases hl
      cases first with
      | act _ hr' => exact (hr' hr).elim
      | reset hs => exact absurd (hr.symm.trans hs) (by decide)
      | split hs => exact absurd (hr.symm.trans hs) (by decide)
      | finish => rfl
    | cons running first' rest' =>
      exact ih ((List.getLast?_cons_cons).symm.trans hl)

theorem Step.indexed (h : Step k c k') (hi : Subcycles.Indexed k.subcycles.snapshots) :
    Subcycles.Indexed k'.subcycles.snapshots := by
  cases h with
  | act _ _ hp =>
    rw [hp.rest]
    exact hi
  | reset => exact hi
  | split _ _ hcl => exact hi.push hcl.index
  | finish _ _ _ hcl => exact hi.push hcl.index

theorem Steps.indexed (h : Steps k cs k') (hi : Subcycles.Indexed k.subcycles.snapshots) :
    Subcycles.Indexed k'.subcycles.snapshots := by
  induction h with
  | nil => exact hi
  | cons _ first _ ih => exact ih (first.indexed hi)

/-- A replay that succeeds leaves one snapshot for each part of its program. In its part every gate
is switched on and off in turns, and the snapshot has the periods between. -/
theorem snapshots_read_program {o : Oscillators} {tables : Channel → Option (List Float)}
    {m : Machine} (h : run cs (Machine.initial o tables) = .ok () m) :
    m.subcycles.snapshots.size = (parts 0 cs).length ∧
      ∀ (i : Nat) (part : List (Timed Command)), (parts 0 cs)[i]? = some part →
        ∃ s, m.subcycles.snapshots[i]? = some s ∧ s.index = i ∧
          ∀ g : Gate, Alternates g none part ∧
            (s.periods (.gate g)).map Interval.ends = periods g none part := by
  obtain ⟨hs, last, hl, hr⟩ := run_iff.1 ⟨m, h, rfl⟩
  obtain ⟨part₀, rest, s₀, ss, hparts, hsnaps, hhead, htail⟩ :=
    hs.reads ⟨rfl, rfl, rfl⟩ (hs.finished hl hr)
  have hreads : List.Forall₂ (fun s part => ∀ g, Reads g {} part s)
      m.subcycles.snapshots.toList (parts 0 cs) := by
    change parts 0 cs = _ at hparts
    change m.subcycles.snapshots.toList = [] ++ _ at hsnaps
    rw [hparts, hsnaps]
    refine .cons (fun g => ?_) htail
    have := hhead g
    rw [Core.begun, LineMap.get_replicate] at this
    exact this
  refine ⟨hreads.length_eq, fun i part hi => ?_⟩
  obtain ⟨hlt, rfl⟩ := List.getElem?_eq_some_iff.1 hi
  have hlt' : i < m.subcycles.snapshots.size := by
    rw [← Array.length_toList, hreads.length_eq]
    exact hlt
  refine ⟨m.subcycles.snapshots[i], Array.getElem?_eq_getElem hlt', ?_, fun g => ?_⟩
  · exact hs.indexed Subcycles.indexed_empty i _ (Array.getElem?_eq_getElem hlt')
  · have := (List.forall₂_iff_get.1 hreads).2 i hlt' hlt g
    exact ⟨this.alternates, this.periods⟩

/-- Two subcycles with an alias, a reset of the register and an `ALLOFF` for two channels. -/
def twoSubcycles : List Command :=
  [⟨1, "CAL100", 1⟩, ⟨2, "CALOFF", 2⟩, ⟨4, "SETTCR", 3⟩, ⟨1, "CH1", 4⟩, ⟨1, "CH2", 4⟩,
    ⟨0, "SETTCR", 5⟩, ⟨7, "ALLOFF", 6⟩, ⟨9, "REP", 7⟩]

theorem snapshots_read_twoSubcycles :
    ∃ m, run twoSubcycles (Machine.initial ⟨[some 812], [some 128]⟩ fun _ => none) = .ok () m ∧
      m.subcycles.snapshots.size = 2 ∧
      ∃ s, m.subcycles.snapshots[1]? = some s ∧
        (s.periods (.gate (.channel 0))).map Interval.ends = [(5, 7)] := by
  obtain ⟨m, h⟩ : ∃ m, run twoSubcycles (Machine.initial ⟨[some 812], [some 128]⟩ fun _ => none) =
    .ok () m :=
    exists_ok (by decide +kernel)
  obtain ⟨hsize, hreads⟩ := snapshots_read_program h
  refine ⟨m, h, hsize, ?_⟩
  obtain ⟨s, hs, -, hg⟩ := hreads 1 [⟨4 + 1, ⟨1, "CH1", 4⟩⟩, ⟨4 + 1, ⟨1, "CH2", 4⟩⟩,
    ⟨0 + 7, ⟨7, "ALLOFF", 6⟩⟩, ⟨0 + 9, ⟨9, "REP", 7⟩⟩] rfl
  refine ⟨s, hs, ?_⟩
  rw [(hg (.channel 0)).2]
  decide +kernel

end Controller

end RadarTimeline
