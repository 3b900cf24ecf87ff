import RadarTimeline.Proofs.Controller.HeldPhase
import RadarTimeline.Proofs.Controller.Reading
import RadarTimeline.Proofs.Controller.Times

namespace RadarTimeline

theorem LineMap.exists_get {α : Type} (f : Line → α) : ∃ m : LineMap α, ∀ l, m.get l = f l := by
  refine ⟨⟨Vector.ofFn fun i => f (Line.all.get (i.cast rfl))⟩, fun l => ?_⟩
  obtain ⟨h, hl⟩ := List.getElem?_eq_some_iff.1 (Line.all_index l)
  simp only [get, Fin.getElem_fin, Vector.getElem_ofFn]
  exact congrArg f hl

namespace Controller

variable {k k' : Core} {c : Command} {cs : List Command} {g : Gate} {st st' : Stream}
  {e : Timed Command} {es : List (Timed Command)}

section Gates

/-- From a state of a gate on, commands switch it in turns and between times that make intervals. -/
structure GateOk (g : Gate) (st : Stream) (es : List (Timed Command)) : Prop where
  alternates : Alternates g st.openedAt es
  valid : ∀ p ∈ st.closed.toList ++ periods g st.openedAt es, Interval.Valid p.1 p.2

theorem GateOk.exists_apply (h : GateOk g st (e :: es)) :
    ∃ st', (g.toggle e.event.mnemonic).apply e.time st = .ok st' := by
  obtain ⟨ha, hv⟩ := h
  rw [Alternates] at ha
  rw [periods] at hv
  cases ht : g.toggle e.event.mnemonic with
  | on =>
    rw [ht] at ha
    exact ⟨_, Toggle.apply_on_eq_ok.2 ⟨ha.1, rfl⟩⟩
  | off =>
    rw [ht] at ha hv
    obtain ⟨since, ho⟩ := Option.ne_none_iff_exists'.1 ha.1
    have := hv (since, e.time) (by simp [ho])
    exact ⟨_, Toggle.apply_off_eq_ok.2 ⟨since, ho, this.2.2.2, rfl⟩⟩
  | release =>
    rw [ht] at hv
    apply Toggle.exists_release
    intro since ho
    exact (hv (since, e.time) (by simp [Option.mem_def.1 ho])).2.2.2
  | hold => exact (g.toggle_ne_hold _ ht).elim
  | keep => exact ⟨st, rfl⟩

theorem gateOk_cons :
    GateOk g st (e :: es) ↔
      ∃ st', (g.toggle e.event.mnemonic).apply e.time st = .ok st' ∧ GateOk g st' es := by
  constructor
  · intro h
    obtain ⟨st', hst⟩ := h.exists_apply
    refine ⟨st', hst, (alternates_cons hst).1 h.alternates, ?_⟩
    rw [← periods_cons hst]
    exact h.valid
  · rintro ⟨st', hst, h⟩
    refine ⟨(alternates_cons hst).2 h.alternates, ?_⟩
    rw [periods_cons hst]
    exact h.valid

theorem gateOk_nil :
    GateOk g st [] ↔ st.openedAt = none ∧ ∀ p ∈ st.closed.toList, Interval.Valid p.1 p.2 := by
  constructor
  · intro h
    exact ⟨h.alternates, fun p hp => h.valid p (List.mem_append_left _ hp)⟩
  · rintro ⟨ho, hv⟩
    refine ⟨ho, ?_⟩
    rw [periods, List.append_nil]
    exact hv

/-- Of the parts of a program only the first finds a gate in another state than that of a new
one. -/
def PartsOk (g : Gate) (st : Stream) : List (List (Timed Command)) → Prop
  | [] => True
  | part :: rest => GateOk g st part ∧ ∀ part ∈ rest, GateOk g {} part

theorem partsOk_new {ps : List (List (Timed Command))} :
    PartsOk g {} ps ↔ ∀ part ∈ ps, GateOk g {} part := by
  cases ps with
  | nil => simp [PartsOk]
  | cons part rest => rw [PartsOk, List.forall_mem_cons]

theorem partsOk_modifyHead {ps : List (List (Timed Command))} (hps : ps ≠ []) :
    PartsOk g st (ps.modifyHead (e :: ·)) ↔
      ∃ st', (g.toggle e.event.mnemonic).apply e.time st = .ok st' ∧ PartsOk g st' ps := by
  cases ps with
  | nil => exact (hps rfl).elim
  | cons part rest =>
    rw [List.modifyHead_cons, PartsOk, gateOk_cons]
    constructor
    · rintro ⟨⟨st', hst, h⟩, hrest⟩
      exact ⟨st', hst, h, hrest⟩
    · rintro ⟨st', hst, h, hrest⟩
      exact ⟨⟨st', hst, h⟩, hrest⟩

end Gates

section Boundaries

variable {time since : Float}

/-- A line can be switched off or is off, and its periods are intervals. -/
def CanClose (time : Float) (l : Line) (st : Stream) : Prop :=
  ∃ st' : Stream, l.closing.apply time st = .ok st' ∧ st'.openedAt = none ∧
    ∀ p ∈ st'.closed.toList, Interval.Valid p.1 p.2

theorem exists_closes_iff (hrun : k.subcycles.bounds.openedAt = some since) :
    (∃ lines s, Closes k time since lines s) ↔
      Interval.Valid since time ∧ ∀ l, CanClose time l (k.lines.get l) := by
  constructor
  · rintro ⟨lines, s, h⟩
    have hends := h.ends
    refine ⟨(Prod.mk.inj hends).1 ▸ (Prod.mk.inj hends).2 ▸ s.interval.valid, fun l => ?_⟩
    refine ⟨lines.get l, h.released l, ?_, ?_⟩
    · simpa [Stream.isOn] using h.off l
    · exact Subcycles.exists_periodsOf_iff.1 ⟨_, h.streams⟩ l l.mem_all
  · rintro ⟨hvalid, hlines⟩
    -- lines can be closed one by one, so there is a core with all of them closed
    choose f hreleased hoff hclosed using hlines
    obtain ⟨lines, hl⟩ := LineMap.exists_get f
    obtain ⟨streams, hstreams⟩ : ∃ streams,
        Subcycles.periodsOf (Line.all.map fun l => (l, lines.get l)) = .ok streams := by
      refine Subcycles.exists_periodsOf_iff.2 fun l _ => ?_
      rw [hl]
      exact hclosed l
    refine ⟨lines, ⟨k.subcycles.count, ⟨since, time, hvalid⟩, streams⟩, ?_⟩
    refine ⟨hrun, hvalid.2.2.2, fun l => ?_, fun l => ?_, rfl, rfl, hstreams⟩
    · rw [hl]
      exact hreleased l
    · rw [hl, Stream.isOn, hoff]
      rfl

/-- At the end of a subcycle gates are off by themselves; the held phase ends there. -/
theorem closing_iff {held : Option (Timed Phase)} (hh : Holds k.lines held) :
    (∀ l, CanClose time l (k.lines.get l)) ↔
      (∀ g, GateOk g (k.lines.get (.gate g)) []) ∧
        ∀ span : Float × Float, ((∃ p, span ∈ (k.lines.get (.phase p)).closed.toList) ∨
          span ∈ (held.map (·.time, time)).toList) → Interval.Valid span.1 span.2 := by
  constructor
  · intro h
    refine ⟨fun g => ?_, ?_⟩
    · obtain ⟨st, hst, ho, hv⟩ := h (.gate g)
      cases hst
      exact gateOk_nil.2 ⟨ho, hv⟩
    · rintro span (⟨p, hp⟩ | hs)
      · obtain ⟨st, hst, -, hv⟩ := h (.phase p)
        rw [(Toggle.closed_of_release hst).2] at hv
        exact hv span (List.mem_append_left _ hp)
      · obtain ⟨e, he, rfl⟩ := Option.map_eq_some_iff.1 (Option.mem_toList.1 hs)
        obtain ⟨st, hst, -, hv⟩ := h (.phase e.event)
        rw [(Toggle.closed_of_release hst).2, hh.openedAt_eq_some.2 ⟨e, he, rfl, rfl⟩] at hv
        exact hv _ (List.mem_append_right _ (by simp))
  · rintro ⟨hg, hp⟩ (g | p)
    · obtain ⟨ho, hv⟩ := gateOk_nil.1 (hg g)
      exact ⟨_, rfl, ho, hv⟩
    · have hopen : ∀ since ∈ (k.lines.get (.phase p)).openedAt, Interval.Valid since time := by
        intro since ho
        obtain ⟨e, he, -, rfl⟩ := hh.openedAt_eq_some.1 ho
        exact hp (e.time, time) (.inr (by simp [Option.mem_def.1 he]))
      obtain ⟨st, hst⟩ := Toggle.exists_release (s := k.lines.get (.phase p))
        fun since ho => (hopen since ho).2.2.2
      obtain ⟨ho, hc⟩ := Toggle.closed_of_release hst
      refine ⟨st, hst, ho, fun span hs => ?_⟩
      rw [hc, List.mem_append] at hs
      rcases hs with hs | hs
      · exact hp span (.inl ⟨p, hs⟩)
      · obtain ⟨since, ho, rfl⟩ := Option.map_eq_some_iff.1 (Option.mem_toList.1 hs)
        exact hopen since ho

end Boundaries

section Playable

/-- The list has one `REP`, at its end. -/
def Ends (cs : List Command) : Prop :=
  ∃ body last, cs = body ++ [last] ∧ last.mnemonic = "REP" ∧ ∀ c ∈ body, c.mnemonic ≠ "REP"

theorem not_ends_nil : ¬ Ends [] := by
  rintro ⟨body, last, h, -⟩
  simp at h

theorem ends_cons (hr : c.mnemonic ≠ "REP") : Ends (c :: cs) ↔ Ends cs := by
  constructor
  · rintro ⟨_ | ⟨c', body⟩, last, h, hl, hb⟩
    · cases h
      exact (hr hl).elim
    · cases h
      exact ⟨body, last, rfl, hl, fun c hc => hb c (List.mem_cons_of_mem _ hc)⟩
  · rintro ⟨body, last, rfl, hl, hb⟩
    exact ⟨c :: body, last, rfl, hl, List.forall_mem_cons.2 ⟨hr, hb⟩⟩

theorem ends_cons_end (hr : c.mnemonic = "REP") : Ends (c :: cs) ↔ cs = [] := by
  constructor
  · rintro ⟨_ | ⟨c', body⟩, last, h, -, hb⟩
    · cases h
      rfl
    · cases h
      exact (hb c List.mem_cons_self hr).elim
  · rintro rfl
    exact ⟨[], c, rfl, hr, by simp⟩

/-- If a command routes a path, the path has its oscillators; a single first one serves all
paths. -/
def Fed (o : Oscillators) (c : Command) : Prop :=
  ∀ path ∈ pathOf? c.mnemonic,
    ((∃ lo, o.first = [some lo]) ∨ ∃ lo, o.first[path]? = some (some lo)) ∧
      ∃ lo, o.second[path]? = some (some lo)

theorem onPath?_isSome_iff (o : Oscillators) (path : Nat) :
    (o.onPath? path).isSome ↔
      ((∃ lo, o.first = [some lo]) ∨ ∃ lo, o.first[path]? = some (some lo)) ∧
        ∃ lo, o.second[path]? = some (some lo) := by
  obtain ⟨first, second⟩ := o
  rcases first with _ | ⟨_ | lo, _ | ⟨b, rest⟩⟩
  case cons.none.nil => cases path <;> simp [Oscillators.onPath?]
  all_goals
    simp [Oscillators.onPath?, Oscillators.entry?, Option.isSome_iff_exists,
      Option.bind_eq_some_iff, Option.join_eq_some_iff]

theorem action_fed_iff (o : Oscillators) (c : Command) : c.action.Fed o ↔ Fed o c := by
  rw [fed_iff, (action_means c .rf).2.2]
  simp only [onPath?_isSome_iff]
  rfl

/-- A core in a cycle that began at zero, in a subcycle and with a phase that began some time. -/
structure Live (k : Core) (held : Option (Timed Phase)) (since : Float) : Prop where
  cycle : k.cycle.openedAt = some 0
  begun : k.subcycles.bounds.openedAt = some since
  unfinished : k.finished = false
  holds : Holds k.lines held
  finite : since.isFinite
  notNegative : ¬ since < 0

/-- What commands have to be like to be replayed from a live core on. -/
structure Playable (k : Core) (held : Option (Timed Phase)) (since : Float) (cs : List Command) :
    Prop where
  ends : Ends cs
  ordered : (since :: boundaryTimes cs).IsChain (· ≤ ·)
  gates : ∀ g, PartsOk g (k.lines.get (.gate g)) (parts k.register cs)
  fed : ∀ c ∈ cs, Fed k.oscillators c
  phases : ∀ span, PhaseSpan k.lines k.phases held (phaseMarks k.register cs) span →
    Interval.Valid span.1 span.2

variable {held : Option (Timed Phase)} {since time : Float}

theorem Live.running (hl : Live k held since) : k.Running :=
  ⟨by rw [Stream.isOn, hl.cycle]; rfl, by rw [Subcycles.isOn, Stream.isOn, hl.begun]; rfl,
    hl.unfinished⟩

def heldAfter (held : Option (Timed Phase)) (time : Float) (c : Command) : Option (Timed Phase) :=
  match phaseOf? c.mnemonic with
  | some p => some (heldNext held time p)
  | none => held

theorem action_of_phase {p : Phase} (h : phaseOf? c.mnemonic = some p) : c.action = .phase p := by
  rw [← (action_means c .rf).2.1] at h
  cases ha : c.action <;> rw [ha] at h <;> cases h
  rfl

theorem toggle_of_no_phase (h : phaseOf? c.mnemonic = none) (p : Phase) :
    c.action.toggle (.phase p) = .keep := by
  rw [← (action_means c .rf).2.1] at h
  rw [toggle_phase_line, h]

theorem Performs.phase_line (hp : Performs c.action time k k') (h : phaseOf? c.mnemonic = none)
    (p : Phase) : k'.lines.get (.phase p) = k.lines.get (.phase p) := by
  have := hp.lines (.phase p)
  rw [toggle_of_no_phase h] at this
  exact (Except.ok.inj this).symm

theorem Performs.phase_lines {p : Phase} (hp : Performs c.action time k k')
    (h : phaseOf? c.mnemonic = some p) (q : Phase) :
    (Action.toggle (.phase p) (.phase q)).apply time (k.lines.get (.phase q)) =
      .ok (k'.lines.get (.phase q)) := by
  rw [← action_of_phase h]
  exact hp.lines (.phase q)

theorem Performs.phases_eq (hp : Performs c.action time k k') :
    k'.phases = c.action.history time k.phases := congrArg Core.phases hp.rest

theorem Performs.live (hp : Performs c.action time k k') (hl : Live k held since) :
    Live k' (heldAfter held time c) since := by
  have hr := hp.rest
  refine ⟨?_, ?_, ?_, ?_, hl.finite, hl.notNegative⟩
  · rw [hr]
    exact hl.cycle
  · rw [hr]
    exact hl.begun
  · rw [hr]
    exact hl.unfinished
  · unfold heldAfter
    cases h : phaseOf? c.mnemonic with
    | none =>
      intro p
      rw [hp.phase_line h]
      exact hl.holds p
    | some p => exact holds_next hl.holds (hp.phase_lines h)

theorem Performs.phaseSpan_iff (hp : Performs c.action (k.register + c.time) k k')
    (hl : Live k held since) (hs : c.mnemonic ≠ "SETTCR") (hr : c.mnemonic ≠ "REP")
    {span : Float × Float} :
    PhaseSpan k'.lines k'.phases (heldAfter held (k.register + c.time) c) (phaseMarks k.register cs)
        span ↔
      PhaseSpan k.lines k.phases held (phaseMarks k.register (c :: cs)) span := by
  rw [hp.phases_eq, history_eq, (action_means c .rf).2.1, phaseMarks, if_neg hs, if_neg hr]
  unfold heldAfter
  cases h : phaseOf? c.mnemonic with
  | none =>
    unfold PhaseSpan
    simp only [hp.phase_line h]
  | some p => exact (phaseSpan_change hl.holds (hp.phase_lines h)).symm

/-- A command that is performed leaves the conditions to those that follow. -/
theorem Performs.playable_iff (hp : Performs c.action (k.register + c.time) k k')
    (hl : Live k held since) (hs : c.mnemonic ≠ "SETTCR") (hr : c.mnemonic ≠ "REP") :
    Playable k' (heldAfter held (k.register + c.time) c) since cs ↔
      Playable k held since (c :: cs) := by
  have hregister : k'.register = k.register := congrArg (·.register) hp.rest
  have hosc : k'.oscillators = k.oscillators := congrArg (·.oscillators) hp.rest
  have hbounds : boundaryTimes (c :: cs) = boundaryTimes cs := by
    rw [boundaryTimes, if_neg]
    rintro (h | h)
    · exact hr h
    · exact hs h.1
  have hparts : ∀ g, PartsOk g (k.lines.get (.gate g)) (parts k.register (c :: cs)) ↔
      PartsOk g (k'.lines.get (.gate g)) (parts k.register cs) := by
    intro g
    rw [parts_act hs, partsOk_modifyHead (parts_ne_nil _ _)]
    constructor
    · rintro ⟨st', hst, h⟩
      rw [hp.gate g] at hst
      exact Except.ok.inj hst ▸ h
    · exact fun h => ⟨_, hp.gate g, h⟩
  constructor
  · intro h
    refine ⟨(ends_cons hr).2 h.ends, hbounds ▸ h.ordered, fun g => (hparts g).2 ?_, ?_, ?_⟩
    · rw [← hregister]
      exact h.gates g
    · rw [← hosc]
      exact List.forall_mem_cons.2 ⟨(action_fed_iff _ c).1 (hosc ▸ hp.fed), h.fed⟩
    · intro span hspan
      rw [← hp.phaseSpan_iff hl hs hr] at hspan
      exact h.phases span (hregister ▸ hspan)
  · intro h
    refine ⟨(ends_cons hr).1 h.ends, hbounds ▸ h.ordered, fun g => ?_, ?_, ?_⟩
    · rw [hregister]
      exact (hparts g).1 (h.gates g)
    · rw [hosc]
      exact (List.forall_mem_cons.1 h.fed).2
    · intro span hspan
      rw [hregister, hp.phaseSpan_iff hl hs hr] at hspan
      exact h.phases span hspan

theorem Playable.exists_performs (h : Playable k held since (c :: cs)) (hl : Live k held since)
    (hs : c.mnemonic ≠ "SETTCR") (hr : c.mnemonic ≠ "REP") :
    ∃ k', Performs c.action (k.register + c.time) k k' := by
  have hlines : ∀ l, ∃ st, (c.action.toggle l).apply (k.register + c.time) (k.lines.get l) =
    .ok st := by
    rintro (g | q)
    · have hg := h.gates g
      rw [parts_act hs, partsOk_modifyHead (parts_ne_nil _ _)] at hg
      obtain ⟨st, hst, -⟩ := hg
      rw [(action_means c g).1]
      exact ⟨st, hst⟩
    · cases hp : phaseOf? c.mnemonic with
      | none =>
        rw [toggle_of_no_phase hp]
        exact ⟨_, rfl⟩
      | some p =>
        rw [action_of_phase hp]
        refine exists_apply_phase hl.holds (fun e he hne => ?_) q
        refine (h.phases (e.time, k.register + c.time) (.inr ?_)).2.2.2
        simp only [phaseMarks, if_neg hs, if_neg hr, hp, phasePeriods]
        exact List.mem_append_left _ (mem_ended.2 ⟨e, he, hne, rfl⟩)
  choose f hf using hlines
  obtain ⟨lines, hlines⟩ := LineMap.exists_get f
  refine ⟨{ k with
    lines := lines, phases := c.action.history (k.register + c.time) k.phases }, ?_,
      fun l => ?_, rfl⟩
  · exact (action_fed_iff _ c).2 (h.fed c List.mem_cons_self)
  · rw [hf l, hlines l]

theorem Live.reset (hl : Live k held since) (time : Float) :
    Live { k with register := time } held since :=
  ⟨hl.cycle, hl.begun, hl.unfinished, hl.holds, hl.finite, hl.notNegative⟩

theorem Fed.of_ne {o : Oscillators} (h : pathOf? c.mnemonic = none) : Fed o c := by
  intro path hp
  rw [h] at hp
  cases hp

theorem fed_cons_setTime {o : Oscillators} (hs : c.mnemonic = "SETTCR") :
    (∀ c' ∈ c :: cs, Fed o c') ↔ ∀ c' ∈ cs, Fed o c' := by
  rw [List.forall_mem_cons]
  refine and_iff_right (.of_ne ?_)
  rw [hs]
  decide

theorem playable_reset (hs : c.mnemonic = "SETTCR") (ht : ¬ c.time > 0) :
    Playable k held since (c :: cs) ↔ Playable { k with register := c.time } held since cs := by
  have hr := not_end_of_setTime hs
  have hbounds : boundaryTimes (c :: cs) = boundaryTimes cs := by
    rw [boundaryTimes, if_neg]
    rintro (h | h)
    · exact hr h
    · exact ht h.2
  have hparts : parts k.register (c :: cs) = parts c.time cs := parts_reset hs ht
  have hmarks : phaseMarks k.register (c :: cs) = phaseMarks c.time cs := by
    rw [phaseMarks, if_pos hs, if_neg ht]
  constructor
  · intro h
    exact ⟨(ends_cons hr).1 h.ends, hbounds ▸ h.ordered, fun g => hparts ▸ h.gates g,
      (fed_cons_setTime hs).1 h.fed, fun span hspan => h.phases span (hmarks ▸ hspan)⟩
  · intro h
    exact ⟨(ends_cons hr).2 h.ends, hbounds ▸ h.ordered, fun g => hparts ▸ h.gates g,
      (fed_cons_setTime hs).2 h.fed, fun span hspan => h.phases span (hmarks ▸ hspan)⟩

theorem Live.valid_iff_le (hl : Live k held since) (ht : time.isFinite) :
    Interval.Valid since time ↔ since ≤ time := by
  rw [← Number.not_lt_iff_le hl.finite ht]
  exact ⟨fun h => h.2.2.2, fun h => ⟨hl.finite, ht, hl.notNegative, h⟩⟩

theorem Live.since_eq (hl : Live k held since) {since' : Float} {lines : LineMap Stream}
    {s : Snapshot Line} (h : Closes k time since' lines s) : since = since' :=
  Option.some.inj (hl.begun.symm.trans h.running)

theorem Live.exists_closes_iff (hl : Live k held since) (ht : time.isFinite) :
    (∃ lines s, Closes k time since lines s) ↔
      since ≤ time ∧ (∀ g, GateOk g (k.lines.get (.gate g)) []) ∧
        ∀ span : Float × Float, ((∃ p, span ∈ (k.lines.get (.phase p)).closed.toList) ∨
          span ∈ (held.map (·.time, time)).toList) → Interval.Valid span.1 span.2 := by
  rw [Controller.exists_closes_iff hl.begun, hl.valid_iff_le ht, closing_iff hl.holds]

theorem Live.split (hl : Live k held since) (hf : time.isFinite) (ht : time > 0)
    (s : Snapshot Line) :
    Live ((k.closed time since s).opened time) ((k.phases.at? time).map (⟨time, ·⟩)) time where
  cycle := hl.cycle
  begun := rfl
  unfinished := hl.unfinished
  holds := holds_new _ _
  finite := hf
  notNegative := Number.not_lt_of_le (Number.le_of_lt ht)

theorem playable_split (hl : Live k held since) (hs : c.mnemonic = "SETTCR") (ht : c.time > 0)
    (hf : c.time.isFinite) :
    Playable k held since (c :: cs) ↔
      ∃ lines s, Closes k c.time since lines s ∧
        Playable ((k.closed c.time since s).opened c.time)
          ((k.phases.at? c.time).map (⟨c.time, ·⟩)) c.time cs := by
  have hr := not_end_of_setTime hs
  have hbounds : boundaryTimes (c :: cs) = c.time :: boundaryTimes cs := by
    rw [boundaryTimes, if_pos (.inr ⟨hs, ht⟩)]
  have hparts : parts k.register (c :: cs) = [] :: parts c.time cs := parts_split hs ht
  have hmarks : phaseMarks k.register (c :: cs) = ⟨c.time, none⟩ :: phaseMarks c.time cs := by
    rw [phaseMarks, if_pos hs, if_pos ht]
  have hnew : ∀ s g, ((k.closed c.time since s).opened c.time).lines.get (.gate g) = {} :=
    fun _ g => PhaseHistory.reopened_gate _ _ g
  constructor
  · rintro ⟨hends, hord, hg, hfed, hphases⟩
    rw [hbounds, List.isChain_cons_cons] at hord
    rw [hmarks] at hphases
    obtain ⟨lines, s, hcl⟩ : ∃ lines s, Closes k c.time since lines s := by
      refine (hl.exists_closes_iff hf).2 ⟨hord.1, fun g => ?_, fun span h => ?_⟩
      · have := hg g
        rw [hparts] at this
        exact this.1
      · exact hphases span (phaseSpan_boundary.2 (.inl h))
    refine ⟨lines, s, hcl, (ends_cons hr).1 hends, hord.2, fun g => ?_,
      (fed_cons_setTime hs).1 hfed, fun span h => ?_⟩
    · have := hg g
      rw [hparts] at this
      rw [hnew, partsOk_new]
      exact this.2
    · exact hphases span (phaseSpan_boundary.2 (.inr (phaseSpan_new.1 h)))
  · rintro ⟨lines, s, hcl, hends, hord, hgs, hfed, hphases⟩
    obtain ⟨hle, hg, hp⟩ := (hl.exists_closes_iff hf).1 ⟨lines, s, hcl⟩
    refine ⟨(ends_cons hr).2 hends, ?_, fun g => ?_, (fed_cons_setTime hs).2 hfed, fun span h => ?_⟩
    · rw [hbounds, List.isChain_cons_cons]
      exact ⟨hle, hord⟩
    · have := hgs g
      rw [hnew, partsOk_new] at this
      rw [hparts]
      exact ⟨hg g, this⟩
    · rw [hmarks, phaseSpan_boundary] at h
      rcases h with h | h
      · exact hp span h
      · exact hphases span (phaseSpan_new.2 h)

theorem playable_finish (hl : Live k held since) (hr : c.mnemonic = "REP") (hf : c.time.isFinite) :
    Playable k held since (c :: cs) ↔ cs = [] ∧ ∃ lines s, Closes k c.time since lines s := by
  have hs := not_setTime_of_end hr
  have hbounds : boundaryTimes [c] = [c.time] := by
    rw [boundaryTimes, if_pos (.inl hr)]
    rfl
  have hparts : parts k.register [c] = [[⟨k.register + c.time, c⟩]] := by
    rw [parts_act hs]
    rfl
  have hmarks : phaseMarks k.register [c] = [⟨c.time, none⟩] := by
    rw [phaseMarks, if_neg hs, if_pos hr]
    rfl
  have hgate : ∀ g st, GateOk g st [⟨k.register + c.time, c⟩] ↔ GateOk g st [] := by
    intro g st
    rw [gateOk_cons, hr, g.toggle_end]
    constructor
    · rintro ⟨_, ⟨⟩, hg⟩
      exact hg
    · exact fun hg => ⟨st, rfl, hg⟩
  rw [hl.exists_closes_iff hf]
  constructor
  · rintro ⟨hends, hord, hg, -, hphases⟩
    obtain rfl := (ends_cons_end hr).1 hends
    rw [hbounds, List.isChain_cons_cons] at hord
    rw [hmarks] at hphases
    refine ⟨rfl, hord.1, fun g => ?_, fun span h => ?_⟩
    · have := hg g
      rw [hparts] at this
      exact (hgate g _).1 this.1
    · exact hphases span (phaseSpan_boundary.2 (.inl h))
  · rintro ⟨rfl, hle, hg, hp⟩
    refine ⟨(ends_cons_end hr).2 rfl, ?_, fun g => ?_, fun c' hc => ?_, fun span h => ?_⟩
    · rw [hbounds, List.isChain_cons_cons]
      exact ⟨hle, .singleton _⟩
    · rw [hparts]
      exact ⟨(hgate g _).2 (hg g), by simp⟩
    · rw [List.mem_singleton.1 hc]
      apply Fed.of_ne
      rw [hr]
      decide
    · rw [hmarks, phaseSpan_boundary] at h
      rcases h with h | h
      · exact hp span h
      · cases h

/-- From a core on commands can be replayed to the end of the cycle. -/
def Accepts (k : Core) (cs : List Command) : Prop := ∃ k', Steps k cs k' ∧ k'.finished = true

theorem accepts_iff_playable (hl : Live k held since) (ht : ∀ c ∈ cs, c.Timely) :
    Accepts k cs ↔ Playable k held since cs := by
  -- each step takes the conditions on `c :: cs` to those on `cs`, from the core after `c`
  induction cs generalizing k held since with
  | nil =>
    constructor
    · rintro ⟨_, ⟨⟩, hf⟩
      rw [hl.unfinished] at hf
      cases hf
    · exact fun h => (not_ends_nil h.ends).elim
  | cons c cs ih =>
    obtain ⟨hc, hcs⟩ := List.forall_mem_cons.1 ht
    constructor
    · rintro ⟨k', hsteps, hf⟩
      cases hsteps with
      | cons _ first rest =>
        cases first with
        | act hs hr hp =>
          exact (hp.playable_iff hl hs hr).1 ((ih (hp.live hl) hcs).1 ⟨k', rest, hf⟩)
        | reset hs hz => exact (playable_reset hs hz).2 ((ih (hl.reset _) hcs).1 ⟨k', rest, hf⟩)
        | split hs hz hcl =>
          obtain rfl := hl.since_eq hcl
          exact (playable_split hl hs hz hc.1).2
            ⟨_, _, hcl, (ih (hl.split hc.1 hz _) hcs).1 ⟨k', rest, hf⟩⟩
        | finish hr hcycle hb hcl =>
          obtain rfl := hl.since_eq hcl
          refine (playable_finish hl hr hc.1).2 ⟨?_, _, _, hcl⟩
          cases rest with
          | nil => rfl
          | cons running => exact absurd running.unfinished (by simp [Core.ended])
    · intro h
      by_cases hs : c.mnemonic = "SETTCR"
      · by_cases hz : c.time > 0
        · obtain ⟨lines, s, hcl, hrest⟩ := (playable_split hl hs hz hc.1).1 h
          obtain ⟨k', hsteps, hf⟩ := (ih (hl.split hc.1 hz s) hcs).2 hrest
          exact ⟨k', .cons hl.running (.split hs hz hcl) hsteps, hf⟩
        · obtain ⟨k', hsteps, hf⟩ := (ih (hl.reset _) hcs).2 ((playable_reset hs hz).1 h)
          exact ⟨k', .cons hl.running (.reset hs hz) hsteps, hf⟩
      by_cases hr : c.mnemonic = "REP"
      · obtain ⟨rfl, lines, s, hcl⟩ := (playable_finish hl hr hc.1).1 h
        exact ⟨_, .cons hl.running (.finish hr hl.cycle hc.2 hcl) (.nil _), rfl⟩
      · obtain ⟨k₁, hp⟩ := h.exists_performs hl hs hr
        obtain ⟨k', hsteps, hf⟩ := (ih (hp.live hl) hcs).2 ((hp.playable_iff hl hs hr).2 h)
        exact ⟨k', .cons hl.running (.act hs hr hp) hsteps, hf⟩

end Playable

/-- What a program has to be like, apart from the size of its times. -/
structure WellFormed (o : Oscillators) (cs : List Command) : Prop where
  ends : Ends cs
  ordered : (boundaryTimes cs).IsChain (· ≤ ·)
  toggled : ∀ part ∈ parts 0 cs, ∀ g : Gate,
    Alternates g none part ∧ ∀ p ∈ periods g none part, ¬ p.2 < p.1
  fed : ∀ c ∈ cs, Fed o c
  held : ∀ p ∈ phasePeriods {} none (phaseMarks 0 cs), ¬ p.2 < p.1

/-- No period of a gate or a phase has an end that overflows. -/
structure FiniteEnds (cs : List Command) : Prop where
  gates : ∀ part ∈ parts 0 cs, ∀ g : Gate, ∀ p ∈ periods g none part, p.1.isFinite ∧ p.2.isFinite
  phases : ∀ p ∈ phasePeriods {} none (phaseMarks 0 cs), p.1.isFinite ∧ p.2.isFinite

variable {o : Oscillators}

theorem live_begun (o : Oscillators) : Live (Core.begun o) none 0 where
  cycle := rfl
  begun := rfl
  unfinished := rfl
  holds := fun p => by rw [Core.begun, LineMap.get_replicate]; rfl
  finite := by decide
  notNegative := by decide

theorem ordered_from_zero (ht : ∀ c ∈ cs, c.Timely) :
    (0 :: boundaryTimes cs).IsChain (· ≤ ·) ↔ (boundaryTimes cs).IsChain (· ≤ ·) := by
  cases h : boundaryTimes cs with
  | nil => simp
  | cons time times =>
    rw [List.isChain_cons_cons]
    refine and_iff_right ?_
    obtain ⟨c, hc, rfl⟩ := mem_boundaryTimes (h ▸ List.mem_cons_self : time ∈ boundaryTimes cs)
    exact Number.le_of_not_lt (by decide) (ht c hc).1 (ht c hc).2

/-- From the start on a program can be played if it is well-formed and its periods do not
overflow. -/
theorem playable_begun_iff (ht : ∀ c ∈ cs, c.Timely) :
    Playable (Core.begun o) none 0 cs ↔ WellFormed o cs ∧ FiniteEnds cs := by
  have hgates : (∀ g, PartsOk g ((Core.begun o).lines.get (.gate g)) (parts 0 cs)) ↔
      ∀ part ∈ parts 0 cs, ∀ g, GateOk g {} part := by
    simp only [Core.begun, LineMap.get_replicate, partsOk_new]
    exact ⟨fun h part hp g => h g part hp, fun h g part hp => h part hp g⟩
  have hspan : ∀ span, PhaseSpan (Core.begun o).lines {} none (phaseMarks 0 cs) span ↔
      span ∈ phasePeriods {} none (phaseMarks 0 cs) := by
    intro span
    refine or_iff_right ?_
    rintro ⟨p, hp⟩
    rw [Core.begun, LineMap.get_replicate] at hp
    cases hp
  have hzero : ¬ (0 : Float) < 0 := by decide
  constructor
  · rintro ⟨hends, hord, hg, hfed, hphases⟩
    replace hg := hgates.1 hg
    have hp := fun span h => hphases span ((hspan span).2 h)
    refine ⟨⟨hends, (ordered_from_zero ht).1 hord, fun part hpart g =>
      ⟨(hg part hpart g).alternates, ?_⟩,
      hfed, fun span h => (hp span h).2.2.2⟩, ⟨fun part hpart g span h => ?_, fun span h => ?_⟩⟩
    · exact fun span h => ((hg part hpart g).valid span h).2.2.2
    · obtain ⟨h1, h2, -⟩ := (hg part hpart g).valid span h
      exact ⟨h1, h2⟩
    · obtain ⟨h1, h2, -⟩ := hp span h
      exact ⟨h1, h2⟩
  · rintro ⟨⟨hends, hord, htoggled, hfed, hheld⟩, hfin, hfin'⟩
    refine ⟨hends, (ordered_from_zero ht).2 hord, hgates.2 fun part hpart g =>
      ⟨?_, fun span h => ?_⟩,
      hfed, fun span h => ?_⟩
    · exact (htoggled part hpart g).1
    -- periods start at times of the program, none of which is negative
    · obtain ⟨h1, h2⟩ := hfin part hpart g span h
      refine ⟨h1, h2, ?_, (htoggled part hpart g).2 span h⟩
      rcases start_of_mem_periods h with hs | ⟨e, he, hs⟩
      · cases hs
      · rw [← hs]
        exact not_lt_zero_of_mem_parts hzero ht part hpart e he
    · replace h := (hspan span).1 h
      obtain ⟨h1, h2⟩ := hfin' span h
      refine ⟨h1, h2, ?_, hheld span h⟩
      rcases start_of_mem_phasePeriods h with ⟨e, ⟨⟩, -⟩ | ⟨m, hm, hs⟩
      rw [← hs]
      exact not_lt_zero_of_mem_phaseMarks hzero ht m hm

theorem run_ok_iff_accepts {tables : Channel → Option (List Float)} (ht : ∀ c ∈ cs, c.Timely) :
    (∃ m, run cs (Machine.initial o tables) = .ok () m) ↔ Accepts (Core.begun o) cs := by
  constructor
  · rintro ⟨m, h⟩
    obtain ⟨hs, last, hl, hr⟩ := run_iff.1 ⟨m, h, rfl⟩
    exact ⟨_, hs, hs.finished hl hr⟩
  · rintro ⟨k, hs, hf⟩
    obtain ⟨body, last, rfl, hr, -⟩ :=
      ((accepts_iff_playable (live_begun o) ht).1 ⟨k, hs, hf⟩).ends
    obtain ⟨m, h, -⟩ := run_iff.2 ⟨hs, last, List.getLast?_concat, hr⟩
    exact ⟨m, h⟩

/-- A program is replayed exactly if it is well-formed and its periods do not overflow; any other is
refused. -/
theorem run_ok_iff_wellFormed {tables : Channel → Option (List Float)} (ht : ∀ c ∈ cs, c.Timely) :
    ((∃ m, run cs (Machine.initial o tables) = .ok () m) ↔ WellFormed o cs ∧ FiniteEnds cs) ∧
      ((∃ e m, run cs (Machine.initial o tables) = .error e m) ↔
        ¬ (WellFormed o cs ∧ FiniteEnds cs)) := by
  have h : (∃ m, run cs (Machine.initial o tables) = .ok () m) ↔ WellFormed o cs ∧
    FiniteEnds cs := by
    rw [run_ok_iff_accepts ht, accepts_iff_playable (live_begun o) ht, playable_begun_iff ht]
  refine ⟨h, ?_⟩
  rw [← h]
  cases run cs (Machine.initial o tables) <;> simp

theorem twoSubcycles_wellFormed :
    (∀ c ∈ twoSubcycles, c.Timely) ∧ WellFormed ⟨[some 812], [some 128]⟩ twoSubcycles ∧
      FiniteEnds twoSubcycles := by
  have ht : ∀ c ∈ twoSubcycles, c.Timely := by decide
  have h : ∃ m, run twoSubcycles (Machine.initial ⟨[some 812], [some 128]⟩ fun _ => none) =
    .ok () m :=
    exists_ok (by decide +kernel)
  exact ⟨ht, (run_ok_iff_wellFormed ht).1.1 h⟩

/-- To be well-formed is not enough: an end that overflows makes no interval. -/
theorem overflowing_wellFormed_refused :
    (∀ c ∈ overflowing, c.Timely) ∧ WellFormed ⟨[some 812], [some 128]⟩ overflowing ∧
      ¬ ∃ m, run overflowing (Machine.initial ⟨[some 812], [some 128]⟩ fun _ => none) =
        .ok () m := by
  refine ⟨by decide +kernel, ⟨?_, by decide +kernel, ?_, ?_, by decide +kernel⟩, ?_⟩
  · exact ⟨overflowing.take 3, ⟨1.7e308, "REP", 4⟩, rfl, rfl, by decide⟩
  · have h : ∀ part ∈ parts 0 overflowing, ∀ g ∈ Gate.all,
        Alternates g none part ∧ ∀ p ∈ periods g none part, ¬ p.2 < p.1 := by
      decide +kernel
    exact fun part hpart g => h part hpart g g.mem_all
  · have h : ∀ c ∈ overflowing, pathOf? c.mnemonic = none := by decide
    exact fun c hc => .of_ne (h c hc)
  · rintro ⟨m, h⟩
    have hs : succeeds (run overflowing (Machine.initial ⟨[some 812], [some 128]⟩ fun _ => none)) =
      false := by
      decide +kernel
    rw [h] at hs
    cases hs

end Controller

end RadarTimeline
