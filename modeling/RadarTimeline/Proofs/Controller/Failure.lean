import RadarTimeline.Proofs.Controller.Transition

namespace RadarTimeline.Controller

variable {α : Type} {m m' : Machine} {time : Float} {pos : Position}

/-- A step fails as times make no interval. -/
def failsInterval : EStateM.Result ReplayError Machine α → Bool
  | .error (.interval _) _ => true
  | _ => false

/-- A step keeps a property of cores, also when it fails, and never fails as times make no
interval. -/
def Maintains (P : Core → Prop) (x : Replay α) : Prop :=
  ∀ m : Machine, P m.core → P (after x m).core ∧ failsInterval (x m) = false

section Maintains

variable {P : Core → Prop}

theorem maintains_pure (a : α) : Maintains P (pure a : Replay α) := fun _ h => ⟨h, rfl⟩

theorem Maintains.bind {β : Type} {x : Replay α} {f : α → Replay β} (hx : Maintains P x)
    (hf : ∀ a, Maintains P (f a)) : Maintains P (x >>= f) := by
  intro m h
  have hm := hx m h
  change P (after (EStateM.bind x f) m).core ∧ failsInterval (EStateM.bind x f m) = false
  unfold after EStateM.bind
  unfold after at hm
  cases hxm : x m with
  | ok a m₁ =>
    rw [hxm] at hm
    exact hf a m₁ hm.1
  | error e m₁ =>
    rw [hxm] at hm
    exact ⟨hm.1, by cases e <;> exact hm.2⟩

theorem maintains_forM {β : Type} {f : β → Replay Unit} (h : ∀ b, Maintains P (f b)) (l : List β) :
    Maintains P (l.forM f) := by
  induction l with
  | nil => exact maintains_pure ()
  | cons b l ih => exact (h b).bind fun _ => ih

theorem Silent.maintains {x : Replay Unit} (hx : Silent x) : Maintains P x := by
  intro m h
  obtain ⟨m₁, h₁, hm₁⟩ := hx m
  rw [after_of_ok h₁, hm₁, h₁]
  exact ⟨h, rfl⟩

end Maintains

/-- A property of cores that the switching of lines at a time and the noting of phases keep. -/
structure Kept (P : Core → Prop) (time : Float) : Prop where
  switch : ∀ (k : Core) (l : Line) (t : Toggle) (st : Stream),
    t.apply time (k.lines.get l) = .ok st → P k → P { k with lines := k.lines.set l st }
  phases : ∀ (k : Core) (h : PhaseHistory), P k → P { k with phases := h }

section Kept

variable {P : Core → Prop}

theorem Kept.switchLine (h : Kept P time) (t : Toggle) (l : Line) (pos : Position) :
    Maintains P (switchLine t l time pos) := by
  intro m hm
  unfold after Controller.switchLine
  cases hs : t.apply time (m.lines.get l) with
  | error fault => exact ⟨hm, rfl⟩
  | ok st => exact ⟨h.switch m.core l t st hs hm, rfl⟩

theorem Kept.perform (h : Kept P time) (a : Action) : Maintains P (perform time pos a) := by
  cases a with
  | turnOn g =>
    rw [Controller.perform, turnOn_eq]
    exact h.switchLine _ _ _
  | turnOff g =>
    rw [Controller.perform, turnOff_eq]
    exact h.switchLine _ _ _
  | phase p =>
    apply Maintains.bind
    · exact fun m hm => ⟨h.phases m.core _ hm, rfl⟩
    · intro _
      rw [notePhase_eq]
      exact maintains_forM (fun l => h.switchLine _ l _) _
  | allOff =>
    rw [Controller.perform, releaseChannels_eq]
    exact maintains_forM (fun l => h.switchLine _ l _) _
  | route path channels =>
    intro m hm
    unfold after
    rw [Controller.perform, route_apply]
    cases m.oscillators.onPath? path with
    | none => exact ⟨hm, rfl⟩
    | some pair => exact (silent_forM (fun c => silent_retune c time _) channels).maintains m hm
  | selectEntry index => exact (silent_selectEntry index).maintains
  | transmit index => exact (silent_modify fun _ => rfl).maintains
  | startFilters => exact silent_startFilters.maintains
  | nothing => exact silent_pure.maintains

theorem Kept.and {Q : Core → Prop} (hp : Kept P time) (hq : Kept Q time) :
    Kept (fun k => P k ∧ Q k) time :=
  ⟨fun k l t st ht hk => ⟨hp.switch k l t st ht hk.1, hq.switch k l t st ht hk.2⟩,
    fun k h hk => ⟨hp.phases k h hk.1, hq.phases k h hk.2⟩⟩

theorem Kept.execute {c : Command} (h : ∀ k, P k → Kept P (k.register + c.time)) :
    Maintains P (execute c) := by
  intro m hm
  have hd : Maintains P (dispatch c (m.core.register + c.time)) := by
    unfold dispatch
    cases Action.ofMnemonic? c.mnemonic with
    | none => exact (silent_warn c _).maintains
    | some action => exact (h m.core hm).perform action
  unfold after
  rw [execute_eq]
  by_cases hc : m.cycle.isOn
  · rw [if_pos hc]
    by_cases hs : m.subcycles.isOn
    · rw [if_pos hs]
      exact hd m hm
    · rw [if_neg hs]
      exact ⟨hm, rfl⟩
  · rw [if_neg hc]
    exact ⟨hm, rfl⟩

end Kept

theorem kept_frame (f : Frame) (time : Float) : Kept (fun k => k.toFrame = f) time :=
  ⟨fun _ _ _ _ _ hk => hk, fun _ _ hk => hk⟩

theorem kept_bounded (hf : time.isFinite) (hz : ¬ time < 0) :
    Kept (fun k => ∀ l, (k.lines.get l).Bounded) time := by
  refine ⟨fun k l t st ht hk l' => ?_, fun _ _ hk => hk⟩
  rw [LineMap.get_set]
  by_cases hl : l' = l
  · rw [if_pos hl]
    exact (hk l).apply hf hz ht
  · rw [if_neg hl]
    exact hk l'

theorem execute_frame (c : Command) (m : Machine) :
    (after (execute c) m).frame = m.frame ∧ failsInterval (execute c m) = false :=
  Kept.execute (fun _ _ => kept_frame _ _) m rfl

/-- The end of a subcycle is refused, or its boundary is set and it may be recorded or not. -/
inductive Ending (f : Frame) (time : Float) : EStateM.Result ReplayError Machine Unit → Prop
  | refused {e : ProgramError} {m' : Machine} (h : m'.frame = f) :
      Ending f time (.error (.program e) m')
  | unrecorded {fault : IntervalFault} {m' : Machine} {since : Float}
      (begun : f.subcycles.bounds.openedAt = some since)
      (h : m'.frame = { f with subcycles :=
        ⟨⟨f.subcycles.bounds.closed.push (since, time), none⟩, f.subcycles.snapshots⟩ }) :
      Ending f time (.error (.interval fault) m')
  | recorded {m' : Machine} {since : Float} {s : Snapshot Line}
      (begun : f.subcycles.bounds.openedAt = some since) (index : s.index = f.subcycles.count)
      (ends : s.interval.ends = (since, time))
      (h : m'.frame = { f with subcycles :=
        ⟨⟨f.subcycles.bounds.closed.push (since, time), none⟩, f.subcycles.snapshots.push s⟩ })
      (lines : m'.lines = LineMap.replicate {}) : Ending f time (.ok () m')

theorem recordSubcycle_ending (time : Float) (pos : Position) (m : Machine) :
    Ending m.frame time (recordSubcycle time pos m) := by
  unfold recordSubcycle
  rcases Subcycles.close_cases Line.name time pos m.streams m.subcycles with
    ⟨e, h⟩ | ⟨since, hb, -, ⟨fault, -, h⟩ | ⟨s, hs, h⟩⟩ <;> rw [h]
  · exact .refused rfl
  · exact .unrecorded hb rfl
  · obtain ⟨hindex, hends, -⟩ := Subcycles.snapshot_eq_ok_iff.1 hs
    exact .recorded hb hindex hends rfl rfl

theorem endSubcycle_ending (time : Float) (pos : Position) (m : Machine) :
    Ending m.frame time (endSubcycle time pos m) := by
  rw [endSubcycle_eq]
  obtain ⟨hf, hi⟩ := maintains_forM
    (fun l => (kept_frame m.frame time).switchLine l.closing l pos) [Line.phase .deg0,
      .phase .deg180]
    m rfl
  unfold after at hf
  cases h : [Line.phase .deg0, .phase .deg180].forM (fun l =>
    switchLine l.closing l time pos) m with
  | ok u m₁ =>
    rw [h] at hf
    rw [bind_of_ok h, ← show m₁.frame = m.frame from hf]
    exact recordSubcycle_ending time pos m₁
  | error e m₁ =>
    rw [h] at hf hi
    rw [bind_of_error h]
    cases e with
    | program e => exact .refused hf
    | interval fault => cases hi

/-- A step from a machine finds times that make intervals and leaves the lines bounded. -/
def Calm (x : Replay Unit) (m : Machine) : Prop :=
  failsInterval (x m) = false ∧ ∀ l, ((after x m).lines.get l).Bounded

theorem calm_of_eq {x y : Replay Unit} (h : x m = y m') (hy : Calm y m') : Calm x m := by
  unfold Calm after at *
  rw [h]
  exact hy

theorem calm_of_ok {x : Replay Unit} (h : x m = .ok () m') (hm : ∀ l, (m'.lines.get l).Bounded) :
    Calm x m := by
  unfold Calm
  rw [after_of_ok h, h]
  exact ⟨rfl, hm⟩

theorem calm_of_error {x : Replay Unit} {e : ProgramError} (h : x m = .error (.program e) m')
    (hm : ∀ l, (m'.lines.get l).Bounded) : Calm x m := by
  unfold Calm
  rw [after_of_error h, h]
  exact ⟨rfl, hm⟩

theorem Calm.bind {x y : Replay Unit} (hx : Calm x m)
    (hy : ∀ m₁, x m = .ok () m₁ → (∀ l, (m₁.lines.get l).Bounded) → Calm y m₁) :
    Calm (x >>= fun _ => y) m := by
  obtain ⟨hi, hm⟩ := hx
  cases h : x m with
  | ok u m₁ =>
    rw [after_of_ok h] at hm
    exact calm_of_eq (bind_of_ok h) (hy m₁ h hm)
  | error e m₁ =>
    rw [after_of_error h] at hm
    rw [h] at hi
    cases e with
    | program e => exact calm_of_error (bind_of_error h) hm
    | interval fault => cases hi

theorem reopened_bounded (h : PhaseHistory) (hf : time.isFinite) (hz : ¬ time < 0) (l : Line) :
    ((h.reopened time).get l).Bounded := by
  rw [PhaseHistory.reopened]
  cases h.at? time with
  | none =>
    rw [LineMap.get_replicate]
    exact Stream.bounded_new
  | some p =>
    rw [LineMap.get_set, LineMap.get_replicate]
    split_ifs
    · exact Stream.bounded_new.apply hf hz (Toggle.apply_on_eq_ok.2 ⟨rfl, rfl⟩)
    · exact Stream.bounded_new

theorem recordSubcycle_calm (hm : ∀ l, (m.lines.get l).Bounded)
    (hb : ∀ since ∈ m.subcycles.bounds.openedAt, since.isFinite ∧ ¬ since < 0)
    (hf : time.isFinite) :
    Calm (recordSubcycle time pos) m := by
  unfold Calm after recordSubcycle
  rcases Subcycles.close_cases Line.name time pos m.streams m.subcycles with
    ⟨e, h⟩ | ⟨since, ho, ht, ⟨fault, hs, h⟩ | ⟨s, -, h⟩⟩ <;> rw [h]
  · exact ⟨rfl, hm⟩
  -- bounded lines make a snapshot, so that one fails cannot be
  · obtain ⟨hsf, hsz⟩ := hb since ho
    obtain ⟨streams, hstreams⟩ : ∃ streams, Subcycles.periodsOf m.streams = .ok streams :=
      Subcycles.exists_periodsOf_iff.2 fun l _ => (hm l).closed
    have hok : Subcycles.snapshot m.subcycles.count since time m.streams =
        .ok ⟨m.subcycles.count, ⟨since, time, hsf, hf, hsz, ht⟩, streams⟩ :=
      Subcycles.snapshot_eq_ok_iff.2 ⟨rfl, rfl, hstreams⟩
    rw [hok] at hs
    cases hs
  · refine ⟨rfl, fun l => ?_⟩
    dsimp only
    rw [LineMap.get_replicate]
    exact Stream.bounded_new

theorem endSubcycle_calm (time : Float) (pos : Position) (hm : ∀ l, (m.lines.get l).Bounded)
    (hb : ∀ since ∈ m.subcycles.bounds.openedAt, since.isFinite ∧ ¬ since < 0)
    (hf : time.isFinite) (hz : ¬ time < 0) : Calm (endSubcycle time pos) m := by
  have hkept := (kept_frame m.frame time).and (kept_bounded hf hz)
  obtain ⟨⟨hframe, hlines⟩, hi⟩ := maintains_forM
    (fun l => hkept.switchLine l.closing l pos) [Line.phase .deg0, .phase .deg180] m ⟨rfl, hm⟩
  rw [endSubcycle_eq]
  refine Calm.bind ⟨hi, hlines⟩ fun m₁ h₁ hm₁ => recordSubcycle_calm hm₁ ?_ hf
  rw [after_of_ok h₁] at hframe
  rw [show m₁.subcycles = m.subcycles from congrArg Frame.subcycles hframe]
  exact hb

end RadarTimeline.Controller
