import RadarTimeline.Proofs.Controller.Chronology
import RadarTimeline.Proofs.Experiment.Assembly
import RadarTimeline.Proofs.Timing.PhaseInEffect

namespace RadarTimeline

open Controller

/-- A time of an interval before its end. -/
def Interval.Holds (a : Interval) (t : Float) : Prop := a.start ≤ t ∧ t < a.stop

/-- A stream is on at a time, as far as it is known; the open period lasts. -/
def Stream.Covers (s : Stream) (t : Float) : Prop :=
  (∃ p ∈ s.closed.toList, p.1 ≤ t ∧ t < p.2) ∨ ∃ since ∈ s.openedAt, since ≤ t

namespace Stream

variable {s : Stream} {time t : Float}

theorem stop_mem_moments {p : Float × Float} (hp : p ∈ s.closed.toList) : p.2 ∈ s.moments :=
  List.mem_append_left _ (List.mem_flatMap.2 ⟨p, hp, by simp⟩)

theorem opened_mem_moments {since : Float} (hs : since ∈ s.openedAt) : since ∈ s.moments :=
  List.mem_append_right _ (Option.mem_toList.2 hs)

theorem covers_iff_isOn (h : ∀ x ∈ s.moments, x ≤ t) : s.Covers t ↔ s.isOn := by
  constructor
  · rintro (⟨p, hp, -, hlt⟩ | ⟨since, hs, -⟩)
    · exact (Number.not_lt_of_le (h _ (stop_mem_moments hp)) hlt).elim
    · exact Option.isSome_iff_exists.2 ⟨since, hs⟩
  · intro hon
    obtain ⟨since, hs⟩ := Option.isSome_iff_exists.1 hon
    exact .inr ⟨since, hs, h _ (opened_mem_moments hs)⟩

theorem covers_push {since : Float} (ht : t < time) (ho : s.openedAt = some since) :
    (⟨s.closed.push (since, time), none⟩ : Stream).Covers t ↔ s.Covers t := by
  simp [Covers, ho, ht, or_and_right, exists_or]

theorem covers_open (ht : t < time) (ho : s.openedAt = none) :
    (⟨s.closed, some time⟩ : Stream).Covers t ↔ s.Covers t := by
  have hnot : ¬ time ≤ t := fun hle => Number.not_lt_of_le hle ht
  simp [Covers, ho, hnot]

/-- A switch changes nothing before its time. -/
theorem covers_iff_of_apply {s' : Stream} {g : Toggle} (h : g.apply time s = .ok s')
    (ht : t < time) : s'.Covers t ↔ s.Covers t := by
  cases g with
  | on =>
    obtain ⟨ho, rfl⟩ := Toggle.apply_on_eq_ok.1 h
    exact covers_open ht ho
  | off =>
    obtain ⟨since, ho, -, rfl⟩ := Toggle.apply_off_eq_ok.1 h
    exact covers_push ht ho
  | hold =>
    rcases Toggle.apply_hold_eq_ok.1 h with ⟨-, rfl⟩ | ⟨ho, rfl⟩
    · exact Iff.rfl
    · exact covers_open ht ho
  | release =>
    rcases Toggle.apply_release_eq_ok.1 h with ⟨-, rfl⟩ | ⟨since, ho, -, rfl⟩
    · exact Iff.rfl
    · exact covers_push ht ho
  | keep =>
    cases h
    exact Iff.rfl

theorem covers_of_off {periods : List Interval} (h : periods.map Interval.ends = s.closed.toList)
    (hoff : s.isOn = false) : (∃ a ∈ periods, a.Holds t) ↔ s.Covers t := by
  have ho : s.openedAt = none := by simpa [isOn] using hoff
  rw [Covers, ← h, ho]
  simp [Interval.Holds, Interval.ends]

end Stream

namespace Controller

variable {k k' : Core} {c : Command} {cs : List Command} {time since t : Float} {times : List Float}
  {lines : LineMap Stream} {s : Snapshot Line} {p : Phase}

/-- The times of a replay that ends are not after a finite one, so they can be compared. -/
theorem Steps.exists_resolved_le (h : Steps k cs k') (hk : k.Running) (hf : k'.finished = true)
    (hsorted : (resolved k.register cs).Pairwise (· ≤ ·)) :
    ∃ stop ∈ resolved k.register cs, ∀ x ∈ resolved k.register cs, x ≤ stop := by
  induction h with
  | nil k =>
    rw [hk.unfinished] at hf
    cases hf
  | @cons k k₁ k' c cs _ first rest ih =>
    -- a time in front of the others is not after the one that none of them is after
    have hcons : ∀ {x : Float} {xs : List Float}, (x :: xs).Pairwise (· ≤ ·) →
        (∃ stop ∈ xs, ∀ y ∈ xs, y ≤ stop) → ∃ stop ∈ x :: xs, ∀ y ∈ x :: xs, y ≤ stop := by
      rintro x xs hx ⟨stop, hstop, hle⟩
      refine ⟨stop, List.mem_cons_of_mem _ hstop, fun y hy => ?_⟩
      rcases List.mem_cons.1 hy with rfl | hy
      · exact (List.pairwise_cons.1 hx).1 stop hstop
      · exact hle y hy
    cases first with
    | act hs hr hp =>
      have hregister : k₁.register = k.register := congrArg (·.register) hp.rest
      have ih := ih (hp.running hk) hf
      rw [hregister] at ih
      rw [resolved, if_neg hs, if_neg hr] at hsorted ⊢
      cases ha : Action.ofMnemonic? c.mnemonic with
      | none =>
        rw [ha] at hsorted
        exact ih hsorted
      | some a =>
        rw [ha] at hsorted
        exact hcons hsorted (ih (List.pairwise_cons.1 hsorted).2)
    | reset hs ht =>
      rw [resolved, if_pos hs, if_neg ht] at hsorted ⊢
      exact ih ⟨hk.cycle, hk.subcycle, hk.unfinished⟩ hf hsorted
    | split hs ht hc =>
      rw [resolved, if_pos hs, if_pos ht] at hsorted ⊢
      exact hcons hsorted
        (ih ⟨hk.cycle, rfl, hk.unfinished⟩ hf (List.pairwise_cons.1 hsorted).2)
    | finish hr hcycle hb hc =>
      rw [resolved, if_neg (not_setTime_of_end hr), if_pos hr]
      cases rest with
      | cons running => exact absurd running.unfinished (by simp [Core.ended])
      | nil =>
        refine ⟨c.time, List.mem_cons_self, fun x hx => ?_⟩
        rw [List.mem_singleton.1 hx]
        exact Number.le_refl hc.time_finite

/-- The periods of a snapshot hold the times at which a history has their phase in effect. -/
def Agrees (h : PhaseHistory) (s : Snapshot Line) : Prop :=
  ∀ p t, s.interval.Holds t → ((∃ a ∈ s.periods (.phase p), a.Holds t) ↔ h.at? t = some p)

/-- The lines of the phases agree with the history, in the running subcycle for as long as it may
last and in those before it; the history has no event after a time that still comes. -/
structure Tracked (k : Core) (since : Float) (times : List Float) : Prop where
  orderly : Orderly k since times
  proper : ∀ x ∈ times, x ≤ x
  events : k.phases.Ordered
  reach : ∀ e ∈ k.phases.events, ∀ x ∈ times, e.time ≤ x
  running : ∀ p t, since ≤ t → ((k.lines.get (.phase p)).Covers t ↔ k.phases.at? t = some p)
  past : ∀ s ∈ k.subcycles.snapshots.toList, Agrees k.phases s

theorem Orderly.lt_of_holds (h : Orderly k since times) (hs : s ∈ k.subcycles.snapshots.toList)
    (ht : s.interval.Holds t) {x : Float} (hx : x ∈ times) : t < x := by
  have hsince : t < since := Number.lt_of_lt_of_le ht.2 (h.reach s hs)
  rcases h.lower with h0 | hl
  -- nothing is over as long as the first subcycle lasts
  · have hneg : s.interval.start < 0 := Number.lt_of_le_of_lt ht.1 (h0 ▸ hsince)
    exact (s.interval.valid.2.2.1 hneg).elim
  · exact Number.lt_of_lt_of_le hsince (hl (.gate .rf) x (List.mem_append_right _ hx))

theorem isOn_iff_of_toggle_phase {q : Phase} {st st' : Stream}
    (h : (Action.toggle (.phase p) (.phase q)).apply time st = .ok st') : st'.isOn ↔ p = q := by
  rw [Action.toggle] at h
  rw [Stream.isOn]
  by_cases hqp : q = p
  · rw [if_pos hqp] at h
    refine iff_of_true ?_ hqp.symm
    rcases Toggle.apply_hold_eq_ok.1 h with ⟨hon, rfl⟩ | ⟨-, rfl⟩
    · exact hon
    · rfl
  · rw [if_neg hqp] at h
    simp [(Toggle.closed_of_release h).1, Ne.symm hqp]

/-- A phase that is asked for at the time that comes next. -/
theorem Tracked.change (h : Tracked k since (time :: times)) (hk : Orderly k' since times)
    (hsub : k'.subcycles = k.subcycles) (hphases : k'.phases = k.phases.set time p)
    (hlines : ∀ q, (Action.toggle (.phase p) (.phase q)).apply time (k.lines.get (.phase q)) =
      .ok (k'.lines.get (.phase q))) : Tracked k' since times := by
  have htime : time ≤ time := h.proper time List.mem_cons_self
  have hlast : ∀ e ∈ k.phases.events, e.time ≤ time :=
    fun e he => h.reach e he time List.mem_cons_self
  have hsorted := (h.orderly.lines (.gate .rf)).sublist (List.sublist_append_right _ _)
  refine ⟨hk, fun x hx => h.proper x (List.mem_cons_of_mem _ hx), ?_, fun e he x hx => ?_,
    fun q t ht => ?_, fun s hs q t ht => ?_⟩
  · rw [hphases]
    exact h.events.set hlast htime
  · rw [hphases, PhaseHistory.events_set hlast] at he
    rcases List.mem_append.1 he with he | he
    · exact h.reach e he x (List.mem_cons_of_mem _ hx)
    · rw [List.mem_singleton.1 he]
      exact (List.pairwise_cons.1 hsorted).1 x hx
  · have hq := hlines q
    rcases Number.le_or_lt htime (Number.le_self_of_le_right ht) with hle | hlt
    · have hmoments : ∀ x ∈ (k'.lines.get (.phase q)).moments, x ≤ t := by
        intro x hx
        have hmem := (Toggle.moments_sublist [] hq).subset (List.mem_append_left _ hx)
        refine Number.le_trans ?_ hle
        rcases List.mem_append.1 hmem with hx | hx
        · exact (List.pairwise_append.1 (h.orderly.lines (.phase q))).2.2 x hx time
            List.mem_cons_self
        · rw [List.mem_singleton.1 hx]
          exact htime
      rw [Stream.covers_iff_isOn hmoments, hphases, h.events.at?_set_of_le hlast hle,
        Option.some_inj]
      exact isOn_iff_of_toggle_phase hq
    · rw [Stream.covers_iff_of_apply hq hlt, hphases, h.events.at?_set_of_lt hlast htime hlt]
      exact h.running q t ht
  · rw [hsub] at hs
    rw [hphases, h.events.at?_set_of_lt hlast htime
      (h.orderly.lt_of_holds hs ht List.mem_cons_self)]
    exact h.past s hs q t ht

theorem Tracked.keep {times' : List Float} (h : Tracked k since times')
    (hk : Orderly k' since times)
    (htimes : ∀ x ∈ times, x ∈ times') (hsub : k'.subcycles = k.subcycles)
    (hphases : k'.phases = k.phases)
    (hlines : ∀ q, k'.lines.get (.phase q) = k.lines.get (.phase q)) : Tracked k' since times := by
  refine ⟨hk, fun x hx => h.proper x (htimes x hx), ?_, fun e he x hx => ?_, fun q => ?_, ?_⟩
  · rw [hphases]
    exact h.events
  · rw [hphases] at he
    exact h.reach e he x (htimes x hx)
  · rw [hlines q, hphases]
    exact h.running q
  · rw [hsub, hphases]
    exact h.past

theorem Tracked.act (h : Tracked k since (resolved k.register (c :: cs)))
    (hs : c.mnemonic ≠ "SETTCR")
    (hr : c.mnemonic ≠ "REP") (hp : Performs c.action (k.register + c.time) k k') :
    Tracked k' since (resolved k'.register cs) := by
  have hk := h.orderly.act hs hr hp
  have hsub : k'.subcycles = k.subcycles := congrArg (·.subcycles) hp.rest
  have hregister : k'.register = k.register := congrArg (·.register) hp.rest
  have hphases : k'.phases = c.action.history (k.register + c.time) k.phases :=
    congrArg (·.phases) hp.rest
  have hlines := hp.lines
  rw [hregister] at hk ⊢
  rw [resolved, if_neg hs, if_neg hr] at h
  rw [Command.action] at hphases hlines
  cases ha : Action.ofMnemonic? c.mnemonic with
  | none =>
    rw [ha] at h hphases hlines
    exact h.keep hk (fun x hx => hx) hsub hphases fun q => (Except.ok.inj (hlines (.phase q))).symm
  | some a =>
    rw [ha] at h hphases hlines
    by_cases hphase : ∃ p, a = .phase p
    · obtain ⟨p, rfl⟩ := hphase
      exact h.change hk hsub hphases fun q => hlines (.phase q)
    · refine h.keep hk (fun x hx => List.mem_cons_of_mem _ hx) hsub ?_ fun q => ?_
      · cases a with
        | phase p => exact (hphase ⟨p, rfl⟩).elim
        | _ => exact hphases
      · have hq := hlines (.phase q)
        cases a with
        | phase p => exact (hphase ⟨p, rfl⟩).elim
        | _ => exact (Except.ok.inj hq).symm

theorem Tracked.agrees (h : Tracked k since times) (hc : Closes k time since lines s) :
    Agrees k.phases s := by
  obtain ⟨hstart, hstop⟩ := Prod.mk.inj hc.ends
  rintro p t ⟨hle, hlt⟩
  rw [hstart] at hle
  rw [hstop] at hlt
  rw [Stream.covers_of_off (hc.periods _) (hc.off _),
    Stream.covers_iff_of_apply (hc.released _) hlt]
  exact h.running p t hle

theorem Tracked.agrees_push (h : Tracked k since times) (hc : Closes k time since lines s) :
    ∀ s' ∈ (k.subcycles.snapshots.push s).toList, Agrees k.phases s' := by
  intro s' hs'
  rw [Array.toList_push] at hs'
  rcases List.mem_append.1 hs' with hs' | hs'
  · exact h.past s' hs'
  · rw [List.mem_singleton.1 hs']
    exact h.agrees hc

theorem Tracked.split (h : Tracked k since (time :: times)) (hc : Closes k time since lines s) :
    Tracked ((k.closed time since s).opened time) time times := by
  have htime : time ≤ time := h.proper time List.mem_cons_self
  have hlast : ∀ e ∈ k.phases.events, e.time ≤ time :=
    fun e he => h.reach e he time List.mem_cons_self
  refine ⟨h.orderly.split hc, fun x hx => h.proper x (List.mem_cons_of_mem _ hx), h.events,
    fun e he x hx => h.reach e he x (List.mem_cons_of_mem _ hx), fun q t ht => ?_,
    h.agrees_push hc⟩
  change ((k.phases.reopened time).get (.phase q)).Covers t ↔ k.phases.at? t = some q
  have hmoments : ∀ x ∈ ((k.phases.reopened time).get (.phase q)).moments, x ≤ t := by
    intro x hx
    rw [List.mem_singleton.1 ((reopened_moments k.phases time (.phase q)).subset hx)]
    exact ht
  rw [Stream.covers_iff_isOn hmoments, h.events.at?_eq_of_le hlast ht, PhaseHistory.reopened,
    Stream.isOn]
  cases k.phases.at? time with
  | none => simp [LineMap.get_replicate]
  | some p =>
    rw [LineMap.get_set, LineMap.get_replicate]
    by_cases hqp : q = p
    · simp [hqp]
    · simp [hqp, Ne.symm hqp]

theorem Tracked.steps (h : Tracked k since (resolved k.register cs)) (hk : k.Running)
    (hs : Steps k cs k') (hf : k'.finished = true) :
    k'.phases.Ordered ∧ ∀ s ∈ k'.subcycles.snapshots.toList, Agrees k'.phases s := by
  induction hs generalizing since with
  | nil k =>
    rw [hk.unfinished] at hf
    cases hf
  | @cons k k₁ k' c cs _ first rest ih =>
    cases first with
    | act hs hr hp => exact ih (h.act hs hr hp) (hp.running hk) hf
    | reset hs ht =>
      rw [resolved, if_pos hs, if_neg ht] at h
      exact ih (h.keep (h.orderly.switch rfl rfl fun _ => List.Sublist.refl _)
        (fun _ hx => hx) rfl rfl
        fun _ => rfl) ⟨hk.cycle, hk.subcycle, hk.unfinished⟩ hf
    | split hs ht hc =>
      rw [resolved, if_pos hs, if_pos ht] at h
      obtain rfl := Option.some.inj (h.orderly.begun.symm.trans hc.running)
      exact ih (h.split hc) ⟨hk.cycle, rfl, hk.unfinished⟩ hf
    | finish hr hcycle hb hc =>
      obtain rfl := Option.some.inj (h.orderly.begun.symm.trans hc.running)
      cases rest with
      | cons running => exact absurd running.unfinished (by simp [Core.ended])
      | nil => exact ⟨h.events, h.agrees_push hc⟩

theorem tracked_begun {o : Oscillators} (h : (resolved 0 cs).Pairwise (· ≤ ·))
    (hproper : ∀ x ∈ resolved 0 cs, x ≤ x) : Tracked (Core.begun o) 0 (resolved 0 cs) := by
  refine ⟨orderly_begun h, hproper,
    PhaseHistory.ordered_new, by simp [Core.begun, PhaseHistory.events],
    fun p t _ => ?_, by simp [Core.begun]⟩
  simp [Core.begun, LineMap.get_replicate, Stream.Covers, PhaseHistory.at?, PhaseHistory.events]

end Controller

/-- A program whose times never decrease. In a subcycle of its experiment the transmitter is said to
hold a phase at a time exactly if that phase is in effect, be it by the history of the whole cycle
or by the events of the subcycle; no two phases are held at once, and none is before the first
event. -/
theorem held_iff_in_effect {o : Oscillators} {tables : Channel → Option (List Float)}
    {cs : List Command} {m : Machine} (source : Source)
    (h : run cs (Machine.initial o tables) = .ok () m) (ht : (resolved 0 cs).IsChain (· ≤ ·)) :
    (∀ fault, Experiment.ofMachine source m = .error fault → fault = .endless ∧ m.Unmeasurable) ∧
    ∀ e, Experiment.ofMachine source m = .ok e →
      m.subcycles.snapshots.toList.mapM (SubcycleTimeline.assemble m) = .ok e.subcycles ∧
      ∀ sub ∈ e.subcycles, ∀ t, sub.interval.Holds t →
        (∀ p, (∃ a ∈ sub.held p, a.Holds t) ↔ m.phases.at? t = some p) ∧
        PhaseHistory.lastBy sub.phaseShifts t = m.phases.at? t ∧
        (m.phases.at? t = none → ∀ p, ∀ a ∈ sub.held p, ¬ a.Holds t) ∧
        ¬ ((∃ a ∈ sub.held .deg0, a.Holds t) ∧ ∃ a ∈ sub.held .deg180, a.Holds t) := by
  obtain ⟨hs, last, hl, hr⟩ := run_iff.1 ⟨m, h, rfl⟩
  have hf := hs.finished hl hr
  have hrun : (Core.begun o).Running := ⟨rfl, rfl, rfl⟩
  have : IsTrans Float (· ≤ ·) := ⟨fun _ _ _ => Number.le_trans⟩
  have hsorted := List.isChain_iff_pairwise.1 ht
  have hvalid := ((orderly_begun hsorted).steps hrun hs hf).2
  obtain ⟨stop, -, hstop⟩ := hs.exists_resolved_le hrun hf hsorted
  obtain ⟨hordered, hagree⟩ :=
    (tracked_begun hsorted fun x hx => Number.le_self_of_le_left (hstop x hx)).steps hrun hs hf
  refine ⟨fun _ => Experiment.eq_endless_of_ofMachine hf hvalid, fun e he =>
    ⟨Experiment.mapM_of_ofMachine he, fun sub hsub t hin => ?_⟩⟩
  obtain ⟨s, hs, bauds, rfl⟩ := Experiment.exists_snapshot_of_mem he hsub
  have hiff : ∀ p, (∃ a ∈ s.periods (.phase p), a.Holds t) ↔ m.phases.at? t = some p :=
    fun p => hagree s hs p t hin
  refine ⟨hiff, hordered.lastBy_within hin.1 (Number.le_of_lt hin.2), fun hnone p a ha hold => ?_,
    fun ⟨h0, h180⟩ => ?_⟩
  · have hp := (hiff p).1 ⟨a, ha, hold⟩
    rw [hnone] at hp
    cases hp
  · have hp := ((hiff .deg0).1 h0).symm.trans ((hiff .deg180).1 h180)
    cases hp

/-- A phase asked for twice, two at one time, and one at a boundary that the subcycle before it
still takes up. -/
def phasesAtBoundary : List Command :=
  [⟨1, "PHA0", 1⟩, ⟨2, "PHA180", 2⟩, ⟨2, "PHA0", 2⟩, ⟨3, "PHA0", 3⟩, ⟨4, "PHA180", 4⟩,
    ⟨4, "SETTCR", 5⟩, ⟨0, "PHA0", 6⟩, ⟨1, "PHA180", 7⟩, ⟨6, "REP", 8⟩]

theorem held_phasesAtBoundary :
    (resolved 0 phasesAtBoundary).IsChain (· ≤ ·) ∧
      ∃ m e, run phasesAtBoundary (Machine.initial ⟨[some 812], [some 128]⟩ fun _ => none) =
        .ok () m ∧
        Experiment.ofMachine { name := "phases", site := .uhf } m = .ok e ∧
        ∃ sub ∈ e.subcycles, sub.interval.Holds 4.5 ∧ m.phases.at? 4.5 = some .deg0 ∧
          (∃ a ∈ sub.held .deg0, a.Holds 4.5) ∧ ¬ ∃ a ∈ sub.held .deg180, a.Holds 4.5 := by
  have ht : (resolved 0 phasesAtBoundary).IsChain (· ≤ ·) := by decide +kernel
  obtain ⟨m, h⟩ : ∃ m, run phasesAtBoundary
      (Machine.initial ⟨[some 812], [some 128]⟩ fun _ => none) = .ok () m :=
    exists_ok (by decide +kernel)
  have hlast : after (run phasesAtBoundary)
      (Machine.initial ⟨[some 812], [some 128]⟩ fun _ => none) = m :=
    after_of_ok h
  have hphase : m.phases.at? 4.5 = some .deg0 := by
    rw [← hlast]
    decide +kernel
  have hsecond : ∃ s ∈ m.subcycles.snapshots.toList,
      s.interval.start ≤ 4.5 ∧ 4.5 < s.interval.stop := by
    rw [← hlast]
    decide +kernel
  have hok : (Experiment.ofMachine { name := "phases", site := .uhf } m).isOk = true := by
    rw [← hlast]
    decide +kernel
  obtain ⟨e, he⟩ := Experiment.exists_of_isOk hok
  obtain ⟨-, hheld⟩ := held_iff_in_effect { name := "phases", site := .uhf } h ht
  obtain ⟨s, hs, hin⟩ := hsecond
  obtain ⟨sub, hsub, bauds, rfl⟩ := Experiment.exists_subcycle_of_mem he hs
  obtain ⟨hiff, -, -, hone⟩ := (hheld e he).2 _ hsub 4.5 hin
  have hzero := (hiff .deg0).2 hphase
  exact ⟨ht, m, e, h, he, _, hsub, hin, hphase, hzero, fun h180 => hone ⟨hzero, h180⟩⟩

end RadarTimeline
