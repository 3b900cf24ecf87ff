import RadarTimeline.Proofs.Controller.AnyCalls
import RadarTimeline.Proofs.Experiment.Assembly

namespace RadarTimeline

open Controller (Call Machine Request requested series_requested ended_requested)

variable {m : Machine}

/-- A channel has its own entry among those of channels. -/
theorem lookup_filterMap {α : Type} (f : Channel → Option α) {channels : List Channel}
    {ch : Channel} (hch : ch ∈ channels) :
    (channels.filterMap fun c => (f c).map (c, ·)).lookup ch = f ch := by
  induction channels with
  | nil => cases hch
  | cons c channels ih =>
    have hrest : ch ≠ c → (channels.filterMap fun c => (f c).map (c, ·)).lookup ch = f ch :=
      fun hne => ih ((List.mem_cons.1 hch).resolve_left hne)
    by_cases he : ch = c
    · subst he
      cases hf : f ch with
      | some a =>
        rw [List.filterMap_cons_some (by rw [hf]; rfl), List.lookup_cons_self]
      | none =>
        rw [List.filterMap_cons_none (by rw [hf]; rfl)]
        refine List.lookup_eq_none_iff.2 fun entry hmem => ?_
        obtain ⟨c', -, h⟩ := List.mem_filterMap.1 hmem
        obtain ⟨a, ha, rfl⟩ := Option.map_eq_some_iff.1 h
        -- another entry of the same channel would have a value
        have hne : ch ≠ c' := by
          rintro rfl
          rw [hf] at ha
          cases ha
        simpa using hne
    · cases hf : f c with
      | none => rw [List.filterMap_cons_none (by rw [hf]; rfl), hrest he]
      | some a =>
        have hne : (ch == c) = false := by simpa using he
        rw [List.filterMap_cons_some (by rw [hf]; rfl), List.lookup_cons, hne]
        exact hrest he

theorem frequencies_lookup (m : Machine) (s : Controller.Snapshot Line)
    (bauds : List (Option Float)) (ch : Channel) :
    (SubcycleTimeline.ofSnapshot m s bauds).frequencies.lookup ch =
      (m.series.get ch).inside? s.interval :=
  lookup_filterMap (fun c => (m.series.get c).inside? s.interval) (Controller.channel_mem_all ch)

variable {o : Oscillators} {tables : Channel → Option (List Float)} {requests : List Request}

/-- However a controller has been brought to its end, nothing but a code whose unit is never found
keeps it from making an experiment. In each subcycle a channel is left out exactly if no frequency
is in effect at the start and none is recorded before the end; a channel that has one in effect at
the start has its window. If nothing was recorded for the channel at `NaN`, then at each time of the
subcycle it has the frequency that the controller has. -/
theorem experiment_frequencies (source : Source)
    (hm : requested (Machine.initial o tables) requests = m) (hf : m.finished = true) :
    (∀ fault, Experiment.ofMachine source m = .error fault → fault = .endless ∧ m.Unmeasurable) ∧
    ∀ e, Experiment.ofMachine source m = .ok e →
      e.subcycles.map (·.interval) = m.subcycles.snapshots.toList.map (·.interval) ∧
      ∀ timing ∈ e.subcycles, ∀ ch,
        (timing.frequencies.lookup ch = none ↔
          (m.series.get ch).at? timing.interval.start = none ∧
            ∀ p ∈ (m.series.get ch).points.toList,
              ¬ (timing.interval.start ≤ p.time ∧ p.time < timing.interval.stop)) ∧
        (((m.series.get ch).at? timing.interval.start).isSome →
          ((m.series.get ch).within? timing.interval).isSome) ∧
        ((∀ p ∈ (m.series.get ch).points.toList, p.time ≤ p.time) →
          ∀ time, timing.interval.start ≤ time → time < timing.interval.stop →
            (timing.frequencies.lookup ch).bind (·.at? time) = (m.series.get ch).at? time) := by
  have hended : m.Ended := hm ▸ ended_requested o tables requests
  refine ⟨fun _ => Experiment.eq_endless_of_ofMachine hf (hended hf), fun e he =>
    ⟨Experiment.map_subcycles_of_ofMachine (fun _ _ => rfl) he, fun timing hmem ch => ?_⟩⟩
  obtain ⟨s, -, bauds, rfl⟩ := Experiment.exists_snapshot_of_mem he hmem
  rw [frequencies_lookup]
  refine ⟨FrequencyHistory.inside?_eq_none_iff _ _, fun hat => ?_,
    fun hproper time hstart hstop => ?_⟩
  · rw [FrequencyHistory.within?_isSome]
    exact hat
  · obtain ⟨records, hrecords⟩ := series_requested o tables requests ch
    rw [hm] at hrecords
    have hascending : FrequencyHistory.Ascending (m.series.get ch).points.toList := by
      rw [hrecords] at hproper ⊢
      exact (FrequencyHistory.ofPoints_holds records hproper).ascending
    exact FrequencyHistory.inside?_at? hascending s.interval hstart hstop

def selectingTwice : List Controller.Command :=
  [⟨0, "AD1L", 1⟩, ⟨1, "NCOSEL0", 2⟩, ⟨4, "SETTCR", 3⟩, ⟨2, "NCOSEL1", 4⟩, ⟨8, "REP", 5⟩]

theorem experiment_frequencies_selectingTwice :
    ∃ m e, requested (Machine.initial ⟨[some 812], [some 128]⟩ fun _ => some [10, 20])
        [.program selectingTwice] = m ∧
      m.finished = true ∧ (∀ p ∈ (m.series.get 0).points.toList, p.time ≤ p.time) ∧
      ((m.series.get 0).at? 5 == some 930 && (m.series.get 0).at? 7 == some 920) = true ∧
      Experiment.ofMachine { name := "twice", site := .uhf } m = .ok e ∧
      ∀ timing ∈ e.subcycles, ∀ time, timing.interval.start ≤ time → time < timing.interval.stop →
        (timing.frequencies.lookup 0).bind (·.at? time) = (m.series.get 0).at? time := by
  obtain ⟨m, hm⟩ : ∃ m, requested (Machine.initial ⟨[some 812], [some 128]⟩ fun _ => some [10, 20])
    [.program selectingTwice] = m := ⟨_, rfl⟩
  have hf : m.finished = true := by
    rw [← hm]
    decide +kernel
  have hproper : ∀ p ∈ (m.series.get 0).points.toList, p.time ≤ p.time := by
    rw [← hm]
    decide +kernel
  have hat : ((m.series.get 0).at? 5 == some 930 && (m.series.get 0).at? 7 == some 920) = true := by
    rw [← hm]
    decide +kernel
  have hok : (Experiment.ofMachine { name := "twice", site := .uhf } m).isOk = true := by
    rw [← hm]
    decide +kernel
  obtain ⟨e, he⟩ := Experiment.exists_of_isOk hok
  obtain ⟨-, hall⟩ := (experiment_frequencies { name := "twice", site := .uhf } hm hf).2 e he
  exact ⟨m, e, hm, hf, hproper, hat, he, fun timing hmem => (hall timing hmem 0).2.2 hproper⟩

/-- Two selections at `NaN` hide from bisection what was recorded for a time that is a number, but
not from the subcycle. -/
def selectingAtNaN : List Call :=
  [.step ⟨0, "AD1L", 1⟩, .step ⟨5, "NCOSEL0", 2⟩, .step ⟨0 / 0, "NCOSEL0", 3⟩,
    .step ⟨0 / 0, "NCOSEL0", 4⟩, .step ⟨10, "REP", 5⟩]

theorem frequencies_differ_at_NaN :
    ∃ m e timing, requested (Machine.initial ⟨[some 812], [some 128]⟩ fun _ => some [10])
        (selectingAtNaN.map .call) = m ∧
      m.finished = true ∧ Experiment.ofMachine { name := "hidden", site := .uhf } m = .ok e ∧
      timing ∈ e.subcycles ∧ timing.interval.start ≤ 6 ∧ 6 < timing.interval.stop ∧
      (m.series.get 0).at? 6 = none ∧
      ((timing.frequencies.lookup 0).bind (·.at? 6) == some 930) = true := by
  obtain ⟨m, hm⟩ : ∃ m, requested (Machine.initial ⟨[some 812], [some 128]⟩ fun _ => some [10])
    (selectingAtNaN.map .call) = m := ⟨_, rfl⟩
  have hf : m.finished = true := by
    rw [← hm]
    decide +kernel
  have hok : (Experiment.ofMachine { name := "hidden", site := .uhf } m).isOk = true := by
    rw [← hm]
    decide +kernel
  obtain ⟨e, he⟩ := Experiment.exists_of_isOk hok
  have hat : ((m.series.get 0).at? 6).isNone = true := by
    rw [← hm]
    decide +kernel
  have hone : m.subcycles.snapshots.toList.any (fun s =>
      decide (s.interval.start ≤ 6) && decide (6 < s.interval.stop) &&
        (((m.series.get 0).inside? s.interval).bind (·.at? 6) == some 930)) = true := by
    rw [← hm]
    decide +kernel
  obtain ⟨s, hs, h⟩ := List.any_eq_true.1 hone
  simp only [Bool.and_eq_true, decide_eq_true_eq] at h
  obtain ⟨timing, hmem, bauds, rfl⟩ := Experiment.exists_subcycle_of_mem he hs
  refine ⟨m, e, _, hm, hf, he, hmem, h.1.1, h.1.2, Option.isNone_iff_eq_none.1 hat, ?_⟩
  rw [frequencies_lookup]
  exact h.2

end RadarTimeline
