import RadarTimeline.Experiment.Timeline
import RadarTimeline.Proofs.Timing.BaudLength
import RadarTimeline.Proofs.Timing.Toggle

namespace RadarTimeline

open Controller (Machine Snapshot)
open PhaseHistory (Endless)

variable {m : Machine} {s : Snapshot Line} {sub : SubcycleTimeline} {source : Source}
    {e : Experiment}

theorem mapM_endless_iff {α β : Type} {f : α → Except Endless β} {l : List α} :
    l.mapM f = .error ⟨⟩ ↔ ∃ a ∈ l, f a = .error ⟨⟩ := by
  induction l with
  | nil => simp [pure, Except.pure]
  | cons a l ih =>
    rw [List.mapM_cons, List.exists_mem_cons_iff, ← ih]
    cases f a <;> cases l.mapM f <;> simp [bind, Except.bind, pure, Except.pure]

/-- The controller has sent a code whose unit is never found. -/
def Controller.Machine.Unmeasurable (m : Machine) : Prop :=
  ∃ s ∈ m.subcycles.snapshots.toList, ∃ a ∈ s.periods (.gate .rf), m.phases.Unmeasurable a

namespace SubcycleTimeline

theorem eq_ofSnapshot_of_assemble (h : assemble m s = .ok sub) :
    ∃ bauds, sub = ofSnapshot m s bauds := by
  obtain ⟨bauds, -, hsub⟩ := bind_eq_ok_iff.1 h
  exact ⟨bauds, (Except.ok.inj hsub).symm⟩

theorem assemble_endless_iff :
    assemble m s = .error ⟨⟩ ↔
      ∃ a ∈ s.periods (.gate .rf), m.phases.Unmeasurable a := by
  simp only [← PhaseHistory.baudLength_endless_iff]
  rw [← mapM_endless_iff, assemble]
  cases (s.periods (.gate .rf)).mapM m.phases.baudLength <;>
    simp [bind, Except.bind, pure, Except.pure]

end SubcycleTimeline

namespace Experiment

theorem mapM_of_ofMachine (h : ofMachine source m = .ok e) :
    m.subcycles.snapshots.toList.mapM (SubcycleTimeline.assemble m) = .ok e.subcycles := by
  unfold ofMachine at h
  split at h
  · cases h
  · split at h
    · cases h
    · split at h
      · cases h
      · next hmap =>
        cases h
        exact hmap

theorem subcycles_of_ofMachine (h : ofMachine source m = .ok e) :
    List.Forall₂ (fun s sub => ∃ bauds, sub = SubcycleTimeline.ofSnapshot m s bauds)
      m.subcycles.snapshots.toList e.subcycles :=
  (mapM_eq_ok_iff.1 (mapM_of_ofMachine h)).imp fun _ _ =>
    SubcycleTimeline.eq_ofSnapshot_of_assemble

theorem map_subcycles_of_ofMachine {α : Type} {f : SubcycleTimeline → α} {g : Snapshot Line → α}
    (hfg : ∀ s bauds, f (.ofSnapshot m s bauds) = g s) (h : ofMachine source m = .ok e) :
    e.subcycles.map f = m.subcycles.snapshots.toList.map g := by
  rw [eq_comm, ← List.forall₂_eq_eq_eq, List.forall₂_map_left_iff, List.forall₂_map_right_iff]
  refine (subcycles_of_ofMachine h).imp ?_
  rintro s sub ⟨bauds, rfl⟩
  exact (hfg s bauds).symm

theorem exists_snapshot_of_mem (h : ofMachine source m = .ok e) (hsub : sub ∈ e.subcycles) :
    ∃ s ∈ m.subcycles.snapshots.toList, ∃ bauds, sub = SubcycleTimeline.ofSnapshot m s bauds := by
  obtain ⟨hlength, hget⟩ := List.forall₂_iff_get.1 (subcycles_of_ofMachine h)
  obtain ⟨i, hi, rfl⟩ := List.mem_iff_getElem.1 hsub
  exact ⟨_, List.getElem_mem (hlength ▸ hi), hget i (hlength ▸ hi) hi⟩

theorem exists_subcycle_of_mem (h : ofMachine source m = .ok e)
    (hs : s ∈ m.subcycles.snapshots.toList) :
    ∃ sub ∈ e.subcycles, ∃ bauds, sub = SubcycleTimeline.ofSnapshot m s bauds := by
  obtain ⟨hlength, hget⟩ := List.forall₂_iff_get.1 (subcycles_of_ofMachine h)
  obtain ⟨i, hi, rfl⟩ := List.mem_iff_getElem.1 hs
  exact ⟨_, List.getElem_mem (hlength ▸ hi), hget i hi (hlength ▸ hi)⟩

/-- A finished replay makes an experiment, unless it transmits a code whose unit is never found. -/
theorem ofMachine_of_finished (source : Source) (hf : m.finished = true)
    (hv : Interval.Valid 0 m.endTime) :
    (∃ e, ofMachine source m = .ok e) ∨
      ofMachine source m = .error .endless ∧ m.Unmeasurable := by
  have hmake : Interval.make 0 m.endTime = .ok ⟨0, m.endTime, hv⟩ :=
    Interval.make_eq_ok_iff.2 ⟨rfl, rfl⟩
  rw [ofMachine, hf, hmake]
  cases hmap : m.subcycles.snapshots.toList.mapM (SubcycleTimeline.assemble m) with
  | error =>
    obtain ⟨s, hs, hendless⟩ := mapM_endless_iff.1 hmap
    exact .inr ⟨rfl, s, hs, SubcycleTimeline.assemble_endless_iff.1 hendless⟩
  | ok subcycles => exact .inl ⟨_, rfl⟩

example :
    (match Controller.run [⟨0, "RFON", 1⟩, ⟨0, "PHA0", 1⟩, ⟨1e-6, "PHA180", 2⟩, ⟨1e302, "PHA0", 3⟩,
        ⟨1e302, "RFOFF", 3⟩, ⟨1e302, "REP", 4⟩]
        (Machine.initial ⟨[some 812], [some 128]⟩ fun _ => none) with
    | .ok _ m => (ofMachine { name := "distant", site := .uhf } m matches .error .endless)
    | .error _ _ => false) = true := by
  decide +kernel

theorem eq_endless_of_ofMachine (hf : m.finished = true) (hv : Interval.Valid 0 m.endTime)
    {fault : AssemblyFault} (h : ofMachine source m = .error fault) :
    fault = .endless ∧ m.Unmeasurable := by
  rcases ofMachine_of_finished source hf hv with ⟨e, he⟩ | ⟨hendless, hcode⟩
  · rw [he] at h
    cases h
  · rw [hendless] at h
    exact ⟨(Except.error.inj h).symm, hcode⟩

theorem exists_of_isOk (h : (ofMachine source m).isOk = true) :
    ∃ e, ofMachine source m = .ok e := by
  cases he : ofMachine source m with
  | ok e => exact ⟨e, rfl⟩
  | error fault =>
    rw [he] at h
    cases h

end Experiment

end RadarTimeline
