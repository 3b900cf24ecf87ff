import RadarTimeline.Proofs.Controller.Chronology
import RadarTimeline.Proofs.Experiment.Assembly

namespace RadarTimeline

open Controller (Chronicle Command Machine Snapshot after after_of_ok exists_ok
    orderly_begun resolved
  run run_iff)

namespace Interval

theorem not_overlaps_of_le {a b : Interval} (h : a.stop ≤ b.start) :
    a.overlaps b = false ∧ b.overlaps a = false := by
  have h' : a.start ≤ b.stop :=
    Number.le_trans a.start_le_stop (Number.le_trans h b.start_le_stop)
  constructor
  · rw [overlaps, decide_eq_true h, decide_eq_true h']
    rfl
  · rw [overlaps, decide_eq_true h, decide_eq_true h', Bool.and_comm]
    rfl

end Interval

def cyclePeriods (snapshots : List (Snapshot Line)) (l : Line) : List Interval :=
  snapshots.flatMap (·.periods l)

def conflicts (transmits : List Interval) (receives : Channel → List Interval) : List Overlap :=
  (Channel.all.flatMap fun c => (receives c).flatMap fun receive =>
    transmits.map fun transmit => ⟨transmit, c, receive⟩).filter fun o =>
    o.transmit.overlaps o.receive

theorem overlapping_eq_conflicts (transmits : List Interval) (receives : Channel → List Interval) :
    SubcycleTimeline.overlapping transmits receives = conflicts transmits receives := by
  simp only [SubcycleTimeline.overlapping, conflicts, List.filter_flatMap, List.filter_map]
  rfl

theorem conflicts_append {t t' : List Interval} {r r' : Channel → List Interval}
    (h : ∀ a ∈ t, ∀ c, ∀ b ∈ r' c, a.overlaps b = false)
    (h' : ∀ a ∈ t', ∀ c, ∀ b ∈ r c, a.overlaps b = false) :
    (conflicts t r ++ conflicts t' r').Perm (conflicts (t ++ t') fun c => r c ++ r' c) := by
  simp only [← overlapping_eq_conflicts, SubcycleTimeline.overlapping]
  refine (List.flatMap_append_perm _ _ _).trans (List.Perm.of_eq ?_)
  refine List.flatMap_congr fun c _ => ?_
  rw [List.flatMap_append]
  congr 1
  · refine List.flatMap_congr fun b hb => ?_
    have hnone : t'.filter (·.overlaps b) = [] :=
      List.filter_eq_nil_iff.2 fun a ha => by simp [h' a ha c b hb]
    rw [List.filter_append, hnone, List.append_nil]
  · refine List.flatMap_congr fun b hb => ?_
    have hnone : t.filter (·.overlaps b) = [] :=
      List.filter_eq_nil_iff.2 fun a ha => by simp [h a ha c b hb]
    rw [List.filter_append, hnone, List.nil_append]

variable {snapshots : List (Snapshot Line)}

theorem cyclePeriods_pairwise (h : Chronicle snapshots) (l : Line) :
    (cyclePeriods snapshots l).Pairwise fun a b => a.stop ≤ b.start := by
  rw [cyclePeriods, List.pairwise_flatMap]
  refine ⟨fun s hs => (h.tidy s hs).ordered l, ?_⟩
  refine h.follow.imp_of_mem fun hs hs' hle a ha b hb => ?_
  exact (h.tidy _ hs).stop_le_start (h.tidy _ hs') hle ha hb

theorem overlapping_perm_conflicts (h : Chronicle snapshots) :
    (snapshots.flatMap fun s => SubcycleTimeline.overlapping (s.periods (.gate .rf))
        fun c => s.periods (.gate (.channel c))).Perm
      (conflicts (cyclePeriods snapshots (.gate .rf))
        fun c => cyclePeriods snapshots (.gate (.channel c))) := by
  induction snapshots with
  | nil => exact List.Perm.of_eq rfl
  | cons s snapshots ih =>
    obtain ⟨htidy, hfollow⟩ := h
    obtain ⟨hs, hss⟩ := List.forall_mem_cons.1 htidy
    obtain ⟨hle, hfollow⟩ := List.pairwise_cons.1 hfollow
    -- a period of `s` and one of a later snapshot never overlap, whatever their lines
    have hcross : ∀ {l l' : Line}, ∀ a ∈ s.periods l, ∀ b ∈ cyclePeriods snapshots l',
        a.overlaps b = false ∧ b.overlaps a = false := by
      intro l l' a ha b hb
      obtain ⟨s', hs', hb⟩ := List.mem_flatMap.1 hb
      exact Interval.not_overlaps_of_le (hs.stop_le_start (hss s' hs') (hle s' hs') ha hb)
    rw [List.flatMap_cons, overlapping_eq_conflicts]
    refine ((ih ⟨hss, hfollow⟩).append_left _).trans ?_
    exact conflicts_append (fun a ha c b hb => (hcross a ha b hb).1)
      fun a ha c b hb => (hcross b hb a ha).2

/-- A program whose times never decrease. Each period lies in its subcycle, those of one line follow
each other without overlap, and the overlaps of the experiment are those of the whole cycle, each
once. -/
theorem overlaps_complete {o : Oscillators} {tables : Channel → Option (List Float)}
    {cs : List Command} {m : Machine} (source : Source)
    (h : run cs (Machine.initial o tables) = .ok () m) (ht : (resolved 0 cs).IsChain (· ≤ ·)) :
    (∀ s ∈ m.subcycles.snapshots, ∀ l, ∀ a ∈ s.periods l, a.within s.interval = true) ∧
      (∀ l, (cyclePeriods m.subcycles.snapshots.toList l).Pairwise
        fun a b => a.stop ≤ b.start ∧ a.overlaps b = false) ∧
      (∀ fault, Experiment.ofMachine source m = .error fault → fault = .endless ∧ m.Unmeasurable) ∧
      ∀ e, Experiment.ofMachine source m = .ok e →
        e.overlaps.Perm (conflicts (cyclePeriods m.subcycles.snapshots.toList (.gate .rf))
          fun c => cyclePeriods m.subcycles.snapshots.toList (.gate (.channel c))) := by
  obtain ⟨hs, last, hl, hr⟩ := run_iff.1 ⟨m, h, rfl⟩
  have hf := hs.finished hl hr
  have : IsTrans Float (· ≤ ·) := ⟨fun _ _ _ => Number.le_trans⟩
  obtain ⟨hc, hvalid⟩ :=
    (orderly_begun (List.isChain_iff_pairwise.1 ht)).steps ⟨rfl, rfl, rfl⟩ hs hf
  refine ⟨fun s hs l a ha => ?_, fun l => ?_,
    fun _ => Experiment.eq_endless_of_ofMachine hf hvalid, fun e he => ?_⟩
  · obtain ⟨hstart, hstop⟩ := (hc.tidy s (Array.mem_toList_iff.2 hs)).inside l a ha
    rw [Interval.within, decide_eq_true hstart, decide_eq_true hstop]
    rfl
  · exact (cyclePeriods_pairwise hc l).imp fun hle => ⟨hle, (Interval.not_overlaps_of_le hle).1⟩
  · have hoverlaps : e.subcycles.map (·.overlaps) = m.subcycles.snapshots.toList.map fun s =>
        SubcycleTimeline.overlapping (s.periods (.gate .rf))
          fun c => s.periods (.gate (.channel c)) :=
      Experiment.map_subcycles_of_ofMachine (fun _ _ => rfl) he
    rw [Experiment.overlaps, List.flatMap_def, hoverlaps, ← List.flatMap_def]
    exact overlapping_perm_conflicts hc

/-- A reception that starts during a transmission, and one that starts as a transmission ends, with
a boundary between. -/
def receivingEarly : List Command :=
  [⟨0, "PHA0", 1⟩, ⟨0, "RFON", 1⟩, ⟨1, "CH1", 2⟩, ⟨2, "RFOFF", 3⟩, ⟨3, "CH1OFF", 4⟩,
    ⟨4, "SETTCR", 5⟩, ⟨0, "RFON", 6⟩, ⟨1, "RFOFF", 7⟩, ⟨1, "CH1", 7⟩, ⟨2, "ALLOFF", 8⟩,
    ⟨0, "SETTCR", 9⟩, ⟨8, "REP", 10⟩]

theorem overlaps_receivingEarly :
    (resolved 0 receivingEarly).IsChain (· ≤ ·) ∧
      ∃ m e, run receivingEarly (Machine.initial ⟨[some 812], [some 128]⟩ fun _ => none) =
        .ok () m ∧
        Experiment.ofMachine { name := "early", site := .uhf } m = .ok e ∧
        e.overlaps.Perm (conflicts (cyclePeriods m.subcycles.snapshots.toList (.gate .rf))
          fun c => cyclePeriods m.subcycles.snapshots.toList (.gate (.channel c))) ∧
        e.overlaps.length = 1 := by
  have ht : (resolved 0 receivingEarly).IsChain (· ≤ ·) := by decide +kernel
  obtain ⟨m, h⟩ : ∃ m, run receivingEarly
      (Machine.initial ⟨[some 812], [some 128]⟩ fun _ => none) = .ok () m :=
    exists_ok (by decide +kernel)
  let last := after (run receivingEarly) (Machine.initial ⟨[some 812], [some 128]⟩ fun _ => none)
  have hok : (Experiment.ofMachine { name := "early", site := .uhf } last).isOk = true := by
    decide +kernel
  have hone : (conflicts (cyclePeriods last.subcycles.snapshots.toList (.gate .rf))
      fun c => cyclePeriods last.subcycles.snapshots.toList (.gate (.channel c))).length = 1 := by
    decide +kernel
  have hlast : last = m := after_of_ok h
  rw [hlast] at hone hok
  obtain ⟨e, he⟩ := Experiment.exists_of_isOk hok
  have hperm := (overlaps_complete { name := "early", site := .uhf } h ht).2.2.2 e he
  exact ⟨ht, m, e, h, he, hperm, hperm.length_eq.trans hone⟩

end RadarTimeline
