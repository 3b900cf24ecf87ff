import RadarTimeline.Proofs.Controller.Reading
import RadarTimeline.Proofs.Controller.Times

namespace RadarTimeline

def flatEnds (periods : List (Float × Float)) : List Float := periods.flatMap fun p => [p.1, p.2]

theorem Interval.start_le_stop (a : Interval) : a.start ≤ a.stop :=
  Number.le_of_not_lt a.valid.1 a.valid.2.1 a.valid.2.2.2

theorem pairwise_of_flatEnds {periods : List (Float × Float)}
    (h : (flatEnds periods).Pairwise (· ≤ ·)) : periods.Pairwise fun p q => p.2 ≤ q.1 := by
  rw [flatEnds, List.pairwise_flatMap] at h
  exact h.2.imp fun hpq => hpq _ (by simp) _ (by simp)

def Stream.moments (s : Stream) : List Float := flatEnds s.closed.toList ++ s.openedAt.toList

/-- To switch a stream adds the time of the switch or nothing. -/
theorem Toggle.moments_sublist {t : Toggle} {time : Float} {s s' : Stream} (times : List Float)
    (h : t.apply time s = .ok s') :
    (s'.moments ++ times).Sublist (s.moments ++ time :: times) := by
  have hsame : (s.moments ++ times).Sublist (s.moments ++ time :: times) :=
    (List.sublist_cons_self _ _).append_left _
  have hon : s.openedAt = none →
      ((⟨s.closed, some time⟩ : Stream).moments ++ times).Sublist (s.moments ++ time :: times) := by
    intro ho
    simp [Stream.moments, ho]
  have hoff : ∀ since, s.openedAt = some since →
      ((⟨s.closed.push (since, time), none⟩ : Stream).moments ++ times).Sublist
        (s.moments ++ time :: times) := by
    intro since ho
    simp [Stream.moments, flatEnds, ho]
  cases t with
  | on =>
    obtain ⟨ho, rfl⟩ := apply_on_eq_ok.1 h
    exact hon ho
  | off =>
    obtain ⟨since, ho, -, rfl⟩ := apply_off_eq_ok.1 h
    exact hoff since ho
  | hold =>
    rcases apply_hold_eq_ok.1 h with ⟨-, rfl⟩ | ⟨ho, rfl⟩
    · exact hsame
    · exact hon ho
  | release =>
    rcases apply_release_eq_ok.1 h with ⟨-, rfl⟩ | ⟨since, ho, -, rfl⟩
    · exact hsame
    · exact hoff since ho
  | keep =>
    cases h
    exact hsame

namespace Controller

variable {k k' : Core} {c : Command} {cs : List Command} {time since : Float} {times : List Float}
  {lines : LineMap Stream} {s : Snapshot Line} {snapshots : List (Snapshot Line)}

/-- The periods of a snapshot lie in its interval, and those of a line one after the other. -/
structure Tidy (s : Snapshot Line) : Prop where
  inside : ∀ l, ∀ a ∈ s.periods l, s.interval.start ≤ a.start ∧ a.stop ≤ s.interval.stop
  ordered : ∀ l, (s.periods l).Pairwise fun a b => a.stop ≤ b.start

theorem Tidy.stop_le_start {s' : Snapshot Line} (hs : Tidy s) (hs' : Tidy s')
    (h : s.interval.stop ≤ s'.interval.start) {l l' : Line} {a b : Interval}
    (ha : a ∈ s.periods l) (hb : b ∈ s'.periods l') : a.stop ≤ b.start :=
  Number.le_trans (hs.inside l a ha).2 (Number.le_trans h (hs'.inside l' b hb).1)

/-- Tidy snapshots one after the other. -/
structure Chronicle (snapshots : List (Snapshot Line)) : Prop where
  tidy : ∀ s ∈ snapshots, Tidy s
  follow : snapshots.Pairwise fun s s' => s.interval.stop ≤ s'.interval.start

theorem chronicle_nil : Chronicle [] := ⟨by simp, .nil⟩

theorem Chronicle.append (h : Chronicle snapshots) (hs : Tidy s)
    (hr : ∀ s' ∈ snapshots, s'.interval.stop ≤ s.interval.start) :
    Chronicle (snapshots ++ [s]) := by
  refine ⟨fun s' hs' => ?_, ?_⟩
  · rcases List.mem_append.1 hs' with hs' | hs'
    · exact h.tidy s' hs'
    · exact List.mem_singleton.1 hs' ▸ hs
  · rw [List.pairwise_append]
    refine ⟨h.follow, List.pairwise_singleton _ _, fun a ha b hb => ?_⟩
    exact List.mem_singleton.1 hb ▸ hr a ha

/-- The lines of a core and the times that still come are in order, from the start of the subcycle
on; before it there are tidy snapshots. -/
structure Orderly (k : Core) (since : Float) (times : List Float) : Prop where
  cycle : k.cycle.openedAt = some 0
  begun : k.subcycles.bounds.openedAt = some since
  lines : ∀ l, ((k.lines.get l).moments ++ times).Pairwise (· ≤ ·)
  lower : since = 0 ∨ ∀ l, ∀ x ∈ (k.lines.get l).moments ++ times, since ≤ x
  past : Chronicle k.subcycles.snapshots.toList
  reach : ∀ s ∈ k.subcycles.snapshots.toList, s.interval.stop ≤ since

theorem Closes.flatEnds_eq (h : Closes k time since lines s) (l : Line) :
    flatEnds ((s.periods l).map Interval.ends) = (lines.get l).moments := by
  have hoff : (lines.get l).openedAt = none := by simpa [Stream.isOn] using h.off l
  rw [h.periods, Stream.moments, hoff]
  exact (List.append_nil _).symm

theorem Closes.mem_moments (h : Closes k time since lines s) {l : Line} {a : Interval}
    (ha : a ∈ s.periods l) :
    a.start ∈ (k.lines.get l).moments ++ [time] ∧ a.stop ∈ (k.lines.get l).moments ++ [time] := by
  have hsub := (Toggle.moments_sublist [] (h.released l)).subset
  rw [List.append_nil, ← h.flatEnds_eq] at hsub
  have hmem : ∀ x ∈ [a.start, a.stop], x ∈ flatEnds ((s.periods l).map Interval.ends) :=
    fun x hx => List.mem_flatMap.2 ⟨a.ends, List.mem_map_of_mem ha, hx⟩
  exact ⟨hsub (hmem _ (by simp)), hsub (hmem _ (by simp))⟩

theorem Closes.time_finite (h : Closes k time since lines s) : time.isFinite := by
  rw [← (Prod.mk.inj h.ends).2]
  exact s.interval.valid.2.1

theorem Orderly.tidy (h : Orderly k since (time :: times)) (hc : Closes k time since lines s) :
    Tidy s := by
  obtain ⟨hstart, hstop⟩ := Prod.mk.inj hc.ends
  have hall : ∀ l, ((k.lines.get l).moments ++ [time]).Pairwise (· ≤ ·) := fun l =>
    (h.lines l).sublist (((List.nil_sublist times).cons_cons time).append_left _)
  refine ⟨fun l a ha => ?_, fun l => ?_⟩
  · obtain ⟨hon, hoff⟩ := hc.mem_moments ha
    rw [hstart, hstop]
    constructor
    -- before the first boundary no time is a bound, but periods never start before zero
    · rcases h.lower with h0 | hl
      · rw [h0]
        exact Number.le_of_not_lt (by decide) a.valid.1 a.valid.2.2.1
      · apply hl l
        rcases List.mem_append.1 hon with hon | hon
        · exact List.mem_append_left _ hon
        · exact List.mem_append_right _ (List.mem_singleton.1 hon ▸ List.mem_cons_self)
    · rcases List.mem_append.1 hoff with hoff | hoff
      · exact (List.pairwise_append.1 (hall l)).2.2 _ hoff _ (List.mem_singleton.2 rfl)
      · rw [List.mem_singleton.1 hoff]
        exact Number.le_refl hc.time_finite
  · have hp := (hall l).sublist (Toggle.moments_sublist [] (hc.released l))
    rw [List.append_nil, ← hc.flatEnds_eq] at hp
    exact List.pairwise_map.1 (pairwise_of_flatEnds hp)

theorem Orderly.chronicle (h : Orderly k since (time :: times)) (hc : Closes k time since lines s) :
    Chronicle (k.subcycles.snapshots.push s).toList := by
  rw [Array.toList_push]
  refine h.past.append (h.tidy hc) ?_
  rw [(Prod.mk.inj hc.ends).1]
  exact h.reach

theorem Orderly.switch {times' : List Float} (h : Orderly k since times')
    (hcycle : k'.cycle = k.cycle) (hsub : k'.subcycles = k.subcycles)
    (hlines : ∀ l, ((k'.lines.get l).moments ++ times).Sublist
      ((k.lines.get l).moments ++ times')) :
    Orderly k' since times := by
  refine ⟨?_, ?_, fun l => (h.lines l).sublist (hlines l), ?_, ?_, ?_⟩
  · rw [hcycle]
    exact h.cycle
  · rw [hsub]
    exact h.begun
  · exact h.lower.imp_right fun hl l x hx => hl l x ((hlines l).subset hx)
  · rw [hsub]
    exact h.past
  · rw [hsub]
    exact h.reach

theorem Orderly.act (h : Orderly k since (resolved k.register (c :: cs)))
    (hs : c.mnemonic ≠ "SETTCR")
    (hr : c.mnemonic ≠ "REP") (hp : Performs c.action (k.register + c.time) k k') :
    Orderly k' since (resolved k'.register cs) := by
  have hregister : k'.register = k.register := congrArg (·.register) hp.rest
  refine h.switch (congrArg (·.cycle) hp.rest) (congrArg (·.subcycles) hp.rest) fun l => ?_
  have hl := hp.lines l
  rw [hregister, resolved, if_neg hs, if_neg hr]
  rw [Command.action] at hl
  -- a command that is not known has no time and switches nothing
  cases ha : Action.ofMnemonic? c.mnemonic with
  | some a => exact Toggle.moments_sublist _ hl
  | none =>
    rw [ha] at hl
    rw [← Except.ok.inj (show Except.ok (k.lines.get l) = _ from hl)]

theorem reopened_moments (h : PhaseHistory) (time : Float) (l : Line) :
    ((h.reopened time).get l).moments.Sublist [time] := by
  rw [PhaseHistory.reopened]
  cases h.at? time with
  | none =>
    rw [LineMap.get_replicate]
    exact List.nil_sublist _
  | some p =>
    rw [LineMap.get_set, LineMap.get_replicate]
    split_ifs
    · exact List.Sublist.refl _
    · exact List.nil_sublist _

theorem Orderly.split (h : Orderly k since (time :: times)) (hc : Closes k time since lines s) :
    Orderly ((k.closed time since s).opened time) time times := by
  have htimes : (time :: times).Pairwise (· ≤ ·) :=
    (h.lines (.gate .rf)).sublist (List.sublist_append_right _ _)
  have hsub : ∀ l, (((k.phases.reopened time).get l).moments ++ times).Sublist (time :: times) :=
    fun l => (reopened_moments k.phases time l).append_right times
  have hle : since ≤ time := by
    obtain ⟨hstart, hstop⟩ := Prod.mk.inj hc.ends
    rw [← hstart, ← hstop]
    exact s.interval.start_le_stop
  refine ⟨h.cycle, rfl, fun l => htimes.sublist (hsub l), .inr fun l x hx => ?_, h.chronicle hc,
    fun s' hs' => ?_⟩
  · rcases List.mem_cons.1 ((hsub l).subset hx) with rfl | hx
    · exact Number.le_refl hc.time_finite
    · exact (List.pairwise_cons.1 htimes).1 x hx
  · change s' ∈ (k.subcycles.snapshots.push s).toList at hs'
    rw [Array.toList_push] at hs'
    rcases List.mem_append.1 hs' with hs' | hs'
    · exact Number.le_trans (h.reach s' hs') hle
    · rw [List.mem_singleton.1 hs', (Prod.mk.inj hc.ends).2]
      exact Number.le_refl hc.time_finite

/-- A replay in order leaves tidy snapshots one after the other, and an end that makes an
interval. -/
theorem Orderly.steps (h : Orderly k since (resolved k.register cs)) (hk : k.Running)
    (hs : Steps k cs k') (hf : k'.finished = true) :
    Chronicle k'.subcycles.snapshots.toList ∧ Interval.Valid 0 k'.endTime := by
  induction hs generalizing since with
  | nil k =>
    rw [hk.unfinished] at hf
    cases hf
  | @cons k k₁ k' c cs _ first rest ih =>
    cases first with
    | act hs hr hp => exact ih (h.act hs hr hp) (hp.running hk) hf
    | reset hs ht =>
      rw [resolved, if_pos hs, if_neg ht] at h
      exact ih (h.switch rfl rfl fun _ => List.Sublist.refl _) ⟨hk.cycle, hk.subcycle,
        hk.unfinished⟩ hf
    | split hs ht hc =>
      rw [resolved, if_pos hs, if_pos ht] at h
      obtain rfl := Option.some.inj (h.begun.symm.trans hc.running)
      exact ih (h.split hc) ⟨hk.cycle, rfl, hk.unfinished⟩ hf
    | finish hr hcycle hb hc =>
      rw [resolved, if_neg (not_setTime_of_end hr), if_pos hr] at h
      obtain rfl := Option.some.inj (h.begun.symm.trans hc.running)
      obtain rfl := Option.some.inj (h.cycle.symm.trans hcycle)
      cases rest with
      | cons running => exact absurd running.unfinished (by simp [Core.ended])
      | nil =>
        refine ⟨h.chronicle hc, ?_⟩
        change Interval.Valid 0 c.time
        exact ⟨by decide, hc.time_finite, by decide, hb⟩

theorem orderly_begun {o : Oscillators} (h : (resolved 0 cs).Pairwise (· ≤ ·)) :
    Orderly (Core.begun o) 0 (resolved 0 cs) := by
  refine ⟨rfl, rfl, fun l => ?_, .inl rfl, chronicle_nil, by simp [Core.begun]⟩
  rw [Core.begun, LineMap.get_replicate]
  exact h

end Controller

end RadarTimeline
