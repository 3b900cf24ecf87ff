import RadarTimeline.Experiment.Timeline
import RadarTimeline.Proofs.Timing.FrequencyRecord

namespace RadarTimeline.FrequencyHistory

/-- Points in strict order of time, none of them at `NaN`. -/
structure Ascending (points : List FrequencyChange) : Prop where
  proper : ∀ p ∈ points, p.time ≤ p.time
  sorted : points.Pairwise fun p q => p.time < q.time

variable {s : FrequencyHistory} {points records before after : List FrequencyChange} {t u f : Float}

theorem Holds.ascending (h : Holds s records) : Ascending s.points.toList := ⟨h.proper, h.sorted⟩

theorem Ascending.sublist (h : Ascending points) (hs : before.Sublist points) : Ascending before :=
  ⟨fun p hp => h.proper p (hs.subset hp), h.sorted.sublist hs⟩

theorem Ascending.cons {p : FrequencyChange} (h : Ascending points) (hp : p.time ≤ p.time)
    (hlt : ∀ q ∈ points, p.time < q.time) : Ascending (p :: points) :=
  ⟨List.forall_mem_cons.2 ⟨hp, h.proper⟩, List.pairwise_cons.2 ⟨hlt, h.sorted⟩⟩

/-- The points of a list that are not later than a time. -/
def upTo (t : Float) (points : List FrequencyChange) : List FrequencyChange :=
  points.filter fun p => decide (p.time ≤ t)

theorem Divides.upTo (h : Divides t before after) : upTo t (before ++ after) = before := by
  have hafter : after.filter (fun p => decide (p.time ≤ t)) = [] :=
    List.filter_eq_nil_iff.2 fun p
      hp => by simpa using fun hle => Number.not_lt_of_le hle (h.after p hp)
  have hbefore : before.filter (fun p => decide (p.time ≤ t)) = before :=
    List.filter_eq_self.2 fun p hp => by simpa using h.before p hp
  rw [FrequencyHistory.upTo, List.filter_append, hafter, hbefore, List.append_nil]

theorem at?_eq (h : Ascending s.points.toList) (ht : t ≤ t) :
    s.at? t = (upTo t s.points.toList).getLast?.map (·.frequency) := by
  obtain ⟨before, after, hpoints, hd⟩ := exists_divides h.proper h.sorted ht
  rw [at?, pointAt?_of_divides hpoints hd, hpoints, hd.upTo]

def recordAll (s : FrequencyHistory) (records : List FrequencyChange) : FrequencyHistory :=
  records.foldl (fun s p => s.set p.time p.frequency) s

theorem recordAll_append (s : FrequencyHistory) (records more : List FrequencyChange) :
    s.recordAll (records ++ more) = (s.recordAll records).recordAll more :=
  List.foldl_append

theorem set_of_last (hp : ∀ p ∈ s.points.toList, p.time < t) :
    (s.set t f).points.toList = s.points.toList ++ [⟨t, f⟩] := by
  have hd : Divides t s.points.toList [] := ⟨fun p h => Number.le_of_lt (hp p h), by simp⟩
  rcases set_of_divides f (List.append_nil _).symm hd with ⟨init, p, hinit, htime, -⟩ | ⟨-, hset⟩
  · have hlt := hp p (by rw [hinit]; simp)
    exact (Number.not_lt_of_le (Number.beq_iff_le.1 htime).2 hlt).elim
  · exact hset

theorem recordAll_points (h : Ascending (s.points.toList ++ points)) :
    (s.recordAll points).points.toList = s.points.toList ++ points := by
  induction points generalizing s with
  | nil => exact (List.append_nil _).symm
  | cons p points ih =>
    have hbefore := fun q hq => (List.pairwise_append.1 h.sorted).2.2 q hq p List.mem_cons_self
    have hset := set_of_last (f := p.frequency) hbefore
    rw [List.append_cons, ← hset] at h ⊢
    exact ih h

theorem ofPoints_points (h : Ascending points) : (ofPoints points).points.toList = points :=
  recordAll_points (s := {}) h

theorem at?_ofPoints (h : Ascending points) (ht : t ≤ t) :
    (ofPoints points).at? t = (upTo t points).getLast?.map (·.frequency) := by
  rw [at?_eq (by rwa [ofPoints_points h]) ht, ofPoints_points h]

/-- Points up to a time are the same whether or not the points from a later time on are there. -/
theorem upTo_takeWhile (h : Ascending points) (ht : t < u) :
    upTo t (points.takeWhile fun p => !decide (p.time ≥ u)) = upTo t points := by
  induction points with
  | nil => rfl
  | cons p points ih =>
    have hlater := (List.pairwise_cons.1 h.sorted).1
    by_cases hp : p.time ≥ u
    · -- from here on all points are after the time
      have hlt : t < p.time := Number.lt_of_lt_of_le ht hp
      have hnone : upTo t (p :: points) = [] := by
        refine List.filter_eq_nil_iff.2 (List.forall_mem_cons.2 ⟨?_, fun q hq => ?_⟩)
        · simpa using fun hle => Number.not_lt_of_le hle hlt
        · have hltq : t < q.time := Number.lt_of_lt_of_le hlt (Number.le_of_lt (hlater q hq))
          simpa using fun hle => Number.not_lt_of_le hle hltq
      rw [List.takeWhile_cons_of_neg (by simpa using hp), hnone]
      rfl
    · rw [List.takeWhile_cons_of_pos (by simpa using hp), upTo, upTo, List.filter_cons,
        List.filter_cons, ← upTo, ← upTo, ih (h.sublist (List.sublist_cons_self p points))]

theorem upTo_filter (iv : Interval) (hafter : ∀ p ∈ points, iv.start < p.time) (ht : t < iv.stop) :
    upTo t (points.filter fun p => decide (p.time ≥ iv.start) && decide (p.time < iv.stop)) =
      upTo t points := by
  rw [upTo, upTo, List.filter_filter]
  refine List.filter_congr fun p hp => ?_
  by_cases hle : p.time ≤ t
  · have hlt : p.time < iv.stop := Number.lt_of_le_of_lt hle ht
    have hge : p.time ≥ iv.start := Number.le_of_lt (hafter p hp)
    simp [hle, hlt, hge]
  · simp [hle]

/-- A window is missing exactly if nothing is in effect at its start and nothing recorded inside. -/
theorem inside?_eq_none_iff (s : FrequencyHistory) (iv : Interval) :
    s.inside? iv = none ↔
      s.at? iv.start = none ∧
        ∀ p ∈ s.points.toList, ¬ (iv.start ≤ p.time ∧ p.time < iv.stop) := by
  rw [inside?, within?, at?]
  cases s.pointAt? iv.start with
  | some first => simp
  | none =>
    dsimp only
    cases h : s.points.toList.filter fun p =>
        decide (p.time ≥ iv.start) && decide (p.time < iv.stop) with
    | nil =>
      rw [List.filter_eq_nil_iff] at h
      simpa using h
    | cons p points =>
      have hp : p ∈ s.points.toList.filter _ := h ▸ List.mem_cons_self
      obtain ⟨hmem, hp⟩ := List.mem_filter.1 hp
      simp only [Bool.and_eq_true, decide_eq_true_eq] at hp
      simp only [reduceCtorEq, Option.map_none, true_and, false_iff, not_forall]
      exact ⟨p, hmem, fun hnot => hnot hp⟩

theorem within?_isSome (s : FrequencyHistory) (iv : Interval) :
    (s.within? iv).isSome = (s.at? iv.start).isSome := by
  rw [within?, at?]
  cases s.pointAt? iv.start <;> rfl

/-- At every time inside, a window has the frequency of the history. -/
theorem inside?_at? (h : Ascending s.points.toList) (iv : Interval) (hstart : iv.start ≤ t)
    (hstop : t < iv.stop) : (s.inside? iv).bind (·.at? t) = s.at? t := by
  have ht : t ≤ t := Number.le_self_of_le_right hstart
  have hiv : iv.start ≤ iv.start := Number.le_self_of_le_left hstart
  obtain ⟨before, after, hpoints, hd⟩ := exists_divides h.proper h.sorted hiv
  have hsub : after.Sublist s.points.toList := hpoints ▸ List.sublist_append_right before after
  have hafter := h.sublist hsub
  rw [at?_eq h ht, inside?, within?, pointAt?_of_divides hpoints hd,
    reached_of_divides hpoints hd, hpoints]
  cases before using List.reverseRecOn with
  | nil =>
    have hinside := upTo_filter iv hd.after hstop
    have hwindow := hafter.sublist (List.filter_sublist
      (p := fun p => decide (p.time ≥ iv.start) && decide (p.time < iv.stop)))
    simp only [List.getLast?_nil, List.nil_append]
    rw [← hinside]
    cases hfilter : after.filter fun p =>
        decide (p.time ≥ iv.start) && decide (p.time < iv.stop) with
    | nil => rfl
    | cons p points =>
      rw [hfilter] at hwindow
      exact at?_ofPoints hwindow ht
  | append_singleton init first =>
    have hlater : ∀ p ∈ after.takeWhile fun p => !decide (p.time ≥ iv.stop), iv.start < p.time :=
      fun p hp => hd.after p ((List.takeWhile_sublist _).subset hp)
    have hwindow : Ascending (⟨iv.start, first.frequency⟩ ::
        after.takeWhile fun p => !decide (p.time ≥ iv.stop)) :=
      (hafter.sublist (List.takeWhile_sublist _)).cons hiv hlater
    have hfirst : first.time ≤ t := Number.le_trans (hd.before first (by simp)) hstart
    have hinit : upTo t (init ++ [first] ++ after) = upTo t init ++ first :: upTo t after := by
      simp [upTo, hfirst]
    simp only [List.getLast?_concat, List.drop_left, Option.bind_some]
    -- either way the first point counts until a later one is reached
    rw [at?_ofPoints hwindow ht, hinit, upTo, List.filter_cons,
      if_pos (by simpa using hstart), ← upTo, upTo_takeWhile hafter hstop, List.getLast?_cons,
      List.getLast?_append, List.getLast?_cons, Option.some_or]
    cases (upTo t after).getLast? <;> rfl

end RadarTimeline.FrequencyHistory
