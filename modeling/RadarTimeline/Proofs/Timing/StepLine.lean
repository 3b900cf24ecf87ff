import RadarTimeline.Proofs.Timing.RecordedFrequencies
import RadarTimeline.Proofs.Timing.PhaseInEffect

namespace RadarTimeline.FrequencyHistory

/-- A piece of a step line: one frequency from a time up to another. -/
structure Segment where
  start : Float
  stop : Float
  frequency : Float

def Segment.ends (g : Segment) : List FrequencyChange :=
  [⟨g.start, g.frequency⟩, ⟨g.stop, g.frequency⟩]

/-- The segments of a step line through points, the last one to `stop`. -/
def segments (stop : Float) : List FrequencyChange → List Segment
  | [] => []
  | [p] => [⟨p.time, stop, p.frequency⟩]
  | p :: q :: rest => ⟨p.time, q.time, p.frequency⟩ :: segments stop (q :: rest)

/-- Segments that lead from one time to another: each starts where the one before it stops, and none
goes back in time. -/
inductive Leads : Float → Float → List Segment → Prop where
  | last {start stop : Float} (f : Float) (hle : start ≤ stop) : Leads start stop [⟨start, stop, f⟩]
  | cons {start next stop : Float} {rest : List Segment} (f : Float) (hle : start ≤ next)
      (hrest : Leads next stop rest) : Leads start stop (⟨start, next, f⟩ :: rest)

/-- A line that shows a history over an interval. -/
structure Shows (s : FrequencyHistory) (iv : Interval) (gs : List Segment) : Prop where
  leads : Leads iv.start iv.stop gs
  level : ∀ g ∈ gs, ∀ t, g.start ≤ t → t < g.stop → s.at? t = some g.frequency

/-- A window of a history over an interval: its start, the times recorded inside, and at each time
what the history has. -/
structure IsWindow (s : FrequencyHistory) (iv : Interval) (w : FrequencyHistory) : Prop where
  times : w.times = iv.start :: s.times.filter fun t => decide (iv.start < t) &&
    decide (t < iv.stop)
  at?_eq : ∀ t, iv.start ≤ t → t < iv.stop → w.at? t = s.at? t

variable {s w : FrequencyHistory} {points records : List FrequencyChange} {p : FrequencyChange}
  {gs : List Segment} {g : Segment} {start stop t : Float} {iv : Interval}

theorem corners_eq (stop : Float) (points : List FrequencyChange) :
    corners stop points = (segments stop points).flatMap Segment.ends := by
  fun_induction corners stop points with
  | case1 => rfl
  | case2 => rfl
  | case3 p q rest ih =>
    rw [ih]
    rfl

theorem Leads.le (h : Leads start stop gs) : start ≤ stop := by
  induction h with
  | last f hle => exact hle
  | cons f hle hrest ih => exact Number.le_trans hle ih

theorem Leads.le_of_mem (h : Leads start stop gs) (hg : g ∈ gs) :
    start ≤ g.start ∧ g.stop ≤ stop := by
  induction h with
  | last f hle =>
    rw [List.mem_singleton.1 hg]
    exact ⟨Number.le_self_of_le_left hle, Number.le_self_of_le_right hle⟩
  | cons f hle hrest ih =>
    rcases List.mem_cons.1 hg with rfl | hg
    · exact ⟨Number.le_self_of_le_left hle, hrest.le⟩
    · obtain ⟨hstart, hstop⟩ := ih hg
      exact ⟨Number.le_trans hle hstart, hstop⟩

theorem Ascending.leads (h : Ascending (p :: points)) (hstop : ∀ q ∈ p :: points, q.time ≤ stop) :
    Leads p.time stop (segments stop (p :: points)) := by
  induction points generalizing p with
  | nil => exact .last _ (hstop p List.mem_cons_self)
  | cons q points ih =>
    have hlt : p.time < q.time := (List.pairwise_cons.1 h.sorted).1 q List.mem_cons_self
    have hrest := h.sublist (List.sublist_cons_self p (q :: points))
    exact .cons _ (Number.le_of_lt hlt) (ih hrest (List.forall_mem_cons.1 hstop).2)

theorem upTo_cons_of_lt (h : Ascending (p :: points)) (ht : t < p.time) :
    upTo t (p :: points) = [] := by
  refine List.filter_eq_nil_iff.2 fun q hq => ?_
  have hlt : t < q.time := by
    rcases List.mem_cons.1 hq with rfl | hq
    · exact ht
    · exact Number.lt_of_lt_of_le ht (Number.le_of_lt ((List.pairwise_cons.1 h.sorted).1 q hq))
  simpa using fun hle => Number.not_lt_of_le hle hlt

theorem Ascending.level (h : Ascending points) (hg : g ∈ segments stop points)
    (hstart : g.start ≤ t)
    (hstop : t < g.stop) : (upTo t points).getLast?.map (·.frequency) = some g.frequency := by
  induction points using segments.induct with
  | case1 => cases hg
  | case2 p =>
    rw [List.mem_singleton.1 hg] at hstart ⊢
    rw [upTo, List.filter_cons_of_pos (by simpa using hstart)]
    rfl
  | case3 p q rest ih =>
    have hrest := h.sublist (List.sublist_cons_self p (q :: rest))
    rcases List.mem_cons.1 hg with rfl | hg
    · -- the next point comes where the segment stops
      rw [upTo, List.filter_cons_of_pos (by simpa using hstart), ← upTo,
        upTo_cons_of_lt hrest hstop]
      rfl
    · obtain ⟨last, hlast, hf⟩ := Option.map_eq_some_iff.1 (ih hrest hg)
      rw [upTo, List.filter_cons, ← upTo]
      split
      · rw [List.getLast?_cons, hlast]
        exact congrArg some hf
      · rw [hlast]
        exact congrArg some hf

/-- The points of a window are the frequency in effect and the points strictly inside the
interval. -/
theorem points_of_within? (h : Ascending s.points.toList) (hw : s.within? iv = some w) :
    ∃ f, Ascending w.points.toList ∧ w.points.toList = ⟨iv.start, f⟩ ::
      s.points.toList.filter fun p => decide (iv.start < p.time) && decide (p.time < iv.stop) := by
  have hiv : iv.start ≤ iv.start := Number.le_refl iv.valid.1
  obtain ⟨before, after, hpoints, hd⟩ := exists_divides h.proper h.sorted hiv
  have hafter : Ascending after := h.sublist (hpoints ▸ List.sublist_append_right before after)
  rw [within?, pointAt?_of_divides hpoints hd, reached_of_divides hpoints hd, hpoints,
    List.drop_left] at hw
  cases hfirst : before.getLast? with
  | none => simp [hfirst] at hw
  | some first =>
    rw [hfirst] at hw
    have hearly : after.takeWhile (fun p => !decide (p.time ≥ iv.stop)) =
        after.filter fun p => decide (p.time < iv.stop) := by
      have hiff : ∀ p ∈ after, (!decide (p.time ≥ iv.stop)) = decide (p.time < iv.stop) := by
        intro p hp
        rcases Number.le_or_lt (Number.le_refl iv.valid.2.1) (hafter.proper p hp) with hle | hlt
        · simp [hle, Number.not_lt_of_le hle]
        · simpa [hlt] using fun hle => Number.not_lt_of_le hle hlt
      have hinit : after.Pairwise fun p q => (!decide (q.time ≥ iv.stop)) = true →
          (!decide (p.time ≥ iv.stop)) = true := by
        refine hafter.sorted.imp fun hpq hq => ?_
        simp only [Bool.not_eq_true', decide_eq_false_iff_not] at hq ⊢
        exact fun hp => hq (Number.le_trans hp (Number.le_of_lt hpq))
      rw [takeWhile_eq_filter hinit, List.filter_congr hiff]
    have hnone : before.filter (fun p => decide (iv.start < p.time) && decide (p.time < iv.stop)) =
      [] :=
      List.filter_eq_nil_iff.2 fun p hp => by simp [Number.not_lt_of_le (hd.before p hp)]
    have hsome : after.filter (fun p => decide (iv.start < p.time) && decide (p.time < iv.stop)) =
        after.filter fun p => decide (p.time < iv.stop) :=
      List.filter_congr fun p hp => by simp [hd.after p hp]
    have hwindow : Ascending (⟨iv.start, first.frequency⟩ ::
        after.filter fun p => decide (p.time < iv.stop)) :=
      (hafter.sublist List.filter_sublist).cons hiv fun p hp => hd.after p (List.mem_filter.1 hp).1
    obtain rfl : ofPoints _ = w := Option.some_inj.1 hw
    rw [hearly, ofPoints_points hwindow, hpoints, List.filter_append, hnone, hsome]
    exact ⟨first.frequency, hwindow, rfl⟩

theorem isWindow_of_within? (h : Ascending s.points.toList) (hw : s.within? iv = some w) :
    IsWindow s iv w := by
  obtain ⟨f, -, hpoints⟩ := points_of_within? h hw
  refine ⟨?_, fun t hstart hstop => ?_⟩
  · rw [times, times, hpoints, List.map_cons, List.filter_map]
    rfl
  · have hin := inside?_at? h iv hstart hstop
    rwa [inside?, hw] at hin

theorem exists_shows (h : Ascending s.points.toList) (hw : s.within? iv = some w) :
    ∃ gs, s.line? iv = some (gs.flatMap Segment.ends) ∧ Shows s iv gs := by
  obtain ⟨f, hascending, hpoints⟩ := points_of_within? h hw
  have hstop : iv.start ≤ iv.stop := Number.le_of_not_lt iv.valid.1 iv.valid.2.1 iv.valid.2.2.2
  have hleads : Leads iv.start iv.stop (segments iv.stop w.points.toList) := by
    rw [hpoints] at hascending ⊢
    refine hascending.leads (List.forall_mem_cons.2 ⟨hstop, fun p hp => ?_⟩)
    have hp := (List.mem_filter.1 hp).2
    rw [Bool.and_eq_true, decide_eq_true_iff, decide_eq_true_iff] at hp
    exact Number.le_of_lt hp.2
  refine ⟨segments iv.stop w.points.toList, by rw [line?, hw, ← corners_eq]; rfl, hleads, ?_⟩
  intro g hg t hgt htg
  obtain ⟨hin, hout⟩ := hleads.le_of_mem hg
  have hstart : iv.start ≤ t := Number.le_trans hin hgt
  rw [← (isWindow_of_within? h hw).at?_eq t hstart (Number.lt_of_lt_of_le htg hout),
    at?_eq hascending (Number.le_self_of_le_right hgt)]
  exact hascending.level hg hgt htg

theorem within?_eq_none_iff (h : Ascending s.points.toList) (iv : Interval) :
    s.within? iv = none ↔ ∀ t ∈ s.times, ¬ t ≤ iv.start := by
  have hat : s.within? iv = none ↔ s.at? iv.start = none := by
    rw [← Option.not_isSome_iff_eq_none, within?_isSome, Option.not_isSome_iff_eq_none]
  rw [hat, at?_eq_upTo h, Option.map_eq_none_iff, List.getLast?_eq_none_iff, upTo,
    List.filter_eq_nil_iff, times, List.forall_mem_map]
  simp

theorem Holds.exists_time_iff (h : Holds s records) :
    (∃ u ∈ s.times, (u == t) = true) ↔ ∃ r ∈ records, (r.time == t) = true := by
  simp only [times, List.mem_map, exists_exists_and_eq_and]
  constructor
  · rintro ⟨p, hp, htime⟩
    exact exists_of_lastAt ((h.points_iff t p.frequency).1 ⟨p, hp, htime, rfl⟩)
  · rintro ⟨r, hr, htime⟩
    obtain ⟨f, hf⟩ := lastAt_isSome hr htime
    obtain ⟨p, hp, htime, -⟩ := (h.points_iff t f).2 hf
    exact ⟨p, hp, htime⟩

theorem inside_iff_of_beq {u : Float} (htime : (u == t) = true) :
    iv.start < u ∧ u < iv.stop ↔ iv.start < t ∧ t < iv.stop := by
  obtain ⟨hle, hge⟩ := Number.beq_iff_le.1 htime
  constructor
  · rintro ⟨hstart, hstop⟩
    exact ⟨Number.lt_of_lt_of_le hstart hle, Number.lt_of_le_of_lt hge hstop⟩
  · rintro ⟨hstart, hstop⟩
    exact ⟨Number.lt_of_lt_of_le hstart hge, Number.lt_of_le_of_lt hle hstop⟩

theorem Holds.exists_change_iff (h : Holds s records) (hw : IsWindow s iv w) :
    (∃ u ∈ w.times.tail, (u == t) = true) ↔
      (∃ r ∈ records, (r.time == t) = true) ∧ iv.start < t ∧ t < iv.stop := by
  rw [hw.times, List.tail_cons, ← h.exists_time_iff]
  simp only [List.mem_filter, Bool.and_eq_true, decide_eq_true_eq]
  constructor
  · rintro ⟨u, ⟨hu, hin⟩, htime⟩
    exact ⟨⟨u, hu, htime⟩, (inside_iff_of_beq htime).1 hin⟩
  · rintro ⟨⟨u, hu, htime⟩, hin⟩
    exact ⟨u, ⟨hu, (inside_iff_of_beq htime).2 hin⟩, htime⟩

/-- Of a history without a frequency recorded at `NaN` there is a window over an interval unless
every point is after its start. The window starts there, goes on with the times recorded strictly
inside, and has the frequency of the history from the start up to the stop. The line drawn of it
leads from the start to the stop in segments at the frequency in effect. -/
theorem window_of_records (hr : ∀ r ∈ records, r.time.isNaN = false) (iv : Interval) :
    ((ofPoints records).within? iv = none ↔ ∀ t ∈ (ofPoints records).times, ¬ t ≤ iv.start) ∧
      ((ofPoints records).line? iv = none ↔ (ofPoints records).within? iv = none) ∧
      ∀ w, (ofPoints records).within? iv = some w →
        IsWindow (ofPoints records) iv w ∧
        (∀ t, (∃ u ∈ w.times.tail, (u == t) = true) ↔
          (∃ r ∈ records, (r.time == t) = true) ∧ iv.start < t ∧ t < iv.stop) ∧
        ∃ gs, (ofPoints records).line? iv = some (gs.flatMap Segment.ends) ∧
          Shows (ofPoints records) iv gs := by
  have h : (ofPoints records).Holds records :=
    holds_of_records fun r hmem => Number.le_self_of_isNaN (hr r hmem)
  refine ⟨within?_eq_none_iff h.ascending iv, Option.map_eq_none_iff, fun w hw => ?_⟩
  have hwindow : IsWindow (ofPoints records) iv w := isWindow_of_within? h.ascending hw
  exact ⟨hwindow, fun t => h.exists_change_iff hwindow, exists_shows h.ascending hw⟩

def edgeWindow : Interval := ⟨1.5, 5, by decide +kernel⟩

theorem window_of_unorderedRecords : (∀ r ∈ unorderedRecords, r.time.isNaN = false) ∧
    ∃ w, (ofPoints unorderedRecords).within? edgeWindow = some w ∧ w.times = [1.5, 2] ∧
      w.at? 1.75 = (ofPoints unorderedRecords).at? 1.75 := by
  have hr : ∀ r ∈ unorderedRecords, r.time.isNaN = false := by decide +kernel
  obtain ⟨hnone, -, hsome⟩ := window_of_records hr edgeWindow
  have hreached : ¬ (ofPoints unorderedRecords).within? edgeWindow = none := by
    rw [hnone]
    decide +kernel
  obtain ⟨w, hw⟩ := Option.ne_none_iff_exists'.1 hreached
  obtain ⟨⟨htimes, hat⟩, -⟩ := hsome w hw
  refine ⟨hr, w, hw, htimes.trans ?_, hat 1.75 ?_ ?_⟩
  all_goals decide +kernel

/-- One frequency that is behind two recorded at `NaN`. -/
def hiddenRecords : List FrequencyChange := [⟨5, 1⟩, ⟨Number.nan, 1⟩, ⟨Number.nan, 1⟩]

def hiddenWindow : Interval := ⟨6, 7, by decide +kernel⟩

/-- A point at `NaN` sends bisection the wrong way: there is no window although a point is before
its start. -/
theorem window_hidden_by_nan : ¬ ((ofPoints hiddenRecords).within? hiddenWindow = none ↔
    ∀ t ∈ (ofPoints hiddenRecords).times, ¬ t ≤ hiddenWindow.start) := by
  decide +kernel

end RadarTimeline.FrequencyHistory
