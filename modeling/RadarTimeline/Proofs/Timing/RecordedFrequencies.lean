import RadarTimeline.Proofs.Timing.FrequencyWindow

namespace RadarTimeline.FrequencyHistory

/-- The greatest time that was recorded for and is not after a time. -/
structure LatestBy (records : List FrequencyChange) (t u : Float) : Prop where
  recorded : ∃ r ∈ records, r.time = u
  le : u ≤ t
  greatest : ∀ r ∈ records, r.time ≤ t → r.time ≤ u

variable {s : FrequencyHistory} {points records : List FrequencyChange} {p q r : FrequencyChange}
  {t f : Float}

theorem holds_of_records (hr : ∀ r ∈ records, r.time ≤ r.time) :
    (ofPoints records).Holds records := by
  induction records using List.reverseRecOn with
  | nil => exact holds_new
  | append_singleton records r ih =>
    obtain ⟨hrecords, hr⟩ := List.forall_mem_append.1 hr
    have hset : ofPoints (records ++ [r]) = (ofPoints records).set r.time r.frequency :=
      recordAll_append {} records [r]
    rw [hset]
    exact (ih hrecords).set (hr r List.mem_cons_self) r.frequency

theorem lastAt_isSome (hr : r ∈ records) (htime : (r.time == t) = true) :
    ∃ f, lastAt records t = some f := by
  have hmem : r ∈ records.filter fun r => r.time == t := List.mem_filter.2 ⟨hr, htime⟩
  have hsome := mt List.getLast?_eq_none_iff.1 (List.ne_nil_of_mem hmem)
  obtain ⟨last, hlast⟩ := Option.ne_none_iff_exists'.1 hsome
  exact ⟨last.frequency, by rw [lastAt, hlast]; rfl⟩

theorem exists_of_lastAt (h : lastAt records t = some f) : ∃ r ∈ records, (r.time == t) = true := by
  obtain ⟨r, hr, -⟩ := Option.map_eq_some_iff.1 h
  exact ⟨r, List.mem_filter.1 (List.mem_of_getLast? hr)⟩

theorem Ascending.eq_of_beq (h : Ascending points) (hp : p ∈ points) (hq : q ∈ points)
    (htime : (p.time == q.time) = true) : p = q := by
  obtain ⟨hle, hge⟩ := Number.beq_iff_le.1 htime
  obtain ⟨i, hi, rfl⟩ := List.mem_iff_getElem.1 hp
  obtain ⟨j, hj, rfl⟩ := List.mem_iff_getElem.1 hq
  have hsorted := List.pairwise_iff_getElem.1 h.sorted
  rcases lt_trichotomy i j with hij | rfl | hij
  · exact (Number.not_lt_of_le hge (hsorted i j hi hj hij)).elim
  · rfl
  · exact (Number.not_lt_of_le hle (hsorted j i hj hi hij)).elim

theorem mem_upTo : p ∈ upTo t points ↔ p ∈ points ∧ p.time ≤ t := by
  rw [upTo, List.mem_filter, decide_eq_true_eq]

theorem Ascending.greatest_of_last (h : Ascending points)
    (hlast : (upTo t points).getLast? = some p) :
    p ∈ points ∧ p.time ≤ t ∧ ∀ q ∈ points, q.time ≤ t → q.time ≤ p.time := by
  obtain ⟨hmem, hle⟩ := mem_upTo.1 (List.mem_of_getLast? hlast)
  refine ⟨hmem, hle, fun q hq hqt => ?_⟩
  have hq' : q ∈ upTo t points := mem_upTo.2 ⟨hq, hqt⟩
  obtain ⟨init, hinit⟩ := List.getLast?_eq_some_iff.1 hlast
  have hsorted := (h.sublist (List.filter_sublist (p := fun p => decide (p.time ≤ t)))).sorted
  rw [← upTo, hinit] at hsorted
  rw [hinit] at hq'
  rcases List.mem_append.1 hq' with hq' | hq'
  · exact Number.le_of_lt ((List.pairwise_append.1 hsorted).2.2 q hq' p List.mem_cons_self)
  · rw [List.mem_singleton.1 hq']
    exact h.proper p hmem

theorem getLast?_upTo (h : Ascending points) : (upTo t points).getLast? = some p ↔
    p ∈ points ∧ p.time ≤ t ∧ ∀ q ∈ points, q.time ≤ t → q.time ≤ p.time := by
  refine ⟨h.greatest_of_last, fun hgreatest => ?_⟩
  obtain ⟨hmem, hle, hmax⟩ := hgreatest
  have hne := List.ne_nil_of_mem (mem_upTo.2 ⟨hmem, hle⟩)
  obtain ⟨last, hlast⟩ := Option.ne_none_iff_exists'.1 (mt List.getLast?_eq_none_iff.1 hne)
  obtain ⟨hmem', hle', hmax'⟩ := h.greatest_of_last hlast
  rw [hlast, h.eq_of_beq hmem' hmem (Number.beq_iff_le.2 ⟨hmax _ hmem' hle', hmax' _ hmem hle⟩)]

theorem laterFrom_of_not_le {points : Array FrequencyChange} (h : ∀ p ∈ points, ¬ p.time ≤ t)
    (lo hi : ℕ) :
    laterFrom points t lo hi = lo := by
  fun_induction laterFrom points t lo hi with
  | case1 lo hi hlt mid p hmid hle ih => exact (h p (Array.mem_of_getElem? hmid) hle).elim
  | case2 lo hi hlt mid p hmid hle ih => exact ih
  | case3 => rfl
  | case4 => rfl

theorem upTo_of_nan (ht : ¬ t ≤ t) (points : List FrequencyChange) : upTo t points = [] :=
  List.filter_eq_nil_iff.2 fun p _ => by simpa using fun hle => ht (Number.le_self_of_le_right hle)

theorem reached_eq (h : Ascending s.points.toList) (t : Float) :
    s.reached t = (upTo t s.points.toList).length := by
  by_cases ht : t ≤ t
  · obtain ⟨before, after, hpoints, hd⟩ := exists_divides h.proper h.sorted ht
    rw [reached_of_divides hpoints hd, hpoints, hd.upTo]
  · have hnone : ∀ p ∈ s.points, ¬ p.time ≤ t := fun p _ hle => ht (Number.le_self_of_le_right hle)
    rw [reached, laterFrom_of_not_le hnone, upTo_of_nan ht]
    rfl

theorem at?_eq_upTo (h : Ascending s.points.toList) (t : Float) :
    s.at? t = (upTo t s.points.toList).getLast?.map (·.frequency) := by
  by_cases ht : t ≤ t
  · exact at?_eq h ht
  · rw [at?, pointAt?, reached_eq h, upTo_of_nan ht]
    rfl

theorem Holds.exists_point (h : Holds s records) (hr : r ∈ records) (hproper : r.time ≤ r.time) :
    ∃ p ∈ s.points.toList, p.time ≤ r.time ∧ r.time ≤ p.time := by
  obtain ⟨f, hf⟩ := lastAt_isSome hr (Number.beq_iff_le.2 ⟨hproper, hproper⟩)
  obtain ⟨p, hp, htime, -⟩ := (h.points_iff _ _).2 hf
  exact ⟨p, hp, Number.beq_iff_le.1 htime⟩

theorem Holds.lastAt_point (h : Holds s records) (hp : p ∈ s.points.toList) :
    lastAt records p.time = some p.frequency :=
  (h.points_iff _ _).1 ⟨p, hp, Number.beq_iff_le.2 ⟨h.proper p hp, h.proper p hp⟩, rfl⟩

theorem Holds.exists_record (h : Holds s records) (hp : p ∈ s.points.toList) :
    ∃ r ∈ records, (r.time == p.time) = true :=
  exists_of_lastAt (h.lastAt_point hp)

theorem Holds.at?_eq_some_iff (h : Holds s records) :
    s.at? t = some f ↔ ∃ u, LatestBy records t u ∧ lastAt records u = some f := by
  rw [at?_eq_upTo h.ascending, Option.map_eq_some_iff]
  constructor
  · rintro ⟨p, hp, rfl⟩
    obtain ⟨hmem, hle, hmax⟩ := (getLast?_upTo h.ascending).1 hp
    obtain ⟨r, hr, htime⟩ := h.exists_record hmem
    obtain ⟨hrp, hpr⟩ := Number.beq_iff_le.1 htime
    refine ⟨r.time, ⟨⟨r, hr, rfl⟩, Number.le_trans hrp hle, fun q hq hqt => ?_⟩, ?_⟩
    · obtain ⟨p', hp', hle', hge'⟩ := h.exists_point hq (Number.le_self_of_le_left hqt)
      have hp'p : p'.time ≤ p.time := hmax p' hp' (Number.le_trans hle' hqt)
      exact Number.le_trans hge' (Number.le_trans hp'p hpr)
    · exact (h.points_iff _ _).1 ⟨p, hmem, Number.beq_iff_le.2 ⟨hpr, hrp⟩, rfl⟩
  · rintro ⟨u, ⟨⟨r, hr, rfl⟩, hle, hmax⟩, hlast⟩
    obtain ⟨p, hp, htime, rfl⟩ := (h.points_iff _ _).2 hlast
    obtain ⟨hpr, hrp⟩ := Number.beq_iff_le.1 htime
    refine ⟨p, (getLast?_upTo h.ascending).2 ⟨hp, Number.le_trans hpr hle, fun q hq hqt => ?_⟩, rfl⟩
    obtain ⟨r', hr', htime'⟩ := h.exists_record hq
    obtain ⟨hle', hge'⟩ := Number.beq_iff_le.1 htime'
    have hr'r : r'.time ≤ r.time := hmax r' hr' (Number.le_trans hle' hqt)
    exact Number.le_trans hge' (Number.le_trans hr'r hrp)

theorem Holds.at?_eq_none_iff (h : Holds s records) :
    s.at? t = none ↔ ∀ r ∈ records, ¬ r.time ≤ t := by
  rw [at?_eq_upTo h.ascending, Option.map_eq_none_iff, List.getLast?_eq_none_iff,
    List.eq_nil_iff_forall_not_mem]
  constructor
  · intro hnone r hr hle
    obtain ⟨p, hp, hpr, -⟩ := h.exists_point hr (Number.le_self_of_le_left hle)
    exact hnone p (mem_upTo.2 ⟨hp, Number.le_trans hpr hle⟩)
  · intro hnone p hp
    obtain ⟨hmem, hle⟩ := mem_upTo.1 hp
    obtain ⟨r, hr, htime⟩ := h.exists_record hmem
    exact hnone r hr (Number.le_trans (Number.beq_iff_le.1 htime).1 hle)

/-- What is recorded at times other than `NaN`, in any order of time, gives points in strict order,
one for each time that was recorded for, with the frequency recorded last for it. At any time
bisection counts the points that are not later, and the frequency is that of the greatest recorded
time that is not after it, if there is one. -/
theorem history_of_records (hr : ∀ r ∈ records, r.time.isNaN = false) :
    (ofPoints records).points.toList.Pairwise (fun p q => p.time < q.time) ∧
      (∀ r ∈ records, ∃! p, p ∈ (ofPoints records).points.toList ∧ (p.time == r.time) = true) ∧
      (∀ p ∈ (ofPoints records).points.toList, (∃ r ∈ records, (r.time == p.time) = true) ∧
        lastAt records p.time = some p.frequency) ∧
      ∀ t, (ofPoints records).reached t =
          ((ofPoints records).points.toList.filter fun p => decide (p.time ≤ t)).length ∧
        (∀ f, (ofPoints records).at? t = some f ↔ ∃ u, LatestBy records t u ∧
          lastAt records u = some f) ∧
        ((ofPoints records).at? t = none ↔ ∀ r ∈ records, ¬ r.time ≤ t) := by
  have hproper : ∀ r ∈ records, r.time ≤ r.time := fun r hmem => Number.le_self_of_isNaN (hr r hmem)
  have h : (ofPoints records).Holds records := holds_of_records hproper
  refine ⟨h.sorted, fun r hmem => ?_, fun p hp => ⟨h.exists_record hp, h.lastAt_point hp⟩,
    fun t => ⟨?_, ?_, ?_⟩⟩
  · obtain ⟨p, hp, hpr, hrp⟩ := h.exists_point hmem (hproper r hmem)
    refine ⟨p, ⟨hp, Number.beq_iff_le.2 ⟨hpr, hrp⟩⟩, fun q ⟨hq, htime⟩ => ?_⟩
    obtain ⟨hqr, hrq⟩ := Number.beq_iff_le.1 htime
    exact h.ascending.eq_of_beq hq hp
      (Number.beq_iff_le.2 ⟨Number.le_trans hqr hrp, Number.le_trans hpr hrq⟩)
  · exact reached_eq h.ascending t
  · exact fun f => h.at?_eq_some_iff
  · exact h.at?_eq_none_iff

/-- Times in no order, one of them twice. -/
def unorderedRecords : List FrequencyChange := [⟨5, 274⟩, ⟨1, 100⟩, ⟨2, 135⟩, ⟨1, 90⟩]

theorem history_of_unorderedRecords : (∀ r ∈ unorderedRecords, r.time.isNaN = false) ∧
    (ofPoints unorderedRecords).at? 1.5 = some 90 ∧ (ofPoints unorderedRecords).at? 0.5 = none := by
  have hr : ∀ r ∈ unorderedRecords, r.time.isNaN = false := by decide +kernel
  obtain ⟨-, -, -, hat⟩ := history_of_records hr
  refine ⟨hr, ((hat 1.5).2.1 90).2 ⟨1, ⟨?_, ?_, ?_⟩, ?_⟩, (hat 0.5).2.2.2 ?_⟩
  all_goals decide +kernel

end RadarTimeline.FrequencyHistory
