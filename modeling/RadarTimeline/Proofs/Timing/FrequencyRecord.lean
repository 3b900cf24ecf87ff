import RadarTimeline.Timing.FrequencyHistory
import RadarTimeline.Proofs.Number.Order

namespace RadarTimeline.FrequencyHistory

def lastAt (records : List FrequencyChange) (t : Float) : Option Float :=
  (records.filter fun r => r.time == t).getLast?.map (·.frequency)

theorem lastAt_append (records : List FrequencyChange) (r : FrequencyChange) (t : Float) :
    lastAt (records ++ [r]) t = if r.time == t then some r.frequency else lastAt records t := by
  rw [lastAt, List.filter_append]
  by_cases h : r.time == t <;> simp [h, lastAt]

/-- A history has one point for each time that something was recorded for, in order of time. -/
structure Holds (s : FrequencyHistory) (records : List FrequencyChange) : Prop where
  proper : ∀ p ∈ s.points.toList, p.time ≤ p.time
  sorted : s.points.toList.Pairwise fun p q => p.time < q.time
  points_iff : ∀ t f, (∃ p ∈ s.points.toList, (p.time == t) = true ∧ p.frequency = f) ↔
    lastAt records t = some f

theorem holds_new : Holds {} [] :=
  ⟨by simp, by simp, by simp [lastAt]⟩

/-- The points of a list on both sides of a time. -/
structure Divides (t : Float) (before after : List FrequencyChange) : Prop where
  before : ∀ p ∈ before, p.time ≤ t
  after : ∀ p ∈ after, t < p.time

variable {s : FrequencyHistory} {records before after : List FrequencyChange} {t f : Float}

/-- Bisection ends at the first point that is later, if the points are divided at the time. -/
theorem laterFrom_divides (h : Divides t before after) (lo hi : Nat) (hlo : lo ≤ before.length)
    (hhi : before.length ≤ hi) (hsize : hi ≤ (before ++ after).length) :
    laterFrom (before ++ after).toArray t lo hi = before.length := by
  fun_induction laterFrom (before ++ after).toArray t lo hi with
  | case1 lo hi hlt mid p hmid hle ih =>
    refine ih ?_ hhi hsize
    -- a point that is reached is one of those before the time
    by_contra hge
    rw [List.getElem?_toArray, List.getElem?_append_right (by omega)] at hmid
    exact Number.not_lt_of_le hle (h.after p (List.mem_of_getElem? hmid))
  | case2 lo hi hlt mid p hmid hle ih =>
    refine ih hlo ?_ (by omega)
    by_contra hge
    rw [List.getElem?_toArray, List.getElem?_append_left (by omega)] at hmid
    exact hle (h.before p (List.mem_of_getElem? hmid))
  | case3 lo hi hlt mid hmid =>
    rw [List.getElem?_toArray, List.getElem?_eq_none_iff] at hmid
    omega
  | case4 lo hi hge => omega

/-- Points in order are divided at every time that is no `NaN`. -/
theorem exists_divides {points : List FrequencyChange} (hp : ∀ p ∈ points, p.time ≤ p.time)
    (hs : points.Pairwise fun p q => p.time < q.time) (ht : t ≤ t) :
    ∃ before after, points = before ++ after ∧ Divides t before after := by
  induction points with
  | nil => exact ⟨[], [], rfl, by simp, by simp⟩
  | cons p points ih =>
    obtain ⟨hproper, hp⟩ := List.forall_mem_cons.1 hp
    obtain ⟨hlater, hs⟩ := List.pairwise_cons.1 hs
    rcases Number.le_or_lt hproper ht with hle | hlt
    · obtain ⟨before, after, rfl, h⟩ := ih hp hs
      exact ⟨p :: before, after, rfl, List.forall_mem_cons.2 ⟨hle, h.before⟩, h.after⟩
    · refine ⟨[], p :: points, rfl, by simp, List.forall_mem_cons.2 ⟨hlt, fun q hq => ?_⟩⟩
      exact Number.lt_of_lt_of_le hlt (Number.le_of_lt (hlater q hq))

theorem reached_of_divides (hpoints : s.points.toList = before ++ after)
    (h : Divides t before after) :
    s.reached t = before.length := by
  have harray : s.points = (before ++ after).toArray := by rw [← hpoints]
  rw [reached, harray]
  exact laterFrom_divides h 0 _ (Nat.zero_le _) (by simp) (Nat.le_refl _)

theorem pointAt?_of_divides (hpoints : s.points.toList = before ++ after)
    (h : Divides t before after) :
    s.pointAt? t = before.getLast? := by
  rw [pointAt?, reached_of_divides hpoints h]
  cases before using List.reverseRecOn with
  | nil => rfl
  | append_singleton init p =>
    rw [List.getLast?_concat, List.length_append]
    change s.points[init.length]? = some p
    rw [← Array.getElem?_toList, hpoints]
    simp

theorem insertIdx_length_append {α : Type} (as bs : List α) (a : α) :
    (as ++ bs).insertIdx as.length a = as ++ a :: bs := by
  induction as with
  | nil => rfl
  | cons b as ih => simp [ih]

theorem modify_length_append {α : Type} (as bs : List α) (a : α) (g : α → α) :
    (as ++ a :: bs).modify as.length g = as ++ g a :: bs := by
  induction as with
  | nil => rfl
  | cons b as ih => simp [ih]

theorem insertAt_toList (hpoints : s.points.toList = before ++ after) (p : FrequencyChange) :
    (insertAt s.points before.length p).toList = before ++ p :: after := by
  have hle : before.length ≤ s.points.size := by
    rw [← Array.length_toList, hpoints]
    simp
  rw [insertAt, dif_pos hle, Array.toList_insertIdx, hpoints, insertIdx_length_append]

/-- What is recorded takes the place of the point of its time, or goes between the points before and
after. -/
theorem set_of_divides (f : Float) (hpoints : s.points.toList = before ++ after)
    (h : Divides t before after) :
    (∃ init p, before = init ++ [p] ∧ (p.time == t) = true ∧
      (s.set t f).points.toList = init ++ ⟨p.time, f⟩ :: after) ∨
    (∀ p ∈ before.getLast?, ¬ (p.time == t) = true) ∧
      (s.set t f).points.toList = before ++ ⟨t, f⟩ :: after := by
  have hreached := reached_of_divides hpoints h
  have hat := pointAt?_of_divides hpoints h
  cases before using List.reverseRecOn with
  | nil =>
    right
    refine ⟨by simp, ?_⟩
    rw [set, hat, hreached]
    exact insertAt_toList hpoints _
  | append_singleton init p =>
    rw [List.getLast?_concat] at hat
    by_cases hp : p.time == t
    · left
      refine ⟨init, p, rfl, hp, ?_⟩
      have hn : s.reached t - 1 = init.length := by
        rw [hreached, List.length_append]
        rfl
      rw [set, hat]
      simp only [hp, if_true, hn, Array.toList_modify, hpoints, List.append_assoc,
        List.singleton_append, modify_length_append]
    · right
      refine ⟨by simpa using hp, ?_⟩
      rw [set, hat, hreached]
      simp only [hp, Bool.false_eq_true, if_false]
      exact insertAt_toList hpoints _

theorem Holds.exists_set (h : Holds s records) (ht : t ≤ t) (f : Float) :
    ∃ before old after time, s.points.toList = before ++ old ++ after ∧
      (s.set t f).points.toList = before ++ ⟨time, f⟩ :: after ∧ (time == t) = true ∧
      (∀ p ∈ before, p.time < t) ∧ (∀ p ∈ old, (p.time == t) = true) ∧ ∀ p ∈ after, t < p.time := by
  obtain ⟨before, after, hpoints, hd⟩ := exists_divides h.proper h.sorted ht
  have hsorted := h.sorted
  rw [hpoints] at hsorted
  have hbefore := (List.pairwise_append.1 hsorted).1
  rcases set_of_divides f hpoints hd with ⟨init, p, rfl, hp, hset⟩ | ⟨hlast, hset⟩
  · refine ⟨init, [p], after, p.time, hpoints, hset, hp, fun q hq =>
      ?_, by simpa using hp, hd.after⟩
    have hqp := (List.pairwise_append.1 hbefore).2.2 q hq p List.mem_cons_self
    exact Number.lt_of_lt_of_le hqp (Number.beq_iff_le.1 hp).1
  · refine ⟨before, [], after,
      t, by rw [List.append_nil, hpoints], hset, Number.beq_iff_le.2 ⟨ht, ht⟩,
      fun q hq => ?_, by simp, hd.after⟩
    -- only the last point before could be at the time, and it is not
    have hself := Number.le_self_of_le_left (hd.before q hq)
    refine (Number.le_or_lt ht hself).resolve_left fun hle => ?_
    obtain ⟨init, p, rfl⟩ := List.eq_nil_or_concat' before |>.resolve_left (List.ne_nil_of_mem hq)
    refine hlast p (by simp) (Number.beq_iff_le.2 ⟨hd.before p (by simp), ?_⟩)
    rcases List.mem_append.1 hq with hq | hq
    · exact Number.le_trans hle
        (Number.le_of_lt ((List.pairwise_append.1 hbefore).2.2 q hq p List.mem_cons_self))
    · rw [List.mem_singleton.1 hq] at hle
      exact hle

/-- After a time has been recorded for, it has the new frequency, and all other times have what they
had. -/
theorem Holds.set (h : Holds s records) (ht : t ≤ t) (f : Float) :
    Holds (s.set t f) (records ++ [⟨t, f⟩]) := by
  obtain ⟨before, old, after, time, hold, hnew, htime, hbefore, hsame, hafter⟩ := h.exists_set ht f
  obtain ⟨hproper, hsorted, hpoints⟩ := h
  simp only [hold] at hproper hsorted hpoints
  obtain ⟨hle, hge⟩ := Number.beq_iff_le.1 htime
  refine ⟨?_, ?_, fun u g => ?_⟩
  · simp only [hnew, List.forall_mem_append, List.forall_mem_cons] at hproper ⊢
    exact ⟨hproper.1.1, Number.le_trans hle hge, hproper.2⟩
  · rw [List.pairwise_append, List.pairwise_append] at hsorted
    rw [hnew, List.pairwise_append, List.pairwise_cons]
    refine ⟨hsorted.1.1, ⟨fun q hq => Number.lt_of_le_of_lt hle (hafter q hq), hsorted.2.1⟩,
      fun p hp => ?_⟩
    refine List.forall_mem_cons.2 ⟨Number.lt_of_lt_of_le (hbefore p hp) hge, fun q hq => ?_⟩
    exact hsorted.2.2 p (List.mem_append_left _ hp) q hq
  · simp only [hnew, lastAt_append, List.mem_append, List.mem_cons]
    by_cases htu : t == u
    · -- of all points only the new one is at this time
      rw [if_pos htu, Option.some_inj]
      obtain ⟨htu, hut⟩ := Number.beq_iff_le.1 htu
      constructor
      · rintro ⟨p, hp | rfl | hp, hpu, rfl⟩
        · have hup := (Number.beq_iff_le.1 hpu).2
          exact (Number.not_lt_of_le (Number.le_trans htu hup) (hbefore p hp)).elim
        · rfl
        · have hpu := (Number.beq_iff_le.1 hpu).1
          exact (Number.not_lt_of_le (Number.le_trans hpu hut) (hafter p hp)).elim
      · rintro rfl
        exact ⟨_, .inr (.inl rfl), Number.beq_iff_le.2
          ⟨Number.le_trans hle htu, Number.le_trans hut hge⟩, rfl⟩
    · rw [if_neg htu, ← hpoints]
      -- a point at another time is neither the new one nor one that it replaces
      have hother : ∀ x : Float, (x == t) = true → ¬ (x == u) = true := by
        intro x hxt hxu
        obtain ⟨hxt, htx⟩ := Number.beq_iff_le.1 hxt
        obtain ⟨hxu, hux⟩ := Number.beq_iff_le.1 hxu
        exact htu (Number.beq_iff_le.2 ⟨Number.le_trans htx hxu, Number.le_trans hux hxt⟩)
      constructor
      · rintro ⟨p, hp | rfl | hp, hpu, hpg⟩
        · exact ⟨p, List.mem_append_left _ (List.mem_append_left _ hp), hpu, hpg⟩
        · exact (hother time htime hpu).elim
        · exact ⟨p, List.mem_append_right _ hp, hpu, hpg⟩
      · rintro ⟨p, hp, hpu, hpg⟩
        rcases List.mem_append.1 hp with hp | hp
        · rcases List.mem_append.1 hp with hp | hp
          · exact ⟨p, .inl hp, hpu, hpg⟩
          · exact (hother p.time (hsame p hp) hpu).elim
        · exact ⟨p, .inr (.inr hp), hpu, hpg⟩

end RadarTimeline.FrequencyHistory
