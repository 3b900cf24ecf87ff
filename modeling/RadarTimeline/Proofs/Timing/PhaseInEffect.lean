import RadarTimeline.Timing.PhaseHistory
import RadarTimeline.Proofs.Number.Order

namespace RadarTimeline

section Initial

variable {α : Type} {P Q : α → Bool} {l : List α}

theorem takeWhile_eq_filter (h : l.Pairwise fun x y => P y = true → P x = true) :
    l.takeWhile P = l.filter P := by
  induction l with
  | nil => rfl
  | cons a l ih =>
    obtain ⟨ha, hl⟩ := List.pairwise_cons.1 h
    by_cases hP : P a = true
    · rw [List.takeWhile_cons_of_pos hP, List.filter_cons_of_pos hP, ih hl]
    · rw [List.takeWhile_cons_of_neg hP, List.filter_cons_of_neg hP, eq_comm,
        List.filter_eq_nil_iff]
      exact fun b hb hPb => hP (ha b hb hPb)

theorem filter_eq_append (h : l.Pairwise fun x y => P y = true → P x = true)
    (hPQ : ∀ x ∈ l, P x = true → Q x = true) :
    l.filter Q = l.filter P ++ l.filter fun x => !P x && Q x := by
  induction l with
  | nil => rfl
  | cons a l ih =>
    obtain ⟨ha, hl⟩ := List.pairwise_cons.1 h
    obtain ⟨hPQa, hPQl⟩ := List.forall_mem_cons.1 hPQ
    have ih := ih hl hPQl
    by_cases hP : P a = true
    · simp [hP, hPQa hP, ih]
    · have hnone : l.filter P = [] :=
        List.filter_eq_nil_iff.2 fun b hb hPb => hP (ha b hb hPb)
      have hP' : P a = false := by simpa using hP
      rw [hnone, List.nil_append] at ih
      simp [List.filter_cons, hP', hnone, ih]

end Initial

section Later

variable {α : Type} {events : List (Timed α)} {e : Timed α} {t : Float}

theorem takeWhile_not_later (hs : events.Pairwise fun e e' => e.time ≤ e'.time) :
    events.takeWhile (fun e => !decide (e.time > t)) = events.filter fun e => !decide
      (e.time > t) := by
  refine takeWhile_eq_filter (hs.imp fun {e e'} hle hnot => ?_)
  simp only [Bool.not_eq_true', decide_eq_false_iff_not] at hnot ⊢
  exact fun hlt => hnot (Number.lt_of_lt_of_le hlt hle)

theorem not_later_eq (he : e.time ≤ e.time) (ht : t ≤ t) :
    (!decide (e.time > t)) = decide (e.time ≤ t) := by
  rcases Number.le_or_lt he ht with hle | hlt
  · simp [hle, Number.not_lt_of_le hle]
  · have hnot : ¬ e.time ≤ t := fun hle => Number.not_lt_of_le hle hlt
    simp [hlt, hnot]

end Later

namespace PhaseHistory

/-- What the last event not after a time sets. -/
def lastBy (events : List (Timed Phase)) (time : Float) : Option Phase :=
  (events.filter fun e => decide (e.time ≤ time)).getLast?.map (·.event)

/-- The events come in order of time, which no `NaN` disturbs. -/
structure Ordered (h : PhaseHistory) : Prop where
  proper : ∀ e ∈ h.events, e.time ≤ e.time
  sorted : h.events.Pairwise fun e e' => e.time ≤ e'.time

variable {h : PhaseHistory} {time t : Float} {p : Phase}

theorem ordered_new : ({} : PhaseHistory).Ordered := ⟨by simp [events], by simp [events]⟩

/-- An event that is not before the others is the last one. -/
theorem events_set (hl : ∀ e ∈ h.events, e.time ≤ time) :
    (h.set time p).events = h.events ++ [⟨time, p⟩] := by
  have hins : insert ⟨time, p⟩ h.latestFirst = ⟨time, p⟩ :: h.latestFirst := by
    cases hf : h.latestFirst with
    | nil => rfl
    | cons last before =>
      have hlast : ¬ last.time > time := by
        apply Number.not_lt_of_le (hl last _)
        rw [events, hf, List.mem_reverse]
        exact List.mem_cons_self
      rw [insert, if_neg hlast]
  rw [events, set, hins, List.reverse_cons]
  rfl

theorem Ordered.set (ho : h.Ordered) (hl : ∀ e ∈ h.events, e.time ≤ time) (ht : time ≤ time) :
    (h.set time p).Ordered := by
  refine ⟨fun e he => ?_, ?_⟩
  · rw [events_set hl] at he
    rcases List.mem_append.1 he with he | he
    · exact ho.proper e he
    · rw [List.mem_singleton.1 he]
      exact ht
  · rw [events_set hl, List.pairwise_append]
    refine ⟨ho.sorted, List.pairwise_singleton _ _, fun e he e' he' => ?_⟩
    rw [List.mem_singleton.1 he']
    exact hl e he

theorem Ordered.at?_eq_lastBy (ho : h.Ordered) (ht : t ≤ t) : h.at? t = lastBy h.events t := by
  rw [at?, lastBy, takeWhile_not_later ho.sorted,
    List.filter_congr fun e he => not_later_eq (ho.proper e he) ht]

theorem Ordered.at?_set_of_le (ho : h.Ordered) (hl : ∀ e ∈ h.events, e.time ≤ time)
    (ht : time ≤ t) : (h.set time p).at? t = some p := by
  rw [(ho.set hl (Number.le_self_of_le_left ht)).at?_eq_lastBy (Number.le_self_of_le_right ht),
    events_set hl, lastBy, List.filter_append, List.filter_cons_of_pos (by simpa using ht)]
  simp

theorem Ordered.at?_set_of_lt (ho : h.Ordered) (hl : ∀ e ∈ h.events, e.time ≤ time)
    (htime : time ≤ time) (ht : t < time) : (h.set time p).at? t = h.at? t := by
  have hproper : t ≤ t := Number.le_self_of_le_left (Number.le_of_lt ht)
  have hnot : ¬ time ≤ t := fun hle => Number.not_lt_of_le hle ht
  rw [(ho.set hl htime).at?_eq_lastBy hproper, ho.at?_eq_lastBy hproper, events_set hl, lastBy,
    lastBy, List.filter_append, List.filter_cons_of_neg (by simpa using hnot), List.filter_nil,
    List.append_nil]

theorem Ordered.at?_eq_of_le (ho : h.Ordered) (hl : ∀ e ∈ h.events, e.time ≤ time)
    (ht : time ≤ t) : h.at? t = h.at? time := by
  have hall : ∀ {x : Float}, time ≤ x → lastBy h.events x = h.events.getLast?.map (·.event) := by
    intro x hx
    rw [lastBy, List.filter_eq_self.2 fun e he => by simpa using Number.le_trans (hl e he) hx]
  rw [ho.at?_eq_lastBy (Number.le_self_of_le_right ht),
    ho.at?_eq_lastBy (Number.le_self_of_le_left ht), hall ht,
    hall (Number.le_self_of_le_left ht)]

theorem within_of_none {iv : Interval}
    (hb : (h.events.filter fun e => decide (e.time < iv.start)).getLast? = none) :
    h.within iv =
      h.events.filter fun e => !(decide (e.time < iv.start)) && decide (e.time ≤ iv.stop) := by
  unfold within
  simp only [hb]

theorem within_of_some {iv : Interval} {e : Timed Phase}
    (hb : (h.events.filter fun e => decide (e.time < iv.start)).getLast? = some e) :
    h.within iv = ⟨iv.start, e.event⟩ ::
      h.events.filter fun e => !(decide (e.time < iv.start)) && decide (e.time ≤ iv.stop) := by
  unfold within
  simp only [hb]

/-- What is kept of an interval tells the phase in effect at each of its times. -/
theorem Ordered.lastBy_within (ho : h.Ordered) {iv : Interval} (hstart : iv.start ≤ t)
    (hstop : t ≤ iv.stop) : lastBy (h.within iv) t = h.at? t := by
  have ht : t ≤ t := Number.le_self_of_le_right hstart
  let early (e : Timed Phase) : Bool := decide (e.time < iv.start)
  let reached (e : Timed Phase) : Bool := decide (e.time ≤ t)
  have hsplit : h.events.filter reached =
      h.events.filter early ++ h.events.filter fun e => !early e && reached e := by
    apply filter_eq_append
    · refine ho.sorted.imp fun {e e'} hle hlt => ?_
      rw [decide_eq_true_iff] at *
      exact Number.lt_of_le_of_lt hle hlt
    · intro e _ hlt
      rw [decide_eq_true_iff] at *
      exact Number.le_trans (Number.le_of_lt hlt) hstart
  have hinside : (h.events.filter fun e => !early e && decide (e.time ≤ iv.stop)).filter reached =
      h.events.filter fun e => !early e && reached e := by
    rw [List.filter_filter]
    refine List.filter_congr fun e _ => ?_
    by_cases he : e.time ≤ t
    · simp [reached, he, Number.le_trans he hstop]
    · simp [reached, he]
  rw [ho.at?_eq_lastBy ht, lastBy, lastBy, hsplit]
  cases hb : (h.events.filter early).getLast? with
  | none =>
    rw [List.getLast?_eq_none_iff.1 hb, List.nil_append, within_of_none hb]
    exact congrArg (fun l => Option.map _ (List.getLast? l)) hinside
  | some e =>
    have hcarried : reached ⟨iv.start, e.event⟩ = true := by simpa [reached] using hstart
    rw [within_of_some hb, List.filter_cons_of_pos hcarried]
    rw [hinside, List.getLast?_append, hb, List.getLast?_cons]
    cases (h.events.filter fun e => !early e && reached e).getLast? <;> rfl

end PhaseHistory

end RadarTimeline
