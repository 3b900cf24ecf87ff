import RadarTimeline.Proofs.Timing.PhaseInEffect

namespace RadarTimeline

deriving instance DecidableEq for Timed

variable {α : Type} {records stored stored' before after : List (Timed α)}
    {e e' : Timed α} {t : Float}

/-- A list is the stable sort by time of another. -/
structure StablySorted (records stored : List (Timed α)) : Prop where
  sorted : stored.Pairwise fun e e' => e.time ≤ e'.time
  perm : stored.Perm records
  /-- Events at one time are in the order in which they were recorded. -/
  stable : ∀ t, (stored.filter fun e => e.time == t) = records.filter fun e => e.time == t

/-- Of the recorded events an event has the greatest time that is not after `t`, and was the last to
be recorded at that time. -/
structure InEffect (records : List (Timed α)) (t : Float) (e : Timed α) : Prop where
  notAfter : ¬ t < e.time
  greatest : ∀ r ∈ records, ¬ t < r.time → r.time ≤ e.time
  latest : (records.filter fun r => r.time == e.time).getLast? = some e

/-- What is kept of events, and what is looked up in it, is right for what was recorded. -/
structure Recalls (records stored : List (Timed α)) (lookup : Float → Option α) : Prop where
  stablySorted : StablySorted records stored
  eq_some_iff : ∀ t a, lookup t = some a ↔ ∃ e, InEffect records t e ∧ e.event = a
  eq_none_iff : ∀ t, lookup t = none ↔ ∀ e ∈ records, t < e.time

theorem stablySorted_nil : StablySorted ([] : List (Timed α)) [] := ⟨.nil, .nil, fun _ => rfl⟩

theorem stablySorted_self (h : stored.Pairwise fun e e' => e.time ≤ e'.time) :
    StablySorted stored stored :=
  ⟨h, .refl _, fun _ => rfl⟩

/-- Events in order are divided at every time that is no `NaN`. -/
theorem exists_split (hs : stored.Pairwise fun e e' => e.time ≤ e'.time)
    (hp : ∀ e ∈ stored, e.time ≤ e.time) (ht : t ≤ t) :
    ∃ before after, stored = before ++ after ∧ (∀ e ∈ before, e.time ≤ t) ∧ ∀ e ∈ after, t <
      e.time := by
  induction stored with
  | nil => exact ⟨[], [], rfl, by simp, by simp⟩
  | cons e stored ih =>
    obtain ⟨hproper, hp⟩ := List.forall_mem_cons.1 hp
    obtain ⟨hlater, hs⟩ := List.pairwise_cons.1 hs
    rcases Number.le_or_lt hproper ht with hle | hlt
    · obtain ⟨before, after, rfl, hbefore, hafter⟩ := ih hs hp
      exact ⟨e :: before, after, rfl, List.forall_mem_cons.2 ⟨hle, hbefore⟩, hafter⟩
    · refine ⟨[], e :: stored, rfl, by simp, List.forall_mem_cons.2 ⟨hlt, fun e' he' => ?_⟩⟩
      exact Number.lt_of_lt_of_le hlt (hlater e' he')

/-- An event goes behind those that are not later, and in front of the others. -/
theorem StablySorted.insert (h : StablySorted records (before ++ after))
    (hbefore : ∀ b ∈ before, b.time ≤ e.time) (hafter : ∀ a ∈ after, e.time < a.time) :
    StablySorted (records ++ [e]) (before ++ e :: after) where
  sorted := by
    obtain ⟨hb, ha, hba⟩ := List.pairwise_append.1 h.sorted
    refine List.pairwise_append.2
      ⟨hb, List.pairwise_cons.2 ⟨fun a ha => Number.le_of_lt (hafter a ha), ha⟩,
      fun b hb => List.forall_mem_cons.2 ⟨hbefore b hb, hba b hb⟩⟩
  perm := List.perm_middle.trans ((h.perm.cons e).trans (List.perm_append_singleton e records).symm)
  stable := by
    intro t
    have ht := h.stable t
    rw [List.filter_append] at ht
    rw [List.filter_append, List.filter_append, ← ht, List.filter_cons]
    by_cases het : (e.time == t) = true
    · have hnone : (after.filter fun a => a.time == t) = [] := by
        refine List.filter_eq_nil_iff.2 fun a ha hat => ?_
        have hle : a.time ≤ e.time :=
          Number.le_trans (Number.beq_iff_le.1 hat).1 (Number.beq_iff_le.1 het).2
        exact Number.not_lt_of_le hle (hafter a ha)
      simp [het, hnone]
    · simp [het]

/-- What is recorded is in effect from the last of the events that are not later. -/
theorem StablySorted.inEffect_of_last (h : StablySorted records stored)
    (hr : ∀ r ∈ records, r.time ≤ r.time)
    (hlast : (stored.filter fun e => !decide (e.time > t)).getLast? = some e) :
    InEffect records t e := by
  have hproper : ∀ e ∈ stored, e.time ≤ e.time := fun e he => hr e (h.perm.mem_iff.1 he)
  obtain ⟨hmem, hnot⟩ := List.mem_filter.1 (List.mem_of_getLast? hlast)
  simp only [Bool.not_eq_true', decide_eq_false_iff_not] at hnot
  obtain ⟨init, hinit⟩ := List.getLast?_eq_some_iff.1 hlast
  have hsorted := h.sorted.filter fun e => !decide (e.time > t)
  rw [hinit] at hsorted
  refine ⟨hnot, fun r hrec hrt => ?_, ?_⟩
  · have hmem' : r ∈ init ++ [e] := by
      rw [← hinit]
      exact List.mem_filter.2 ⟨h.perm.mem_iff.2 hrec, by simpa using hrt⟩
    rcases List.mem_append.1 hmem' with hmem' | hmem'
    · exact (List.pairwise_append.1 hsorted).2.2 r hmem' e List.mem_cons_self
    · rw [List.mem_singleton.1 hmem']
      exact hproper e hmem
  · -- none of the events at its time is later than `t`
    have hsame : (stored.filter fun r => r.time == e.time) =
        (stored.filter fun r => !decide (r.time > t)).filter fun r => r.time == e.time := by
      rw [List.filter_filter]
      refine List.filter_congr fun r _ => ?_
      by_cases hre : (r.time == e.time) = true
      · have hrt : ¬ t < r.time :=
          fun hlt => hnot (Number.lt_of_lt_of_le hlt (Number.beq_iff_le.1 hre).1)
        simp [hre, hrt]
      · simp [hre]
    have hself : (e.time == e.time) = true := Number.beq_iff_le.2 ⟨hproper e hmem, hproper e hmem⟩
    rw [← h.stable, hsame, hinit, List.filter_append, List.filter_cons, if_pos hself]
    simp

theorem InEffect.unique (h : InEffect records t e) (h' : InEffect records t e') : e = e' := by
  have hmem : e ∈ records := (List.mem_filter.1 (List.mem_of_getLast? h.latest)).1
  have hmem' : e' ∈ records := (List.mem_filter.1 (List.mem_of_getLast? h'.latest)).1
  have hle : e.time ≤ e'.time := h'.greatest e hmem h.notAfter
  have hge : e'.time ≤ e.time := h.greatest e' hmem' h'.notAfter
  have hsame : (records.filter fun r => r.time == e.time) =
    records.filter fun r => r.time == e'.time := by
    refine List.filter_congr fun r _ => Bool.eq_iff_iff.2 ?_
    rw [Number.beq_iff_le, Number.beq_iff_le]
    exact ⟨fun hre => ⟨Number.le_trans hre.1 hle, Number.le_trans hge hre.2⟩,
      fun hre => ⟨Number.le_trans hre.1 hge, Number.le_trans hle hre.2⟩⟩
  exact Option.some_inj.1 (h.latest.symm.trans (hsame ▸ h'.latest))

theorem StablySorted.recalls (h : StablySorted records stored)
    (hr : ∀ r ∈ records, r.time ≤ r.time) :
    Recalls records stored
      fun t => (stored.takeWhile fun e => !decide (e.time > t)).getLast?.map (·.event) where
  stablySorted := h
  eq_some_iff := by
    intro t a
    rw [takeWhile_not_later h.sorted, Option.map_eq_some_iff]
    refine exists_congr fun e => and_congr_left fun _ => ⟨h.inEffect_of_last hr, fun he => ?_⟩
    have hmem : e ∈ records := (List.mem_filter.1 (List.mem_of_getLast? he.latest)).1
    have hmem : e ∈ stored.filter fun e => !decide (e.time > t) :=
      List.mem_filter.2 ⟨h.perm.mem_iff.2 hmem, by simpa using he.notAfter⟩
    obtain ⟨last, hlast⟩ :=
      Option.ne_none_iff_exists'.1 (mt List.getLast?_eq_none_iff.1 (List.ne_nil_of_mem hmem))
    rw [hlast, (h.inEffect_of_last hr hlast).unique he]
  eq_none_iff := by
    intro t
    rw [takeWhile_not_later h.sorted, Option.map_eq_none_iff, List.getLast?_eq_none_iff,
      List.filter_eq_nil_iff]
    simp [h.perm.mem_iff]

namespace PhaseHistory

variable {h : PhaseHistory} {iv : Interval} {events : List (Timed Phase)}

def ofEvents (events : List (Timed Phase)) : PhaseHistory :=
  events.foldl (fun h e => h.set e.time e.event) {}

theorem insert_append {e : Timed Phase} {later : List (Timed Phase)}
    (hlater : ∀ a ∈ later, e.time < a.time)
    (rest : List (Timed Phase)) : insert e (later ++ rest) = later ++ insert e rest := by
  induction later with
  | nil => rfl
  | cons a later ih =>
    obtain ⟨ha, hlater⟩ := List.forall_mem_cons.1 hlater
    rw [List.cons_append, insert, if_pos ha, ih hlater, List.cons_append]

theorem insert_of_not_later {e : Timed Phase} {rest : List (Timed Phase)}
    (hrest : ∀ b ∈ rest, b.time ≤ e.time) : insert e rest = e :: rest := by
  cases rest with
  | nil => rfl
  | cons b rest => rw [insert, if_neg (Number.not_lt_of_le (hrest b List.mem_cons_self))]

theorem events_set_of_split {p : Phase} {before after : List (Timed Phase)}
    (hevents : h.events = before ++ after)
    (hbefore : ∀ b ∈ before, b.time ≤ t) (hafter : ∀ a ∈ after, t < a.time) :
    (h.set t p).events = before ++ ⟨t, p⟩ :: after := by
  have hlatest : h.latestFirst = after.reverse ++ before.reverse := by
    rw [← List.reverse_append, ← hevents, events, List.reverse_reverse]
  have hset : (h.set t p).latestFirst = insert ⟨t, p⟩ h.latestFirst := rfl
  rw [events, hset, hlatest, insert_append (by simpa using hafter),
    insert_of_not_later (by simpa using hbefore)]
  simp

theorem stablySorted_ofEvents {records : List (Timed Phase)} (hr : ∀ r ∈ records, r.time ≤ r.time) :
    StablySorted records (ofEvents records).events := by
  induction records using List.reverseRecOn with
  | nil => exact stablySorted_nil
  | append_singleton records r ih =>
    obtain ⟨hrecords, hr⟩ := List.forall_mem_append.1 hr
    have hrtime : r.time ≤ r.time := hr r List.mem_cons_self
    have h := ih hrecords
    obtain ⟨before, after, hevents, hbefore, hafter⟩ :=
      exists_split h.sorted (fun e he => hrecords e (h.perm.mem_iff.1 he)) hrtime
    have hset : ofEvents (records ++ [r]) = (ofEvents records).set r.time r.event :=
      List.foldl_append
    rw [hset, events_set_of_split hevents hbefore hafter]
    rw [hevents] at h
    exact h.insert hbefore hafter

theorem ordered_of_stablySorted {records : List (Timed Phase)} (hs : StablySorted records h.events)
    (hr : ∀ r ∈ records, r.time ≤ r.time) : h.Ordered :=
  ⟨fun e he => hr e (hs.perm.mem_iff.1 he), hs.sorted⟩

/-- What a history keeps of an interval. -/
structure Shows (h : PhaseHistory) (iv : Interval) : Prop where
  sorted : (h.within iv).Pairwise fun e e' => e.time ≤ e'.time
  inside : ∀ e ∈ h.within iv, iv.start ≤ e.time ∧ e.time ≤ iv.stop
  in_effect : ∀ t, iv.start ≤ t → t ≤ iv.stop → ∀ p, h.at? t = some p ↔
    ∃ e, InEffect (h.within iv) t e ∧ e.event = p

theorem Ordered.mem_inside (ho : h.Ordered) {e : Timed Phase} (he : e ∈ h.events.filter fun e =>
    !decide (e.time < iv.start) && decide (e.time ≤ iv.stop)) : iv.start ≤ e.time ∧
    e.time ≤ iv.stop := by
  obtain ⟨hmem, he⟩ := List.mem_filter.1 he
  simp only [Bool.and_eq_true, Bool.not_eq_true', decide_eq_false_iff_not, decide_eq_true_eq] at he
  exact ⟨(Number.le_or_lt (Number.le_refl iv.valid.1) (ho.proper e hmem)).resolve_right he.1, he.2⟩

theorem Ordered.within_inside (ho : h.Ordered) (iv : Interval) :
    ∀ e ∈ h.within iv, iv.start ≤ e.time ∧ e.time ≤ iv.stop := by
  have hstart : iv.start ≤ iv.start := Number.le_refl iv.valid.1
  have hle : iv.start ≤ iv.stop := Number.le_of_not_lt iv.valid.1 iv.valid.2.1 iv.valid.2.2.2
  cases hb : (h.events.filter fun e => decide (e.time < iv.start)).getLast? with
  | none =>
    rw [within_of_none hb]
    exact fun e he => ho.mem_inside he
  | some e =>
    rw [within_of_some hb]
    exact List.forall_mem_cons.2 ⟨⟨hstart, hle⟩, fun e he => ho.mem_inside he⟩

theorem Ordered.within_sorted (ho : h.Ordered) (iv : Interval) :
    (h.within iv).Pairwise fun e e' => e.time ≤ e'.time := by
  have hsorted := ho.sorted.filter fun e => !decide (e.time < iv.start) && decide (e.time ≤ iv.stop)
  cases hb : (h.events.filter fun e => decide (e.time < iv.start)).getLast? with
  | none => rwa [within_of_none hb]
  | some e =>
    rw [within_of_some hb]
    exact List.pairwise_cons.2 ⟨fun e he => (ho.mem_inside he).1, hsorted⟩

theorem Ordered.shows (ho : h.Ordered) (iv : Interval) : h.Shows iv where
  sorted := ho.within_sorted iv
  inside := ho.within_inside iv
  in_effect := by
    intro t hstart hstop p
    have hproper : ∀ e ∈ h.within iv, e.time ≤ e.time :=
      fun e he => Number.le_self_of_le_right (ho.within_inside iv e he).1
    have hlate := fun e he => not_later_eq (hproper e he) (Number.le_self_of_le_right hstart)
    rw [← ((stablySorted_self (ho.within_sorted iv)).recalls hproper).eq_some_iff t p,
      takeWhile_not_later (ho.within_sorted iv), List.filter_congr hlate,
      ← ho.lastBy_within hstart hstop]
    rfl

end PhaseHistory

end RadarTimeline
