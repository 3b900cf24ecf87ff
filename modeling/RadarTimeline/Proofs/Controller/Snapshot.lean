import RadarTimeline.Proofs.Controller.Replay

namespace RadarTimeline

theorem Line.mem_all (l : Line) : l ∈ Line.all := List.mem_of_getElem? (Line.all_index l)

namespace Controller.Subcycles

variable {κ : Type}

theorem periodsOf_lookup [DecidableEq κ] {f : κ → Stream} {keys : List κ}
    {out : List (κ × List Interval)}
    (h : periodsOf (keys.map fun k => (k, f k)) = .ok out) {k : κ} (hk : k ∈ keys) :
    ((out.lookup k).getD []).map Interval.ends = (f k).closed.toList := by
  unfold periodsOf at h
  rw [mapM_eq_ok_iff, List.forall₂_map_left_iff] at h
  induction h with
  | nil => cases hk
  | @cons x entry keys out hx _ ih =>
    obtain ⟨ivs, hivs, he⟩ := bind_eq_ok_iff.1 hx
    cases he
    rw [List.lookup_cons]
    by_cases hkx : k = x
    · subst hkx
      simpa using Interval.mapM_make_eq_ok_iff.1 hivs
    · have hne : (k == x) = false := by simpa using hkx
      rw [hne]
      exact ih ((List.mem_cons.1 hk).resolve_left hkx)

/-- The periods of streams can be taken if all of them are intervals. -/
theorem exists_periodsOf_iff_valid {streams : List (κ × Stream)} :
    (∃ out, periodsOf streams = .ok out) ↔
      ∀ x ∈ streams, ∀ p ∈ x.2.closed.toList, Interval.Valid p.1 p.2 := by
  unfold periodsOf
  simp only [mapM_eq_ok_iff]
  induction streams with
  | nil => simp
  | cons x streams ih =>
    rw [List.forall_mem_cons, ← ih, ← Interval.exists_map_ends_iff]
    constructor
    · rintro ⟨_, h⟩
      obtain ⟨entry, out, hx, hout, rfl⟩ := List.forall₂_cons_left_iff.1 h
      obtain ⟨ivs, hivs, -⟩ := bind_eq_ok_iff.1 hx
      exact ⟨⟨ivs, Interval.mapM_make_eq_ok_iff.1 hivs⟩, out, hout⟩
    · rintro ⟨⟨ivs, hivs⟩, out, hout⟩
      refine ⟨(x.1, ivs) :: out, List.Forall₂.cons ?_ hout⟩
      exact bind_eq_ok_iff.2 ⟨ivs, Interval.mapM_make_eq_ok_iff.2 hivs, rfl⟩

theorem exists_periodsOf_iff {f : κ → Stream} {keys : List κ} :
    (∃ out, periodsOf (keys.map fun k => (k, f k)) = .ok out) ↔
      ∀ k ∈ keys, ∀ p ∈ (f k).closed.toList, Interval.Valid p.1 p.2 := by
  rw [exists_periodsOf_iff_valid, List.forall_mem_map]

theorem snapshot_eq_ok_iff {index : Nat} {on off : Float} {streams : List (κ × Stream)}
    {s : Snapshot κ} :
    snapshot index on off streams = .ok s ↔
      s.index = index ∧ s.interval.ends = (on, off) ∧ periodsOf streams = .ok s.streams := by
  unfold snapshot
  rw [bind_eq_ok_iff]
  constructor
  · rintro ⟨out, hout, h⟩
    obtain ⟨iv, hiv, h⟩ := bind_eq_ok_iff.1 h
    cases h
    obtain ⟨rfl, rfl⟩ := Interval.make_eq_ok_iff.1 hiv
    exact ⟨rfl, rfl, hout⟩
  · rintro ⟨rfl, hends, hout⟩
    obtain ⟨rfl, rfl⟩ := Prod.mk.inj hends
    exact ⟨_, hout, bind_eq_ok_iff.2 ⟨_, Interval.make_eq_ok_iff.2 ⟨rfl, rfl⟩, rfl⟩⟩

/-- A subcycle is closed if all streams are off and its end is not before its start. -/
theorem close_eq_ok_iff {name : κ → String} {time : Float} {pos : Position}
    {streams : List (κ × Stream)} {c c' : Subcycles κ} {s : Snapshot κ} :
    close name time pos streams c = .ok s c' ↔
      (∀ x ∈ streams, x.2.isOn = false) ∧
        ∃ since, c.bounds.openedAt = some since ∧ ¬ time < since ∧
          snapshot c.count since time streams = .ok s ∧
          c' = ⟨⟨c.bounds.closed.push (since, time), none⟩, c.snapshots.push s⟩ := by
  obtain ⟨⟨closed, opened⟩, snapshots⟩ := c
  unfold close
  cases hf : streams.find? (·.2.isOn) with
  | some x =>
    have hx := List.find?_some hf
    have hm := List.mem_of_find?_eq_some hf
    constructor
    · rintro ⟨⟩
    · rintro ⟨hoff, -⟩
      rw [hoff x hm] at hx
      cases hx
  | none =>
    have hoff : ∀ x ∈ streams, x.2.isOn = false := by
      simpa using List.find?_eq_none.1 hf
    rcases opened with _ | since
    · simp
    · by_cases ht : time < since
      · simp [Stream.turnOff, ht]
      · simp only [Stream.turnOff, ht, if_false]
        constructor
        · intro h
          cases hs : snapshot (count ⟨⟨closed, some since⟩, snapshots⟩) since time streams with
          | error fault => simp [hs] at h
          | ok s' =>
            rw [hs] at h
            cases h
            exact ⟨hoff, since, rfl, ht, hs, rfl⟩
        · rintro ⟨-, _, ⟨⟩, -, hs, rfl⟩
          rw [hs]

/-- A close is refused, or it ends the subcycle and then may not be able to record it. -/
theorem close_cases (name : κ → String) (time : Float) (pos : Position)
    (streams : List (κ × Stream)) (c : Subcycles κ) :
    (∃ e, close name time pos streams c = .error (.program e) c) ∨
      ∃ since, c.bounds.openedAt = some since ∧ ¬ time < since ∧
        ((∃ f, snapshot c.count since time streams = .error f ∧
            close name time pos streams c =
              .error (.interval f) ⟨⟨c.bounds.closed.push (since, time), none⟩, c.snapshots⟩) ∨
          ∃ s, snapshot c.count since time streams = .ok s ∧
            close name time pos streams c =
              .ok s ⟨⟨c.bounds.closed.push (since, time), none⟩, c.snapshots.push s⟩) := by
  obtain ⟨⟨closed, opened⟩, snapshots⟩ := c
  unfold close
  cases streams.find? (·.2.isOn) with
  | some x => exact .inl ⟨_, rfl⟩
  | none =>
    rcases opened with _ | since
    · exact .inl ⟨_, rfl⟩
    · by_cases ht : time < since
      · refine .inl ⟨⟨.switch boundsName .offBeforeOn, pos⟩, ?_⟩
        simp only [Stream.turnOff, ht, if_true]
      · refine .inr ⟨since, rfl, ht, ?_⟩
        simp only [Stream.turnOff, ht, if_false]
        cases hs : snapshot (count ⟨⟨closed, some since⟩, snapshots⟩) since time streams with
        | error f => exact .inl ⟨f, rfl, rfl⟩
        | ok s => exact .inr ⟨s, rfl, rfl⟩

/-- Each snapshot has its place as index. -/
def Indexed (snapshots : Array (Snapshot κ)) : Prop :=
  ∀ (i : Nat) (s : Snapshot κ), snapshots[i]? = some s → s.index = i

theorem indexed_empty : Indexed (#[] : Array (Snapshot κ)) := by
  intro i s h
  simp at h

theorem Indexed.push {snapshots : Array (Snapshot κ)} {s : Snapshot κ} (h : Indexed snapshots)
    (hs : s.index = snapshots.size) : Indexed (snapshots.push s) := by
  intro i s' hi
  rw [Array.getElem?_push] at hi
  split_ifs at hi with he
  · cases hi
    rw [hs, he]
  · exact h i s' hi

end Controller.Subcycles

end RadarTimeline
