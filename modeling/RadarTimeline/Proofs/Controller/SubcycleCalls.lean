import RadarTimeline.Proofs.Controller.Snapshot
import RadarTimeline.Proofs.Timing.StreamCalls

namespace RadarTimeline.Controller.Subcycles

/-- A stream that was switched at finite times that are not negative. -/
def Switched (s : Stream) : Prop :=
  ∃ calls : List Stream.Call, (∀ call ∈ calls, call.Timely) ∧ s = Stream.reached {} calls

theorem Switched.bounded {s : Stream} (h : Switched s) : s.Bounded := by
  obtain ⟨calls, ht, rfl⟩ := h
  exact Stream.bounded_new.reached ht

/-- A call that sets a boundary. A close is given the streams of which it takes the periods. -/
inductive Call (κ : Type) where
  | openAt (time : Float) (line : Position)
  | close (time : Float) (line : Position) (streams : List (κ × Stream))

namespace Call

variable {κ : Type}

/-- The boundary that a call sets, unless it is refused. -/
def boundary : Call κ → Stream.Call
  | openAt time _ => .turnOn time
  | close time _ _ => .turnOff time

def streams : Call κ → List (κ × Stream)
  | openAt _ _ => []
  | close _ _ streams => streams

structure Timely (call : Call κ) : Prop where
  time : call.boundary.Timely
  switched : ∀ x ∈ call.streams, Switched x.2

/-- What a call does, and what it leaves behind if it fails. -/
def run (name : κ → String) (c : Subcycles κ) : Call κ →
    EStateM.Result ReplayError (Subcycles κ) Unit
  | openAt time line =>
    match c.openAt time line with
    | .ok c' => .ok () c'
    | .error e => .error e c
  | close time line streams =>
    match Subcycles.close name time line streams c with
    | .ok _ c' => .ok () c'
    | .error e c' => .error e c'

end Call

variable {κ : Type}

/-- The subcycles after a call, failed or not. -/
def after (name : κ → String) (c : Subcycles κ) (call : Call κ) : Subcycles κ :=
  match call.run name c with
  | .ok _ c' => c'
  | .error _ c' => c'

def reached (name : κ → String) (c : Subcycles κ) (calls : List (Call κ)) : Subcycles κ :=
  calls.foldl (after name) c

/-- The boundaries set by the calls that do not fail. -/
def boundaries (name : κ → String) : Subcycles κ → List (Call κ) → List Stream.Call
  | _, [] => []
  | c, call :: calls =>
    match call.run name c with
    | .ok _ c' => call.boundary :: boundaries name c' calls
    | .error _ c' => boundaries name c' calls

def closedAt (history : List Stream.Call) : List (Float × Float) :=
  (Stream.onTimes history).zip (Stream.offTimes history)

/-- Why a close can be refused. -/
def Refused (time : Float) (streams : List (κ × Stream)) (c : Subcycles κ) : Prop :=
  (∃ x ∈ streams, x.2.isOn = true) ∨ c.isOn = false ∨ ∃ since, c.bounds.openedAt = some since ∧
  time < since

/-- The running subcycle is closed and one snapshot is added, with the closed periods of all
streams. -/
def Closes (time : Float) (streams : List (κ × Stream)) (c : Subcycles κ) (s : Snapshot κ)
    (c' : Subcycles κ) : Prop :=
  ∃ since, c.bounds.openedAt = some since ∧ s.index = c.count ∧ s.interval.ends = (since, time) ∧
    s.streams.map (Prod.map id (·.map Interval.ends)) =
      streams.map (Prod.map id (·.closed.toList)) ∧
    c' = ⟨⟨c.bounds.closed.push (since, time), none⟩, c.snapshots.push s⟩

/-- What there is to see of subcycles after boundaries have been set. -/
structure Collects (name : κ → String) (history : List Stream.Call) (c : Subcycles κ) : Prop where
  isOn : c.isOn = true ↔ ∃ time, history.getLast? = some (.turnOn time)
  openAt_refused : ∀ time line, (∃ e, c.openAt time line = .error e) ↔ c.isOn = true
  close_outcome : ∀ time line streams, (Call.close time line streams).Timely →
    (∃ e, close name time line streams c = .error e c) ∨
      ∃ s c', close name time line streams c = .ok s c' ∧ Closes time streams c s c'
  close_refused : ∀ time line streams, (Call.close time line streams).Timely →
    ((∃ e c', close name time line streams c = .error e c') ↔ Refused time streams c)
  snapshots : ∀ (i : ℕ) (s : Snapshot κ), c.snapshots[i]? = some s →
    s.index = i ∧ (closedAt history)[i]? = some s.interval.ends
  count : c.count = c.bounds.closed.size
  intervals : c.intervals.map Interval.ends = closedAt history
  subcycle : ∀ i : ℕ, (c.subcycle i).toOption = c.snapshots[i]?

section Close

variable {name : κ → String} {time since : Float} {line : Position} {streams : List (κ × Stream)}
  {c c' : Subcycles κ} {s : Snapshot κ}

theorem periodsOf_ends {out : List (κ × List Interval)} (h : periodsOf streams = .ok out) :
    out.map (Prod.map id (·.map Interval.ends)) = streams.map (Prod.map id (·.closed.toList)) := by
  unfold periodsOf at h
  rw [mapM_eq_ok_iff] at h
  induction h with
  | nil => rfl
  | @cons x entry streams out hx _ ih =>
    obtain ⟨ivs, hivs, he⟩ := bind_eq_ok_iff.1 hx
    cases he
    rw [List.map_cons, List.map_cons, ih, Prod.map, Prod.map, Interval.mapM_make_eq_ok_iff.1 hivs]

theorem closes_of_close (h : close name time line streams c = .ok s c') :
    Closes time streams c s c' := by
  obtain ⟨-, since, hon, -, hs, rfl⟩ := close_eq_ok_iff.1 h
  obtain ⟨hindex, hends, hstreams⟩ := snapshot_eq_ok_iff.1 hs
  exact ⟨since, hon, hindex, hends, periodsOf_ends hstreams, rfl⟩

variable (hc : c.bounds.Bounded) (ht : (Call.close time line streams).Timely)
include hc ht

theorem exists_snapshot (hsince : c.bounds.openedAt = some since) (hlt : ¬ time < since) :
    ∃ s, snapshot c.count since time streams = .ok s := by
  obtain ⟨hfinite, hnegative⟩ := hc.opened since hsince
  obtain ⟨out, hout⟩ := exists_periodsOf_iff_valid.2 fun x hx => (ht.switched x hx).bounded.closed
  have hvalid : Interval.Valid since time := ⟨hfinite, ht.time.1, hnegative, hlt⟩
  exact ⟨⟨c.count, ⟨since, time, hvalid⟩, out⟩, snapshot_eq_ok_iff.2 ⟨rfl, rfl, hout⟩⟩

theorem close_all_or_nothing (name : κ → String) :
    (∃ e, close name time line streams c = .error e c) ∨
      ∃ s c', close name time line streams c = .ok s c' ∧ Closes time streams c s c' := by
  obtain ⟨e, he⟩ | ⟨since, hsince, hlt, ⟨f, hf, -⟩ | ⟨s, -, hs⟩⟩ :=
    close_cases name time line streams c
  · exact .inl ⟨_, he⟩
  · obtain ⟨s, hs⟩ := exists_snapshot hc ht hsince hlt
    cases hf.symm.trans hs
  · exact .inr ⟨s, _, hs, closes_of_close hs⟩

theorem close_refused_iff (name : κ → String) :
    (∃ e c', close name time line streams c = .error e c') ↔ Refused time streams c := by
  constructor
  · rintro ⟨e, c', h⟩
    by_contra hnot
    simp only [Refused, not_or, not_exists, not_and, Bool.not_eq_true, Bool.not_eq_false] at hnot
    obtain ⟨hoff, hon, hlt⟩ := hnot
    obtain ⟨since, hsince⟩ := Option.isSome_iff_exists.1 hon
    obtain ⟨s, hs⟩ := exists_snapshot hc ht hsince (hlt since hsince)
    rw [close_eq_ok_iff.2 ⟨hoff, since, hsince, hlt since hsince, hs, rfl⟩] at h
    cases h
  · intro hrefused
    cases h : close name time line streams c with
    | error e c' => exact ⟨e, c', rfl⟩
    | ok s c' =>
      obtain ⟨hoff, since, hsince, hlt, -, -⟩ := close_eq_ok_iff.1 h
      obtain ⟨x, hx, hon⟩ | hon | ⟨since', hsince', hlt'⟩ := hrefused
      · rw [hoff x hx] at hon
        cases hon
      · rw [isOn, Stream.isOn, hsince] at hon
        cases hon
      · obtain rfl := Option.some.inj (hsince.symm.trans hsince')
        exact (hlt hlt').elim

end Close

/-- Boundaries and snapshots go together. -/
structure InStep (history : List Stream.Call) (c : Subcycles κ) : Prop where
  records : c.bounds.Records history
  bounded : c.bounds.Bounded
  indexed : Indexed c.snapshots
  intervals : c.intervals.map Interval.ends = c.bounds.closed.toList

variable {name : κ → String} {history : List Stream.Call} {c c' : Subcycles κ} {call : Call κ}
    {calls : List (Call κ)}

theorem inStep_new : InStep [] ({} : Subcycles κ) :=
  ⟨Stream.records_new, Stream.bounded_new, indexed_empty, rfl⟩

theorem InStep.count_eq (h : InStep history c) : c.count = c.bounds.closed.size := by
  have hlength := congrArg List.length h.intervals
  simpa [Subcycles.intervals, count] using hlength

theorem InStep.closes {time : Float} {streams : List (κ × Stream)} {s : Snapshot κ}
    (h : InStep history c)
    (hc : Closes time streams c s c') (ht : (Stream.Call.turnOff time).Timely)
    (hlt : ∀ since ∈ c.bounds.openedAt, ¬ time < since) :
    InStep (history ++ [.turnOff time]) c' := by
  obtain ⟨since, hsince, hindex, hends, -, rfl⟩ := hc
  have happly : (Stream.Call.turnOff time).apply c.bounds =
    .ok ⟨c.bounds.closed.push (since, time), none⟩ :=
    Stream.Call.apply_eq_ok_iff.2 (.inr ⟨time, since, rfl, hsince, hlt since hsince, rfl⟩)
  refine ⟨h.records.apply happly, h.bounded.apply (t := .off) ht.1 ht.2 happly,
    h.indexed.push hindex, ?_⟩
  have hintervals := h.intervals
  simp only [Subcycles.intervals, List.map_map] at hintervals ⊢
  rw [Array.toList_push, Array.toList_push, List.map_append, hintervals, List.map_singleton,
    Function.comp_apply, hends]

/-- A call keeps boundaries and snapshots in step, whether it fails or not. -/
theorem InStep.run (h : InStep history c) (name : κ → String) (ht : call.Timely) :
    match call.run name c with
    | .ok _ c' => InStep (history ++ [call.boundary]) c'
    | .error _ c' => InStep history c' := by
  cases call with
  | openAt time line =>
    rw [Call.run, openAt]
    cases hon : c.bounds.turnOn time with
    | error fault => exact h
    | ok bounds =>
      have happly : (Stream.Call.turnOn time).apply c.bounds = .ok bounds := hon
      have hbounded := h.bounded.apply (t := .on) ht.time.1 ht.time.2 happly
      refine ⟨h.records.apply happly, hbounded, h.indexed, ?_⟩
      obtain ⟨-, rfl⟩ := Toggle.apply_on_eq_ok.1 hon
      exact h.intervals
  | close time line streams =>
    rw [Call.run]
    obtain ⟨e, he⟩ | ⟨s, c', hclose, hcloses⟩ := close_all_or_nothing h.bounded ht name
    · rw [he]
      exact h
    · rw [hclose]
      obtain ⟨-, since, hsince, hlt, -⟩ := close_eq_ok_iff.1 hclose
      refine h.closes hcloses ht.time fun since' hsince' => ?_
      rwa [← Option.some.inj (hsince.symm.trans hsince')]

theorem InStep.reached (h : InStep history c) (ht : ∀ call ∈ calls, call.Timely) :
    InStep (history ++ boundaries name c calls) (reached name c calls) := by
  induction calls generalizing history c with
  | nil =>
    rw [boundaries, List.append_nil]
    exact h
  | cons call calls ih =>
    obtain ⟨hcall, hcalls⟩ := List.forall_mem_cons.1 ht
    have hstep := h.run name hcall
    rw [boundaries, Subcycles.reached, List.foldl_cons, after]
    cases hrun : call.run name c with
    | error e c' =>
      rw [hrun] at hstep
      exact ih hstep hcalls
    | ok u c' =>
      rw [hrun] at hstep
      have hrest := ih hstep hcalls
      rwa [List.append_assoc] at hrest

theorem InStep.closedAt_eq (h : InStep history c) :
    closedAt history = c.intervals.map Interval.ends :=
  h.records.zip_eq.trans h.intervals.symm

theorem openAt_refused_iff {time : Float} {line : Position} :
    (∃ e, c.openAt time line = .error e) ↔ c.isOn = true := by
  rw [isOn, ← Stream.turnOn_refused_iff time, openAt]
  cases c.bounds.turnOn time <;> simp

theorem subcycle_eq (c : Subcycles κ) (i : ℕ) : (c.subcycle i).toOption = c.snapshots[i]? := by
  have hindex : Position.toIndex? i = some i := by simp [Position.toIndex?]
  rw [subcycle, hindex, Option.bind_some]
  cases c.snapshots[i]? <;> rfl

/-- After any calls, failed ones between them, a close is refused for one of three reasons and then
changes nothing, or it adds one snapshot; and snapshots are in step with the boundaries that have
been set. -/
theorem reached_collects (ht : ∀ call ∈ calls, call.Timely) :
    Collects name (boundaries name {} calls) (reached name {} calls) := by
  have h : InStep (boundaries name {} calls) (reached name {} calls) := inStep_new.reached ht
  exact {
    isOn := h.records.last
    openAt_refused := fun time line => openAt_refused_iff
    close_outcome := fun time line streams ht => close_all_or_nothing h.bounded ht name
    close_refused := fun time line streams ht => close_refused_iff h.bounded ht name
    snapshots := fun i s hs => by
      refine ⟨h.indexed i s hs, ?_⟩
      rw [h.closedAt_eq, intervals, List.map_map, List.getElem?_map, Array.getElem?_toList, hs]
      rfl
    count := h.count_eq
    intervals := h.closedAt_eq.symm
    subcycle := subcycle_eq _ }

/-- The transmitter while it is on, and after it has been switched off. -/
def transmitting : Stream := Stream.reached {} [.turnOn 1]

def silent : Stream := Stream.reached {} [.turnOn 1, .turnOn 2, .turnOff 2]

/-- A close before any opening, one while the transmitter is on, a second opening, a close in time
and one that is too early. -/
def unruly : List (Call Line) :=
  [.close 0 1 [], .openAt 0 2, .close 3 3 [(.gate .rf, transmitting)], .openAt 1 4,
    .close 3 5 [(.gate .rf, silent)], .openAt 4 6, .close 3 7 [(.gate .rf, silent)]]

theorem unruly_collects :
    (∀ call ∈ unruly, call.Timely) ∧ Collects Line.name (boundaries Line.name {} unruly)
      (reached Line.name {} unruly) ∧
      closedAt (boundaries Line.name {} unruly) = [(0, 3)] ∧
      (reached Line.name {} unruly).isOn = true := by
  have htransmitting : Switched transmitting := ⟨_, by decide, rfl⟩
  have hsilent : Switched silent := ⟨_, by decide, rfl⟩
  have ht : ∀ call ∈ unruly, call.Timely := by
    simp only [unruly, List.forall_mem_cons]
    exact ⟨⟨by decide, by simp [Call.streams]⟩, ⟨by decide, by simp [Call.streams]⟩,
      ⟨by decide, by simpa [Call.streams] using htransmitting⟩, ⟨by decide, by simp [Call.streams]⟩,
      ⟨by decide, by simpa [Call.streams] using hsilent⟩, ⟨by decide, by simp [Call.streams]⟩,
      ⟨by decide, by simpa [Call.streams] using hsilent⟩, by simp⟩
  exact ⟨ht, reached_collects ht, by decide +kernel, by decide +kernel⟩

end RadarTimeline.Controller.Subcycles
