import RadarTimeline.Proofs.Number.Order
import RadarTimeline.Proofs.Timing.Toggle

namespace RadarTimeline.Stream

/-- A call that switches a stream. -/
inductive Call where
  | turnOn (time : Float)
  | turnOff (time : Float)

namespace Call

def apply (s : Stream) : Call → Except SwitchFault Stream
  | turnOn time => s.turnOn time
  | turnOff time => s.turnOff time

/-- A time that is finite and not negative. -/
def Timely : Call → Prop
  | turnOn time => time.isFinite ∧ ¬ time < 0
  | turnOff time => time.isFinite ∧ ¬ time < 0

instance (call : Call) : Decidable call.Timely := by
  cases call <;> exact inferInstanceAs (Decidable (_ ∧ _))

def onTime? : Call → Option Float
  | turnOn time => some time
  | turnOff _ => none

def offTime? : Call → Option Float
  | turnOn _ => none
  | turnOff time => some time

variable {s s' : Stream} {call : Call}

theorem apply_eq_ok_iff : call.apply s = .ok s' ↔
    (∃ time, call = .turnOn time ∧ s.openedAt = none ∧ s' = ⟨s.closed, some time⟩) ∨
      ∃ time since, call = .turnOff time ∧ s.openedAt = some since ∧ ¬ time < since ∧
        s' = ⟨s.closed.push (since, time), none⟩ := by
  cases call with
  | turnOn time =>
    have h : s.turnOn time = .ok s' ↔ _ := Toggle.apply_on_eq_ok
    simpa [apply] using h
  | turnOff time =>
    have h : s.turnOff time = .ok s' ↔ _ := Toggle.apply_off_eq_ok
    simpa [apply] using h

end Call

/-- The stream after a call. One that is refused leaves it as it is. -/
def after (s : Stream) (call : Call) : Stream :=
  match call.apply s with
  | .ok s' => s'
  | .error _ => s

def reached (s : Stream) (calls : List Call) : Stream := calls.foldl after s

/-- The calls that are not refused. -/
def accepted : Stream → List Call → List Call
  | _, [] => []
  | s, call :: calls =>
    match call.apply s with
    | .ok s' => call :: accepted s' calls
    | .error _ => accepted s calls

def onTimes (calls : List Call) : List Float := calls.filterMap Call.onTime?

def offTimes (calls : List Call) : List Float := calls.filterMap Call.offTime?

/-- All periods in the order in which they began, with their ends; that of the open one is
missing. -/
def entries (s : Stream) : List (Float × Option Float) :=
  s.closed.toList.map (Prod.map id some) ++ s.openedAt.toList.map (·, none)

/-- What there is to see of a stream that has accepted calls. -/
structure Answers (history : List Call) (s : Stream) : Prop where
  isOn : s.isOn = true ↔ ∃ time, history.getLast? = some (.turnOn time)
  refused : ∀ call fault, call.apply s = .error fault → (s.after call).entries = s.entries
  turnOn_refused : ∀ time, (∃ fault, s.turnOn time = .error fault) ↔ s.isOn = true
  turnOff_refused : ∀ time, (∃ fault, s.turnOff time = .error fault) ↔
    s.isOn = false ∨ ∃ since, s.entries.getLast? = some (since, none) ∧ time < since
  lastOpen : ∀ entry ∈ s.entries.dropLast, entry.2.isSome = true
  ordered : ∀ entry ∈ s.entries, ∀ off ∈ entry.2, entry.1 ≤ off
  intervals : s.intervals.toOption.map (·.map Interval.ends) =
    if s.isOn then none else some ((onTimes history).zip (offTimes history))
  lastOn : s.lastOn.toOption = (onTimes history).getLast?
  lastOff : s.lastOff.toOption = (offTimes history).getLast?

/-- The periods of a stream are the times of calls. -/
structure Records (history : List Call) (s : Stream) : Prop where
  on : onTimes history = s.closed.toList.map Prod.fst ++ s.openedAt.toList
  off : offTimes history = s.closed.toList.map Prod.snd
  last : s.isOn = true ↔ ∃ time, history.getLast? = some (.turnOn time)

variable {s s' : Stream} {history calls : List Call} {call : Call}

theorem records_new : Records [] {} := ⟨rfl, rfl, by simp [Stream.isOn]⟩

theorem Records.apply (h : Records history s) (ha : call.apply s = .ok s') :
    Records (history ++ [call]) s' := by
  have hon : onTimes (history ++ [call]) = onTimes history ++ call.onTime?.toList := by
    rw [onTimes, List.filterMap_append]
    cases call <;> rfl
  have hoff : offTimes (history ++ [call]) = offTimes history ++ call.offTime?.toList := by
    rw [offTimes, List.filterMap_append]
    cases call <;> rfl
  rw [h.on] at hon
  rw [h.off] at hoff
  obtain ⟨time, rfl, ho, rfl⟩ | ⟨time, since, rfl, ho, -, rfl⟩ := Call.apply_eq_ok_iff.1 ha
  · rw [ho] at hon
    exact ⟨by simpa [Call.onTime?] using hon, by simpa [Call.offTime?] using hoff,
      by simp [Stream.isOn]⟩
  · rw [ho] at hon
    exact ⟨by simpa [Call.onTime?] using hon, by simpa [Call.offTime?] using hoff,
      by simp [Stream.isOn]⟩

theorem Records.reached (h : Records history s) (calls : List Call) :
    Records (history ++ accepted s calls) (s.reached calls) := by
  induction calls generalizing history s with
  | nil =>
    rw [accepted, List.append_nil]
    exact h
  | cons call calls ih =>
    rw [accepted, Stream.reached, List.foldl_cons, after]
    cases ha : call.apply s with
    | error fault => exact ih h
    | ok s' =>
      have hrest := ih (h.apply ha)
      rwa [List.append_assoc] at hrest

theorem Bounded.after (h : s.Bounded) (ht : call.Timely) : (s.after call).Bounded := by
  rw [Stream.after]
  cases ha : call.apply s with
  | error fault => exact h
  | ok s' =>
    cases call with
    | turnOn time => exact h.apply (t := .on) ht.1 ht.2 ha
    | turnOff time => exact h.apply (t := .off) ht.1 ht.2 ha

theorem Bounded.reached (h : s.Bounded) (ht : ∀ call ∈ calls, call.Timely) :
    (s.reached calls).Bounded := by
  induction calls generalizing s with
  | nil => exact h
  | cons call calls ih =>
    obtain ⟨hcall, hcalls⟩ := List.forall_mem_cons.1 ht
    exact ih (h.after hcall) hcalls

theorem Records.zip_eq (h : Records history s) :
    (onTimes history).zip (offTimes history) = s.closed.toList := by
  rw [h.on, h.off]
  generalize s.closed.toList = closed
  induction closed with
  | nil => cases s.openedAt <;> rfl
  | cons p closed ih =>
    rw [List.map_cons, List.map_cons, List.cons_append, List.zip_cons_cons, ih]

theorem Records.lastOn_eq (h : Records history s) :
    s.lastOn.toOption = (onTimes history).getLast? := by
  rw [h.on, Stream.lastOn, ← Array.getLast?_toList]
  cases s.openedAt with
  | some since => simp [Except.toOption]
  | none =>
    rw [Option.toList_none, List.append_nil, List.getLast?_map]
    cases s.closed.toList.getLast? <;> rfl

theorem Records.lastOff_eq (h : Records history s) :
    s.lastOff.toOption = (offTimes history).getLast? := by
  rw [h.off, Stream.lastOff, ← Array.getLast?_toList, List.getLast?_map]
  cases s.closed.toList.getLast? <;> rfl

theorem Bounded.intervals_eq (h : s.Bounded) : s.intervals.toOption.map (·.map Interval.ends) =
    if s.isOn then none else some s.closed.toList := by
  cases hon : s.isOn with
  | true =>
    rw [Stream.intervals, hon]
    rfl
  | false =>
    obtain ⟨ivs, hivs⟩ := Interval.exists_map_ends_iff.2 h.closed
    rw [intervals_of_off hon hivs, ← hivs]
    rfl

theorem Bounded.ordered (h : s.Bounded) : ∀ entry ∈ s.entries, ∀ off ∈ entry.2, entry.1 ≤ off := by
  intro entry hentry off hoff
  rw [entries, List.mem_append, List.mem_map, List.mem_map] at hentry
  obtain ⟨p, hp, rfl⟩ | ⟨since, -, rfl⟩ := hentry
  · cases hoff
    obtain ⟨hon, hoff, -, hle⟩ := h.closed p hp
    exact Number.le_of_not_lt hon hoff hle
  · cases hoff

theorem lastOpen (s : Stream) : ∀ entry ∈ s.entries.dropLast, entry.2.isSome = true := by
  have hclosed : ∀ entry ∈ s.closed.toList.map (Prod.map id some), entry.2.isSome = true := by
    intro entry hentry
    obtain ⟨p, -, rfl⟩ := List.mem_map.1 hentry
    rfl
  intro entry hentry
  rw [entries] at hentry
  cases ho : s.openedAt with
  | none =>
    rw [ho, Option.toList_none, List.map_nil, List.append_nil] at hentry
    exact hclosed entry (List.mem_of_mem_dropLast hentry)
  | some since =>
    rw [ho, Option.toList_some, List.map_singleton, List.dropLast_concat] at hentry
    exact hclosed entry hentry

theorem turnOn_refused_iff (time : Float) :
    (∃ fault, s.turnOn time = .error fault) ↔ s.isOn = true := by
  obtain ⟨closed, _ | since⟩ := s <;> simp [turnOn, Stream.isOn]

theorem turnOff_refused_iff {time : Float} : (∃ fault, s.turnOff time = .error fault) ↔
    s.isOn = false ∨ ∃ since, s.openedAt = some since ∧ time < since := by
  obtain ⟨closed, _ | since⟩ := s
  · simp [turnOff, Stream.isOn]
  · by_cases h : time < since <;> simp [turnOff, Stream.isOn, h]

theorem getLast?_entries (since : Float) :
    s.entries.getLast? = some (since, none) ↔ s.openedAt = some since := by
  rw [entries]
  cases s.openedAt with
  | some since => simp
  | none => simp [List.getLast?_map]

theorem after_of_refused {fault : SwitchFault} (h : call.apply s = .error fault) :
    s.after call = s := by
  rw [after, h]

/-- After any calls at finite times that are not negative, refused or not, a stream answers by the
calls that it has accepted. -/
theorem reached_answers (ht : ∀ call ∈ calls, call.Timely) :
    Answers (accepted {} calls) (reached {} calls) := by
  have hrecords : Records (accepted {} calls) (reached {} calls) := records_new.reached calls
  have hbounded : (reached {} calls).Bounded := bounded_new.reached ht
  exact {
    isOn := hrecords.last
    refused := fun call fault h => by rw [after_of_refused h]
    turnOn_refused := turnOn_refused_iff
    turnOff_refused := fun time => by simp only [getLast?_entries, turnOff_refused_iff]
    lastOpen := lastOpen _
    ordered := hbounded.ordered
    intervals := by rw [hbounded.intervals_eq, hrecords.zip_eq]
    lastOn := hrecords.lastOn_eq
    lastOff := hrecords.lastOff_eq }

/-- Switched off while off, on while on and off too early, and left on for the second time. -/
def unruly : List Call :=
  [.turnOff 1, .turnOn 2, .turnOn 3, .turnOff 1, .turnOff 4, .turnOn 3]

theorem unruly_answers :
    (∀ call ∈ unruly, call.Timely) ∧ Answers (accepted {} unruly) (reached {} unruly) ∧
      onTimes (accepted {} unruly) = [2, 3] ∧ offTimes (accepted {} unruly) = [4] := by
  have ht : ∀ call ∈ unruly, call.Timely := by decide +kernel
  exact ⟨ht, reached_answers ht, by decide +kernel, by decide +kernel⟩

end RadarTimeline.Stream
