import RadarTimeline.Proofs.Controller.Tuning
import RadarTimeline.Proofs.Timing.FrequencyWindow

namespace RadarTimeline

namespace FrequencyHistory

variable {s : FrequencyHistory} {p : FrequencyChange} {t f : Float}

theorem mem_insertAt (points : Array FrequencyChange) (i : Nat) (p q : FrequencyChange) :
    q ∈ (insertAt points i p).toList ↔ q = p ∨ q ∈ points.toList := by
  unfold insertAt
  split_ifs with h
  · rw [Array.toList_insertIdx, List.mem_insertIdx (by simpa using h)]
  · simp [or_comm]

/-- A record keeps the times of all points, and there is a point at its time. -/
theorem set_times (s : FrequencyHistory) (t f : Float) :
    (∀ p ∈ s.points.toList, ∃ q ∈ (s.set t f).points.toList, q.time = p.time) ∧
      ((∀ q ∈ (s.set t f).points.toList, q.time ≤ q.time) → t ≤ t) := by
  have hinsert : ∀ i, (∀ p ∈ s.points.toList,
      ∃ q ∈ (insertAt s.points i ⟨t, f⟩).toList, q.time = p.time) ∧
        ((∀ q ∈ (insertAt s.points i ⟨t, f⟩).toList, q.time ≤ q.time) → t ≤ t) := by
    intro i
    refine ⟨fun p hp => ⟨p, (mem_insertAt _ _ _ _).2 (.inr hp), rfl⟩, fun h => ?_⟩
    exact h ⟨t, f⟩ ((mem_insertAt _ _ _ _).2 (.inl rfl))
  rw [set]
  cases s.pointAt? t with
  | none => exact hinsert _
  | some p =>
    dsimp only
    split_ifs with hp
    · refine ⟨fun p hp => ?_, fun _ => Number.le_self_of_le_right (Number.beq_iff_le.1 hp).1⟩
      obtain ⟨i, hi, rfl⟩ := List.getElem_of_mem hp
      refine ⟨_, List.getElem_mem (by simpa using hi), ?_⟩
      simp only [Array.toList_modify, List.getElem_modify]
      split_ifs <;> rfl
    · exact hinsert _

/-- If none of its points is at `NaN`, a history holds what was recorded. -/
theorem ofPoints_holds (records : List FrequencyChange)
    (h : ∀ p ∈ (ofPoints records).points.toList, p.time ≤ p.time) :
    (ofPoints records).Holds records := by
  induction records using List.reverseRecOn with
  | nil => exact holds_new
  | append_singleton records r ih =>
    have hset : ofPoints (records ++ [r]) = (ofPoints records).set r.time r.frequency :=
      recordAll_append {} records [r]
    rw [hset] at h ⊢
    obtain ⟨htimes, hproper⟩ := set_times (ofPoints records) r.time r.frequency
    refine (ih fun p hp => ?_).set (hproper h) _
    obtain ⟨q, hq, hqp⟩ := htimes p hp
    rw [← hqp]
    exact h q hq

end FrequencyHistory

namespace Controller

variable {α β : Type} {m : Machine} {time : Float} {pos : Position} {c : Command}

/-- A step changes histories only by recording, also when it fails. -/
def Records (x : Replay α) : Prop :=
  ∀ m ch, ∃ records, (after x m).series.get ch = (m.series.get ch).recordAll records

theorem Untuned.records {x : Replay α} (hx : Untuned x) : Records x :=
  fun m ch => ⟨[], congrArg (fun t => t.series.get ch) (hx m)⟩

theorem SetsRegister.records {x : Replay α} (hx : SetsRegister time x) : Records x := by
  intro m ch
  refine ⟨[], ?_⟩
  rcases hx m with h | h
  · exact congrArg (fun t => t.series.get ch) h
  · exact congrArg (fun t => t.series.get ch) h

theorem Records.bind {x : Replay α} {f : α → Replay β} (hx : Records x) (hf : ∀ a, Records (f a)) :
    Records (x >>= f) := by
  intro m ch
  rcases after_bind x f m with ⟨a, m₁, h, heq⟩ | heq
  · obtain ⟨first, h₁⟩ := hx m ch
    obtain ⟨rest, h₂⟩ := hf a m₁ ch
    rw [after_of_ok h] at h₁
    exact ⟨first ++ rest, by rw [heq, h₂, h₁, FrequencyHistory.recordAll_append]⟩
  · rw [heq]
    exact hx m ch

theorem records_forM {f : α → Replay Unit} (h : ∀ a, Records (f a)) (l : List α) :
    Records (l.forM f) := by
  induction l with
  | nil => exact Untuned.records (leaves_pure ())
  | cons a l ih => exact (h a).bind fun _ => ih

theorem records_noteFrequency (ch : Channel) : Records (noteFrequency ch time) := by
  intro m other
  obtain ⟨m', h, -, hseries⟩ := noteFrequency_apply time ch m
  rw [after_of_ok h, hseries]
  split_ifs with hch
  · rw [noted, hch]
    cases (m.mixers.get ch).frequency with
    | ok f => exact ⟨[⟨time, f⟩], rfl⟩
    | error fault => exact ⟨[], rfl⟩
  · exact ⟨[], rfl⟩

theorem records_retune (ch : Channel) (change : Mixer → Mixer) : Records (retune ch time change) :=
  Records.bind (fun _ _ => ⟨[], rfl⟩) fun _ => records_noteFrequency ch

theorem records_perform (a : Action) : Records (perform time pos a) := by
  cases a with
  | turnOn g =>
    rw [perform, turnOn_eq]
    exact Untuned.records (beside_tuner.switchLine _ _)
  | turnOff g =>
    rw [perform, turnOff_eq]
    exact Untuned.records (beside_tuner.switchLine _ _)
  | phase p =>
    refine Records.bind (untuned_modify fun _ => rfl).records fun _ => ?_
    rw [notePhase_eq]
    exact Untuned.records (leaves_forM (fun l => beside_tuner.switchLine _ l) _)
  | allOff =>
    rw [perform, releaseChannels_eq]
    exact Untuned.records (leaves_forM (fun l => beside_tuner.switchLine _ l) _)
  | route path channels =>
    intro m
    unfold after
    rw [perform, route_apply]
    cases m.oscillators.onPath? path with
    | none => exact fun _ => ⟨[], rfl⟩
    | some pair => exact records_forM (fun ch => records_retune ch _) channels m
  | selectEntry index => exact records_forM (fun ch => records_retune ch _) _
  | transmit index => exact (untuned_modify fun _ => rfl).records
  | startFilters => exact untuned_startFilters.records
  | nothing => exact Untuned.records (leaves_pure ())

theorem records_execute (c : Command) : Records (execute c) := by
  cases ha : Action.ofMnemonic? c.mnemonic with
  | none => exact (untuned_execute ha).records
  | some a =>
    intro m ch
    rcases execute_cases (m := m) ha with ⟨-, -, h⟩ | ⟨-, e, h⟩
    · unfold after
      rw [h]
      exact records_perform a m ch
    · rw [after_of_error h]
      exact ⟨[], rfl⟩

theorem records_step (c : Command) : Records (step c) := by
  intro m
  cases hf : m.finished with
  | true =>
    rw [after_of_error (step_of_finished hf)]
    exact fun _ => ⟨[], rfl⟩
  | false =>
    unfold after
    rw [step_of_unfinished hf]
    refine (Untuned.records beside_tuner.openCycle).bind (fun _ => ?_) m
    split_ifs
    · exact (setsRegister_setRegister c).records
    · exact untuned_finish.records
    · exact records_execute c

theorem records_warn (c : Command) (message : String) : Records (warn c message) :=
  (untuned_warn c message).records

theorem records_checkEnd (cs : List Command) : Records (checkEnd cs) := by
  intro m ch
  refine ⟨[], ?_⟩
  unfold after checkEnd
  cases cs.getLast? with
  | none => rfl
  | some last =>
    dsimp only
    split_ifs <;> rfl

/-- Whether the cycle has ended, and when. -/
def Machine.ending (m : Machine) : Bool × Float := (m.finished, m.endTime)

theorem beside_ending : Beside Machine.ending :=
  ⟨fun _ _ => rfl, fun _ _ => rfl, fun _ _ => rfl, fun _ _ => rfl⟩

theorem leaves_ending_execute (c : Command) : Leaves Machine.ending (execute c) :=
  fun m => congrArg (fun f => (f.finished, f.endTime)) (execute_frame c m).1

theorem leaves_ending_setRegister (c : Command) : Leaves Machine.ending (setRegister c) := by
  by_cases ht : c.time > 0
  · rw [setRegister_of_pos ht]
    exact beside_ending.endSubcycle.bind fun _ => beside_ending.openSubcycle.bind fun _ =>
      beside_ending.reopenPhase.bind fun _ _ => rfl
  · intro m
    rw [after_of_ok (setRegister_of_not_pos ht)]
    rfl

/-- A cycle that has ended is an interval. -/
def Machine.Ended (m : Machine) : Prop := m.finished = true → Interval.Valid 0 m.endTime

/-- A step ends the cycle only at a time that makes it an interval. -/
def KeepsEnded (x : Replay α) : Prop := ∀ m : Machine, m.Ended → (after x m).Ended

theorem KeepsEnded.bind {x : Replay α} {f : α → Replay β} (hx : KeepsEnded x)
    (hf : ∀ a, KeepsEnded (f a)) : KeepsEnded (x >>= f) := by
  intro m hm
  have h := hx m hm
  rcases after_bind x f m with ⟨a, m₁, h₁, heq⟩ | heq
  · rw [after_of_ok h₁] at h
    rw [heq]
    exact hf a m₁ h
  · rw [heq]
    exact h

theorem Leaves.keepsEnded {x : Replay α} (hx : Leaves Machine.ending x) : KeepsEnded x := by
  intro m hm
  obtain ⟨hf, ht⟩ := Prod.mk.inj (hx m)
  rw [Machine.Ended, hf, ht]
  exact hm

/-- The last subcycle, which is an interval, ends with the cycle. -/
theorem keepsEnded_finish : KeepsEnded (finish c) := by
  intro m hm
  have he := endSubcycle_ending c.time c.line m
  have h : (after (endSubcycle c.time c.line) m).Ended := beside_ending.endSubcycle.keepsEnded m hm
  rw [finish_eq]
  cases hx : endSubcycle c.time c.line m with
  | error e m₁ =>
    rw [after_of_error hx] at h
    rwa [after_of_error (bind_of_error hx)]
  | ok u m₁ =>
    rw [after_of_ok hx] at h
    rw [hx] at he
    cases he with
    | @recorded _ since s hb hi hends hf hl =>
      obtain ⟨rfl, htime⟩ := Prod.mk.inj hends
      unfold after
      rw [bind_of_ok hx]
      unfold endCycle
      cases m₁.cycle.turnOff c.time with
      | error fault => exact h
      | ok cycle =>
        intro _
        obtain ⟨hstart, hstop, hzero, hle⟩ := s.interval.valid
        have hle : (0 : Float) ≤ s.interval.stop := Number.le_trans
          (Number.le_of_not_lt (by decide) hstart hzero) (Number.le_of_not_lt hstart hstop hle)
        rw [show s.interval.stop = c.time from htime] at hle hstop
        exact ⟨by decide, hstop, by decide, Number.not_lt_of_le hle⟩

theorem keepsEnded_step (c : Command) : KeepsEnded (step c) := by
  intro m
  cases hf : m.finished with
  | true =>
    rw [after_of_error (step_of_finished hf)]
    exact id
  | false =>
    unfold after
    rw [step_of_unfinished hf]
    refine beside_ending.openCycle.keepsEnded.bind (fun _ => ?_) m
    split_ifs
    · exact (leaves_ending_setRegister c).keepsEnded
    · exact keepsEnded_finish
    · exact (leaves_ending_execute c).keepsEnded

theorem keepsEnded_checkEnd (cs : List Command) : KeepsEnded (checkEnd cs) := by
  refine Leaves.keepsEnded fun m => ?_
  unfold after checkEnd
  cases cs.getLast? with
  | none => rfl
  | some last =>
    dsimp only
    split_ifs <;> rfl

/-- What can be asked of a machine from outside: a single call, or to replay a program or its
text. -/
inductive Request where
  | call (call : Call)
  | program (commands : List Command)
  | text (text : String)

def Request.replay : Request → Replay Unit
  | call c => c.replay
  | program commands => run commands
  | text t => replayText t

/-- The machine after requests; one that fails keeps what it did before. -/
def requested (m : Machine) (requests : List Request) : Machine :=
  requests.foldl (fun m r => after r.replay m) m

/-- A property of steps that is closed under what requests are made of. -/
structure Closed (P : Replay Unit → Prop) : Prop where
  bind : ∀ {x y : Replay Unit}, P x → P y → P (x >>= fun _ => y)
  pure : P (pure ())
  fail : ∀ e, P (throw e)
  step : ∀ c, P (step c)
  execute : ∀ c, P (execute c)
  warn : ∀ c message, P (warn c message)
  checkEnd : ∀ cs, P (checkEnd cs)

section Closed

variable {P : Replay Unit → Prop}

theorem stepAll_bind (c : Command) (cs : List Command) :
    stepAll (c :: cs) =
      ((if isMisplaced c cs then warn c misplacedReset else pure ()) >>=
      fun _ => Controller.step c >>=
        fun _ => stepAll cs) := by
  rw [stepAll]
  split_ifs <;> rfl

theorem Closed.stepAll (h : Closed P) (cs : List Command) : P (stepAll cs) := by
  induction cs with
  | nil => exact h.pure
  | cons c cs ih =>
    rw [stepAll_bind]
    refine h.bind ?_ (h.bind (h.step c) ih)
    split_ifs
    · exact h.warn c _
    · exact h.pure

theorem Closed.run (h : Closed P) (cs : List Command) : P (run cs) := by
  cases cs with
  | nil => exact h.fail _
  | cons c cs =>
    rw [run_cons]
    exact h.bind (h.step c) (h.bind (h.stepAll cs) (h.checkEnd _))

theorem Closed.request (h : Closed P) (r : Request) : P r.replay := by
  cases r with
  | call c =>
    cases c with
    | step c => exact h.step c
    | execute c => exact h.execute c
  | program cs => exact h.run cs
  | text t =>
    change P (replayText t)
    rw [replayText]
    cases readProgram t with
    | ok cs => exact h.run cs
    | error e => exact h.fail _

end Closed

theorem closed_records : Closed (Records (α := Unit)) where
  bind hx hy := hx.bind fun _ => hy
  pure := Untuned.records (leaves_pure ())
  fail _ _ _ := ⟨[], rfl⟩
  step := records_step
  execute := records_execute
  warn := records_warn
  checkEnd := records_checkEnd

theorem closed_keepsEnded : Closed (KeepsEnded (α := Unit)) where
  bind hx hy := hx.bind fun _ => hy
  pure _ hm := hm
  fail _ _ hm := hm
  step := keepsEnded_step
  execute c := (leaves_ending_execute c).keepsEnded
  warn _ _ _ hm := hm
  checkEnd := keepsEnded_checkEnd

theorem series_requested (o : Oscillators) (tables : Channel → Option (List Float))
    (requests : List Request) (ch : Channel) :
    ∃ records, (requested (Machine.initial o tables) requests).series.get ch =
      .ofPoints records := by
  have hall : ∀ m : Machine, ∃ records,
      (requested m requests).series.get ch = (m.series.get ch).recordAll records := by
    induction requests with
    | nil => exact fun _ => ⟨[], rfl⟩
    | cons r requests ih =>
      intro m
      obtain ⟨first, h₁⟩ := closed_records.request r m ch
      obtain ⟨rest, h₂⟩ := ih (after r.replay m)
      refine ⟨first ++ rest, ?_⟩
      rw [FrequencyHistory.recordAll_append, ← h₁]
      exact h₂
  have hnew : (Machine.initial o tables).series.get ch = {} := Vector.getElem_replicate ch.isLt
  have := hall (Machine.initial o tables)
  rwa [hnew] at this

theorem ended_requested (o : Oscillators) (tables : Channel → Option (List Float))
    (requests : List Request) : (requested (Machine.initial o tables) requests).Ended := by
  have hall : ∀ m : Machine, m.Ended → (requested m requests).Ended := by
    induction requests with
    | nil => exact fun _ hm => hm
    | cons r requests ih => exact fun m hm => ih _ (closed_keepsEnded.request r m hm)
  refine hall _ fun hf => ?_
  cases hf

end Controller

end RadarTimeline
