import RadarTimeline.Proofs.Controller.AnyCalls
import RadarTimeline.Proofs.Timing.RecordedEvents

namespace RadarTimeline.Controller

def Action.transmitted? : Action → Option Nat
  | .transmit index => some index
  | _ => none

def transmissions (es : List (Timed Action)) : List (Timed Nat) :=
  es.filterMap fun e => e.event.transmitted?.map (⟨e.time, ·⟩)

def insertAll {α : Type} (kept events : List (Timed α)) : List (Timed α) :=
  events.foldl (fun kept e => insertTimed e kept) kept

/-- The actions that commands after the first execute, up to one that fails. -/
def steppedThrough : List Command → Machine → List (Timed Action)
  | [], _ => []
  | c :: cs, m =>
    let m := if isMisplaced c cs then after (warn c misplacedReset) m else m
    ((Call.step c).executed? m).toList ++
      if succeeds (step c m) then steppedThrough cs (after (step c) m) else []

def ranThrough : List Command → Machine → List (Timed Action)
  | [], _ => []
  | c :: cs, m =>
    ((Call.step c).executed? m).toList ++
      if succeeds (step c m) then steppedThrough cs (after (step c) m) else []

/-- The actions that a request executes. -/
def Request.executed : Request → Machine → List (Timed Action)
  | call c, m => (c.executed? m).toList
  | program cs, m => ranThrough cs m
  | text t, m =>
    match readProgram t with
    | .ok cs => ranThrough cs m
    | .error _ => []

def allExecuted : List Request → Machine → List (Timed Action)
  | [], _ => []
  | r :: rs, m => r.executed m ++ allExecuted rs (after r.replay m)

section Insertion

variable {α : Type} {e : Timed α} {kept before after records : List (Timed α)}

theorem insertTimed_split (hbefore : ∀ b ∈ before, b.time ≤ e.time)
    (hafter : ∀ a ∈ after, e.time < a.time) :
    insertTimed e (before ++ after) = before ++ e :: after := by
  induction before with
  | nil =>
    cases after with
    | nil => rfl
    | cons a after => exact if_pos (hafter a List.mem_cons_self)
  | cons b before ih =>
    obtain ⟨hb, hbefore⟩ := List.forall_mem_cons.1 hbefore
    rw [List.cons_append, insertTimed, if_neg (Number.not_lt_of_le hb), ih hbefore,
      List.cons_append]

theorem stablySorted_insertAll (hr : ∀ r ∈ records, r.time ≤ r.time) :
    StablySorted records (insertAll [] records) := by
  induction records using List.reverseRecOn with
  | nil => exact stablySorted_nil
  | append_singleton records r ih =>
    obtain ⟨hrecords, hr⟩ := List.forall_mem_append.1 hr
    have h := ih hrecords
    obtain ⟨before, after, hkept, hbefore, hafter⟩ :=
      exists_split h.sorted (fun e he => hrecords e (h.perm.mem_iff.1 he)) (hr r List.mem_cons_self)
    have hinsert : insertAll [] (records ++ [r]) = insertTimed r (insertAll [] records) :=
      List.foldl_append
    rw [hinsert, hkept, insertTimed_split hbefore hafter]
    rw [hkept] at h
    exact h.insert hbefore hafter

end Insertion

variable {m : Machine} {time : Float} {pos : Position} {c : Command} {a : Action}
  {es fs : List (Timed Action)}

theorem beside_selections : Beside Machine.selections :=
  ⟨fun _ _ => rfl, fun _ _ => rfl, fun _ _ => rfl, fun _ _ => rfl⟩

/-- Of the actions that a step executes, it keeps the choices of a transmitter frequency, also when
it fails. -/
def Chooses (x : Replay Unit) (m : Machine) (es : List (Timed Action)) : Prop :=
  (after x m).selections = insertAll m.selections (transmissions es)

theorem Leaves.chooses {x : Replay Unit} (hx : Leaves Machine.selections x) (m : Machine) :
    Chooses x m [] :=
  hx m

theorem transmissions_append (es fs : List (Timed Action)) :
    transmissions (es ++ fs) = transmissions es ++ transmissions fs :=
  List.filterMap_append

theorem insertAll_append {α : Type} (kept es fs : List (Timed α)) :
    insertAll kept (es ++ fs) = insertAll (insertAll kept es) fs :=
  List.foldl_append

theorem Chooses.bind {x y : Replay Unit} (hx : Chooses x m es) (hy : Chooses y (after x m) fs) :
    Chooses (x >>= fun _ => y) m (es ++ if succeeds (x m) then fs else []) := by
  rw [Chooses, transmissions_append, insertAll_append, ← hx]
  cases h : x m with
  | ok u m₁ =>
    rw [after_of_ok h] at hy ⊢
    rw [after, bind_of_ok h, ← after]
    exact hy
  | error e m₁ =>
    rw [after_of_error (bind_of_error h), after_of_error h]
    rfl

theorem leaves_selections_retune (ch : Channel) (change : Mixer → Mixer) :
    Leaves Machine.selections (retune ch time change) := by
  apply Leaves.bind
  · exact leaves_modify fun _ => rfl
  · intro _
    apply leaves_modify
    intro m
    cases (m.mixers.get ch).frequency <;> rfl

/-- Only a choice of the transmitter frequency changes what is kept of them. -/
theorem leaves_selections_perform (ha : a.transmitted? = none) :
    Leaves Machine.selections (perform time pos a) := by
  cases a with
  | turnOn g =>
    rw [perform, turnOn_eq]
    exact beside_selections.switchLine _ _
  | turnOff g =>
    rw [perform, turnOff_eq]
    exact beside_selections.switchLine _ _
  | phase p =>
    refine Leaves.bind (fun _ => rfl) fun _ => ?_
    rw [notePhase_eq]
    exact leaves_forM (fun l => beside_selections.switchLine _ l) _
  | allOff =>
    rw [perform, releaseChannels_eq]
    exact leaves_forM (fun l => beside_selections.switchLine _ l) _
  | route path channels =>
    intro m
    unfold after
    rw [perform, route_apply]
    cases m.oscillators.onPath? path with
    | none => rfl
    | some pair => exact leaves_forM (fun ch => leaves_selections_retune ch _) channels m
  | selectEntry index => exact leaves_forM (fun ch => leaves_selections_retune ch _) _
  | transmit index => cases ha
  | startFilters =>
    intro m
    unfold after
    rw [perform, startFilters, get_bind]
    cases m.filtersStarted <;> rfl
  | nothing => exact leaves_pure ()

theorem chooses_perform (a : Action) (m : Machine) : Chooses (perform time pos a) m
    (if succeeds (perform time pos a m) then [⟨time, a⟩] else []) := by
  rw [Chooses]
  cases ha : a.transmitted? with
  | none =>
    rw [leaves_selections_perform ha m]
    split_ifs
    · simp [transmissions, ha, insertAll]
    · rfl
  | some index =>
    cases a with
    | transmit index => rfl
    | _ => cases ha

theorem leaves_selections_setRegister (c : Command) :
    Leaves Machine.selections (setRegister c) := by
  by_cases ht : c.time > 0
  · rw [setRegister_of_pos ht]
    exact beside_selections.endSubcycle.bind fun _ => beside_selections.openSubcycle.bind fun _ =>
      beside_selections.reopenPhase.bind fun _ _ => rfl
  · intro m
    rw [after_of_ok (setRegister_of_not_pos ht)]

theorem leaves_selections_finish (c : Command) : Leaves Machine.selections (finish c) := by
  rw [finish_eq]
  refine beside_selections.endSubcycle.bind fun _ m => ?_
  unfold after endCycle
  cases m.cycle.turnOff c.time <;> rfl

theorem leaves_selections_checkEnd (cs : List Command) :
    Leaves Machine.selections (checkEnd cs) := by
  intro m
  unfold after checkEnd
  cases cs.getLast? with
  | none => rfl
  | some last =>
    dsimp only
    split_ifs <;> rfl

theorem chooses_execute (c : Command) (m : Machine) :
    Chooses (execute c) m ((Call.execute c).executed? m).toList := by
  cases ha : Action.ofMnemonic? c.mnemonic with
  | none =>
    have hnone : (Call.execute c).executed? m = none := by
      rw [Call.executed?, Call.action?, ha, Option.map_none, ite_self]
    rw [hnone, Chooses, after, execute_eq, dispatch, ha]
    split_ifs <;> rfl
  | some a =>
    have hexecuted : (Call.execute c).executed? m =
        if succeeds (execute c m) then some ⟨m.register + c.time, a⟩ else none := by
      rw [Call.executed?, Call.action?, ha]
      rfl
    rw [hexecuted, Chooses]
    rcases execute_cases (m := m) ha with ⟨-, -, h⟩ | ⟨-, e, h⟩
    · rw [after, h, ← after, chooses_perform a m]
      split_ifs <;> rfl
    · rw [after_of_error h, h]
      rfl

/-- A step opens the cycle if it has to, which no choice depends on. -/
theorem chooses_step (c : Command) (m : Machine) :
    Chooses (step c) m ((Call.step c).executed? m).toList := by
  have hfails : ∀ {e m'}, step c m = .error e m' → (Call.step c).executed? m = none := by
    intro e m' h
    rw [Call.executed?, show (Call.step c).replay m = .error e m' from h]
    rfl
  rw [Chooses]
  cases hf : m.finished with
  | true =>
    have h := step_of_finished (c := c) hf
    rw [hfails h, after_of_error h]
    rfl
  | false =>
    have hstep := step_of_unfinished (c := c) hf
    have hselections : (after (openCycle c.line) m).selections = m.selections :=
      beside_selections.openCycle m
    have htuner : (after (openCycle c.line) m).tuner = m.tuner := beside_tuner.openCycle m
    cases ho : openCycle c.line m with
    | error e m₁ =>
      rw [bind_of_error ho] at hstep
      rw [after_of_error ho] at hselections
      rw [hfails hstep, after_of_error hstep, hselections]
      rfl
    | ok u m₁ =>
      rw [bind_of_ok ho] at hstep
      rw [after_of_ok ho] at hselections htuner
      have hregister : m₁.register = m.register := congrArg Tuner.register htuner
      by_cases hmark : c.mnemonic = "SETTCR" ∨ c.mnemonic = "REP"
      · have hnone : (Call.step c).executed? m = none := by
          rw [Call.executed?, Call.action?, if_pos hmark, Option.map_none, ite_self]
        have hleaves : (after (step c) m).selections = m₁.selections := by
          rw [after, hstep, ← after]
          split_ifs with hs hr
          · exact leaves_selections_setRegister c m₁
          · exact leaves_selections_finish c m₁
          · exact (not_or.2 ⟨hs, hr⟩ hmark).elim
        rw [hnone, hleaves, hselections]
        rfl
      · obtain ⟨hs, hr⟩ := not_or.1 hmark
        rw [if_neg hs, if_neg hr] at hstep
        have hsame : (Call.step c).executed? m = (Call.execute c).executed? m₁ := by
          rw [Call.executed?, Call.executed?, Call.action?, if_neg hmark, hregister]
          change (if succeeds (step c m) then _ else _) = _
          rw [hstep]
          rfl
        rw [hsame, ← hselections, after, hstep, ← after, chooses_execute c m₁]

theorem chooses_stepAll (cs : List Command) (m : Machine) :
    Chooses (stepAll cs) m (steppedThrough cs m) := by
  induction cs generalizing m with
  | nil => rfl
  | cons c cs ih =>
    have hrest : ∀ m, Chooses (step c >>= fun _ => stepAll cs) m _ :=
      fun m => (chooses_step c m).bind (ih (after (step c) m))
    rw [stepAll_bind, steppedThrough]
    by_cases hmisplaced : isMisplaced c cs = true
    · obtain ⟨m₁, hm₁, hsame⟩ :
          ∃ m₁, warn c misplacedReset m = .ok () m₁ ∧ m₁.selections = m.selections := ⟨_, rfl, rfl⟩
      rw [if_pos hmisplaced, if_pos hmisplaced, Chooses, after, bind_of_ok hm₁, ← after, hrest m₁,
        after_of_ok hm₁, hsame]
    · rw [if_neg hmisplaced, if_neg hmisplaced]
      exact hrest m

theorem chooses_run (cs : List Command) (m : Machine) : Chooses (run cs) m (ranThrough cs m) := by
  cases cs with
  | nil => rfl
  | cons c cs =>
    have hend := (chooses_stepAll cs (after (step c) m)).bind
      ((leaves_selections_checkEnd (c :: cs)).chooses _)
    rw [ite_self, List.append_nil] at hend
    rw [run_cons]
    exact (chooses_step c m).bind hend

theorem chooses_request (r : Request) (m : Machine) : Chooses r.replay m (r.executed m) := by
  cases r with
  | call call =>
    cases call with
    | step c => exact chooses_step c m
    | execute c => exact chooses_execute c m
  | program cs => exact chooses_run cs m
  | text t =>
    change Chooses (replayText t) m _
    rw [replayText, Request.executed]
    cases readProgram t with
    | ok cs => exact chooses_run cs m
    | error e => rfl

theorem selections_requested (requests : List Request) (m : Machine) :
    (requested m requests).selections =
      insertAll m.selections (transmissions (allExecuted requests m)) := by
  induction requests generalizing m with
  | nil => rfl
  | cons r requests ih =>
    rw [allExecuted, transmissions_append, insertAll_append, ← chooses_request r m]
    exact ih _

/-- Phases that are set one by one, and the choices of a transmitter frequency that requests
execute, are kept as their stable sort, whatever the order of their times, and looked up as the one
in effect. What is kept of the phases in an interval shows the phase at each of its times. -/
theorem recorded_recalled {phases : List (Timed Phase)}
    (hphases : ∀ e ∈ phases, e.time.isNaN = false)
    (o : Oscillators) (tables : Channel → Option (List Float)) {requests : List Request}
    (htransmissions : ∀ e ∈ transmissions (allExecuted requests (Machine.initial o tables)),
      e.time.isNaN = false) :
    let h := PhaseHistory.ofEvents phases
    let m := requested (Machine.initial o tables) requests
    Recalls phases h.events h.at? ∧ (∀ iv, h.Shows iv) ∧
      Recalls (transmissions (allExecuted requests (Machine.initial o tables))) m.selections
        m.transmitterAt := by
  intro h m
  have hp : ∀ e ∈ phases, e.time ≤ e.time := fun e he => Number.le_self_of_isNaN (hphases e he)
  have hsorted : StablySorted phases h.events := PhaseHistory.stablySorted_ofEvents hp
  refine ⟨hsorted.recalls hp, (PhaseHistory.ordered_of_stablySorted hsorted hp).shows, ?_⟩
  have ht :
      ∀ e ∈ transmissions (allExecuted requests (Machine.initial o tables)), e.time ≤ e.time :=
    fun e he => Number.le_self_of_isNaN (htransmissions e he)
  have hkept : m.selections = insertAll [] _ :=
    selections_requested requests (Machine.initial o tables)
  have hrecalls := (stablySorted_insertAll ht).recalls ht
  rw [← hkept] at hrecalls
  exact hrecalls

/-- Phases in no order of time, two of them at one time. -/
def unorderedPhases : List (Timed Phase) := [⟨3, .deg180⟩, ⟨1, .deg0⟩, ⟨3, .deg0⟩]

/-- A choice for 10 s, an earlier one, and another for 10 s. -/
def unorderedRequests : List Request :=
  [.program [⟨10, "F3", 1⟩, ⟨5, "F1", 2⟩], .call (.execute ⟨10, "F2", 3⟩)]

theorem unordered_recalled :
    (∀ e ∈ unorderedPhases, e.time.isNaN = false) ∧
      (∀ e ∈ transmissions (allExecuted unorderedRequests
        (Machine.initial ⟨[some 812], []⟩ fun _ => none)), e.time.isNaN = false) ∧
      (PhaseHistory.ofEvents unorderedPhases).at? 4 = some .deg0 ∧
      (requested (Machine.initial ⟨[some 812], []⟩ fun _ => none) unorderedRequests).transmitterAt
        10 = some 2 ∧
      (requested (Machine.initial ⟨[some 812], []⟩ fun _ => none) unorderedRequests).transmitterAt
        4 = none := by
  have hphases : ∀ e ∈ unorderedPhases, e.time.isNaN = false := by decide +kernel
  have htransmissions : ∀ e ∈ transmissions (allExecuted unorderedRequests
      (Machine.initial ⟨[some 812], []⟩ fun _ => none)), e.time.isNaN = false := by decide +kernel
  obtain ⟨hp, -, ht⟩ := recorded_recalled hphases ⟨[some 812], []⟩ (fun _ => none) htransmissions
  refine ⟨hphases, htransmissions, (hp.eq_some_iff 4 _).2 ⟨⟨3, .deg0⟩, ⟨?_, ?_, ?_⟩, rfl⟩,
    (ht.eq_some_iff 10 2).2 ⟨⟨10, 2⟩, ⟨?_, ?_, ?_⟩, rfl⟩, (ht.eq_none_iff 4).2 ?_⟩
  all_goals decide +kernel

end RadarTimeline.Controller
