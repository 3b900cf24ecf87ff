import RadarTimeline.Proofs.Console.Jumps

namespace RadarTimeline.Console

variable {limit s : Nat} {experiments : List Frame} {st : State}

namespace Operator

variable {call : Call} {args : List String}

theorem defineBlock_pursues : (defineBlock call args).Pursues limit s none Completion.target? := by
  unfold defineBlock
  split
  · exact (Call.define_pursues _ _ _).bind fun _ => (Act.Quiet.log _ _).silent.bind fun _ =>
      Call.done_pursues
  · exact Call.refuse_pursues _

/-- Operators that load record only what they show. -/
theorem run_pursues_of_loads {o : Operator} (hload : o.Loads) (hsteer : ¬ o.Steers) :
    (o.run call args).Pursues limit call.scope none Completion.target? := by
  intro experiments st hs
  have halters := alters_of_loads call args hload hs
  have hplays {t : SessionState} {st' : State} (h : Shows (st.withSession call.scope t) st') :
      Plays limit ⟨experiments, none⟩ st st' ⟨experiments, none⟩ :=
    (Plays.of_trace (Nat.le_of_eq (st.size_modifyScope _ _).symm) rfl).trans (.of_shows h)
  refine ⟨fun h => ?_, fun h => ?_, fun h => (halters.goesOn h).elim⟩
  · rw [run_answers call args hsteer h]
    exact hplays (halters.ends h)
  · obtain ⟨t, hshows⟩ := halters.fails h
    exact .of_plays (hplays hshows) nofun

theorem run_pursues {o : Operator} (hsteer : ¬ o.Steers) :
    (o.run call args).Pursues limit call.scope none Completion.target? := by
  by_cases hload : o.Loads
  · exact run_pursues_of_loads hload hsteer
  · by_cases hblock : o = .block
    · subst hblock
      exact defineBlock_pursues
    · exact (run_quiet call args hload hsteer hblock).answers (run_answers call args hsteer)

theorem gotoBlock_pursuesFrom (name : String) :
    (gotoBlock call args).PursuesFrom limit
      (Course.begin limit ⟨experiments, none⟩ s (name :: args) (some (.operator .gotoblock)))
      experiments st Completion.target? := by
  cases args with
  | nil =>
    have hrun : (gotoBlock call []).run st =
        .ok (.error (.usage (.wrongArguments "gotoblock name ?arg ...?"))) st := rfl
    refine ⟨?_, ?_, ?_⟩ <;> intro _ _ h <;> rw [hrun] at h <;> cases h
    exact .of_plays (.refl _ st) nofun
  | cons block rest =>
    have hrun : ∃ st', (gotoBlock call (block :: rest)).run st =
      .ok (.ok (.jump (block :: rest))) st' ∧
        Shows st st' := ⟨_, rfl, [_], by simp [Event.Shown], rfl⟩
    obtain ⟨st', hrun, hshows⟩ := hrun
    exact .of_ok hrun (.of_shows hshows)

variable (hrun : call.run.Pursues limit)

include hrun

theorem openBlock_pursues :
    (openBlock call args).Pursues limit call.scope none Completion.target? :=
  (Act.Quiet.require args 1 _).silent.bind fun _ => (Act.Quiet.log _ _).silent.bind fun _ =>
    Call.block_pursues hrun args call.entry

theorem openExperiment_pursues :
    (openExperiment call args).Pursues limit call.scope none Completion.target? := by
  refine (Act.Quiet.require args 1 _).silent.bind fun _ =>
    (Act.Pursues.ofExcept _).bind fun file => ?_
  refine (Act.Pursues.modifyScope call _).bind fun _ => (Act.Quiet.log _ _).silent.bind fun _ => ?_
  exact .lift (hrun call.scope _ _ 1)

/-- An experiment follows the jump that is pending, and those after it. -/
theorem followJumps_pursuesFrom (n : Nat) (c : Completion) (hs : call.scope < st.scopes.size) :
    (followJumps call n c).PursuesFrom limit ⟨⟨call.scope, n⟩ :: experiments, c.target?⟩
    experiments st
      Completion.target? := by
  -- the frame of the experiment says how many jumps are left, which is what the loop counts down
  induction n generalizing c st with
  | zero =>
    cases c with
    | jump words =>
      refine ⟨nofun, fun h => ?_, nofun⟩
      cases h
      exact ⟨[⟨call.scope, 0⟩], some words, .refl _ st, fun _ => trivial⟩
    | _ => exact .of_ok rfl .finish
  | succ n ih =>
    cases c with
    | jump words =>
      have hjump : Plays limit ⟨⟨call.scope, n + 1⟩ :: experiments, some words⟩ st
          ((st.withEntry call.scope words).record (.jump call.scope words))
          ⟨⟨call.scope, n⟩ :: experiments, none⟩ :=
        (Plays.of_trace (Nat.le_of_eq (st.size_modifyScope _ _).symm) rfl).trans
          (.record (.jump (.nil _)))
      have hs₁ := Nat.lt_of_lt_of_le hs hjump.size_le
      have hblock := Call.block_pursues hrun words (st.scope call.scope).log.size
        (⟨call.scope, n⟩ :: experiments) _ hs₁
      refine .after hjump (followJumps_run n words hs)
        (.bind [⟨call.scope, n⟩] hblock fun c st₁ h => ?_)
      exact ih c (Nat.lt_of_lt_of_le hs₁ (hblock.ends h).size_le)
    | _ => exact .of_ok rfl .finish

omit hrun in
theorem followJumps_answers (n : Nat) (c : Completion) : Act.Answers (followJumps call n c) := by
  induction n generalizing c with
  | zero =>
    cases c with
    | jump => exact .usage _
    | _ => exact .pure rfl
  | succ n ih =>
    cases c with
    | jump => exact .after fun _ => .after fun _ => .after ih
    | _ => exact .pure rfl

omit hrun in
theorem runExperiment_answers : Act.Answers (runExperiment call args) :=
  .after fun _ => .after fun _ => .after fun _ => .after fun _ => .after fun c =>
  followJumps_answers _ c

theorem runExperiment_pursuesFrom (hlimit : call.setup.limits.jumpLimit.rounds = limit)
    (hs : call.scope < st.scopes.size) :
    (runExperiment call args).PursuesFrom limit ⟨⟨call.scope, limit⟩ :: experiments, none⟩
    experiments st
      Completion.target? := by
  rw [runExperiment_eq, hlimit]
  have hopen :
      (openExperiment call args).PursuesFrom limit ⟨⟨call.scope, limit⟩ :: experiments,
        none⟩ _ st _ :=
    openExperiment_pursues hrun (⟨call.scope, limit⟩ :: experiments) st hs
  -- its frame stays while its script runs, and following the jumps takes it away
  refine .bind [⟨call.scope, limit⟩] hopen fun c st₁ h => ?_
  rw [← Cycle.followJumps_eq]
  exact followJumps_pursuesFrom hrun limit c (Nat.lt_of_lt_of_le hs (hopen.ends h).size_le)

end Operator

theorem Course.begin_of_not_steers {c : Course} {words : List String} {o : Operator}
    (h : ¬ o.Steers) :
    c.begin limit s words (some (.operator o)) = c := by
  cases o with
  | runexperiment | gotoblock => exact absurd trivial h
  | _ => rfl

/-- What carries out a command that has begun. -/
theorem dispatch_pursuesFrom (call : Call) (hrun : call.run.Pursues limit)
    (hlimit : call.setup.limits.jumpLimit.rounds = limit) (hs : call.scope < st.scopes.size)
    (name : String) (args : List String) (handler : Option Handler) :
    (dispatch call name args handler).PursuesFrom limit
      (Course.begin limit ⟨experiments, none⟩ call.scope (name :: args) handler) experiments st
      Completion.target? := by
  obtain _ | handler := handler
  · exact ⟨nofun, nofun, fun h => by cases h; exact .of_plays (.refl _ st) nofun⟩
  cases handler with
  | builtin b => exact Builtin.run_pursues hrun b experiments st hs
  | procedure p => exact Call.procedure_pursues hrun p args call.entry experiments st hs
  | operator o =>
    by_cases hsteer : o.Steers
    · cases o with
      | runexperiment => exact Operator.runExperiment_pursuesFrom hrun hlimit hs
      | gotoblock => exact Operator.gotoBlock_pursuesFrom name
      | callblock => exact Operator.openBlock_pursues hrun experiments st hs
      | loadfile =>
        cases args with
        | nil => exact Call.refuse_pursues _ experiments st hs
        | cons path rest => exact Call.runFile_pursues hrun path experiments st hs
      | _ => exact hsteer.elim
    · rw [Course.begin_of_not_steers hsteer]
      exact Operator.run_pursues hsteer experiments st hs

section

variable {setup : Setup} {run : Runner} (hrun : run.Pursues limit)
  (hlimit : setup.limits.jumpLimit.rounds = limit)

include hrun hlimit

/-- A command begins only when no jump is pending. -/
theorem perform_pursues (c : Script.Command) (name : String) (args : List String) :
    (perform setup run s c name args).Pursues limit s none Completion.target? := by
  intro experiments st hs
  obtain ⟨handler, hperform⟩ := perform_run setup run c name args hs
  have hbegin : Plays limit ⟨experiments, none⟩ st (st.begin s (name :: args) handler)
      (Course.begin limit ⟨experiments, none⟩ s (name :: args) handler) :=
    (Plays.of_trace (Nat.le_of_eq (st.size_modifyScope _ _).symm) rfl).trans
      (.record (.command s (name :: args) handler rfl (.nil _)))
  refine .after hbegin hperform ?_
  have hs₁ := Nat.lt_of_lt_of_le hs hbegin.size_le
  have hdispatch :
    (dispatch ⟨setup, run, s, c, (st.scope s).log.size⟩ name args handler).PursuesFrom limit
      (Course.begin limit ⟨experiments, none⟩ s (name :: args) handler) experiments _
        Completion.target? :=
    dispatch_pursuesFrom ⟨setup, run, s, c, (st.scope s).log.size⟩ hrun hlimit hs₁ name args handler
  cases hr : (dispatch ⟨setup, run, s, c, (st.scope s).log.size⟩ name args handler).run
      (st.begin s (name :: args) handler) with
  | ok result st₁ =>
    cases result with
    | ok completion =>
      obtain ⟨st', hsettle, hst'⟩ :
          ∃ st', settle s (st.scope s).log.size name c.location (.ok completion) st₁ =
            .ok completion st' ∧ _ :=
        settle_ok_run st₁ name c.location completion
      refine .of_ok ((Run.bind_of_ok hr).trans hsettle) ((hdispatch.ends hr).trans ?_)
      rcases hst' with rfl | ⟨value, rfl⟩
      · exact .refl _ st'
      · exact .of_trace (Nat.le_of_eq (st₁.size_modifyScope _ _).symm) rfl
    | error fault =>
      constructor <;> intro _ _ h <;> rw [Run.bind_of_ok hr] at h <;> cases h
      exact hdispatch.fails hr
  | error halt st₁ =>
    constructor <;> intro _ _ h <;> rw [Run.bind_of_error hr] at h <;> cases h
    exact hdispatch.halts hr

theorem carryOut_pursues (c : Script.Command) :
    (carryOut setup run s c).Pursues limit s none Completion.target? := by
  rw [carryOut_eq]
  refine (wordValue_pursues hrun c c.head).bind fun name => ?_
  exact (Run.Pursues.mapM (wordValue_pursues hrun c) c.args).bind fun args =>
    perform_pursues hrun hlimit c name args

theorem carryOutAll_pursues (last : Completion) (hlast : last.target? = none)
    (cs : List Script.Command) :
    (carryOutAll (carryOut setup run s) last cs).Pursues limit s none Completion.target? := by
  induction cs generalizing last with
  | nil => exact .pure hlast
  | cons c rest ih =>
    refine (carryOut_pursues hrun hlimit c).bind fun completion => ?_
    cases completion with
    | normal value => exact ih _ rfl
    | _ => exact .pure rfl

theorem runScript_pursues : (runScript setup run).Pursues limit := by
  intro s script filename line
  unfold runScript
  split
  · exact .halt _ _
  · exact carryOutAll_pursues hrun hlimit _ rfl _

end

theorem runNested_pursues (setup : Setup) (depth : Nat) :
    (runNested setup depth).Pursues setup.limits.jumpLimit.rounds := by
  induction depth with
  | zero => exact fun _ _ _ _ => .throw nofun
  | succ depth ih => exact runScript_pursues ih rfl

theorem Call.block_run (call : Call) {words : List String} (entry : Nat) {p : Procedure}
    (h : (st.scope call.scope).procedure? (words.headD "") = some p) :
    (call.block words entry).run st = (call.procedure p words.tail entry).run st := by
  have hscope : call.getScope.run st = .ok (.ok (st.scope call.scope)) st := rfl
  refine (Act.bind_of_ok hscope).trans ?_
  rw [h]

def State.jumped (st : State) (s : Nat) (words : List String) : State :=
  (st.withEntry s words).record (.jump s words)

/-- An experiment that follows a jump opens a scope from its own one, with the arguments of the
jump, and runs the body of the block there. -/
theorem Cycle.jumps_turn_run (call : Call) (hs : call.scope < st.scopes.size) {words : List String}
    {p : Procedure} {bindings : List (String × String)}
    (hblock : (st.scope call.scope).procedure? (words.headD "") = some p)
    (hbind : p.bind? words.tail = some bindings) :
    ((Cycle.jumps call).turn (.jump words)).run st =
      ((liftM (call.run st.scopes.size p.body p.filename p.line) : Act Completion) >>=
          call.finish st.scopes.size >>= fun c => pure (.inl c)).run
        ((st.jumped call.scope words).openCall call.scope (st.scope call.scope).log.size
          s!"proc {p.name}" bindings) := by
  have hsize : (st.jumped call.scope words).scopes.size = st.scopes.size := st.size_modifyScope _ _
  have hthere : ((st.jumped call.scope words).scope call.scope).procedure? (words.headD "") =
    some p := by
    rw [State.jumped, State.scope_record, State.withEntry, st.scope_modifyScope _ hs]
    exact hblock
  have hcall := (call.block_run (st.scope call.scope).log.size hthere).trans
    (Call.procedure_run call p words.tail _ hbind _)
  rw [hsize] at hcall
  refine (Act.bind_of_ok (Act.lift_of_ok (Run.addEntry_run words hs))).trans ?_
  exact (Act.bind_of_ok rfl).trans (Act.bind_of_eq hcall)

/-- Whatever experiments run, a script that completes with a jump has ended with the `gotoblock`
that asks for it, and before that every jump was followed at once by the innermost experiment. An
experiment follows the jumps out of its script and its blocks, each by a call of the block from its
own scope; it follows as many as its limit says, fails if there is one more, and never completes
with a jump. -/
theorem jumps_are_followed (setup : Setup) (depth : Nat) :
    (runNested setup depth).Pursues setup.limits.jumpLimit.rounds ∧
    ∀ call : Call, call.setup = setup → call.run = runNested setup depth →
      ∀ st, call.scope < st.scopes.size →
        (∀ args experiments,
          (Operator.runExperiment call args).PursuesFrom setup.limits.jumpLimit.rounds
            ⟨⟨call.scope, setup.limits.jumpLimit.rounds⟩ :: experiments, none⟩ experiments st
            fun _ => none) ∧
        (∀ args words st', (Operator.runExperiment call args).run st ≠
          .ok (.ok (.jump words)) st') ∧
        (∀ args, Operator.runExperiment call args =
          Operator.openExperiment call args >>=
            (Cycle.jumps call).run setup.limits.jumpLimit.rounds) ∧
        (∀ n c r, ((Cycle.jumps call).run n c).run st = r ↔ (Cycle.jumps call).Limited n c st r) ∧
        ∀ words p bindings, (st.scope call.scope).procedure? (words.headD "") = some p →
          p.bind? words.tail = some bindings →
          ((Cycle.jumps call).turn (.jump words)).run st =
            ((liftM (call.run st.scopes.size p.body p.filename p.line) : Act Completion) >>=
                call.finish st.scopes.size >>= fun c => pure (.inl c)).run
              ((st.jumped call.scope words).openCall call.scope (st.scope call.scope).log.size
                s!"proc {p.name}" bindings) := by
  refine ⟨runNested_pursues setup depth, fun call hsetup hrun st hs => ?_⟩
  subst hsetup
  have hpursues : call.run.Pursues call.setup.limits.jumpLimit.rounds :=
    hrun ▸ runNested_pursues call.setup depth
  refine ⟨fun args experiments => ?_, fun args words st' h => ?_, Operator.runExperiment_eq call,
    fun n c r => Cycle.run_iff_limited, fun words p bindings => Cycle.jumps_turn_run call hs⟩
  · have hfrom : (Operator.runExperiment call args).PursuesFrom _ _ experiments st _ :=
      Operator.runExperiment_pursuesFrom hpursues rfl hs
    refine ⟨fun h => ?_, hfrom.fails, hfrom.halts⟩
    have hends := hfrom.ends h
    rwa [Operator.runExperiment_answers h] at hends
  · have hnone := Operator.runExperiment_answers h
    cases hnone

def leaping : String := String.intercalate "\n"
  ["block land \x7bwhere\x7d \x7bset x $where\x7d", "if 1 \x7bgotoblock land here\x7d",
    "set x nowhere"]

def leapingSetup : Setup := ⟨.empty, { jumpLimit := 2 }, "eros", "tcl"⟩

def landing : Procedure := ⟨"land", ⟨[⟨"where", none⟩], false⟩, "set x $where", consoleName, 1⟩

/-- An experiment in the root scope. -/
def leapingCall : Call where
  setup := leapingSetup
  run := runNested leapingSetup 4
  scope := 0
  command := ⟨consoleName, ⟨.bare, "runexperiment", 1, 1, 13⟩, [⟨.bare, "leap", 1, 15, 18⟩]⟩
  entry := 0

theorem leaping_follows :
    (∃ st', runNested leapingSetup 4 0 leaping consoleName 1 (State.initial .uhf "32m") =
        .ok (.jump ["land", "here"]) st' ∧
      Plays 2 ⟨[], none⟩ (State.initial .uhf "32m") st' ⟨[], some ["land", "here"]⟩) ∧
    (∀ words st', (Operator.runExperiment leapingCall ["leap"]).run (State.initial .uhf "32m") ≠
      .ok (.ok (.jump words)) st') ∧
    ∃ st : State, (st.scope 0).procedure? "land" = some landing ∧
      ((Cycle.jumps leapingCall).turn (.jump ["land", "here"])).run st =
        ((liftM (leapingCall.run 1 "set x $where" consoleName 1) : Act Completion) >>=
            leapingCall.finish 1 >>= fun c => pure (.inl c)).run
          ((st.jumped 0 ["land", "here"]).openCall 0 0 "proc land" [("where", "here")]) := by
  have hvalue :
    Run.value? (runNested leapingSetup 4 0 leaping consoleName 1 (State.initial .uhf "32m")) =
      some (.jump ["land", "here"]) := by decide +kernel
  obtain ⟨st', h⟩ := Run.exists_of_value? hvalue
  have hjumps := jumps_are_followed leapingSetup 4
  have hroot := hjumps.2 leapingCall rfl rfl (State.initial .uhf "32m") (by decide)
  refine ⟨⟨st', h, (hjumps.1 0 _ _ _ [] _ (by decide)).ends h⟩, hroot.2.1 _, ?_⟩
  let st :=
    (State.initial .uhf "32m").modifyScope 0 fun sc => { sc with procedures := [("land", landing)] }
  have hblock : (st.scope 0).procedure? "land" = some landing := by decide
  exact ⟨st, hblock, (hjumps.2 leapingCall rfl rfl st (by decide)).2.2.2.2 ["land", "here"] landing
    [("where", "here")] hblock (by decide)⟩

end RadarTimeline.Console
