import RadarTimeline.Proofs.Console.Commands

namespace RadarTimeline.Console

variable {s base entry : Nat} {st st' : State} {setup : Setup} {run : Runner}

/-- What becomes of a command that has been carried out. -/
def settle (s entry : Nat) (name : String) (location : Script.Location) :
    Except CommandFault Completion → Run Completion
  | .error fault => Run.halt (.command name fault) location
  | .ok completion => do
    if let some value := completion.value? then
      Run.modifyEntry s entry fun e => { e with result := value }
    return completion

theorem settle_ok_run (st : State) (name : String) (location : Script.Location) (c : Completion) :
    ∃ st', settle s entry name location (.ok c) st = .ok c st' ∧
      (st' = st ∨ ∃ result, st' = st.withEntryChanged s entry fun e => { e with result }) := by
  cases c with
  | normal value | returned value => exact ⟨_, rfl, .inr ⟨value, rfl⟩⟩
  | broken | continued | jump => exact ⟨_, rfl, .inl rfl⟩

theorem settle_ok_follows (hb : base ≤ entry) (name : String) (location : Script.Location)
    (c : Completion) : (settle s entry name location (.ok c)).Follows s base := by
  intro st hw
  obtain ⟨st', hrun, rfl | ⟨result, rfl⟩⟩ := settle_ok_run st name location c
  · exact .of_ok hrun (.nil ..)
  · exact .of_ok hrun (Move.settled hb result).trail

/-- An act that a command of a scope ends in; the trail starts before the command begins. -/
structure Completes (s base : Nat) (st begun : State) (d : Act Completion) : Prop where
  ends : ∀ {c st'}, d.run begun = .ok (.ok c) st' → Trail s base st st'
  fails : ∀ {e st'}, d.run begun = .ok (.error e) st' → Stop s base st st'
  halts : ∀ {halt st'}, d.run begun = .error halt st' → Stop s base st st'

/-- A command follows a trail if its act does. -/
theorem Completes.follows {begun : State} {d : Act Completion} (hd : Completes s base st begun d)
    (hw : Within s base st) (hb : base ≤ entry) {name : String} {location : Script.Location}
    {x : Run Completion} (hx : x st = ((d.run : Run _) >>= settle s entry name location) begun) :
    x.FollowsFrom s base st := by
  cases hr : d.run begun with
  | ok r st₁ =>
    rw [Run.bind_of_ok hr] at hx
    cases r with
    | ok c =>
      have hsettle := settle_ok_follows hb name location c st₁ ((hd.ends hr).within hw)
      exact .after (hd.ends hr) hx hsettle
    | error fault =>
      refine ⟨?_, ?_⟩ <;> intro _ _ h <;> rw [hx] at h <;> cases h
      exact hd.fails hr
  | error halt st₁ =>
    rw [Run.bind_of_error hr] at hx
    refine ⟨?_, ?_⟩ <;> intro _ _ h <;> rw [hx] at h <;> cases h
    exact hd.halts hr

/-- What is done with the words of a command. -/
def perform (setup : Setup) (run : Runner) (s : Nat) (c : Script.Command) (name : String)
    (args : List String) : Run Completion := do
  let entry ← Run.addEntry s (name :: args)
  let handler := (← Run.scope s).handler? name
  Run.record (.command s (name :: args) handler)
  settle s entry name c.location (← (dispatch ⟨setup, run, s, c, entry⟩ name args handler).run)

theorem carryOut_eq (setup : Setup) (run : Runner) (s : Nat) (c : Script.Command) :
    carryOut setup run s c = (do
      let name ← wordValue run s c c.head
      let args ← c.args.mapM (wordValue run s c)
      perform setup run s c name args) := rfl

theorem perform_run (setup : Setup) (run : Runner) (c : Script.Command) (name : String)
    (args : List String) (h : s < st.scopes.size) :
    ∃ handler, perform setup run s c name args st =
      ((dispatch ⟨setup, run, s, c, (st.scope s).log.size⟩ name args handler).run >>=
        settle s (st.scope s).log.size name c.location) (st.begin s (name :: args) handler) := by
  refine ⟨((st.withEntry s (name :: args)).scope s).handler? name, ?_⟩
  exact Run.bind_of_ok (Run.addEntry_run (name :: args) h)

theorem session_begin (h : s < st.scopes.size) (words : List String) (handler : Option Handler) :
    (st.begin s words handler).session s = st.session s := by
  rw [State.session, State.begin, State.scope_record, State.withEntry, st.scope_modifyScope _ h]
  rfl

theorem dispatch_follows {call : Call} (hrun : call.run.Follows) {handler : Option Handler}
    (hload : ∀ o, handler = some (.operator o) → ¬ o.Loads) (hw : Within call.scope base st)
    (hb : base ≤ call.entry) (fresh : st.Fresh call.scope call.entry) (name : String)
    (args : List String) :
    Act.FollowsFrom call.scope base st (dispatch call name args handler) := by
  unfold dispatch
  split
  · exact Builtin.run_follows hrun _ st hw
  · exact Call.procedure_follows hrun hw hb fresh
  · next o => exact Operator.run_follows hrun (hload o rfl) hw hb fresh
  · exact ⟨nofun, nofun, fun h => by cases h; exact .after (.nil ..)⟩

/-- A command that does not load begins, which loads nothing. -/
theorem begin_trail {words : List String} {handler : Option Handler}
    (hload : ∀ o, handler = some (.operator o) → ¬ o.Loads) (h : s < st.scopes.size) :
    Trail s base st (st.begin s words handler) := by
  have hsame : (Event.command s words handler).load (st.session s) = st.session s := by
    unfold Event.load
    split
    · next heq =>
      cases heq
      exact Operator.loaded_of_not_loads _ _ (hload _ rfl)
    · rfl
  have hran : Move s base st _ := .ran words handler
  rw [hsame, ← session_begin h words handler, State.withSession_session] at hran
  exact hran.trail

theorem completes_of_dispatch (call : Call) (hrun : call.run.Follows) {handler : Option Handler}
    (hload : ∀ o, handler = some (.operator o) → ¬ o.Loads) (hw : Within call.scope base st)
    (hentry : call.entry = (st.scope call.scope).log.size) (words : List String) (name : String)
    (args : List String) :
    Completes call.scope base st (st.begin call.scope words handler)
      (dispatch call name args handler) := by
  have hbegin : Trail call.scope base st (st.begin call.scope words handler) :=
    begin_trail hload hw.lt_size
  have hd := dispatch_follows hrun hload (hbegin.within hw) (hentry ▸ hw.le_log)
    (hentry ▸ .withEntry hw.lt_size) name args
  exact ⟨fun h => hbegin.trans (hd.ends h), fun h => hbegin.stop (hd.fails h),
    fun h => hbegin.stop (hd.halts h)⟩

theorem completes_of_loads (call : Call) {o : Operator} (ho : o.Loads)
    (hs : call.scope < st.scopes.size) (name : String) (args : List String) :
    Completes call.scope base st (st.begin call.scope (name :: args) (some (.operator o)))
      (o.run call args) := by
  have hsize :
      call.scope < (st.begin call.scope (name :: args) (some (.operator o))).scopes.size := by
    simpa [State.begin, State.withEntry] using hs
  have halters := Operator.alters_of_loads call args ho hsize
  rw [session_begin hs] at halters
  refine ⟨fun h => ?_, fun h => ?_, fun h => (halters.goesOn h).elim⟩
  · exact .move (.ran (name :: args) (some (.operator o))) (halters.ends h).trail
  · obtain ⟨t, shown, hshown, rfl⟩ := halters.fails h
    exact .spoiled (.nil ..) (name :: args) o t shown hshown

theorem perform_follows (hrun : run.Follows) (c : Script.Command) (name : String)
    (args : List String) :
    (perform setup run s c name args).Follows s base := by
  intro st hw
  obtain ⟨handler, hperform⟩ := perform_run setup run c name args hw.lt_size
  by_cases hload : ∃ o, handler = some (.operator o) ∧ o.Loads
  · obtain ⟨o, rfl, ho⟩ := hload
    have hloads : Completes s base st _ _ :=
      completes_of_loads ⟨setup, run, s, c, (st.scope s).log.size⟩ ho hw.lt_size name args
    exact hloads.follows hw hw.le_log hperform
  · have hnot : ∀ o, handler = some (.operator o) → ¬ o.Loads := fun o h ho => hload ⟨o, h, ho⟩
    have hdispatch : Completes s base st _ _ :=
      completes_of_dispatch ⟨setup, run, s, c, (st.scope s).log.size⟩ hrun hnot hw rfl (name ::
        args) name args
    exact hdispatch.follows hw hw.le_log hperform

theorem carryOut_follows (hrun : run.Follows) (c : Script.Command) :
    (carryOut setup run s c).Follows s base := by
  rw [carryOut_eq]
  refine (wordValue_follows hrun c c.head).bind fun name => ?_
  exact (Run.Follows.mapM (wordValue_follows hrun c) c.args).bind fun args =>
    perform_follows hrun c name args

theorem carryOutAll_follows {command : Script.Command → Run Completion}
    (h : ∀ c, (command c).Follows s base) (last : Completion) (cs : List Script.Command) :
    (carryOutAll command last cs).Follows s base := by
  induction cs generalizing last with
  | nil => exact .pure last
  | cons c rest ih =>
    refine (h c).bind fun completion => ?_
    split
    · exact ih _
    · exact .pure _

theorem runScript_follows (hrun : run.Follows) : (runScript setup run).Follows := by
  intro s base script filename line
  unfold runScript
  split
  · exact .halt _ _
  · exact carryOutAll_follows (carryOut_follows hrun) _ _

theorem runNested_follows (setup : Setup) (depth : Nat) : (runNested setup depth).Follows := by
  induction depth with
  | zero => exact fun _ _ _ _ _ => .throw .tooDeep
  | succ depth ih => exact runScript_follows ih

end RadarTimeline.Console
